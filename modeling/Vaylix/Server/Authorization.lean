import Vaylix.Auth.Identity
import Vaylix.Server.EngineWorker

/-!
# Which commands a session may send

A command needs a permission, for every key it names or as a whole. A scan needs a
grant that covers its pattern; it then stays among the readable keys as long as the
patterns of the grants mean the same to both sides.
-/

namespace Vaylix

structure SessionState where
  identity : Option Identity
  transactionQueue : List Command
  transactionStartedAtMs : Option Nat
deriving DecidableEq

namespace Command

def isAllowedDuringMaintenance : Command → Bool
  | .ping _ | .get _ | .exists _ | .getEx _ _ _ | .mGet _ | .ttl _ | .scan _ _ _ | .dbSize | .count
  | .list | .info | .metrics | .metricsProm | .backup | .backupVerify _ | .backupVerifyFrom _
  | .showUsers | .showRoles | .showGrants | .showGrantsForUser _ | .showGrantsForRole _ | .whoAmI
  | .maintenanceStatus | .maintenanceOff | .health | .showReplication => true
  | _ => false

def permission : Command → Option Permission
  | .ping _ | .auth _ _ | .multi | .exec | .discard | .maintenanceStatus | .health | .whoAmI => none
  | .get _ | .exists _ | .mGet _ | .ttl _ | .scan _ _ _ | .dbSize | .count | .list => some .read
  | .clear => some .clear
  | .getDel _ | .getEx _ _ _ | .set _ _ _ | .setNx _ _ | .mSet _ | .delete _ | .incr _ | .decr _
  | .expire _ _ | .persist _ | .rename _ _ | .renameNx _ _ => some .write
  | .info | .metrics | .metricsProm => some .metrics
  | .save | .snapshot => some .snapshot
  | .backup | .backupTo _ | .backupVerify _ | .backupVerifyFrom _ => some .backup
  | .restore _ | .restoreFrom _ | .restoreCheck _ | .restoreCheckFrom _ => some .restore
  | .createUser _ _ | .alterUserPassword _ _ | .dropUser _ => some .userAdmin
  | .createRole _ | .dropRole _ | .grantRole _ _ | .revokeRole _ _ | .grantPermission _ _ _
  | .revokePermission _ _ _ | .showRoles => some .roleAdmin
  | .showGrants => none
  | .showGrantsForUser _ => some .userAdmin
  | .showGrantsForRole _ => some .roleAdmin
  | .showUsers => some .userAdmin
  | .maintenanceOn | .maintenanceOff => some .admin
  | .showReplication | .showCluster | .promoteFollower | .pauseReplication | .resumeReplication
  | .clusterJoin _ _ | .clusterRemove _ => some .admin
  | .help | .exit => none

def keys : Command → List Key
  | .get key | .getDel key | .getEx key _ _ | .set key _ _ | .setNx key _ | .exists key | .incr key
  | .decr key | .expire key _ | .ttl key | .persist key => [key]
  | .mGet keys | .delete keys => keys
  | .mSet entries => entries.map Prod.fst
  | .rename source destination | .renameNx source destination => [source, destination]
  | _ => []

def pattern : Command → Option String
  | .scan _ pattern _ => some (pattern.getD "*")
  | _ => none

end Command

def authorizeCommand (command : Command) (session : SessionState) : Except ServerError Unit :=
  match command.permission with
  | none => .ok ()
  | some permission =>
    match session.identity with
    | none => .error .authenticationRequired
    | some identity =>
      let keys := command.keys
      if keys.isEmpty then
        match command.pattern with
        | some pattern =>
          if identity.allowsPattern permission pattern then .ok () else .error .permissionDenied
        | none => if identity.has permission then .ok () else .error .permissionDenied
      else if keys.all fun key => identity.allowsKey permission key then .ok ()
      else .error .permissionDenied

namespace Auth

open Glob

/-- A pattern without `?` and without a second star. -/
def Plain (pattern : String) : Prop :=
  '?' ∉ pattern.toList ∧ pattern.toList.count '*' ≤ 1

theorem matches_runs {pattern : List (Glyph Char)} {text : List Char}
    (matched : Matches (pattern ++ [.run]) text) (n : Nat) :
    Matches (pattern ++ List.replicate (n + 1) .run) text := by
  induction n with
  | zero => exact matched
  | succ n ih =>
    rw [List.replicate_succ', ← List.append_assoc]
    exact matches_concat_run.mpr ⟨text, List.prefix_rfl, ih⟩

theorem exists_rdropWhile_append (chars : List Char) :
    ∃ n, chars = chars.rdropWhile (fun char => decide (char = '*')) ++ List.replicate n '*' := by
  induction chars using List.reverseRecOn with
  | nil => exact ⟨0, rfl⟩
  | append_singleton front char ih =>
    by_cases star : char = '*'
    · obtain ⟨n, split⟩ := ih
      subst star
      refine ⟨n + 1, ?_⟩
      rw [List.rdropWhile_concat_pos _ _ _ (by decide), List.replicate_succ', ← List.append_assoc,
        ← split]
    · refine ⟨0, ?_⟩
      rw [List.rdropWhile_concat_neg _ _ _ (by simpa using star), List.replicate_zero,
        List.append_nil]

theorem matches_of_patternCovers {grant requested : String} {text : List Char}
    (covers : patternCovers grant requested = true)
    (matched : Matches (glyphs requested) text) : Matches (glyphs grant) text := by
  simp only [patternCovers, Bool.or_eq_true, Bool.and_eq_true, decide_eq_true_iff,
    List.isPrefixOf_iff_prefix] at covers
  obtain (rfl | rfl) | ⟨⟨-, final⟩, rest, whole⟩ := covers
  · simpa [glyphs] using Matches.run text .nil
  · exact matched
  obtain ⟨front, chars⟩ := List.getLast?_eq_some_iff.mp final
  rw [chars, List.rdropWhile_concat_pos _ _ _ (by decide)] at whole
  obtain ⟨n, split⟩ := exists_rdropWhile_append front
  rw [glyphs, ← whole, List.map_append] at matched
  obtain ⟨first, second, rfl, begins, -⟩ := matches_append.mp matched
  have longer :=
    matches_runs (matches_concat_run.mpr ⟨first, List.prefix_append first second, begins⟩) n
  rw [glyphs, chars, split, List.append_assoc, ← List.replicate_succ', List.map_append,
    List.map_replicate]
  exact longer

theorem wildcardMatches_of_matches {pattern key : String} (plain : Plain pattern)
    (matched : Matches (glyphs pattern) key.toList) : wildcardMatches pattern key = true := by
  obtain ⟨question, stars⟩ := plain
  rcases split_at_star pattern.toList with star | ⟨front, back, split, first⟩
  · rw [glyphs, map_glyph_eq star question, matches_literals, String.toList_inj] at matched
    exact (wildcardMatches_of_plain star key).mpr matched
  · have last : '*' ∉ back := by
      rw [split, List.count_append, List.count_cons_self] at stars
      exact List.count_eq_zero.mp (by omega)
    rw [split] at question
    rw [glyphs, split, matches_of_one_star first last question] at matched
    obtain ⟨middle, whole⟩ := matched
    refine (wildcardMatches_of_star split first key).mpr ?_
    rw [whole]
    exact ⟨⟨middle ++ back, (List.append_assoc ..).symm⟩, List.suffix_append _ _⟩

theorem plain_of_wildcardMatches {pattern : String}
    (allowed : wildcardMatches pattern (String.ofList (shortest 'x' (glyphs pattern))) = true) :
    Plain pattern := by
  have noStar := notMem_shortest (.inl rfl) pattern.toList
  have noQuestion := notMem_shortest (.inr rfl) pattern.toList
  rcases split_at_star pattern.toList with star | ⟨front, back, split, first⟩
  · have same := congrArg String.toList ((wildcardMatches_of_plain star _).mp allowed)
    rw [String.toList_ofList] at same
    exact ⟨same ▸ noQuestion, by rw [List.count_eq_zero.mpr star]; omega⟩
  · obtain ⟨begins, ends⟩ := (wildcardMatches_of_star split first _).mp allowed
    rw [String.toList_ofList] at begins ends
    refine ⟨?_, ?_⟩
    · rw [split, List.mem_append, List.mem_cons]
      rintro (here | here | here)
      · exact noQuestion (begins.subset here)
      · cases here
      · exact noQuestion (ends.subset here)
    · have last : '*' ∉ back := fun member => noStar (ends.subset member)
      rw [split, List.count_append, List.count_cons_self, List.count_eq_zero.mpr first,
        List.count_eq_zero.mpr last]

end Auth

/-- Every key of a permitted scan may be read. -/
def Identity.ScanConfined (identity : Identity) : Prop :=
  ∀ session cursor pattern count key, session.identity = some identity →
    authorizeCommand (.scan cursor pattern count) session = .ok () →
    (∀ requested, pattern = some requested → wildcardMatches requested key = true) →
      identity.allowsKey .read key = true

theorem authorize_scan_iff {session : SessionState} {identity : Identity} {cursor : Nat}
    {pattern : Option String} {count : Option Nat} (known : session.identity = some identity) :
    authorizeCommand (.scan cursor pattern count) session = .ok () ↔
      identity.allowsPattern .read (pattern.getD "*") = true := by
  simp [authorizeCommand, Command.permission, Command.keys, Command.pattern, known]

theorem scanConfined_of_plain {identity : Identity} (ordinary : .admin ∉ identity.permissions)
    (plain : ∀ grant ∈ identity.grants, grant.permission = .read → Auth.Plain grant.pattern) :
    identity.ScanConfined := by
  intro session cursor pattern count key known accepted scanned
  rw [authorize_scan_iff known, Identity.allowsPattern_iff ordinary] at accepted
  obtain ⟨grant, member, reads, covers⟩ := accepted
  refine (Identity.allowsKey_iff ordinary).mpr ⟨grant, member, reads, ?_⟩
  refine Auth.wildcardMatches_of_matches (plain grant member reads)
    (Auth.matches_of_patternCovers covers ?_)
  cases pattern with
  | none => simpa [glyphs] using Glob.Matches.run key.toList .nil
  | some requested => exact (wildcardMatches_iff requested key).mp (scanned requested rfl)

def Identity.reader (pattern : String) : Identity := ⟨"reader", ∅, {⟨.read, pattern⟩}⟩

theorem plain_of_scanConfined {pattern : String}
    (confined : (Identity.reader pattern).ScanConfined) : Auth.Plain pattern := by
  refine Auth.plain_of_wildcardMatches ?_
  have ordinary : .admin ∉ (Identity.reader pattern).permissions := by simp [Identity.reader]
  have allowed := confined ⟨some (.reader pattern), [], none⟩ 0 (some pattern) none
    (String.ofList (Glob.shortest 'x' (glyphs pattern))) rfl
    ((authorize_scan_iff rfl).mpr (by
      simp [Identity.allowsPattern, Identity.reader, Auth.patternCovers])) (by
      rintro _ ⟨⟩
      rw [wildcardMatches_iff, String.toList_ofList]
      exact Glob.matches_shortest 'x' _)
  rw [Identity.allowsKey_iff ordinary] at allowed
  obtain ⟨grant, member, -, matched⟩ := allowed
  obtain rfl := Finset.mem_singleton.mp member
  exact matched

/-- **Scans stay inside the granted patterns** exactly when these patterns are plain. -/
theorem scan_confined_iff_plain (patterns : Finset String) :
    (∀ identity : Identity, .admin ∉ identity.permissions →
        (∀ grant ∈ identity.grants, grant.permission = .read → grant.pattern ∈ patterns) →
          identity.ScanConfined) ↔
      ∀ pattern ∈ patterns, Auth.Plain pattern := by
  constructor
  · intro confined pattern member
    refine plain_of_scanConfined (confined (.reader pattern) (by simp [Identity.reader]) ?_)
    intro grant granted _
    obtain rfl := Finset.mem_singleton.mp granted
    exact member
  · intro plain identity ordinary granted
    exact scanConfined_of_plain ordinary fun grant member reads =>
      plain _ (granted grant member reads)

/-- A scan with the granted pattern itself answers a key that may not be read. -/
theorem scan_leaves_grant :
    authorizeCommand (.scan 0 (some "user:?") none) ⟨some (.reader "user:?"), [], none⟩ = .ok () ∧
      wildcardMatches "user:?" "user:1" = true ∧
      (Identity.reader "user:?").allowsKey .read "user:1" = false := by
  decide

end Vaylix

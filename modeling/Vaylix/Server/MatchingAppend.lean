import Mathlib.Data.List.TakeWhile
import Vaylix.Engine.LogGrowth
import Vaylix.Server.AppendHandler

/-!
# Requests that only repeat what a follower has

A request matches when its previous entry and all its carried entries are those of
the follower. The follower then keeps its log exactly when the request covers the
whole of it, or when the engine refuses to cut.
-/

namespace Vaylix

open NumberedLog

namespace AppendEntriesRequest

/-- The highest sequence a request speaks about. -/
def coveredSequence (request : AppendEntriesRequest) : Nat :=
  ((request.entries.map WalEntry.sequence).max?).getD request.prevSequence

/-- The sequence behind which the handler cuts a log that has all carried entries. -/
def cutSequence (request : AppendEntriesRequest) : Nat :=
  (request.entries.getLast?.map WalEntry.sequence).getD request.prevSequence

end AppendEntriesRequest

namespace Engine

variable [Codec]

/-- The validations of `replace_replication_suffix` pass, and the log up to `covered` replays over
the snapshot. -/
structure CutPossible (engine : Engine) (nowMs sequence covered : Nat) (entries : List WalEntry) :
    Prop where
  baseline : checkBaseline (engine.snapshotBaseline nowMs).metadata.lastAppliedSequence sequence =
    .ok ()
  retained : checkPrefix (engine.snapshotBaseline nowMs).metadata.lastAppliedSequence sequence
    (engine.logUpTo sequence) = .ok ()
  continues : ∃ replacement,
    replacementAfter (engine.snapshotBaseline nowMs).metadata.lastAppliedSequence sequence
      (engine.logUpTo sequence) entries [] = .ok replacement ∧
    checkReplacement (sequence + 1) replacement = .ok ()
  replays : ∃ rebuilt,
    (engine.snapshotBaseline nowMs).replayEntries (engine.logUpTo covered) = .ok rebuilt

variable {engine : Engine} {covered : Nat} {entries : List WalEntry}

theorem logUpTo_append_of_members (logged : engine.Logged) {baseline sequence : Nat}
    {retained replacement : List WalEntry} (members : ∀ entry ∈ entries, entry ∈ engine.walEntries)
    (highest : ∀ entry ∈ entries, entry.sequence ≤ covered)
    (reached : covered = sequence ∨ ∃ entry ∈ entries, sequence < covered ∧
      entry.sequence = covered)
    (selected : replacementAfter baseline sequence retained entries [] = .ok replacement)
    (continues : From WalEntry.sequence (sequence + 1) replacement) :
    engine.logUpTo sequence ++ replacement = engine.logUpTo covered := by
  obtain ⟨first, -, numbered, -⟩ := logged.numbered
  obtain ⟨sublist, covers⟩ := replacementAfter_keeps selected
  have inside : ∀ entry ∈ replacement, entry ∈ entries := by
    obtain ⟨kept, rfl, ordered⟩ := sublist
    exact fun entry member => ordered.mem member
  have above : covered ≤ sequence + replacement.length := by
    rcases reached with rfl | ⟨entry, member, after, rfl⟩
    · omega
    · obtain ⟨kept, found, same, -⟩ := covers entry member after
      have := continues.mem_bounds found
      omega
  have below : sequence + replacement.length ≤ covered := by
    cases final : replacement.getLast? with
    | none =>
      obtain rfl := List.getLast?_eq_none_iff.mp final
      rcases reached with rfl | ⟨-, -, after, -⟩
      · simp
      · simpa using after.le
    | some last =>
      have ends := continues.getLast?_number final
      have := highest last (inside last (List.mem_of_getLast? final))
      omega
  have moved := numbered.filter_le_append continues fun entry member =>
    members entry (inside entry member)
  rw [Nat.le_antisymm below above] at moved
  exact moved

/-- **A replacement by entries of the log** cuts it at the highest of them, or is refused. -/
theorem replaceReplicationSuffix_of_members (logged : engine.Logged) (nowMs : Nat) {sequence : Nat}
    (members : ∀ entry ∈ entries, entry ∈ engine.walEntries)
    (highest : ∀ entry ∈ entries, entry.sequence ≤ covered)
    (reached : covered = sequence ∨ ∃ entry ∈ entries, sequence < covered ∧
      entry.sequence = covered) :
    (engine.CutPossible nowMs sequence covered entries ∧
      ∃ next applied, engine.replaceReplicationSuffix nowMs sequence entries =
        .ok (next, applied) ∧ next.walEntries = engine.logUpTo covered) ∨
    (¬ engine.CutPossible nowMs sequence covered entries ∧
      ∃ err, engine.replaceReplicationSuffix nowMs sequence entries = .error err) := by
  cases done : engine.replaceReplicationSuffix nowMs sequence entries with
  | ok result =>
    obtain ⟨next, applied⟩ := result
    obtain ⟨replacement, replaced, checked, -⟩ := suffixReplaced_of_ok logged.numbered done
    have moved := logUpTo_append_of_members logged members highest reached checked.selected
      checked.continues
    refine .inl ⟨⟨checked.baseline, checked.retained, ⟨replacement, checked.selected,
      checkReplacement_eq_ok.mpr checked.continues⟩, ?_⟩, next, applied, rfl, ?_⟩
    · rw [← moved]
      exact checked.replays
    · rw [← moved]
      exact replaced.log
  | error err =>
    refine .inr ⟨?_, err, rfl⟩
    intro possible
    obtain ⟨replacement, selected, continues⟩ := possible.continues
    have continuing := checkReplacement_eq_ok.mp continues
    have moved := logUpTo_append_of_members logged members highest reached selected continuing
    have checked : engine.ReplacementChecked nowMs sequence entries replacement :=
      ⟨possible.baseline, possible.retained, selected, continuing, moved ▸ possible.replays⟩
    obtain ⟨next, succeeded, -⟩ := checked.replaced logged.numbered
    rw [done] at succeeded
    cases succeeded

theorem findOverlap_of_members (logged : engine.Logged)
    (members : ∀ entry ∈ entries, entry ∈ engine.walEntries) (sequence : Nat) :
    engine.findOverlap sequence entries =
      .matched ((entries.getLast?.map WalEntry.sequence).getD sequence) := by
  induction entries generalizing sequence with
  | nil => rfl
  | cons entry rest ih =>
    have here := members entry List.mem_cons_self
    have inside := (logged.sequence_bounds here).2
    obtain ⟨term, checksum⟩ := logged.identity_of_member here
    unfold findOverlap
    rw [if_neg (Nat.not_lt.mpr inside), if_neg (by simp [term, checksum]),
      ih (List.forall_mem_cons.mp members).2]
    cases rest with
    | nil => rfl
    | cons next rest =>
      rfl

end Engine

namespace AppendEntriesRequest

variable {request : AppendEntriesRequest}

theorem sequence_le_covered {entry : WalEntry} (member : entry ∈ request.entries) :
    entry.sequence ≤ request.coveredSequence := by
  have mapped := List.mem_map_of_mem (f := WalEntry.sequence) member
  cases highest : (request.entries.map WalEntry.sequence).max? with
  | none =>
    rw [List.max?_eq_none_iff.mp highest] at mapped
    cases mapped
  | some covered =>
    rw [coveredSequence, highest]
    exact (List.max?_eq_some_iff.mp highest).2 _ mapped

theorem cut_le_covered (request : AppendEntriesRequest) :
    request.cutSequence ≤ request.coveredSequence := by
  unfold cutSequence
  cases final : request.entries.getLast? with
  | none =>
    rw [coveredSequence, List.getLast?_eq_none_iff.mp final]
    exact Nat.le_refl _
  | some last => exact sequence_le_covered (List.mem_of_getLast? final)

theorem covered_reached : request.coveredSequence = request.cutSequence ∨
    ∃ entry ∈ replacementEntriesAfter request.cutSequence request.entries,
      request.cutSequence < request.coveredSequence ∧
        entry.sequence = request.coveredSequence := by
  rcases Nat.eq_or_lt_of_le (cut_le_covered request) with same | below
  · exact .inl same.symm
  · right
    cases highest : (request.entries.map WalEntry.sequence).max? with
    | none =>
      have empty := List.map_eq_nil_iff.mp (List.max?_eq_none_iff.mp highest)
      rw [cutSequence, coveredSequence, empty] at below
      exact absurd below (Nat.lt_irrefl _)
    | some covered =>
      have named : request.coveredSequence = covered := by rw [coveredSequence, highest]; rfl
      obtain ⟨entry, member, same⟩ := List.mem_map.mp (List.max?_eq_some_iff.mp highest).1
      refine ⟨entry, List.mem_filter.mpr ⟨member, ?_⟩, below, same.trans named.symm⟩
      rw [same, ← named]
      exact decide_eq_true below

end AppendEntriesRequest

namespace Engine

variable [Codec]

variable {engine : Engine} {request : AppendEntriesRequest}

theorem acceptEntries_of_members (logged : engine.Logged) (nowMs : Nat)
    (members : ∀ entry ∈ request.entries, entry ∈ engine.walEntries) :
    (engine.lastAppliedSequence ≤ request.cutSequence ∧
      ∃ applied, engine.acceptEntries nowMs request.prevSequence request.entries =
        .ok (engine, applied)) ∨
    engine.acceptEntries nowMs request.prevSequence request.entries =
      engine.replaceReplicationSuffix nowMs request.cutSequence
        (replacementEntriesAfter request.cutSequence request.entries) := by
  unfold acceptEntries
  split
  · rename_i empty
    have none := List.isEmpty_iff.mp empty
    have cut : request.cutSequence = request.prevSequence := by
      rw [AppendEntriesRequest.cutSequence, none]
      rfl
    rw [none, cut]
    split
    · exact .inr rfl
    · rename_i short
      exact .inl ⟨Nat.not_lt.mp short, _, rfl⟩
  · have overlap : engine.findOverlap request.prevSequence request.entries =
        .matched request.cutSequence := findOverlap_of_members logged members request.prevSequence
    rw [overlap]
    dsimp only
    cases suffix : request.entries.dropWhile fun entry =>
        decide (entry.sequence < request.cutSequence + 1) with
    | nil =>
      have nothing : replacementEntriesAfter request.cutSequence request.entries = [] := by
        refine List.filter_eq_nil_iff.mpr ?_
        intro entry member
        have below := List.dropWhile_eq_nil_iff.mp suffix entry member
        simp only [decide_eq_true_eq] at below ⊢
        omega
      rw [nothing]
      dsimp only
      split
      · exact .inr rfl
      · rename_i short
        exact .inl ⟨Nat.not_lt.mp short, _, rfl⟩
    | cons first rest =>
      -- Every carried entry lies inside the log, so none continues it.
      have member : first ∈ request.entries :=
        (List.dropWhile_sublist _).subset (suffix ▸ List.mem_cons_self)
      have inside := (logged.sequence_bounds (members first member)).2
      have same : replacementEntriesAfter request.cutSequence (first :: rest) =
          replacementEntriesAfter request.cutSequence request.entries := by
        have skipped : replacementEntriesAfter request.cutSequence (request.entries.takeWhile
            fun entry => decide (entry.sequence < request.cutSequence + 1)) = [] := by
          refine List.filter_eq_nil_iff.mpr ?_
          intro entry early
          have below := List.mem_takeWhile_imp early
          simp only [decide_eq_true_eq] at below ⊢
          omega
        rw [← suffix, ← List.nil_append (replacementEntriesAfter _ (List.dropWhile _ _)), ← skipped,
          replacementEntriesAfter, replacementEntriesAfter, ← List.filter_append,
          List.takeWhile_append_dropWhile]
        rfl
      dsimp only
      rw [if_pos (by omega), same]
      exact .inr rfl

/-- **What a matching request leaves of the log**: the part it covers, or all if the cut is
refused. -/
theorem acceptEntries_log (logged : engine.Logged) (nowMs : Nat)
    (members : ∀ entry ∈ request.entries, entry ∈ engine.walEntries) :
    (∃ next applied, engine.acceptEntries nowMs request.prevSequence request.entries =
      .ok (next, applied) ∧ next.walEntries = engine.logUpTo request.coveredSequence ∧
        (engine.lastAppliedSequence ≤ request.coveredSequence ∨
          engine.CutPossible nowMs request.cutSequence request.coveredSequence
            (replacementEntriesAfter request.cutSequence request.entries))) ∨
    (∃ err, engine.acceptEntries nowMs request.prevSequence request.entries = .error err ∧
      ¬ engine.CutPossible nowMs request.cutSequence request.coveredSequence
        (replacementEntriesAfter request.cutSequence request.entries)) := by
  have carried : ∀ entry ∈ replacementEntriesAfter request.cutSequence request.entries,
      entry ∈ request.entries := fun entry member => (List.mem_filter.mp member).1
  rcases acceptEntries_of_members logged nowMs members with ⟨covers, applied, done⟩ | done
  · have within := Nat.le_trans covers request.cut_le_covered
    exact .inl ⟨engine, applied, done, (logged.logUpTo_eq_self within).symm, .inl within⟩
  · rw [done]
    rcases replaceReplicationSuffix_of_members logged nowMs
        (fun entry member => members entry (carried entry member))
        (fun entry member => AppendEntriesRequest.sequence_le_covered (carried entry member))
        AppendEntriesRequest.covered_reached with
      ⟨possible, next, applied, replaced, log⟩ | ⟨impossible, err, refused⟩
    · exact .inl ⟨next, applied, replaced, log, .inr possible⟩
    · exact .inr ⟨err, refused, impossible⟩

end Engine

namespace Node

variable [Codec]

omit [Codec] in
theorem noteFrontier_eq (node : Node) (request : AppendEntriesRequest) :
    ∃ target phase, node.noteFrontier request = { node with
      replication := { node.replication with
        leaderTargetSequence := target, followerPhase := phase } } := by
  unfold noteFrontier withPhase ReplicationState.noteLeaderFrontier
  dsimp only
  split <;> split <;> exact ⟨_, _, rfl⟩

omit [Codec] in
@[simp] theorem noteFrontier_engine (node : Node) (request : AppendEntriesRequest) :
    (node.noteFrontier request).engine = node.engine := by
  obtain ⟨target, phase, noted⟩ := node.noteFrontier_eq request
  rw [noted]

/-- The node after an accepted request, whether or not the index could follow. -/
theorem acceptedAppend_eq (node : Node) (request : AppendEntriesRequest) (term : Nat)
    (engine : Engine) (applied : Nat) :
    ∃ phase index, (node.acceptedAppend request term engine applied).1 = { node with
      replication := { (node.replication.publish node.config
          (engine.appliedStateForSequence applied)).observeLeaderCommit request.commitSequence with
        followerPhase := phase }
      engine := engine
      readIndex := index } := by
  unfold acceptedAppend withPhase
  dsimp only
  split
  · exact ⟨_, _, rfl⟩
  · split <;> exact ⟨_, _, rfl⟩

@[simp] theorem acceptedAppend_engine (node : Node) (request : AppendEntriesRequest) (term : Nat)
    (engine : Engine) (applied : Nat) :
    (node.acceptedAppend request term engine applied).1.engine = engine := by
  obtain ⟨phase, index, accepted⟩ := node.acceptedAppend_eq request term engine applied
  rw [accepted]

theorem handleAppend_engine (node : Node) (nowMs : Nat) {request : AppendEntriesRequest}
    (accepted : (node.replication.handleHeartbeat request.heartbeat).answer.accepted = true)
    (prevTerm : node.engine.walEntryTerm request.prevSequence = request.prevTerm)
    (prevChecksum : node.engine.walEntryChecksum request.prevSequence = request.prevEntryChecksum) :
    (node.handleAppend nowMs request).1.engine =
      if request.entries.isEmpty ∧ node.engine.lastAppliedSequence < request.prevSequence then
        node.engine
      else match node.engine.acceptEntries nowMs request.prevSequence request.entries with
        | .error _ => node.engine
        | .ok (engine, _) => engine := by
  have current : ¬ request.term < node.replication.currentTerm := by
    intro older
    unfold ReplicationState.handleHeartbeat at accepted
    split at accepted
    · cases accepted
    · rw [if_pos (show request.heartbeat.term < node.replication.currentTerm from older)]
        at accepted
      cases accepted
  unfold handleAppend
  rw [if_neg current]
  simp only [accepted, Bool.not_true, Bool.false_eq_true, if_false, prevTerm, prevChecksum,
    ne_eq, not_true_eq_false, or_self]
  split
  · exact noteFrontier_engine _ _
  · cases node.engine.acceptEntries nowMs request.prevSequence request.entries with
    | error err => exact noteFrontier_engine _ _
    | ok result => exact acceptedAppend_engine _ _ _ _ _

/-- **A matching append keeps the log exactly when it covers it**, or when the engine
refuses to cut it. -/
theorem matching_append_keeps_log_iff (follower : Node) (nowMs : Nat)
    (request : AppendEntriesRequest) (logged : follower.engine.Logged)
    (accepted : (follower.replication.handleHeartbeat request.heartbeat).answer.accepted = true)
    (prevTerm : follower.engine.walEntryTerm request.prevSequence = request.prevTerm)
    (prevChecksum :
      follower.engine.walEntryChecksum request.prevSequence = request.prevEntryChecksum)
    (matching : ∀ entry ∈ request.entries,
      entryAt follower.engine.walEntries entry.sequence = some entry) :
    (∀ sequence entry, entryAt follower.engine.walEntries sequence = some entry →
      entryAt (follower.handleAppend nowMs request).1.engine.walEntries sequence = some entry) ↔
    (∀ entry ∈ follower.engine.walEntries, entry.sequence ≤ request.coveredSequence) ∨
      ¬ follower.engine.CutPossible nowMs request.cutSequence request.coveredSequence
        (replacementEntriesAfter request.cutSequence request.entries) := by
  have members : ∀ entry ∈ request.entries, entry ∈ follower.engine.walEntries :=
    fun entry member => (logged.entryAt_eq_some_iff.mp (matching entry member)).1
  rw [handleAppend_engine follower nowMs accepted prevTerm prevChecksum]
  split
  · rename_i refused
    obtain ⟨empty, short⟩ := refused
    have covered : request.coveredSequence = request.prevSequence := by
      rw [AppendEntriesRequest.coveredSequence, List.isEmpty_iff.mp empty]
      rfl
    refine ⟨fun _ => .inl fun entry member => ?_, fun _ _ _ found => found⟩
    have := (logged.sequence_bounds member).2
    omega
  · rcases follower.engine.acceptEntries_log logged nowMs members with
      ⟨next, applied, done, log, cause⟩ | ⟨err, done, impossible⟩
    · rw [done]
      rw [log]
      constructor
      · intro kept
        left
        intro entry member
        have found := kept _ entry (logged.entryAt_eq_some_iff.mpr ⟨member, rfl⟩)
        simpa using (List.mem_filter.mp (List.mem_of_find?_eq_some found)).2
      · intro spared
        have whole : follower.engine.logUpTo request.coveredSequence =
            follower.engine.walEntries := by
          rcases spared with within | impossible
          · exact List.filter_eq_self.mpr fun entry member => decide_eq_true (within entry member)
          · exact logged.logUpTo_eq_self (cause.resolve_right impossible)
        rw [whole]
        exact fun _ _ found => found
    · rw [done]
      exact ⟨fun _ => .inr impossible, fun _ _ _ found => found⟩

end Node

section Samples

open Sample

def twoVoters : List ClusterMember := [⟨"a", "a:1", true⟩, ⟨"b", "b:1", true⟩]

def secondVoter : ReplicationConfig := ⟨"b", some "b:1", .follower, .replica, 1, twoVoters⟩

def threeEntries : List WalEntry :=
  [⟨1, 1, 0, [.set "x" [49] 1]⟩, ⟨2, 1, 0, [.set "y" [50] 1]⟩, ⟨3, 1, 0, [.set "z" [51] 1]⟩]

def longFollower : Node where
  config := secondVoter
  replication := ReplicationState.new secondVoter none
  persisted := none
  engine := match (Engine.create ⟨0, 0⟩ 0).applyReplicationEntries threeEntries with
    | .ok (engine, _) => engine
    | .error _ => Engine.create ⟨0, 0⟩ 0
  readIndex := CommittedReadIndex.new

def requestWith (entries : List WalEntry) : AppendEntriesRequest :=
  ⟨2, "a", "a:1", 0, 3, 0, none, none, entries, twoVoters⟩

theorem longFollower_logged : longFollower.engine.Logged := by
  have created : (Engine.create ⟨0, 0⟩ 0).Logged :=
    ⟨⟨1, Nat.one_pos, trivial, rfl⟩, fun _ => rfl⟩
  unfold longFollower
  split
  · rename_i engine applied done
    exact (Engine.suffixReplaced_of_applied created done).1.logged
  · exact created

/-- A duplicate of all three entries leaves the last one in place. -/
theorem matching_append_keeps_log_whole :
    entryAt (longFollower.handleAppend 0 (requestWith threeEntries)).1.engine.walEntries 3 =
      some ⟨3, 1, 0, [.set "z" [51] 1]⟩ :=
  (longFollower.matching_append_keeps_log_iff 0 (requestWith threeEntries) longFollower_logged
    (by decide +kernel) (by decide +kernel) (by decide +kernel) (by decide +kernel)).mpr
    (.inl (by decide +kernel)) 3 _ (by decide +kernel)

/-- The first batch of a new leader matches, and cuts the rest off. -/
theorem first_batch_truncates_longer_log :
    (longFollower.replication.handleHeartbeat
      (requestWith (threeEntries.take 1)).heartbeat).answer.accepted = true ∧
    longFollower.engine.walEntryTerm 0 = (requestWith (threeEntries.take 1)).prevTerm ∧
    longFollower.engine.walEntryChecksum 0 =
      (requestWith (threeEntries.take 1)).prevEntryChecksum ∧
    (∀ entry ∈ (requestWith (threeEntries.take 1)).entries,
      entryAt longFollower.engine.walEntries entry.sequence = some entry) ∧
    ∃ entry, entryAt longFollower.engine.walEntries 3 = some entry ∧
      entryAt (longFollower.handleAppend 0
        (requestWith (threeEntries.take 1))).1.engine.walEntries 3 = none := by
  refine ⟨by decide +kernel, by decide +kernel, by decide +kernel, by decide +kernel,
    ⟨3, 1, 0, [.set "z" [51] 1]⟩, by decide +kernel, by decide +kernel⟩

end Samples

end Vaylix

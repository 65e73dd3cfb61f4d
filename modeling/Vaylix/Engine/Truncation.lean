import Vaylix.Engine.Recovery
import Vaylix.Engine.Segments

/-!
# Replicated entries and replaced suffixes

A follower appends entries, or keeps its log up to a sequence, puts others after it and
rebuilds the keyspace. Both keep the log consecutive and its index exact, or change nothing.
-/

namespace Vaylix

open NumberedLog

namespace Engine

variable [Codec]

/-- The log is consecutive from a positive sequence up to the applied position. -/
def Consecutive (engine : Engine) : Prop :=
  ∃ first, 0 < first ∧ From WalEntry.sequence first engine.walEntries ∧
    first + engine.walEntries.length = engine.lastAppliedSequence + 1

/-- The log is consecutive, and the index answers its entries. -/
structure Logged (engine : Engine) : Prop where
  numbered : engine.Consecutive
  indexed : Indexes engine.walEntryIdentities engine.walEntries

def compactedSequence (engine : Engine) : Nat :=
  engine.lastAppliedSequence - engine.walEntries.length

def logUpTo (engine : Engine) (sequence : Nat) : List WalEntry :=
  engine.walEntries.filter fun entry => decide (entry.sequence ≤ sequence)

namespace Logged

variable {engine : Engine}

variable {sequence : Nat} {entry : WalEntry}

variable (logged : engine.Logged)
include logged

theorem entryAt_eq_some_iff :
    entryAt engine.walEntries sequence = some entry ↔
      entry ∈ engine.walEntries ∧ entry.sequence = sequence := by
  obtain ⟨first, -, numbered, -⟩ := logged.numbered
  constructor
  · intro found
    exact ⟨List.mem_of_find?_eq_some found, by simpa using List.find?_some found⟩
  · rintro ⟨member, named⟩
    cases found : entryAt engine.walEntries sequence with
    | none =>
      have absent := List.find?_eq_none.mp found entry member
      simp [named] at absent
    | some other =>
      have inside := List.mem_of_find?_eq_some found
      have same : other.sequence = sequence := by simpa using List.find?_some found
      rw [numbered.eq_of_number_eq inside member (same.trans named.symm)]

theorem sequence_bounds (member : entry ∈ engine.walEntries) :
    0 < entry.sequence ∧ entry.sequence ≤ engine.lastAppliedSequence := by
  obtain ⟨first, positive, numbered, position⟩ := logged.numbered
  have := numbered.mem_bounds member
  omega

theorem identity_of_member (member : entry ∈ engine.walEntries) :
    engine.walEntryTerm entry.sequence = some entry.term ∧
      engine.walEntryChecksum entry.sequence = some entry.checksum := by
  have positive := (logged.sequence_bounds member).1
  have found := logged.entryAt_eq_some_iff.mpr ⟨member, rfl⟩
  have here := logged.indexed entry.sequence
  rw [found] at here
  simp only [walEntryTerm, walEntryChecksum, positive.ne', if_false, here]
  exact ⟨rfl, rfl⟩

theorem from_compacted :
    From WalEntry.sequence (engine.compactedSequence + 1) engine.walEntries ∧
      engine.compactedSequence + engine.walEntries.length = engine.lastAppliedSequence := by
  obtain ⟨first, positive, numbered, position⟩ := logged.numbered
  have compacted : engine.compactedSequence + 1 = first := by
    unfold compactedSequence
    omega
  exact ⟨compacted ▸ numbered, by omega⟩

theorem entryAt_eq (retained : engine.compactedSequence < sequence) :
    entryAt engine.walEntries sequence =
      engine.walEntries[sequence - (engine.compactedSequence + 1)]? :=
  logged.from_compacted.1.find?_number retained

theorem entryAt_isSome_iff :
    (entryAt engine.walEntries sequence).isSome ↔
      engine.compactedSequence < sequence ∧ sequence ≤ engine.lastAppliedSequence := by
  obtain ⟨numbered, length⟩ := logged.from_compacted
  constructor
  · intro found
    obtain ⟨entry, here⟩ := Option.isSome_iff_exists.mp found
    obtain ⟨member, rfl⟩ := logged.entryAt_eq_some_iff.mp here
    have := numbered.mem_bounds member
    omega
  · rintro ⟨retained, inside⟩
    rw [logged.entryAt_eq retained, isSome_getElem?]
    omega

theorem identity_eq (sequence : Nat) :
    engine.walEntryTerm sequence = (entryAt engine.walEntries sequence).map WalEntry.term ∧
      engine.walEntryChecksum sequence =
        (entryAt engine.walEntries sequence).map WalEntry.checksum := by
  unfold walEntryTerm walEntryChecksum
  split
  · rename_i zero
    have absent : entryAt engine.walEntries sequence = none := by
      rw [← Option.not_isSome_iff_eq_none, logged.entryAt_isSome_iff]
      omega
    rw [absent]
    exact ⟨rfl, rfl⟩
  · rw [logged.indexed sequence, Option.map_map, Option.map_map]
    exact ⟨rfl, rfl⟩

theorem logUpTo_eq_self (bound : engine.lastAppliedSequence ≤ sequence) :
    engine.logUpTo sequence = engine.walEntries := by
  refine List.filter_eq_self.mpr ?_
  intro entry member
  have := (logged.sequence_bounds member).2
  simp only [decide_eq_true_eq]
  omega

end Logged

variable {engine : Engine}

theorem Consecutive.retainedUpTo_eq (consecutive : engine.Consecutive) (sequence : Nat) :
    engine.retainedUpTo sequence = .ok (engine.logUpTo sequence) := by
  obtain ⟨first, -, numbered, -⟩ := consecutive
  have ordered := numbered.pairwise.sublist
    (List.filter_sublist (p := fun entry => decide (entry.sequence ≤ sequence)))
  exact foldlM_pushUniqueWalEntry (by simpa using ordered)

variable {expected : Nat} {entries : List WalEntry}

omit [Codec] in
theorem checkReplacement_eq_ok : checkReplacement expected entries = .ok () ↔
    From WalEntry.sequence expected entries := by
  induction entries generalizing expected with
  | nil => exact iff_of_true rfl trivial
  | cons entry rest ih => rw [checkReplacement, Except.guard_eq_ok_iff, not_not, ih, From]

/-- Pushing an entry keeps the list, or adds the entry at its end. -/
theorem pushUniqueWalEntry_cases {next : List WalEntry} {entry : WalEntry}
    (pushed : pushUniqueWalEntry entries entry = .ok next) :
    next = entries ++ [entry] ∨
      next = entries ∧ ∃ kept ∈ entries, kept.sequence = entry.sequence ∧
        walEntryIdentity kept = walEntryIdentity entry := by
  unfold pushUniqueWalEntry at pushed
  split at pushed
  · cases pushed
    exact .inl rfl
  · rename_i last final
    split at pushed
    · cases pushed
    · split at pushed
      · rename_i same
        split at pushed
        · cases pushed
        · rename_i agrees
          cases pushed
          rw [not_or, not_not, not_not] at agrees
          refine .inr ⟨rfl, last, List.mem_of_getLast? final, same.symm, ?_⟩
          simp only [walEntryIdentity, agrees]
      · cases pushed
        exact .inl rfl

variable {baseline sequence : Nat} {retained : List WalEntry}

/-- Of every entry behind the prefix a replacement keeps one with its identity, in order. -/
theorem replacementAfter_keeps {acc result : List WalEntry}
    (done : replacementAfter baseline sequence retained entries acc = .ok result) :
    (∃ kept, result = acc ++ kept ∧ kept.Sublist entries) ∧
      ∀ entry ∈ entries, sequence < entry.sequence → ∃ kept ∈ result,
        kept.sequence = entry.sequence ∧ walEntryIdentity kept = walEntryIdentity entry := by
  induction entries generalizing acc with
  | nil =>
    cases done
    exact ⟨⟨[], (List.append_nil _).symm, .slnil⟩, by simp⟩
  | cons entry rest ih =>
    unfold replacementAfter at done
    split at done
    · -- an entry at or below the prefix is compared and left out
      rename_i below
      have following : replacementAfter baseline sequence retained rest acc = .ok result := by
        split at done
        · split at done
          · cases done
          · exact (Except.guard_eq_ok_iff.mp done).2
        · exact done
      obtain ⟨⟨kept, shape, sublist⟩, covered⟩ := ih following
      exact ⟨⟨kept, shape, sublist.cons _⟩,
        List.forall_mem_cons.mpr ⟨fun behind => absurd behind (Nat.not_lt.mpr below), covered⟩⟩
    · split at done
      · cases done
      · rename_i next pushed
        obtain ⟨⟨kept, rfl, sublist⟩, covered⟩ := ih done
        rcases pushUniqueWalEntry_cases pushed with rfl | ⟨rfl, known, inside, same, identity⟩
        · exact ⟨⟨entry :: kept, by simp, sublist.cons_cons _⟩,
            List.forall_mem_cons.mpr ⟨fun _ => ⟨entry, by simp, rfl, rfl⟩, covered⟩⟩
        · exact ⟨⟨kept, rfl, sublist.cons _⟩, List.forall_mem_cons.mpr
            ⟨fun _ => ⟨known, List.mem_append_left _ inside, same, identity⟩, covered⟩⟩

theorem replacementAfter_of_from (numbered : From WalEntry.sequence (sequence + 1) entries) :
    replacementAfter baseline sequence retained entries [] = .ok entries := by
  have general : ∀ (entries acc : List WalEntry),
      (acc ++ entries).Pairwise (fun a b => a.sequence < b.sequence) →
      (∀ entry ∈ entries, sequence < entry.sequence) →
      replacementAfter baseline sequence retained entries acc = .ok (acc ++ entries) := by
    intro entries
    induction entries with
    | nil =>
      intro acc _ _
      simp [replacementAfter]
    | cons entry rest ih =>
      intro acc ordered after
      have here : pushUniqueWalEntry acc entry = .ok (acc ++ [entry]) :=
        pushUniqueWalEntry_of_after fun previous member =>
          (List.pairwise_append.mp ordered).2.2 previous member entry List.mem_cons_self
      unfold replacementAfter
      rw [if_neg (Nat.not_le.mpr (after entry List.mem_cons_self)), here]
      have following := ih (acc ++ [entry]) (by simpa using ordered)
        (List.forall_mem_cons.mp after).2
      simpa using following
  have result := general entries [] (by simpa using numbered.pairwise) (by
    intro entry member
    have := numbered.mem_bounds member
    omega)
  simpa using result

theorem stores_rewriteWal (engine : Engine) {first : Nat}
    (numbered : From WalEntry.sequence first entries)
    (empty : entries = [] → first = baseline + 1) :
    Stores first (engine.rewriteWal baseline entries).1 (engine.rewriteWal baseline entries).2
      entries := by
  cases entries with
  | nil =>
    obtain rfl := empty rfl
    have created : WalDir.createActiveSegment [] (baseline + 1) =
        [⟨baseline + 1, none, []⟩] := rfl
    simp only [rewriteWal, created]
    exact (Stores.fresh (baseline + 1) 0).reopened _
  | cons entry rest =>
    obtain rfl := numbered.1
    have opened : WalWriter.open [] entry.sequence =
        ([⟨entry.sequence, none, []⟩], ⟨entry.sequence, 0⟩) := rfl
    simp only [rewriteWal, WalDir.writeEntries, List.head?_cons, opened]
    exact ((Stores.fresh entry.sequence 0).appendBatch engine.options.walSegmentSizeBytes
      numbered).reopened _

structure SuffixReplaced (engine : Engine) (sequence : Nat) (replacement : List WalEntry)
    (next : Engine) : Prop where
  log : next.walEntries = engine.logUpTo sequence ++ replacement
  numbered : From WalEntry.sequence (sequence + 1) replacement
  position : next.lastAppliedSequence = sequence + replacement.length
  logged : next.Logged
  snapshot : next.disk.snapshot = engine.disk.snapshot
  manifest : next.disk.manifest = engine.disk.manifest
  stored : engine.LogStored → next.LogStored

variable {replacement : List WalEntry}

omit [Codec] in
theorem checkPrefix_ok_iff : checkPrefix baseline sequence retained = .ok () ↔
    (retained = [] ∧ sequence = baseline) ∨
      ∃ last, retained.getLast? = some last ∧ last.sequence = sequence := by
  unfold checkPrefix
  cases final : retained.getLast? with
  | none => simp [List.getLast?_eq_none_iff.mp final]
  | some last =>
    have held : retained ≠ [] := by
      rintro rfl
      cases final
    simp [held]

omit [Codec] in
theorem from_retained {first : Nat} (positive : 0 < first)
    (numbered : From WalEntry.sequence first retained)
    (checked : checkPrefix baseline sequence retained = .ok ())
    (continues : From WalEntry.sequence (sequence + 1) replacement) :
    ∃ start, 0 < start ∧ From WalEntry.sequence start (retained ++ replacement) ∧
      start + (retained ++ replacement).length = sequence + replacement.length + 1 ∧
      (retained ++ replacement = [] → start = baseline + 1) := by
  rcases checkPrefix_ok_iff.mp checked with ⟨rfl, rfl⟩ | ⟨last, final, rfl⟩
  · refine ⟨sequence + 1, Nat.succ_pos _, continues, ?_, fun _ => rfl⟩
    rw [List.nil_append]
    omega
  · have ends := numbered.getLast?_number final
    refine ⟨first, positive, from_append.mpr ⟨numbered, ends ▸ continues⟩, ?_, ?_⟩
    · rw [List.length_append]
      omega
    · intro empty
      rw [(List.append_eq_nil_iff.mp empty).1] at final
      cases final

omit [Codec] in
theorem after_lastAppliedSequence {metadata : EngineMetadata}
    (checked : checkPrefix metadata.lastAppliedSequence sequence retained = .ok ())
    (continues : From WalEntry.sequence (sequence + 1) replacement) :
    (metadata.after (retained ++ replacement)).lastAppliedSequence =
      sequence + replacement.length := by
  cases final : replacement.getLast? with
  | some last =>
    have ends := continues.getLast?_number final
    have whole : (retained ++ replacement).getLast? = some last := by
      rw [List.getLast?_append, final]
      rfl
    simp only [EngineMetadata.after, whole]
    omega
  | none =>
    obtain rfl := List.getLast?_eq_none_iff.mp final
    rw [List.append_nil, EngineMetadata.after]
    rcases checkPrefix_ok_iff.mp checked with ⟨rfl, rfl⟩ | ⟨last, ends, rfl⟩
    · rfl
    · rw [ends]
      rfl

omit [Codec] in
theorem le_of_checkBaseline (checked : checkBaseline baseline sequence = .ok ()) :
    baseline ≤ sequence := by
  unfold checkBaseline at checked
  split at checked
  · cases checked
  · rename_i reaches
    exact Nat.not_lt.mp reaches

/-- The validations of a replaced suffix, and the log it leads to. -/
structure ReplacementChecked (engine : Engine) (nowMs sequence : Nat)
    (entries replacement : List WalEntry) : Prop where
  baseline : checkBaseline (engine.snapshotBaseline nowMs).metadata.lastAppliedSequence sequence =
    .ok ()
  retained : checkPrefix (engine.snapshotBaseline nowMs).metadata.lastAppliedSequence sequence
    (engine.logUpTo sequence) = .ok ()
  selected : replacementAfter (engine.snapshotBaseline nowMs).metadata.lastAppliedSequence
    sequence (engine.logUpTo sequence) entries [] = .ok replacement
  continues : From WalEntry.sequence (sequence + 1) replacement
  replays : ∃ rebuilt, (engine.snapshotBaseline nowMs).replayEntries
    (engine.logUpTo sequence ++ replacement) = .ok rebuilt

def rewritten (engine : Engine) (baseline : Nat) (rebuilt : EngineState) (log : List WalEntry) :
    Engine :=
  { engine with
    state := rebuilt
    disk := { engine.disk with walDir := (engine.rewriteWal baseline log).1 }
    writer := (engine.rewriteWal baseline log).2
    walEntries := log
    walEntryIdentities := indexEntries ∅ log }

variable {nowMs : Nat}

theorem ReplacementChecked.replaced (consecutive : engine.Consecutive)
    (checked : engine.ReplacementChecked nowMs sequence entries replacement) :
    ∃ next, engine.replaceReplicationSuffix nowMs sequence entries =
      .ok (next, next.lastAppliedSequence) ∧ engine.SuffixReplaced sequence replacement next := by
  have retaining := consecutive.retainedUpTo_eq sequence
  obtain ⟨first, positive, numbered, -⟩ := consecutive
  have retained : From WalEntry.sequence first (engine.logUpTo sequence) := by
    rw [logUpTo, numbered.filter_le]
    exact numbered.take _
  obtain ⟨start, startPositive, whole, length, empty⟩ :=
    from_retained positive retained checked.retained checked.continues
  obtain ⟨rebuilt, replayed⟩ := checked.replays
  have position : rebuilt.metadata.lastAppliedSequence = sequence + replacement.length := by
    obtain ⟨store, -, rfl⟩ := (EngineState.replayEntries_ok_iff _ _ _).mp replayed
    exact after_lastAppliedSequence checked.retained checked.continues
  have ending := length.trans (congrArg (· + 1) position.symm)
  have done : engine.replaceReplicationSuffix nowMs sequence entries =
      .ok (engine.rewritten (engine.snapshotBaseline nowMs).metadata.lastAppliedSequence rebuilt
        (engine.logUpTo sequence ++ replacement), rebuilt.metadata.lastAppliedSequence) := by
    simp only [replaceReplicationSuffix, checked.baseline, retaining,
      checked.retained, checked.selected, checkReplacement_eq_ok.mpr checked.continues, replayed,
      buildWalEntryIdentities_of_numbered whole, bind, Except.bind, pure, Except.pure]
    rfl
  exact ⟨_, done, rfl, checked.continues, position,
    ⟨⟨start, startPositive, whole, ending⟩, indexes_indexEntries whole⟩, rfl, rfl,
    fun _ => ⟨start, stores_rewriteWal _ whole empty, ending⟩⟩

variable {next : Engine} {applied : Nat}

theorem replacementChecked_of_ok (consecutive : engine.Consecutive)
    (done : engine.replaceReplicationSuffix nowMs sequence entries = .ok (next, applied)) :
    ∃ replacement, engine.ReplacementChecked nowMs sequence entries replacement ∧
      (engine.snapshotBaseline nowMs).replayEntries (engine.logUpTo sequence ++ replacement) =
        .ok next.state := by
  unfold replaceReplicationSuffix at done
  obtain ⟨⟨⟩, baseline, done⟩ := Except.bind_eq_ok_iff.mp done
  rw [consecutive.retainedUpTo_eq] at done
  obtain ⟨_, ⟨⟩, done⟩ := Except.bind_eq_ok_iff.mp done
  obtain ⟨⟨⟩, retained, done⟩ := Except.bind_eq_ok_iff.mp done
  obtain ⟨replacement, replaced, done⟩ := Except.bind_eq_ok_iff.mp done
  obtain ⟨⟨⟩, continues, done⟩ := Except.bind_eq_ok_iff.mp done
  obtain ⟨rebuilt, replayed, done⟩ := Except.bind_eq_ok_iff.mp done
  obtain ⟨identities, indexed, done⟩ := Except.bind_eq_ok_iff.mp done
  obtain rfl : rebuilt = next.state := by
    cases done
    rfl
  exact ⟨replacement, ⟨baseline, retained, replaced, checkReplacement_eq_ok.mp continues, _,
    replayed⟩, replayed⟩

theorem suffixReplaced_of_ok (consecutive : engine.Consecutive)
    (done : engine.replaceReplicationSuffix nowMs sequence entries = .ok (next, applied)) :
    ∃ replacement, engine.SuffixReplaced sequence replacement next ∧
      engine.ReplacementChecked nowMs sequence entries replacement ∧
      (engine.snapshotBaseline nowMs).replayEntries (engine.logUpTo sequence ++ replacement) =
        .ok next.state ∧
      applied = next.lastAppliedSequence := by
  obtain ⟨replacement, checked, replayed⟩ := replacementChecked_of_ok consecutive done
  obtain ⟨reached, same, replaced⟩ := checked.replaced consecutive
  rw [done] at same
  obtain ⟨rfl, rfl⟩ := Prod.mk.inj (Except.ok.inj same)
  exact ⟨replacement, replaced, checked, replayed, rfl⟩

/-- A replacement keeps all of the given entries when they continue the prefix. -/
theorem ReplacementChecked.members
    (checked : engine.ReplacementChecked nowMs sequence entries replacement) :
    ∀ entry ∈ replacement, entry ∈ entries := by
  obtain ⟨⟨kept, rfl, sublist⟩, -⟩ := replacementAfter_keeps checked.selected
  exact fun entry member => sublist.mem member

theorem ReplacementChecked.eq_of_from
    (checked : engine.ReplacementChecked nowMs sequence entries replacement)
    (numbered : From WalEntry.sequence (sequence + 1) entries) : replacement = entries := by
  have replaced := checked.selected
  rw [replacementAfter_of_from numbered] at replaced
  exact (Except.ok.inj replaced).symm

omit [Codec] in
theorem stageEntries_ok {staged final : EngineState} {lastApplied : Nat}
    (done : stageEntries staged lastApplied entries = .ok (final, applied)) :
    From WalEntry.sequence (lastApplied + 1) entries ∧ applied = lastApplied + entries.length ∧
      staged.replayEntries entries = .ok final := by
  induction entries generalizing staged lastApplied with
  | nil =>
    cases done
    exact ⟨trivial, rfl, rfl⟩
  | cons entry rest ih =>
    unfold stageEntries at done
    split at done
    · cases done
    · rename_i named
      have here := not_not.mp named
      split at done
      · cases done
      · rename_i next accepted
        obtain ⟨numbered, position, replayed⟩ := ih done
        rw [here] at numbered position
        refine ⟨⟨here, numbered⟩, ?_, ?_⟩
        · rw [List.length_cons]
          omega
        · unfold EngineState.replayEntries
          rw [accepted]
          exact replayed

theorem suffixReplaced_of_applied (logged : engine.Logged)
    (done : engine.applyReplicationEntries entries = .ok (next, applied)) :
    engine.SuffixReplaced engine.lastAppliedSequence entries next ∧
      applied = next.lastAppliedSequence := by
  obtain ⟨first, positive, numbered, position⟩ := logged.numbered
  unfold applyReplicationEntries at done
  split at done
  · cases done
  rename_i staged lastApplied accepted
  obtain ⟨continues, rfl, replayed⟩ := stageEntries_ok accepted
  rw [buildWalEntryIdentities_of_numbered continues] at done
  cases done
  obtain ⟨store, -, rfl⟩ := (EngineState.replayEntries_ok_iff _ _ _).mp replayed
  have whole : From WalEntry.sequence first (engine.walEntries ++ entries) :=
    from_append.mpr ⟨numbered, position ▸ continues⟩
  have kept := logged.logUpTo_eq_self (Nat.le_refl _)
  have reached : (engine.state.metadata.after entries).lastAppliedSequence =
      engine.lastAppliedSequence + entries.length :=
    EngineMetadata.after_position continues (by omega) (by rintro rfl; rfl)
  have ending : ∀ start, start + engine.walEntries.length = engine.lastAppliedSequence + 1 →
      start + (engine.walEntries ++ entries).length =
        (engine.state.metadata.after entries).lastAppliedSequence + 1 := by
    intro start same
    rw [reached, List.length_append]
    omega
  refine ⟨⟨by rw [kept]; rfl, continues, reached, ⟨⟨first, positive, whole, ending first position⟩,
    logged.indexed.extend whole⟩, rfl, rfl, ?_⟩, reached.symm⟩
  rintro ⟨start, stores, same⟩
  exact ⟨start, stores.appendBatch engine.options.walSegmentSizeBytes (same ▸ continues),
    ending start same⟩

end Engine

end Vaylix

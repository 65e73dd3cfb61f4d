import Vaylix.Engine.Appending
import Vaylix.Engine.Truncation

/-!
# Engines that hold their whole log

Without a snapshot the log of an engine starts at sequence 1, so that sequences are
positions. Every successful call, every replicated entry, every replaced suffix and
every restart keeps it so. Calls append entries of the consensus term.
-/

namespace Vaylix

open NumberedLog

theorem Stores.eq_of_replay [Codec] {first : Nat} {dir : WalDir} {writer : WalWriter}
    {held entries : List WalEntry} (stores : Stores first dir writer held)
    (replayed : dir.replay = .ok entries) : held = entries := by
  obtain ⟨sealed, active, rfl, layout, -, rfl⟩ := stores
  rw [(WalDir.replay_ok replayed).1, layout.listSegments_eq, segmentEntries_append,
    segmentEntries_cons, segmentEntries_nil, List.append_nil]

namespace Engine

variable [Codec]

structure Reopened (disk : Disk) (baseline : EngineState) (first : Nat) (held : List WalEntry)
    (next : Engine) : Prop where
  log : next.walEntries = held
  indexed : Indexes next.walEntryIdentities held
  stores : Stores first next.disk.walDir next.writer held
  snapshot : next.disk.snapshot = disk.snapshot
  manifest : next.disk.manifest = disk.manifest
  replays : replayStore baseline.store held = .ok next.state.store
  position : ∀ {last}, first + held.length = last + 1 →
    (held = [] → baseline.metadata.lastAppliedSequence = last) → next.lastAppliedSequence = last

theorem reopened_of_stored {disk : Disk} {options : EngineOptions} {nowMs first : Nat}
    {writer : WalWriter} {held : List WalEntry} {next : Engine}
    (stores : Stores first disk.walDir writer held)
    (opened : fromPathsWithOptions disk options nowMs = .ok next) :
    ∃ baseline, recoveryBaseline disk nowMs = .ok baseline ∧
      Reopened disk baseline first held next := by
  obtain ⟨-, baseline, entries, identities, state, loaded, replayed, indexed, rebuilt, rfl⟩ :=
    fromPathsWithOptions_ok_iff.mp opened
  obtain rfl := stores.eq_of_replay replayed
  rw [buildWalEntryIdentities_of_numbered stores.numbered] at indexed
  cases indexed
  obtain ⟨store, ran, rfl⟩ := (EngineState.replayEntries_ok_iff _ _ _).mp rebuilt
  exact ⟨baseline, loaded, rfl, indexes_indexEntries stores.numbered, stores.reopened _, rfl, rfl,
    ran, EngineMetadata.after_position stores.numbered⟩

structure Whole (engine : Engine) : Prop where
  numbered : From WalEntry.sequence 1 engine.walEntries
  position : engine.lastAppliedSequence = engine.walEntries.length
  indexed : Indexes engine.walEntryIdentities engine.walEntries
  stored : Stores 1 engine.disk.walDir engine.writer engine.walEntries
  snapshotless : engine.disk.snapshot = none ∧ engine.disk.manifest = none

theorem whole_create (options : EngineOptions) (nowMs : Nat) : (create options nowMs).Whole :=
  ⟨trivial, rfl, fun sequence => by simp [create, entryAt], Stores.fresh 1 0, rfl, rfl⟩

namespace Whole

variable {engine next : Engine}

variable (whole : engine.Whole)
include whole

theorem logged : engine.Logged :=
  ⟨⟨1, Nat.one_pos, whole.numbered, by rw [whole.position]; omega⟩, whole.indexed⟩

theorem logStored : engine.LogStored :=
  ⟨1, whole.stored, by rw [whole.position]; omega⟩

theorem entryAt_eq {sequence : Nat} (positive : 0 < sequence) :
    entryAt engine.walEntries sequence = engine.walEntries[sequence - 1]? :=
  whole.numbered.find?_number positive

theorem logUpTo_eq (sequence : Nat) :
    engine.logUpTo sequence = engine.walEntries.take sequence := by
  rw [logUpTo, whole.numbered.filter_le]
  rfl

theorem sequence_eq {i : Nat} {entry : WalEntry} (found : engine.walEntries[i]? = some entry) :
    entry.sequence = i + 1 := by
  rw [whole.numbered.number_eq found, Nat.add_comm]

/-- A batch is a front part of what follows the sequence, and empty only at the end. -/
theorem walEntriesSince_eq (afterSequence limit : Nat) :
    ∃ size, 0 < size ∧ engine.walEntriesSince afterSequence limit =
      .ok ((engine.walEntries.drop afterSequence).take size) := by
  rw [walEntriesSince_of_numbered whole.numbered, Nat.add_sub_cancel]
  dsimp only
  split
  · rename_i limited
    exact ⟨limit, limited.1, rfl⟩
  · exact ⟨_, Nat.succ_pos _, by rw [List.take_of_length_le (Nat.le_succ _)]⟩

/-- A batch ends at the end of the log, or earlier if it is limited. -/
theorem mem_walEntriesSince {afterSequence limit bound : Nat} {batch : List WalEntry}
    (read : engine.walEntriesSince afterSequence limit = .ok batch)
    (within : engine.lastAppliedSequence ≤ bound ∨ 0 < limit ∧ afterSequence + limit ≤ bound)
    {entry : WalEntry} (member : entry ∈ batch) :
    entry ∈ engine.walEntries ∧ entry.sequence ≤ bound := by
  rw [walEntriesSince_of_numbered whole.numbered, Nat.add_sub_cancel] at read
  cases read
  have position := whole.position
  dsimp only at member
  split at member
  · rw [List.take_drop] at member
    have early := List.mem_of_mem_drop member
    have bounds := (whole.numbered.take _).mem_bounds early
    rw [List.length_take] at bounds
    exact ⟨List.mem_of_mem_take early, by omega⟩
  · rename_i unlimited
    rw [List.length_drop] at unlimited
    have logged := List.mem_of_mem_drop member
    have bounds := whole.numbered.mem_bounds logged
    exact ⟨logged, by omega⟩

theorem identity_eq (sequence : Nat) :
    engine.walEntryTerm sequence =
        (if sequence = 0 then none else (engine.walEntries[sequence - 1]?).map WalEntry.term) ∧
      engine.walEntryChecksum sequence =
        (if sequence = 0 then none
          else (engine.walEntries[sequence - 1]?).map WalEntry.checksum) := by
  unfold walEntryTerm walEntryChecksum
  split
  · exact ⟨rfl, rfl⟩
  · rename_i positive
    rw [whole.indexed sequence, whole.entryAt_eq (Nat.pos_of_ne_zero positive), Option.map_map,
      Option.map_map]
    exact ⟨rfl, rfl⟩

theorem append {entries : List WalEntry} (appended : engine.Appended next entries) :
    next.Whole := by
  have continues : From WalEntry.sequence 1 (engine.walEntries ++ entries) := by
    refine from_append.mpr ⟨whole.numbered, ?_⟩
    rw [Nat.add_comm, ← whole.position]
    exact appended.numbered
  refine ⟨appended.log ▸ continues, ?_, ?_, ?_, ?_⟩
  · rw [appended.position, appended.log, List.length_append, whole.position]
  · rw [appended.log]
    exact appended.indexed 1 continues whole.indexed
  · rw [appended.log, appended.disk, appended.writer]
    exact whole.stored.appendBatch _ (from_append.mp continues).2
  · rw [appended.disk]
    exact whole.snapshotless

theorem replace {sequence : Nat} {replacement : List WalEntry}
    (replaced : engine.SuffixReplaced sequence replacement next)
    (inside : sequence ≤ engine.walEntries.length) :
    next.Whole ∧ next.walEntries = engine.walEntries.take sequence ++ replacement := by
  have log := replaced.log
  rw [whole.logUpTo_eq] at log
  have length : (engine.walEntries.take sequence).length = sequence := by
    rw [List.length_take, Nat.min_eq_left inside]
  have position : next.lastAppliedSequence = next.walEntries.length := by
    rw [replaced.position, log, List.length_append, length]
  refine ⟨⟨?_, position, replaced.logged.indexed, ?_, ?_⟩, log⟩
  · rw [log]
    refine from_append.mpr ⟨whole.numbered.take sequence, ?_⟩
    rw [length, Nat.add_comm]
    exact replaced.numbered
  · obtain ⟨first, stores, ends⟩ := replaced.stored whole.logStored
    obtain rfl : first = 1 := by omega
    exact stores
  · rw [replaced.snapshot, replaced.manifest]
    exact whole.snapshotless

theorem reopen {options : EngineOptions} {nowMs : Nat}
    (opened : fromPathsWithOptions engine.disk options nowMs = .ok next) :
    next.Whole ∧ next.walEntries = engine.walEntries ∧
      replayStore EngineStore.new next.walEntries = .ok next.state.store := by
  obtain ⟨baseline, loaded, reopened⟩ := reopened_of_stored whole.stored opened
  have empty : baseline = EngineState.new nowMs := by
    simp only [recoveryBaseline, whole.snapshotless.1, whole.snapshotless.2,
      Option.getD_none] at loaded
    exact (Except.ok.inj loaded).symm
  subst empty
  have position : next.lastAppliedSequence = engine.walEntries.length :=
    reopened.position (Nat.add_comm 1 _) fun empty => by rw [empty]; rfl
  refine ⟨⟨?_, ?_, ?_, ?_, ?_⟩, reopened.log, ?_⟩
  · rw [reopened.log]
    exact whole.numbered
  · rw [reopened.log]
    exact position
  · rw [reopened.log]
    exact reopened.indexed
  · rw [reopened.log]
    exact reopened.stores
  · rw [reopened.snapshot, reopened.manifest]
    exact whole.snapshotless
  · rw [reopened.log]
    exact reopened.replays

end Whole

end Engine

end Vaylix

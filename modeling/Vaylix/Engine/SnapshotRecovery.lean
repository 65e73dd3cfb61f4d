import Vaylix.Engine.Appending
import Vaylix.Engine.Pruning
import Vaylix.Lib.Run

/-!
# Recovery after snapshots

Reopening a directory loads the snapshot and replays every retained entry over it, those
already in the snapshot included. The directory stays recoverable as long as every snapshot is
taken when the entries it will retain settle the keys of their integer updates.
-/

namespace Vaylix

open EngineStore LabelledRun NumberedLog

namespace Engine

variable [Codec]

theorem recoveryBaseline_of_describes {disk : Disk} {state : EngineState} (nowMs : Nat)
    (saved : disk.snapshot = some state)
    (describes : ∀ manifest ∈ disk.manifest, manifest.Describes state) :
    ∃ baseline, recoveryBaseline disk nowMs = .ok baseline ∧ baseline.store = state.store ∧
      baseline.metadata.lastAppliedSequence = state.metadata.lastAppliedSequence := by
  unfold recoveryBaseline
  rw [saved]
  cases described : disk.manifest with
  | none => exact ⟨state, rfl, rfl, rfl⟩
  | some manifest =>
    have here := describes manifest described
    dsimp only
    rw [validateManifestSnapshot_ok_iff.mpr ⟨state, rfl, here⟩]
    refine ⟨_, rfl, rfl, ?_⟩
    simp only [Option.getD_some, here.2.2.2, max_self]

/-- The entries that a snapshot taken now keeps in the log. -/
def retainedWindow (engine : Engine) : List WalEntry :=
  let written := engine.disk.walDir.listSegments.filter fun segment => !segment.entries.isEmpty
  segmentEntries (written.drop (written.length - engine.options.walRetainSegments))

theorem LogStored.grow {engine next : Engine} {entries : List WalEntry}
    (stored : engine.LogStored) (appended : engine.Appended next entries) : next.LogStored := by
  obtain ⟨first, stores, position⟩ := stored
  refine ⟨first, ?_, ?_⟩
  · rw [appended.log, appended.disk, appended.writer]
    exact stores.appendBatch _ (position ▸ appended.numbered)
  · rw [appended.log, appended.position, List.length_append]
    omega

def durableState (engine : Engine) (reading : Reading) : EngineState :=
  (engine.state.purgeExpired reading.now).markSnapshot reading.later engine.lastAppliedSequence

structure Snapshotted (engine next : Engine) (reading : Reading) : Prop where
  state : next.state = engine.durableState reading
  log : next.walEntries = engine.retainedWindow
  suffix : ∃ pruned, engine.walEntries = pruned ++ engine.retainedWindow
  stored : next.LogStored
  legacy : next.disk.legacyWal = engine.disk.legacyWal
  saved : next.disk.snapshot = some (engine.durableState reading)
  described : ∃ walDir, next.disk.manifest = some (snapshotManifest (engine.durableState reading)
    walDir engine.lastAppliedSequence reading.later)

variable {engine : Engine} (stored : engine.LogStored)
  (readable : WalDir.Readable engine.walEntries)
include stored readable

/-- A stored log reads back. -/
theorem LogStored.replay_eq :
    engine.disk.walDir.replay = .ok engine.walEntries := by
  obtain ⟨first, ⟨sealed, active, dir, layout, -, entries⟩, -⟩ := stored
  rw [← entries] at readable ⊢
  rw [dir]
  exact layout.replay_eq readable

theorem LogStored.sealing :
    ∃ first files, SealedFrom first files ∧ segmentEntries files = engine.walEntries ∧
      engine.lastAppliedSequence + 1 = first + (segmentEntries files).length ∧
      engine.disk.walDir.sealActive = .ok files ∧
      WalWriter.open (WalDir.createActiveSegment files (engine.lastAppliedSequence + 1))
        (engine.lastAppliedSequence + 1) =
          (files ++ [⟨engine.lastAppliedSequence + 1, none, []⟩],
            ⟨engine.lastAppliedSequence + 1, 0⟩) ∧
      engine.retainedWindow =
        segmentEntries (files.drop (files.length - engine.options.walRetainSegments)) := by
  obtain ⟨first, ⟨sealed, active, dir, layout, -, entries⟩, position⟩ := stored
  have sealedFrom := layout.sealedFrom_sealedAll
  have held : segmentEntries (sealedAll sealed active) = engine.walEntries :=
    (Layout.segmentEntries_sealedAll sealed active).trans entries
  have next : engine.lastAppliedSequence + 1 =
      first + (segmentEntries (sealedAll sealed active)).length := by
    rw [held]
    exact position.symm
  refine ⟨first, sealedAll sealed active, sealedFrom, held, next, ?_, ?_, ?_⟩
  · rw [dir]
    refine layout.sealActive_eq (readable.mono ?_)
    intro entry member
    rw [← entries]
    exact List.mem_append_right _ member
  · rw [sealedFrom.createActiveSegment_eq]
    simp only [WalWriter.open, (sealedFrom.fresh next).activeSegmentFile_eq]
    rfl
  · rw [retainedWindow, dir, layout.listSegments_eq]
    exact (segmentEntries_drop_congr layout.map_entries_sealedAll _).symm

/-- **A snapshot of a stored, readable log succeeds** and prunes the log to the retained
window. -/
theorem snapshot_snapshotted (reading : Reading) :
    ∃ next, engine.snapshot reading = (next, none) ∧ Snapshotted engine next reading ∧
      Indexes next.walEntryIdentities next.walEntries := by
  obtain ⟨first, files, sealedFrom, held, next, sealing, opening, window⟩ := stored.sealing readable
  have pruning := (sealedFrom.fresh next).pruneSealedSegments_eq engine.options.walRetainSegments
  generalize files.length - engine.options.walRetainSegments = pruned at *
  obtain ⟨keptFrom, split⟩ := sealedFrom.drop pruned
  rw [split, List.length_append, ← Nat.add_assoc] at next
  rw [held, ← window] at split
  have kept := keptFrom.fresh next
  have keptReadable : WalDir.Readable (segmentEntries (files.drop pruned) ++ []) := by
    refine readable.mono ?_
    intro entry member
    rw [split, window]
    rw [List.append_nil] at member
    exact List.mem_append_right _ member
  have replaying := kept.replay_eq keptReadable
  have indexing := buildWalEntryIdentities_of_numbered kept.entries_numbered
  have purged : (engine.state.purgeExpired reading.now).metadata.lastAppliedSequence =
      engine.lastAppliedSequence := EngineState.purgeExpired_lastAppliedSequence _ _
  let keptFiles := files.drop pruned
  let walDir : WalDir := keptFiles ++ [⟨engine.lastAppliedSequence + 1, none, []⟩]
  refine ⟨{ engine with
    state := engine.durableState reading
    disk := ⟨engine.disk.legacyWal, some (engine.durableState reading),
      some (snapshotManifest (engine.durableState reading) walDir engine.lastAppliedSequence
        reading.later), walDir⟩
    writer := ⟨engine.lastAppliedSequence + 1, 0⟩
    walEntries := segmentEntries keptFiles ++ []
    walEntryIdentities := indexEntries ∅ (segmentEntries keptFiles ++ []) }, ?_, ?_⟩
  · unfold snapshot
    simp only [purged, sealing, opening, pruning, replaying, indexing]
    rfl
  · refine ⟨⟨rfl, by simp only [List.append_nil, window, keptFiles], ⟨_, split⟩, ?_, rfl, rfl,
      ⟨walDir, rfl⟩⟩, indexes_indexEntries kept.entries_numbered⟩
    exact ⟨_, ⟨keptFiles, _, rfl, kept, rfl, rfl⟩, by rw [List.append_nil]; exact next.symm⟩

theorem perform_snapshotted {action : EngineAction}
    (snapshots : action.snapshots = true) :
    ∃ reading command, action = .direct reading command ∧
      Snapshotted engine (action.perform engine) reading ∧
      Indexes (action.perform engine).walEntryIdentities (action.perform engine).walEntries := by
  cases action with
  | direct reading command =>
    obtain ⟨next, taken, snapshotted⟩ := snapshot_snapshotted stored readable reading
    have performed : (engine.executeCommand reading command).1 = next := by
      cases command <;> cases snapshots <;> simp only [executeCommand, taken]
    refine ⟨reading, command, rfl, ?_⟩
    rw [EngineAction.perform, performed]
    exact snapshotted
  | _ => cases snapshots

end Engine

/-- The entry is within the reader's limit and concerns no expiration. -/
def WalEntry.admissible [Codec] (entry : WalEntry) : Bool :=
  decide (Codec.durableLen entry ≤ maxWalEntrySize) &&
    entry.operations.all fun operation => !operation.concernsExpiration

namespace Engine

variable [Codec]

def storageStep (engine : Engine) (call : EngineCall) : Option Engine :=
  let called := engine.setConsensusTerm call.term
  let next := call.action.perform called
  if call.action.succeeds called && next.walEntries.all WalEntry.admissible then some next
  else none

/-- The condition on a step: the entries a snapshot keeps settle the keys of their
integer updates. -/
def SettledSnapshot (engine : Engine) (call : EngineCall) : Prop :=
  call.action.snapshots = true →
    CountersSettled (engine.retainedWindow.flatMap WalEntry.operations)

instance (engine : Engine) (call : EngineCall) : Decidable (engine.SettledSnapshot call) :=
  inferInstanceAs (Decidable (_ → CountersSettled _))

/-- The invariant: reopening the directory now would rebuild the keyspace. -/
structure Recoverable (engine : Engine) : Prop where
  modern : engine.disk.legacyWal = false
  stored : engine.LogStored
  admissible : ∀ entry ∈ engine.walEntries, entry.admissible = true
  unexpiring : Unexpiring engine.state.store
  rebuilds : ∀ nowMs, ∃ baseline, recoveryBaseline engine.disk nowMs = .ok baseline ∧
    replayStore baseline.store engine.walEntries = .ok engine.state.store ∧
    (engine.walEntries = [] →
      baseline.metadata.lastAppliedSequence = engine.lastAppliedSequence)

/-- A directory whose entries lead from the loaded snapshot to `store` opens there. -/
theorem reopens_of_replay {disk : Disk} {nowMs first last : Nat} {baseline : EngineState}
    {entries : List WalEntry} {store : EngineStore} (modern : disk.legacyWal = false)
    (loaded : recoveryBaseline disk nowMs = .ok baseline)
    (read : disk.walDir.replay = .ok entries) (numbered : From WalEntry.sequence first entries)
    (ends : first + entries.length = last + 1)
    (replayed : replayStore baseline.store entries = .ok store)
    (position : entries = [] → baseline.metadata.lastAppliedSequence = last)
    (options : EngineOptions) :
    ∃ reopened, fromPathsWithOptions disk options nowMs = .ok reopened ∧
      reopened.state.store = store ∧ reopened.lastAppliedSequence = last := by
  have rebuilt := EngineState.replayEntries_of_ok baseline replayed
  refine ⟨_, fromPathsWithOptions_ok_iff.mpr ⟨modern, baseline, entries, _, _, loaded, read,
    buildWalEntryIdentities_of_numbered numbered, rebuilt, rfl⟩, rfl, ?_⟩
  exact EngineMetadata.after_position numbered ends position

namespace Recoverable

variable {engine next : Engine}

theorem readable (recoverable : engine.Recoverable) : WalDir.Readable engine.walEntries := by
  intro entry member
  have admissible := recoverable.admissible entry member
  simp only [WalEntry.admissible, Bool.and_eq_true, decide_eq_true_eq] at admissible
  exact admissible.1

theorem lasting_of_admissible {entry : WalEntry} (admissible : entry.admissible = true) :
    Lasting entry.operations := by
  simp only [WalEntry.admissible, Bool.and_eq_true, List.all_eq_true] at admissible
  intro operation member
  simpa using admissible.2 operation member

theorem create (options : EngineOptions) (nowMs : Nat) :
    (Engine.create options nowMs).Recoverable := by
  refine ⟨rfl, ⟨1, ⟨[], ⟨1, none, []⟩, rfl, ⟨trivial, rfl, rfl, trivial⟩, rfl, rfl⟩, rfl⟩,
    ?_, ?_, ?_⟩
  · intro entry member
    cases member
  · intro key entry found
    simp [Engine.create, EngineState.new] at found
  · exact fun laterMs => ⟨EngineState.new laterMs, rfl, rfl, fun _ => rfl⟩

variable (recoverable : engine.Recoverable)
include recoverable

theorem grow {entries : List WalEntry} (appended : engine.Appended next entries)
    (admissible : ∀ entry ∈ next.walEntries, entry.admissible = true) : next.Recoverable := by
  have each : ∀ entry ∈ entries, Lasting entry.operations := by
    intro entry inside
    refine lasting_of_admissible (admissible entry ?_)
    rw [appended.log]
    exact List.mem_append_right _ inside
  have lasting : Lasting (entries.flatMap WalEntry.operations) := by
    intro operation member
    obtain ⟨entry, inside, here⟩ := List.mem_flatMap.mp member
    exact each entry inside operation here
  have run := appended.run recoverable.unexpiring each
  refine ⟨?_, recoverable.stored.grow appended, admissible, ?_, ?_⟩
  · rw [appended.disk]
    exact recoverable.modern
  · rw [replayStore_eq_applyOperations] at run
    exact recoverable.unexpiring.applyOperations lasting run
  · intro nowMs
    obtain ⟨baseline, loaded, replayed, position⟩ := recoverable.rebuilds nowMs
    refine ⟨baseline, ?_, ?_, ?_⟩
    · rw [appended.disk]
      exact loaded
    · rw [appended.log, replayStore_append_ok replayed]
      exact run
    · intro empty
      rw [appended.log, List.append_eq_nil_iff] at empty
      rw [appended.position, empty.2]
      exact position empty.1

/-- The last entries of the log, replayed over the keyspace, change nothing when settled. -/
theorem suffix_again {pruned kept : List WalEntry} (suffix : engine.walEntries = pruned ++ kept)
    (settled : CountersSettled (kept.flatMap WalEntry.operations)) :
    replayStore engine.state.store kept = .ok engine.state.store := by
  have lasting : Lasting (kept.flatMap WalEntry.operations) := by
    intro operation inside
    obtain ⟨entry, held, here⟩ := List.mem_flatMap.mp inside
    refine lasting_of_admissible (recoverable.admissible entry ?_) operation here
    rw [suffix]
    exact List.mem_append_right _ held
  obtain ⟨baseline, -, replayed, -⟩ := recoverable.rebuilds 0
  rw [suffix, replayStore_append] at replayed
  obtain ⟨before, -, again⟩ := Except.bind_eq_ok_iff.mp replayed
  exact replayStore_again settled lasting again

theorem snapshotted {reading : Reading} (snapshotted : Snapshotted engine next reading)
    (settled : CountersSettled (engine.retainedWindow.flatMap WalEntry.operations)) :
    next.Recoverable := by
  obtain ⟨pruned, suffix⟩ := snapshotted.suffix
  have store : (engine.durableState reading).store = engine.state.store :=
    recoverable.unexpiring.purgeExpired_eq reading.now
  refine ⟨snapshotted.legacy.trans recoverable.modern, snapshotted.stored, ?_, ?_, ?_⟩
  · intro entry inside
    rw [snapshotted.log] at inside
    refine recoverable.admissible entry ?_
    rw [suffix]
    exact List.mem_append_right _ inside
  · rw [snapshotted.state, store]
    exact recoverable.unexpiring
  · intro nowMs
    obtain ⟨walDir, described⟩ := snapshotted.described
    have describes : ∀ manifest ∈ next.disk.manifest,
        manifest.Describes (engine.durableState reading) := by
      rw [described]
      rintro manifest ⟨⟩
      exact ⟨rfl, rfl, rfl, rfl⟩
    obtain ⟨baseline, loaded, loadedStore, position⟩ :=
      recoveryBaseline_of_describes nowMs snapshotted.saved describes
    refine ⟨baseline, loaded, ?_, fun _ => ?_⟩
    · rw [loadedStore, snapshotted.log, snapshotted.state, store]
      exact recoverable.suffix_again suffix settled
    · rw [position, ← snapshotted.state]
      rfl

theorem setConsensusTerm (term : Nat) :
    (engine.setConsensusTerm term).Recoverable :=
  ⟨recoverable.modern, recoverable.stored, recoverable.admissible, recoverable.unexpiring,
    recoverable.rebuilds⟩

/-- A step appends, or takes a snapshot. -/
theorem step_cases {call : EngineCall} (taken : engine.storageStep call = some next) :
    (call.action.snapshots = false ∧ (∀ entry ∈ next.walEntries, entry.admissible = true) ∧
      ∃ entries, (engine.setConsensusTerm call.term).Appended next entries) ∨
    ∃ reading command, call.action = .direct reading command ∧ call.action.snapshots = true ∧
      Snapshotted (engine.setConsensusTerm call.term) next reading := by
  have called := recoverable.setConsensusTerm call.term
  unfold storageStep at taken
  dsimp only at taken
  split at taken
  · rename_i enabled
    cases taken
    rw [Bool.and_eq_true, List.all_eq_true] at enabled
    obtain ⟨succeeded, admissible⟩ := enabled
    cases snapshots : call.action.snapshots with
    | false =>
      exact .inl ⟨rfl, admissible, _,
        Appended.perform (engine.setConsensusTerm call.term) snapshots succeeded⟩
    | true =>
      obtain ⟨reading, command, action, snapshotted, -⟩ :=
        perform_snapshotted called.stored called.readable snapshots
      exact .inr ⟨reading, command, action, rfl, snapshotted⟩
  · cases taken

/-- A settled step keeps the directory recoverable. -/
theorem step {call : EngineCall} (settled : engine.SettledSnapshot call)
    (taken : engine.storageStep call = some next) :
    next.Recoverable := by
  have called := recoverable.setConsensusTerm call.term
  rcases recoverable.step_cases taken with
    ⟨-, admissible, entries, appended⟩ | ⟨reading, command, -, snapshots, snapshotted⟩
  · exact called.grow appended admissible
  · exact called.snapshotted snapshotted (settled snapshots)

theorem reopen (options : EngineOptions) (nowMs : Nat) :
    ∃ reopened, fromPathsWithOptions engine.disk options nowMs = .ok reopened ∧
      reopened.state.store = engine.state.store ∧
      reopened.lastAppliedSequence = engine.lastAppliedSequence := by
  obtain ⟨baseline, loaded, replayed, position⟩ := recoverable.rebuilds nowMs
  obtain ⟨first, stores, last⟩ := recoverable.stored
  exact reopens_of_replay recoverable.modern loaded
    (recoverable.stored.replay_eq recoverable.readable) stores.numbered last replayed position
    options

end Recoverable

/-- **Recovery after snapshots.** After any run of successful calls and snapshots in which every
snapshot retains only entries that settle the keys of their integer updates, reopening the
directory yields the same keyspace and applied position. -/
theorem reopening_recovers (options reopenOptions : EngineOptions) (startMs reopenMs : Nat)
    (calls : List EngineCall) (engine : Engine)
    (reached : run storageStep (Engine.create options startMs) calls = some engine)
    (settled : Meets storageStep SettledSnapshot (Engine.create options startMs) calls) :
    ∃ reopened, fromPathsWithOptions engine.disk reopenOptions reopenMs = .ok reopened ∧
      reopened.state.store = engine.state.store ∧
      reopened.lastAppliedSequence = engine.lastAppliedSequence := by
  have recoverable : engine.Recoverable :=
    invariant_of_meets (fun _ _ _ recoverable settled taken => recoverable.step settled taken)
      (Recoverable.create options startMs) settled reached
  exact recoverable.reopen reopenOptions reopenMs

end Engine

section Runs

open Sample Engine

def settledCalls : List EngineCall :=
  [⟨1, .direct (.still 0) (.set "k" [53] {})⟩, ⟨1, .direct (.still 1) (.incr "k")⟩,
    ⟨1, .direct (.still 2) .snapshot⟩, ⟨1, .direct (.still 3) (.incr "k")⟩]

theorem reopening_recovers_settled :
    ∃ engine, run storageStep (Engine.create ⟨0, 1⟩ 0) settledCalls = some engine ∧
      ∃ reopened, fromPathsWithOptions engine.disk ⟨0, 1⟩ 9 = .ok reopened ∧
        reopened.state.store = engine.state.store ∧
        reopened.lastAppliedSequence = engine.lastAppliedSequence := by
  obtain ⟨engine, reached⟩ : ∃ engine,
      run storageStep (Engine.create ⟨0, 1⟩ 0) settledCalls = some engine :=
    Option.isSome_iff_exists.mp (by decide +kernel)
  exact ⟨engine, reached, reopening_recovers ⟨0, 1⟩ ⟨0, 1⟩ 0 9 settledCalls engine reached
    (by decide +kernel)⟩

def recountedCalls : List EngineCall :=
  [⟨1, .direct (.still 0) (.incr "k")⟩, ⟨1, .direct (.still 1) .snapshot⟩]

/-- The engine holds 1 in version 1; the reopened one counts the update again. -/
theorem reopening_recounts :
    ∃ engine, run storageStep (Engine.create ⟨0, 1⟩ 0) recountedCalls = some engine ∧
      ∀ reopened, fromPathsWithOptions engine.disk ⟨0, 1⟩ 9 = .ok reopened →
        reopened.state.store ≠ engine.state.store := by
  obtain ⟨engine, reached, one, two⟩ :
      ∃ engine ∈ run storageStep (Engine.create ⟨0, 1⟩ 0) recountedCalls,
        engine.state.store.get "k" = some ⟨[49], none, 1⟩ ∧
        ∀ reopened ∈ (fromPathsWithOptions engine.disk ⟨0, 1⟩ 9).toOption,
          reopened.state.store.get "k" = some ⟨[50], none, 2⟩ := by
    decide +kernel
  refine ⟨engine, reached, fun reopened opened same => ?_⟩
  have counted := two reopened (by rw [opened]; rfl)
  rw [same, one] at counted
  cases counted

end Runs

end Vaylix

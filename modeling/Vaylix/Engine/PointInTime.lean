import Vaylix.Engine.SuffixState

/-!
# Restoring a point in time

A restore replays the retained entries up to a sequence or a time over the snapshot and writes
the result as the snapshot of a fresh target. It refuses points before the snapshot and
sequences behind the log. The target holds the keyspace right after the last entry of the
history that the point reaches.
-/

namespace Vaylix

open EngineStore LabelledRun NumberedLog

inductive PointInTimeTarget where
  | sequence (sequence : Nat)
  | timestampMs (timestampMs : Nat)
deriving DecidableEq, Repr

namespace PointInTimeTarget

def reaches : PointInTimeTarget → WalEntry → Bool
  | .sequence wanted, entry => decide (entry.sequence ≤ wanted)
  | .timestampMs wantedMs, entry => decide (entry.createdAtMs ≤ wantedMs)

def timed : PointInTimeTarget → Bool
  | .sequence _ => false
  | .timestampMs _ => true

def checkBaseline (snapshotSequence snapshotTimeMs : Nat) :
    PointInTimeTarget → Except EngineError Unit
  | .sequence wanted =>
    if wanted < snapshotSequence then
      .error (.restorePointUnavailable
        s!"sequence {wanted} is older than snapshot baseline {snapshotSequence}")
    else .ok ()
  | .timestampMs wantedMs =>
    if wantedMs < snapshotTimeMs then
      .error (.restorePointUnavailable
        s!"timestamp {wantedMs} is older than snapshot baseline {snapshotTimeMs}")
    else .ok ()

def checkRetained (newestSequence : Nat) : PointInTimeTarget → Except EngineError Unit
  | .sequence wanted =>
    if newestSequence < wanted then
      .error (.restorePointUnavailable s!"sequence {wanted} is outside retained WAL history")
    else .ok ()
  | .timestampMs _ => .ok ()

end PointInTimeTarget

def WalDir.replayUntil [Codec] (dir : WalDir) (target : PointInTimeTarget) :
    Except EngineError (List WalEntry) :=
  dir.replay.map fun entries => entries.takeWhile target.reaches

namespace Engine

variable [Codec]

/-- The old files of the target are removed first, except for a log of the legacy layout. -/
def writeRestored (targetDisk : Disk) (restored : EngineState) (restoredAtMs : Nat) : Disk :=
  let sequence := restored.metadata.lastAppliedSequence
  let durable := restored.markSnapshot restoredAtMs sequence
  { legacyWal := targetDisk.legacyWal
    snapshot := some durable
    walDir := WalDir.createActiveSegment [] (sequence + 1)
    manifest := some
      { storageFormatVersion := storageFormatVersion
        engineVersion := durable.metadata.version
        lastSnapshotSequence := sequence
        lastSnapshotAtMs := restoredAtMs
        snapshotSizeBytes := Codec.snapshotLen durable
        snapshotChecksum := Codec.snapshotChecksum durable
        activeWalStartSequence := sequence + 1
        oldestRetainedSequence := sequence + 1 } }

def restoreToPoint (sameDataDir : Bool) (source targetDisk : Disk) (target : PointInTimeTarget)
    (nowMs restoredAtMs : Nat) : Except EngineError Disk :=
  if sameDataDir then
    .error (.invalidStorageOperation "source and target data directories must differ")
  else if source.legacyWal then .error (.storageMigrationRequired "legacy wal layout")
  else do
    let state ← recoveryBaseline source nowMs
    let snapshotSequence := (source.manifest.map Manifest.lastSnapshotSequence).getD 0
    let snapshotTimeMs := (source.manifest.map Manifest.lastSnapshotAtMs).getD 0
    target.checkBaseline snapshotSequence snapshotTimeMs
    let entries ← source.walDir.replayUntil target
    target.checkRetained ((entries.getLast?.map WalEntry.sequence).getD snapshotSequence)
    let restored ← state.replayEntries entries
    return writeRestored targetDisk restored restoredAtMs

theorem writeRestored_opens {targetDisk : Disk} (fresh : targetDisk.legacyWal = false)
    (restored : EngineState) (restoredAtMs : Nat) (options : EngineOptions) (nowMs : Nat) :
    ∃ opened, fromPathsWithOptions (writeRestored targetDisk restored restoredAtMs) options nowMs =
        .ok opened ∧ opened.state.store = restored.store ∧
      opened.lastAppliedSequence = restored.metadata.lastAppliedSequence := by
  have modern : (writeRestored targetDisk restored restoredAtMs).legacyWal = false := fresh
  have describes : ∀ manifest ∈ (writeRestored targetDisk restored restoredAtMs).manifest,
      manifest.Describes
        (restored.markSnapshot restoredAtMs restored.metadata.lastAppliedSequence) := by
    rintro manifest ⟨⟩
    exact ⟨rfl, rfl, rfl, rfl⟩
  have read : (writeRestored targetDisk restored restoredAtMs).walDir.replay = .ok [] := rfl
  obtain ⟨baseline, loaded, store, position⟩ := recoveryBaseline_of_describes nowMs rfl describes
  refine reopens_of_replay modern loaded read trivial rfl ?_ (fun _ => position) options
  rw [store]
  rfl

end Engine

namespace RecordedEngine

section Restoring

variable [Codec] {recorded next : RecordedEngine} {target : PointInTimeTarget}

/-- The clock of a snapshot is not behind the time of an entry. -/
def Timely (recorded : RecordedEngine) (call : EngineCall) : Prop :=
  ∀ reading command, call.action = .direct reading command → call.action.snapshots = true →
    ∀ entry ∈ recorded.history, entry.createdAtMs ≤ reading.later

instance (recorded : RecordedEngine) (call : EngineCall) : Decidable (recorded.Timely call) := by
  unfold Timely
  cases call.action with
  | direct reading command =>
    refine decidable_of_iff (_ → ∀ entry ∈ recorded.history, entry.createdAtMs ≤ reading.later)
      ⟨?_, fun timely => timely reading command rfl⟩
    rintro timely _ _ ⟨⟩
    exact timely
  | _ => exact .isTrue (by rintro _ _ ⟨⟩)

/-- The condition on a step: snapshots are settled and, for a point in time, timely. -/
def Restorable (target : PointInTimeTarget) (recorded : RecordedEngine) (call : EngineCall) :
    Prop :=
  recorded.Settled call ∧ (target.timed = true → recorded.Timely call)

instance (target : PointInTimeTarget) (recorded : RecordedEngine) (call : EngineCall) :
    Decidable (recorded.Restorable target call) := inferInstanceAs (Decidable (_ ∧ (_ → _)))

theorem Traced.manifest_sequence (traced : recorded.Traced) {manifest : Manifest}
    (described : manifest ∈ recorded.engine.disk.manifest) (nowMs : Nat) :
    manifest.lastSnapshotSequence =
        (recorded.engine.snapshotBaseline nowMs).metadata.lastAppliedSequence ∧
      manifest.lastSnapshotSequence ≤ recorded.history.length := by
  obtain ⟨state, loaded, -⟩ := traced.recoverable.rebuilds nowMs
  obtain ⟨saved, held, describes⟩ := (Engine.recoveryBaseline_ok loaded).2.2 manifest described
  have same : manifest.lastSnapshotSequence =
      (recorded.engine.snapshotBaseline nowMs).metadata.lastAppliedSequence := by
    rw [describes.2.2.2, Engine.snapshotBaseline, Option.mem_def.mp held]
    rfl
  refine ⟨same, ?_⟩
  obtain ⟨start, base, baseline⟩ := traced.baseline
  have here := baseline.position nowMs
  have bound := baseline.bound
  omega

/-- Every snapshot has a manifest; for a point in time, no entry in it is dated later. -/
structure Dated (target : PointInTimeTarget) (recorded : RecordedEngine) : Prop where
  traced : recorded.Traced
  bare : recorded.engine.disk.manifest = none → recorded.engine.disk.snapshot = none
  dates : target.timed = true → ∀ manifest ∈ recorded.engine.disk.manifest,
    ∀ entry ∈ recorded.history.take manifest.lastSnapshotSequence,
      entry.createdAtMs ≤ manifest.lastSnapshotAtMs

theorem Dated.step {call : EngineCall} (dated : recorded.Dated target)
    (restorable : recorded.Restorable target call) (taken : recorded.step call = some next) :
    next.Dated target := by
  refine ⟨dated.traced.step restorable.1 taken, ?_, ?_⟩
  all_goals
    rcases dated.traced.step_cases taken with
      ⟨entries, history, -, appended⟩ | ⟨reading, command, action, snapshots, history, snapshotted⟩
  · rw [appended.disk]
    exact dated.bare
  · obtain ⟨walDir, described⟩ := snapshotted.described
    rw [described]
    rintro ⟨⟩
  · rw [appended.disk]
    intro timed manifest described entry member
    have inside := (dated.traced.manifest_sequence described 0).2
    rw [history, List.take_append_of_le_length inside] at member
    exact dated.dates timed manifest described entry member
  · obtain ⟨walDir, described⟩ := snapshotted.described
    rw [described, history]
    rintro timed manifest ⟨⟩ entry member
    exact restorable.2 timed reading command action snapshots entry (List.mem_of_mem_take member)

theorem dated_of_run {options : EngineOptions} {startMs : Nat} {calls : List EngineCall}
    (reached : run step (create options startMs) calls = some recorded)
    (restorable : Meets step (Restorable target) (create options startMs) calls) :
    recorded.Dated target := by
  have initially : (create options startMs).Dated target :=
    ⟨traced_create options startMs, fun _ => rfl, by rintro - manifest ⟨⟩⟩
  exact invariant_of_meets (fun _ _ _ dated restorable taken => dated.step restorable taken)
    initially restorable reached

theorem Traced.reaches_downward (traced : recorded.Traced)
    (ordered : recorded.history.Pairwise fun a b => a.createdAtMs ≤ b.createdAtMs)
    (target : PointInTimeTarget) :
    recorded.history.Pairwise fun a b => target.reaches b = true → target.reaches a = true := by
  cases target with
  | sequence wanted =>
    refine traced.numbered.pairwise.imp ?_
    intro a b before
    simp only [PointInTimeTarget.reaches, decide_eq_true_eq]
    omega
  | timestampMs wantedMs =>
    refine ordered.imp ?_
    intro a b before
    simp only [PointInTimeTarget.reaches, decide_eq_true_eq]
    omega

def reachedPosition (recorded : RecordedEngine) (target : PointInTimeTarget) : Nat :=
  (recorded.history.filter target.reaches).length

section Reached

variable (traced : recorded.Traced)
  (ordered : recorded.history.Pairwise fun a b => a.createdAtMs ≤ b.createdAtMs)
include traced ordered

/-- A point reaches the entries up to its position. -/
theorem Traced.reaches_iff {entry : WalEntry} (member : entry ∈ recorded.history) :
    target.reaches entry = true ↔ entry.sequence ≤ recorded.reachedPosition target := by
  rw [traced.numbered.selects_iff (traced.reaches_downward ordered target) member, Nat.add_comm,
    Nat.lt_succ_iff]
  rfl

theorem Traced.takeWhile_reaches :
    recorded.engine.walEntries.takeWhile target.reaches =
      recorded.engine.logUpTo (recorded.reachedPosition target) := by
  obtain ⟨start, base, baseline⟩ := traced.baseline
  have suffix : recorded.engine.walEntries.Sublist recorded.history := by
    rw [baseline.window]
    exact List.drop_sublist start recorded.history
  rw [takeWhile_eq_filter ((traced.reaches_downward ordered target).sublist suffix)]
  refine List.filter_congr fun entry member => ?_
  rw [Bool.eq_iff_iff, traced.reaches_iff ordered (suffix.mem member), decide_eq_true_eq]

omit traced in
theorem Dated.snapshot_reached (dated : recorded.Dated target) (nowMs : Nat)
    (checked : target.checkBaseline
      ((recorded.engine.disk.manifest.map Manifest.lastSnapshotSequence).getD 0)
      ((recorded.engine.disk.manifest.map Manifest.lastSnapshotAtMs).getD 0) = .ok ()) :
    (recorded.engine.snapshotBaseline nowMs).metadata.lastAppliedSequence ≤
      recorded.reachedPosition target := by
  cases described : recorded.engine.disk.manifest with
  | none =>
    rw [Engine.snapshotBaseline, dated.bare described]
    exact Nat.zero_le _
  | some manifest =>
    obtain ⟨same, bound⟩ := dated.traced.manifest_sequence described nowMs
    rw [← same]
    rw [described] at checked
    rcases Nat.eq_zero_or_pos manifest.lastSnapshotSequence with zero | positive
    · rw [zero]
      exact Nat.zero_le _
    -- the last entry of the snapshot decides
    have inside : manifest.lastSnapshotSequence - 1 < recorded.history.length := by omega
    have found := List.getElem?_eq_getElem inside
    have numbered := dated.traced.numbered.number_eq found
    have member := List.mem_of_getElem? found
    generalize recorded.history[manifest.lastSnapshotSequence - 1] = last at *
    have sequence : last.sequence = manifest.lastSnapshotSequence := by omega
    rw [← sequence, ← dated.traced.reaches_iff ordered member]
    cases target with
    | sequence wanted =>
      simp only [PointInTimeTarget.checkBaseline, Option.map_some, Option.getD_some] at checked
      split at checked
      · cases checked
      · simp only [PointInTimeTarget.reaches, decide_eq_true_eq]
        omega
    | timestampMs wantedMs =>
      have taken : last ∈ recorded.history.take manifest.lastSnapshotSequence :=
        List.mem_of_getElem? ((List.getElem?_take_of_lt (by omega)).trans found)
      have date := dated.dates rfl manifest described last taken
      simp only [PointInTimeTarget.checkBaseline, Option.map_some, Option.getD_some] at checked
      split at checked
      · cases checked
      · simp only [PointInTimeTarget.reaches, decide_eq_true_eq]
        omega

end Reached

theorem Traced.after_logUpTo (traced : recorded.Traced) {metadata : EngineMetadata}
    {nowMs sequence : Nat}
    (loaded : metadata.lastAppliedSequence =
      (recorded.engine.snapshotBaseline nowMs).metadata.lastAppliedSequence)
    (behind : metadata.lastAppliedSequence ≤ sequence)
    (bound : sequence ≤ recorded.history.length) :
    (metadata.after (recorded.engine.logUpTo sequence)).lastAppliedSequence = sequence := by
  obtain ⟨start, base, baseline⟩ := traced.baseline
  rw [baseline.position] at loaded
  have order := baseline.order
  have shifted : sequence + 1 - (1 + start) = sequence - start := by omega
  have upTo : recorded.engine.logUpTo sequence =
      recorded.engine.walEntries.take (sequence - start) := by
    rw [Engine.logUpTo, (traced.window_numbered baseline).filter_le, shifted]
  have length : (recorded.engine.logUpTo sequence).length = sequence - start := by
    rw [upTo, List.length_take, baseline.window, List.length_drop]
    omega
  have numbered : From WalEntry.sequence (1 + start) (recorded.engine.logUpTo sequence) := by
    rw [upTo]
    exact (traced.window_numbered baseline).take _
  unfold EngineMetadata.after
  cases final : (recorded.engine.logUpTo sequence).getLast? with
  | none =>
    rw [List.getLast?_eq_none_iff.mp final, List.length_nil] at length
    dsimp only
    omega
  | some last =>
    have ends := numbered.getLast?_number final
    dsimp only
    omega

/-- **A point-in-time restore is exact.** After every run in which all snapshots are settled, and
timely if the point is a time, a restore that is not refused opens with the keyspace the source
had right after the last entry the point reaches. -/
theorem restored_point_is_exact (options : EngineOptions) (startMs : Nat)
    (calls : List EngineCall) (recorded : RecordedEngine) (target : PointInTimeTarget)
    (reached : run step (create options startMs) calls = some recorded)
    (restorable : Meets step (Restorable target) (create options startMs) calls)
    (ordered : recorded.history.Pairwise fun a b => a.createdAtMs ≤ b.createdAtMs)
    (sameDataDir : Bool) (targetDisk disk : Disk) (fresh : targetDisk.legacyWal = false)
    (nowMs restoredAtMs : Nat)
    (restored : Engine.restoreToPoint sameDataDir recorded.engine.disk targetDisk target nowMs
      restoredAtMs = .ok disk) (openOptions : EngineOptions) (openMs : Nat) :
    ∃ opened position, Engine.fromPathsWithOptions disk openOptions openMs = .ok opened ∧
      position ≤ recorded.history.length ∧
      (∀ entry ∈ recorded.history, target.reaches entry = true ↔ entry.sequence ≤ position) ∧
      recorded.keyspaceAt position = .ok opened.state.store ∧
      (∀ first rest earlier, calls = first ++ rest →
        run step (create options startMs) first = some earlier →
        earlier.engine.lastAppliedSequence = position →
        opened.state.store = earlier.engine.state.store) ∧
      opened.lastAppliedSequence = position := by
  have dated := dated_of_run reached restorable
  have traced := dated.traced
  unfold Engine.restoreToPoint at restored
  split at restored
  · cases restored
  split at restored
  · cases restored
  obtain ⟨state, loaded, restored⟩ := Except.bind_eq_ok_iff.mp restored
  obtain ⟨⟨⟩, checked, restored⟩ := Except.bind_eq_ok_iff.mp restored
  obtain ⟨entries, replayed, restored⟩ := Except.bind_eq_ok_iff.mp restored
  obtain ⟨⟨⟩, -, restored⟩ := Except.bind_eq_ok_iff.mp restored
  obtain ⟨rebuilt, applied, restored⟩ := Except.bind_eq_ok_iff.mp restored
  cases restored
  obtain ⟨loadedStore, loadedPosition, -⟩ := Engine.recoveryBaseline_ok loaded
  have behind := dated.snapshot_reached ordered nowMs checked
  have bound : recorded.reachedPosition target ≤ recorded.history.length :=
    List.length_filter_le _ _
  obtain rfl : entries = recorded.engine.logUpTo (recorded.reachedPosition target) := by
    have read := traced.recoverable.stored.replay_eq traced.recoverable.readable
    rw [WalDir.replayUntil, read] at replayed
    rw [← traced.takeWhile_reaches ordered]
    exact (Except.ok.inj replayed).symm
  obtain ⟨store, rerun, rfl⟩ := (EngineState.replayEntries_ok_iff _ _ _).mp applied
  have keyspace : recorded.keyspaceAt (recorded.reachedPosition target) = .ok store := by
    rw [loadedStore, ← List.append_nil (recorded.engine.logUpTo _)] at rerun
    obtain ⟨before, there, following⟩ := traced.replay_logUpTo behind rerun
    rw [there]
    exact following
  obtain ⟨opened, opens, openedStore, position⟩ := Engine.writeRestored_opens fresh
    ⟨store, state.metadata.after (recorded.engine.logUpTo (recorded.reachedPosition target))⟩
    restoredAtMs openOptions openMs
  refine ⟨opened, recorded.reachedPosition target, opens, bound,
    fun entry member => traced.reaches_iff ordered member, ?_, ?_, ?_⟩
  · rw [openedStore]
    exact keyspace
  · rintro first rest earlier rfl before here
    have known := keyspaceAt_of_run reached
      (meets_imp _ (fun _ _ restorable => restorable.1) restorable) before
    rw [here, keyspace] at known
    rw [openedStore]
    exact Except.ok.inj known
  · rw [position]
    exact traced.after_logUpTo loadedPosition (loadedPosition.trans_le behind) bound

end Restoring

end RecordedEngine

section Runs

open Sample RecordedEngine Engine

/-- A restore to the time of the snapshot, which was taken between two writes. -/
theorem restored_point_is_exact_between_writes :
    ∃ recorded ∈ run step (create ⟨0, 1⟩ 0) rewrittenCalls,
      ∃ disk, restoreToPoint false recorded.engine.disk .empty (.timestampMs 1) 8 9 = .ok disk ∧
        ∃ opened position, fromPathsWithOptions disk ⟨0, 1⟩ 10 = .ok opened ∧
          (∀ entry ∈ recorded.history, entry.createdAtMs ≤ 1 ↔ entry.sequence ≤ position) ∧
          recorded.keyspaceAt position = .ok opened.state.store := by
  obtain ⟨recorded, reached, ⟨disk, restored, -⟩, ordered⟩ :
      ∃ recorded ∈ run step (create ⟨0, 1⟩ 0) rewrittenCalls,
        (∃ disk ∈ (restoreToPoint false recorded.engine.disk .empty (.timestampMs 1) 8 9).toOption,
          True) ∧ recorded.history.Pairwise fun a b => a.createdAtMs ≤ b.createdAtMs := by
    decide +kernel
  replace restored := Except.eq_ok_of_mem_toOption restored
  have restorable : Meets step (Restorable (.timestampMs 1)) (create ⟨0, 1⟩ 0) rewrittenCalls := by
    decide +kernel
  obtain ⟨opened, position, opens, -, reaches, keyspace, -⟩ :=
    restored_point_is_exact ⟨0, 1⟩ 0 rewrittenCalls recorded (.timestampMs 1) reached restorable
      ordered false .empty disk rfl 8 9 restored ⟨0, 1⟩ 10
  refine ⟨recorded, reached, disk, restored, opened, position, opens, ?_, keyspace⟩
  intro entry member
  rw [← reaches entry member]
  simp [PointInTimeTarget.reaches]

/-- The source holds 1 right after its only entry; restored to that entry it holds 2. -/
theorem restored_point_recounts :
    ∃ recorded ∈ run step (create ⟨0, 1⟩ 0) recountedCalls,
      recorded.engine.lastAppliedSequence = 1 ∧
      recorded.engine.state.store.get "k" = some ⟨[49], none, 1⟩ ∧
      ∃ disk ∈ (restoreToPoint false recorded.engine.disk .empty (.sequence 1) 8 9).toOption,
        ∃ opened ∈ (fromPathsWithOptions disk ⟨0, 1⟩ 10).toOption,
          opened.state.store.get "k" = some ⟨[50], none, 2⟩ := by
  decide +kernel

end Runs

end Vaylix

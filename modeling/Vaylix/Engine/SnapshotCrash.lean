import Vaylix.Engine.SnapshotRecovery

/-!
# A crash inside a snapshot

A snapshot replaces its file, seals the active segment, creates the next one, removes old
segments, and replaces the manifest. Until then recovery checks the new snapshot against the
description of the old one.
-/

namespace Vaylix

open EngineStore LabelledRun NumberedLog

inductive SnapshotStage where
  | started
  | saved
  | sealed
  | created
  | pruned (removed : Nat)
  | described
deriving DecidableEq, Repr

namespace Engine

variable [Codec]

def createdDir (engine : Engine) : Option WalDir :=
  engine.disk.walDir.sealActive.toOption.map fun sealed =>
    (WalWriter.open (sealed.createActiveSegment (engine.lastAppliedSequence + 1))
      (engine.lastAppliedSequence + 1)).1

/-- The directory a crash of `snapshot` leaves, if it gets as far. -/
def snapshotDisk (engine : Engine) (reading : Reading) (stage : SnapshotStage) : Option Disk :=
  let saved := { engine.disk with snapshot := some (engine.durableState reading) }
  match stage with
  | .started => some engine.disk
  | .saved => some saved
  | .sealed => engine.disk.walDir.sealActive.toOption.map fun sealed =>
      { saved with walDir := sealed }
  | .created => engine.createdDir.map fun created => { saved with walDir := created }
  | .pruned removed => engine.createdDir.bind fun created =>
      if removed ≤ created.sealedFiles.length - engine.options.walRetainSegments then
        some { saved with walDir := created.removeOldest removed }
      else none
  | .described => engine.createdDir.map fun created =>
      let walDir := created.pruneSealedSegments engine.options.walRetainSegments
      { saved with
        walDir := walDir
        manifest := some (snapshotManifest (engine.durableState reading) walDir
          engine.lastAppliedSequence reading.later) }

variable {engine : Engine} {reading : Reading} {stage : SnapshotStage} {disk : Disk}

theorem manifest_of_stage (before : stage ≠ .described)
    (there : engine.snapshotDisk reading stage = some disk) :
    disk.manifest = engine.disk.manifest := by
  cases stage with
  | started | saved =>
    cases there
    rfl
  | «sealed» | created =>
    obtain ⟨dir, -, rfl⟩ := Option.map_eq_some_iff.mp there
    rfl
  | pruned removed =>
    obtain ⟨created, -, kept⟩ := Option.bind_eq_some_iff.mp there
    split at kept
    · cases kept
      rfl
    · cases kept
  | described => exact absurd rfl before

theorem describes_of_described (there : engine.snapshotDisk reading .described = some disk) :
    ∀ manifest ∈ disk.manifest, manifest.Describes (engine.durableState reading) := by
  obtain ⟨created, -, rfl⟩ := Option.map_eq_some_iff.mp there
  rintro manifest ⟨⟩
  exact ⟨rfl, rfl, rfl, rfl⟩

/-- The new snapshot, and a readable last part of the log. -/
structure Interrupted (engine : Engine) (reading : Reading) (disk : Disk) : Prop where
  legacy : disk.legacyWal = engine.disk.legacyWal
  saved : disk.snapshot = some (engine.durableState reading)
  log : ∃ first pruned kept, engine.walEntries = pruned ++ kept ∧
    From WalEntry.sequence first kept ∧ first + kept.length = engine.lastAppliedSequence + 1 ∧
    disk.walDir.replay = .ok kept

theorem interrupted_of_stage (stored : engine.LogStored)
    (readable : WalDir.Readable engine.walEntries) (behind : stage ≠ .started)
    (there : engine.snapshotDisk reading stage = some disk) :
    engine.Interrupted reading disk := by
  obtain ⟨first, files, sealedFrom, held, next, sealing, opening, -⟩ := stored.sealing readable
  have created : engine.createdDir =
      some (files ++ [⟨engine.lastAppliedSequence + 1, none, []⟩]) := by
    simp only [createdDir, sealing, Except.toOption, Option.map_some, opening]
  have numbered : From WalEntry.sequence first engine.walEntries := held ▸ sealedFrom.numbered
  have ends : first + engine.walEntries.length = engine.lastAppliedSequence + 1 := by
    rw [next, held]
  -- the oldest files may be gone already
  have pruned : ∀ removed, ∃ first pruned kept, engine.walEntries = pruned ++ kept ∧
      From WalEntry.sequence first kept ∧ first + kept.length = engine.lastAppliedSequence + 1 ∧
      WalDir.replay (files.drop removed ++ [⟨engine.lastAppliedSequence + 1, none, []⟩]) =
        .ok kept := by
    intro removed
    obtain ⟨keptFrom, split⟩ := sealedFrom.drop removed
    have behindKept := next
    rw [split, List.length_append, ← Nat.add_assoc] at behindKept
    have layout := keptFrom.fresh behindKept
    have read := layout.replay_eq (readable.mono fun entry member => by
      rw [← held, split]
      exact List.mem_append_right _ (by simpa using member))
    rw [List.append_nil] at read
    exact ⟨_, _, _, held.symm.trans split, keptFrom.numbered, behindKept.symm, read⟩
  cases stage with
  | started => exact absurd rfl behind
  | saved =>
    cases there
    exact ⟨rfl, rfl, first, [], _, rfl, numbered, ends, stored.replay_eq readable⟩
  | «sealed» =>
    simp only [snapshotDisk, sealing, Except.toOption, Option.map_some, Option.some.injEq] at there
    subst there
    have read := sealedFrom.replay_eq (held ▸ readable)
    rw [held] at read
    exact ⟨rfl, rfl, first, [], _, rfl, numbered, ends, read⟩
  | created =>
    simp only [snapshotDisk, created, Option.map_some, Option.some.injEq] at there
    subst there
    exact ⟨rfl, rfl, pruned 0⟩
  | pruned removed =>
    simp only [snapshotDisk, created, Option.bind_some] at there
    split at there
    · cases there
      refine ⟨rfl, rfl, ?_⟩
      rw [(sealedFrom.fresh next).removeOldest_eq]
      exact pruned removed
    · cases there
  | described =>
    simp only [snapshotDisk, created, Option.map_some, Option.some.injEq] at there
    subst there
    refine ⟨rfl, rfl, ?_⟩
    rw [(sealedFrom.fresh next).pruneSealedSegments_eq]
    exact pruned _

theorem describes_of_opened {state : EngineState} {options : EngineOptions} {nowMs : Nat}
    (saved : disk.snapshot = some state)
    (opened : fromPathsWithOptions disk options nowMs = .ok engine) :
    ∀ manifest ∈ disk.manifest, manifest.Describes state := by
  intro manifest described
  obtain ⟨-, baseline, entries, identities, loadedState, loaded, -⟩ :=
    fromPathsWithOptions_ok_iff.mp opened
  obtain ⟨found, held, describes⟩ := (recoveryBaseline_ok loaded).2.2 manifest described
  rw [saved] at held
  cases held
  exact describes

def Uncounted (engine : Engine) : Prop :=
  ∀ entry ∈ engine.walEntries, ∀ key delta, .checkInteger key delta ∉ entry.operations

namespace Uncounted

variable {engine next : Engine}

omit [Codec] in
theorem settled {pruned kept : List WalEntry} (uncounted : engine.Uncounted)
    (suffix : engine.walEntries = pruned ++ kept) :
    CountersSettled (kept.flatMap WalEntry.operations) := by
  refine countersSettled_of_uncounted fun key delta member => ?_
  obtain ⟨entry, inside, counts⟩ := List.mem_flatMap.mp member
  refine uncounted entry ?_ key delta counts
  rw [suffix]
  exact List.mem_append_right _ inside

variable {reading : Reading} {command : Command}

theorem direct (uncounted : engine.Uncounted) (plain : command ≠ .save ∧ command ≠ .snapshot)
    (counter : command.counterKey = none) :
    (engine.executeCommand reading command).1.Uncounted := by
  intro entry inside key delta counts
  rw [(Appended.direct engine plain).log] at inside
  rcases List.mem_append.mp inside with old | new
  · exact uncounted entry old key delta counts
  rw [EngineAction.logged] at new
  cases found : engine.state.prepareCommand reading command with
  | none =>
    rw [found] at new
    cases new
  | some prepared =>
    rw [found] at new
    obtain ⟨operations, logged, rfl⟩ := List.mem_map.mp new
    have anchored := EngineState.prepareCommand_anchors engine.state counter found operations
      (Option.mem_toList.mp logged)
    exact anchored.not_checkInteger key delta counts

theorem step {call : EngineCall} (uncounted : engine.Uncounted) (recoverable : engine.Recoverable)
    (action : call.action = .direct reading command) (counter : command.counterKey = none)
    (taken : engine.storageStep call = some next) : next.Uncounted ∧ next.Recoverable := by
  have settled : engine.SettledSnapshot call := by
    intro _
    obtain ⟨first, files, sealedFrom, held, -, -, -, window⟩ :=
      recoverable.stored.sealing recoverable.readable
    have split := (sealedFrom.drop (files.length - engine.options.walRetainSegments)).2
    rw [held, ← window] at split
    exact uncounted.settled split
  refine ⟨?_, recoverable.step settled taken⟩
  rcases recoverable.step_cases taken with ⟨plain, -⟩ | ⟨_, _, -, -, snapshotted⟩
  · unfold storageStep at taken
    dsimp only at taken
    split at taken
    · cases taken
      rw [action] at plain ⊢
      have called : (engine.setConsensusTerm call.term).Uncounted := uncounted
      refine called.direct ⟨?_, ?_⟩ counter
      · rintro rfl
        cases plain
      · rintro rfl
        cases plain
    · cases taken
  · obtain ⟨pruned, suffix⟩ := snapshotted.suffix
    intro entry inside
    rw [snapshotted.log] at inside
    refine uncounted entry ?_
    change entry ∈ (engine.setConsensusTerm call.term).walEntries
    rw [suffix]
    exact List.mem_append_right _ inside

end Uncounted

theorem Interrupted.reopens (interrupted : engine.Interrupted reading disk)
    (recoverable : engine.Recoverable) (uncounted : engine.Uncounted)
    (describes : ∀ manifest ∈ disk.manifest, manifest.Describes (engine.durableState reading))
    (options : EngineOptions) (nowMs : Nat) :
    ∃ reopened, fromPathsWithOptions disk options nowMs = .ok reopened ∧
      reopened.state.store = engine.state.store ∧
      reopened.lastAppliedSequence = engine.lastAppliedSequence := by
  obtain ⟨first, pruned, kept, suffix, numbered, ends, read⟩ := interrupted.log
  obtain ⟨baseline, loaded, store, position⟩ :=
    recoveryBaseline_of_describes nowMs interrupted.saved describes
  have unchanged : (engine.durableState reading).store = engine.state.store :=
    recoverable.unexpiring.purgeExpired_eq reading.now
  refine reopens_of_replay (interrupted.legacy.trans recoverable.modern) loaded read numbered ends
    ?_ (fun _ => position) options
  rw [store, unchanged]
  exact recoverable.suffix_again suffix (uncounted.settled suffix)

end Engine

def EngineCall.uncounted (call : EngineCall) : Bool :=
  match call.action with
  | .direct _ command => command.counterKey.isNone
  | _ => false

namespace Engine

variable [Codec]

theorem uncounted_of_run {options : EngineOptions} {startMs : Nat} {calls : List EngineCall}
    {engine : Engine} (uncounted : ∀ call ∈ calls, call.uncounted = true)
    (reached : run storageStep (Engine.create options startMs) calls = some engine) :
    engine.Uncounted ∧ engine.Recoverable := by
  have initially : (Engine.create options startMs).Uncounted ∧
      (Engine.create options startMs).Recoverable :=
    ⟨by rintro entry ⟨⟩, Recoverable.create options startMs⟩
  have preserved : ∀ (state : Engine) (call : EngineCall) (next : Engine),
      state.Uncounted ∧ state.Recoverable → call.uncounted = true →
      state.storageStep call = some next → next.Uncounted ∧ next.Recoverable := by
    rintro state ⟨term, action⟩ next ⟨held, recoverable⟩ plain taken
    cases action with
    | direct reading command =>
      exact held.step recoverable rfl (Option.isNone_iff_eq_none.mp plain) taken
    | _ => cases plain
  exact invariant_of_meets preserved initially (meets_of_forall storageStep uncounted _) reached

/-- **A crash inside a snapshot.** In every run of direct commands and snapshots without integer
updates and expirations, the directory it leaves is reopened with the same keyspace and position
exactly when nothing was replaced yet, when the manifest was, or when the manifest of the previous
snapshot, if there is one, also describes the new snapshot. -/
theorem interrupted_snapshot_recovers_iff (options reopenOptions : EngineOptions)
    (startMs reopenMs : Nat) (calls : List EngineCall) (engine : Engine)
    (uncounted : ∀ call ∈ calls, call.uncounted = true)
    (reached : run storageStep (Engine.create options startMs) calls = some engine)
    (reading : Reading) (stage : SnapshotStage) (disk : Disk)
    (there : engine.snapshotDisk reading stage = some disk) :
    (∃ reopened, fromPathsWithOptions disk reopenOptions reopenMs = .ok reopened ∧
      reopened.state.store = engine.state.store ∧
      reopened.lastAppliedSequence = engine.lastAppliedSequence) ↔
    stage = .started ∨ stage = .described ∨
      ∀ manifest ∈ engine.disk.manifest, manifest.Describes (engine.durableState reading) := by
  obtain ⟨plain, recoverable⟩ := uncounted_of_run uncounted reached
  by_cases started : stage = .started
  · subst started
    cases there
    exact ⟨fun _ => .inl rfl, fun _ => recoverable.reopen reopenOptions reopenMs⟩
  have interrupted :=
    interrupted_of_stage recoverable.stored recoverable.readable started there
  by_cases described : stage = .described
  · subst described
    refine ⟨fun _ => .inr (.inl rfl), fun _ => ?_⟩
    refine interrupted.reopens recoverable plain ?_ reopenOptions reopenMs
    exact describes_of_described there
  · have same : disk.manifest = engine.disk.manifest := manifest_of_stage described there
    constructor
    · rintro ⟨reopened, opened, -⟩
      rw [← same]
      exact .inr (.inr (describes_of_opened interrupted.saved opened))
    · rintro (first | last | describes)
      · exact absurd first started
      · exact absurd last described
      · exact interrupted.reopens recoverable plain (same ▸ describes) reopenOptions reopenMs

end Engine

section Runs

open Sample Engine

/-- The first snapshot has no manifest to contradict it. -/
theorem first_snapshot_recovers_saved :
    ∃ engine ∈ run storageStep (Engine.create ⟨0, 1⟩ 0)
        [⟨1, .direct (.still 0) (.set "k" [49] {})⟩],
      ∃ disk ∈ engine.snapshotDisk (.still 1) .saved,
        ∃ reopened, fromPathsWithOptions disk ⟨0, 1⟩ 9 = .ok reopened ∧
          reopened.state.store = engine.state.store ∧
          reopened.lastAppliedSequence = engine.lastAppliedSequence := by
  obtain ⟨engine, reached, bare⟩ : ∃ engine ∈ run storageStep (Engine.create ⟨0, 1⟩ 0)
      [⟨1, .direct (.still 0) (.set "k" [49] {})⟩], engine.disk.manifest = none := by
    decide +kernel
  refine ⟨engine, reached, _, rfl, ?_⟩
  refine (interrupted_snapshot_recovers_iff ⟨0, 1⟩ ⟨0, 1⟩ 0 9 _ engine (by decide) reached
    (.still 1) .saved _ rfl).mpr (.inr (.inr ?_))
  rw [bare]
  rintro manifest ⟨⟩

/-- A second snapshot crashes right after its file was replaced, and the directory does not
open. -/
theorem interrupted_snapshot_mismatch :
    ∃ engine ∈ run storageStep (Engine.create ⟨0, 1⟩ 0)
        [⟨1, .direct (.still 0) (.set "k" [49] {})⟩, ⟨1, .direct (.still 1) .snapshot⟩,
          ⟨1, .direct (.still 2) (.set "k" [50] {})⟩],
      ∃ disk ∈ engine.snapshotDisk (.still 3) .saved,
        (fromPathsWithOptions disk ⟨0, 1⟩ 9).map (fun _ => ()) =
          .error (.checksumMismatch "snapshot") := by
  decide +kernel

end Runs

end Vaylix

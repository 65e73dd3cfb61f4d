import Vaylix.Engine.SnapshotRecovery

/-!
# An engine beside its whole history

Replaying the first `p` entries ever appended gives the keyspace right after entry `p`. The
retained log is a suffix of this history, and the snapshot holds the keyspace at some position
of it.
-/

namespace Vaylix

open EngineStore LabelledRun NumberedLog

structure RecordedEngine where
  engine : Engine
  history : List WalEntry

namespace RecordedEngine

def keyspaceAt (recorded : RecordedEngine) (sequence : Nat) : Except EngineError EngineStore :=
  replayStore .new (recorded.history.take sequence)

end RecordedEngine

/-- The snapshot holds the keyspace at position `base` of the history, the log starts behind
position `start`, and the entries between change nothing over the snapshot. -/
structure Engine.Baseline (engine : Engine) (history : List WalEntry) (start base : Nat) :
    Prop where
  order : start ≤ base
  bound : base ≤ history.length
  window : engine.walEntries = history.drop start
  position : ∀ nowMs, (engine.snapshotBaseline nowMs).metadata.lastAppliedSequence = base
  state : ∀ nowMs, replayStore .new (history.take base) = .ok (engine.snapshotBaseline nowMs).store
  overlap : ∀ nowMs, replayStore (engine.snapshotBaseline nowMs).store
    ((history.take base).drop start) = .ok (engine.snapshotBaseline nowMs).store

namespace Engine.Baseline

variable {engine next : Engine} {history : List WalEntry} {start base : Nat}

/-- **The retained entries lead from the snapshot to the keyspace at a later position.** -/
theorem replay_upTo (baseline : engine.Baseline history start base) {sequence : Nat}
    (behind : base ≤ sequence) (nowMs : Nat) :
    replayStore (engine.snapshotBaseline nowMs).store ((history.take sequence).drop start) =
      replayStore .new (history.take sequence) := by
  have taken : history.take sequence =
      history.take base ++ (history.take sequence).drop base := by
    have shorter : (history.take sequence).take base = history.take base := by
      rw [List.take_take, Nat.min_eq_left behind]
    conv_lhs => rw [← List.take_append_drop base (history.take sequence), shorter]
  have inside : start ≤ (history.take base).length := by
    rw [List.length_take, Nat.min_eq_left baseline.bound]
    exact baseline.order
  calc replayStore (engine.snapshotBaseline nowMs).store ((history.take sequence).drop start)
      = replayStore (engine.snapshotBaseline nowMs).store
          ((history.take base).drop start ++ (history.take sequence).drop base) := by
        conv_lhs => rw [taken, List.drop_append_of_le_length inside]
    _ = replayStore (engine.snapshotBaseline nowMs).store ((history.take sequence).drop base) :=
        replayStore_append_ok (baseline.overlap nowMs)
    _ = replayStore .new (history.take sequence) := by
        conv_rhs => rw [taken, replayStore_append_ok (baseline.state nowMs)]

theorem create [Codec] (options : EngineOptions) (nowMs : Nat) :
    (Engine.create options nowMs).Baseline [] 0 0 where
  order := le_rfl
  bound := le_rfl
  window := rfl
  position _ := rfl
  state _ := rfl
  overlap _ := rfl

theorem grow [Codec] {entries : List WalEntry} (baseline : engine.Baseline history start base)
    (appended : engine.Appended next entries) : next.Baseline (history ++ entries) start base := by
  have same : ∀ nowMs, next.snapshotBaseline nowMs = engine.snapshotBaseline nowMs := by
    intro nowMs
    simp only [snapshotBaseline, appended.disk]
  have taken : (history ++ entries).take base = history.take base :=
    List.take_append_of_le_length baseline.bound
  refine ⟨baseline.order, ?_, ?_, ?_, ?_, ?_⟩
  · rw [List.length_append]
    exact baseline.bound.trans (Nat.le_add_right _ _)
  · rw [appended.log, baseline.window,
      List.drop_append_of_le_length (baseline.order.trans baseline.bound)]
  · intro nowMs
    rw [same]
    exact baseline.position nowMs
  · intro nowMs
    rw [same, taken]
    exact baseline.state nowMs
  · intro nowMs
    rw [same, taken]
    exact baseline.overlap nowMs

theorem snapshotted [Codec] {reading : Reading} {pruned : List WalEntry}
    (baseline : engine.Baseline history start base) (recoverable : engine.Recoverable)
    (position : engine.lastAppliedSequence = history.length)
    (rebuilt : replayStore .new history = .ok engine.state.store)
    (snapshotted : Snapshotted engine next reading)
    (suffix : engine.walEntries = pruned ++ engine.retainedWindow)
    (settled : CountersSettled (engine.retainedWindow.flatMap WalEntry.operations)) :
    next.Baseline history (start + pruned.length) history.length := by
  have store : (engine.durableState reading).store = engine.state.store :=
    recoverable.unexpiring.purgeExpired_eq reading.now
  have saved : ∀ nowMs, next.snapshotBaseline nowMs = engine.durableState reading := by
    intro nowMs
    simp only [snapshotBaseline, snapshotted.saved, Option.getD_some]
  have window : engine.retainedWindow = history.drop (start + pruned.length) := by
    have kept := congrArg (List.drop pruned.length) suffix
    rw [List.drop_left, baseline.window, List.drop_drop] at kept
    exact kept.symm
  have lengths := congrArg List.length suffix
  rw [baseline.window, List.length_drop, List.length_append] at lengths
  have order := baseline.order.trans baseline.bound
  refine ⟨by omega, le_rfl, ?_, ?_, ?_, ?_⟩
  · rw [snapshotted.log, window]
  · intro nowMs
    rw [saved]
    exact position
  · intro nowMs
    rw [saved, store, List.take_length]
    exact rebuilt
  · intro nowMs
    rw [saved, store, List.take_length, ← window]
    exact recoverable.suffix_again suffix settled

end Engine.Baseline

namespace RecordedEngine

variable [Codec]

def create (options : EngineOptions) (nowMs : Nat) : RecordedEngine :=
  ⟨Engine.create options nowMs, []⟩

def step (recorded : RecordedEngine) (call : EngineCall) : Option RecordedEngine :=
  (recorded.engine.storageStep call).map fun next =>
    ⟨next, recorded.history ++ next.walEntries.drop recorded.engine.walEntries.length⟩

def Settled (recorded : RecordedEngine) (call : EngineCall) : Prop :=
  recorded.engine.SettledSnapshot call

instance (recorded : RecordedEngine) (call : EngineCall) : Decidable (recorded.Settled call) :=
  inferInstanceAs (Decidable (recorded.engine.SettledSnapshot call))

structure Traced (recorded : RecordedEngine) : Prop where
  recoverable : recorded.engine.Recoverable
  numbered : From WalEntry.sequence 1 recorded.history
  position : recorded.engine.lastAppliedSequence = recorded.history.length
  rebuilt : replayStore .new recorded.history = .ok recorded.engine.state.store
  baseline : ∃ start base, recorded.engine.Baseline recorded.history start base

variable {recorded next : RecordedEngine}

theorem traced_create (options : EngineOptions) (nowMs : Nat) : (create options nowMs).Traced :=
  ⟨.create options nowMs, trivial, rfl, rfl, 0, 0, .create options nowMs⟩

/-- What a step does to the history: it grows as the log does, or stays at a snapshot. -/
theorem Traced.step_cases {call : EngineCall} (traced : recorded.Traced)
    (taken : recorded.step call = some next) :
    (∃ entries, next.history = recorded.history ++ entries ∧
      (∀ entry ∈ next.engine.walEntries, entry.admissible = true) ∧
      (recorded.engine.setConsensusTerm call.term).Appended next.engine entries) ∨
    ∃ reading command, call.action = .direct reading command ∧ call.action.snapshots = true ∧
      next.history = recorded.history ∧
      Engine.Snapshotted (recorded.engine.setConsensusTerm call.term) next.engine reading := by
  obtain ⟨engine, stepped, rfl⟩ := Option.map_eq_some_iff.mp taken
  rcases traced.recoverable.step_cases stepped with
    ⟨-, admissible, entries, appended⟩ | ⟨reading, command, action, snapshots, snapshotted⟩
  · refine .inl ⟨entries, ?_, admissible, appended⟩
    have log : engine.walEntries = recorded.engine.walEntries ++ entries := appended.log
    simp only [log, List.drop_left]
  · refine .inr ⟨reading, command, action, snapshots, ?_, snapshotted⟩
    obtain ⟨pruned, suffix⟩ := snapshotted.suffix
    have log : recorded.engine.walEntries = pruned ++ engine.walEntries := by
      rw [snapshotted.log]
      exact suffix
    have shorter : engine.walEntries.length ≤ recorded.engine.walEntries.length := by
      rw [log, List.length_append]
      exact Nat.le_add_left _ _
    simp only [List.drop_eq_nil_of_le shorter, List.append_nil]

/-- A settled step keeps log and snapshot parts of the history. -/
theorem Traced.step {call : EngineCall} (traced : recorded.Traced)
    (settled : recorded.Settled call) (taken : recorded.step call = some next) : next.Traced := by
  have recoverable : next.engine.Recoverable := by
    obtain ⟨engine, stepped, rfl⟩ := Option.map_eq_some_iff.mp taken
    exact traced.recoverable.step settled stepped
  obtain ⟨start, base, baseline⟩ := traced.baseline
  have called : (recorded.engine.setConsensusTerm call.term).Baseline recorded.history start base :=
    ⟨baseline.order, baseline.bound, baseline.window, baseline.position, baseline.state,
      baseline.overlap⟩
  rcases traced.step_cases taken with
    ⟨entries, history, admissible, appended⟩ |
    ⟨reading, command, -, snapshots, history, snapshotted⟩
  · have position : next.engine.lastAppliedSequence = recorded.history.length + entries.length :=
      appended.position.trans (congrArg (· + entries.length) traced.position)
    refine ⟨recoverable, ?_, ?_, ?_, start, base, ?_⟩
    · have numbered := appended.numbered
      rw [history, from_append]
      refine ⟨traced.numbered, ?_⟩
      rw [Nat.add_comm, ← traced.position]
      exact numbered
    · rw [position, history, List.length_append]
    · rw [history, replayStore_append_ok traced.rebuilt]
      refine appended.run traced.recoverable.unexpiring fun entry inside => ?_
      refine Engine.Recoverable.lasting_of_admissible (admissible entry ?_)
      rw [appended.log]
      exact List.mem_append_right _ inside
    · rw [history]
      exact called.grow appended
  · obtain ⟨pruned, suffix⟩ := snapshotted.suffix
    have store : next.engine.state.store = recorded.engine.state.store := by
      rw [snapshotted.state]
      exact traced.recoverable.unexpiring.purgeExpired_eq reading.now
    refine ⟨recoverable, ?_, ?_, ?_, start + pruned.length, recorded.history.length, ?_⟩
    · rw [history]
      exact traced.numbered
    · rw [history, ← traced.position]
      change next.engine.state.metadata.lastAppliedSequence = _
      rw [snapshotted.state]
      rfl
    · rw [history, store]
      exact traced.rebuilt
    · rw [history]
      exact called.snapshotted (traced.recoverable.setConsensusTerm call.term) traced.position
        traced.rebuilt snapshotted suffix (settled snapshots)

variable {options : EngineOptions} {startMs : Nat} {calls : List EngineCall}

theorem traced_of_run
    (reached : run RecordedEngine.step (create options startMs) calls = some recorded)
    (settled : Meets RecordedEngine.step Settled (create options startMs) calls) :
    recorded.Traced :=
  invariant_of_meets (fun _ _ _ traced settled taken => traced.step settled taken)
    (traced_create options startMs) settled reached

theorem Traced.history_isPrefix (traced : recorded.Traced)
    (settled : Meets RecordedEngine.step Settled recorded calls)
    (reached : run RecordedEngine.step recorded calls = some next) :
    recorded.history <+: next.history := by
  induction calls generalizing recorded with
  | nil =>
    obtain rfl : recorded = next := by simpa using reached
    exact List.prefix_rfl
  | cons call rest ih =>
    obtain ⟨middle, taken, following⟩ := (run_cons_eq_some _).mp reached
    have later := ih (traced.step settled.1 taken) (settled.2 middle taken) following
    rcases traced.step_cases taken with ⟨entries, history, -⟩ | ⟨_, _, -, -, history, -⟩
    · exact (history ▸ List.prefix_append _ _).trans later
    · exact history ▸ later

/-- **The keyspace right after entry `p`** is the one the engine had whenever its applied
position was `p`. -/
theorem Traced.keyspaceAt_earlier (traced : recorded.Traced)
    (settled : Meets RecordedEngine.step Settled recorded calls)
    (reached : run RecordedEngine.step recorded calls = some next) :
    next.keyspaceAt recorded.engine.lastAppliedSequence = .ok recorded.engine.state.store := by
  obtain ⟨later, history⟩ := traced.history_isPrefix settled reached
  unfold keyspaceAt
  rw [← history, traced.position, List.take_left, traced.rebuilt]

/-- Earlier keyspaces of a run are those of its history. -/
theorem keyspaceAt_of_run {first rest : List EngineCall} {earlier : RecordedEngine}
    (reached : run RecordedEngine.step (create options startMs) (first ++ rest) = some recorded)
    (settled : Meets RecordedEngine.step Settled (create options startMs) (first ++ rest))
    (before : run RecordedEngine.step (create options startMs) first = some earlier) :
    recorded.keyspaceAt earlier.engine.lastAppliedSequence = .ok earlier.engine.state.store := by
  rw [run_append, before] at reached
  exact (traced_of_run before (meets_left _ settled)).keyspaceAt_earlier
    (meets_append _ settled before) reached

end RecordedEngine

end Vaylix

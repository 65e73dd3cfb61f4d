import Vaylix.Engine.BatchUndo
import Vaylix.Engine.DirectEffects
import Vaylix.Engine.LogIndex

/-!
# What one engine call adds to the log

A call appends consecutively numbered entries. Running them on a keyspace that only has more
expired entries than the engine's keeps that relation, provided that integer updates never
meet an expired entry there and that no failed batch is undone to a point inside the batch.
-/

namespace Vaylix

open EngineStore NumberedLog

inductive EngineAction where
  | direct (reading : Reading) (command : Command)
  | transaction (reading : Reading) (commands : List Command)
  | batch (nowMs : Nat) (commands : List Command)
  | noop (createdAtMs : Nat)
  | sweep (nowMs : Nat)

namespace EngineAction

def startMs : EngineAction → Nat
  | .direct reading _ | .transaction reading _ => reading.now
  | .batch nowMs _ | .noop nowMs | .sweep nowMs => nowMs

def endMs : EngineAction → Nat
  | .direct reading _ | .transaction reading _ => reading.created
  | .batch nowMs _ | .noop nowMs | .sweep nowMs => nowMs

/-- Taking a snapshot prunes the log and is not among the calls considered here. -/
def snapshots : EngineAction → Bool
  | .direct _ .save | .direct _ .snapshot => true
  | _ => false

def perform [Codec] (engine : Engine) : EngineAction → Engine
  | .direct reading command => (engine.executeCommand reading command).1
  | .transaction reading commands => (engine.executeTransaction reading commands).1
  | .batch nowMs commands => (engine.executeCommandBatch nowMs commands).1
  | .noop createdAtMs => (engine.appendNoop createdAtMs).1
  | .sweep nowMs => engine.sweepExpired nowMs

def succeeds [Codec] (engine : Engine) : EngineAction → Bool
  | .direct reading command => (engine.executeCommand reading command).2.isOk
  | .transaction reading commands => (engine.executeTransaction reading commands).2.isOk
  | .batch nowMs commands => (engine.executeCommandBatch nowMs commands).2.isOk
  | .noop createdAtMs => (engine.appendNoop createdAtMs).2.isNone
  | .sweep _ => true

end EngineAction

structure EngineCall where
  term : Nat
  action : EngineAction

namespace Engine

variable [Codec]

def create (options : EngineOptions) (nowMs : Nat) : Engine :=
  { state := EngineState.new nowMs
    options := options
    disk := ⟨false, none, none, [⟨1, none, []⟩]⟩
    writer := ⟨1, 0⟩
    walEntries := []
    walEntryIdentities := ∅
    currentConsensusTerm := 0 }

theorem fromPathsWithOptions_empty (options : EngineOptions) (nowMs : Nat) :
    fromPathsWithOptions Disk.empty options nowMs = .ok (create options nowMs) := rfl

end Engine

/-- No integer update meets an expired entry in the keyspace replayed so far. -/
def CountersFresh (nowMs : Nat) (full working : EngineStore) : List Command → Prop
  | [] => True
  | command :: rest =>
    (∀ key, command.counterKey = some key → Fresh nowMs full key) ∧
      ∀ next, applyOperations full (evaluateTransactionCommand working nowMs command).operations =
        .ok next →
          CountersFresh nowMs next (evaluateTransactionCommand working nowMs command).store rest

/-- If the batch fails, nothing was written before the first `CLEAR` it reached. -/
def BatchUndoable (nowMs : Nat) (store : EngineStore) (commands : List Command) : Prop :=
  (∃ err, Engine.evaluateTransaction store nowMs commands = .error err) →
    ∀ before after, commands = before ++ .clear :: after → .clear ∉ before →
      ∀ final operations results,
        Engine.evaluateTransaction store nowMs before = .ok (final, operations, results) →
        operations = []

/-- The condition on a call, given the keyspace `full` that the log so far rebuilds. -/
def EngineAction.Replayable (engine : Engine) (full : EngineStore) : EngineAction → Prop
  | .direct reading command =>
    ∀ key, command.counterKey = some key → Fresh reading.now full key
  | .transaction reading commands =>
    CountersFresh reading.now full (engine.state.store.purgeExpired reading.now) commands
  | .batch nowMs commands =>
    CountersFresh nowMs full (engine.state.store.purgeExpired nowMs) commands ∧
      BatchUndoable nowMs (engine.state.store.purgeExpired nowMs) commands
  | .noop _ | .sweep _ => True

/-- One command on the replayed keyspace, the one its entry is applied to, and the working
copy. -/
theorem evaluateTransactionCommand_sheds {nowMs : Nat} {full live working : EngineStore}
    {command : Command} (fullLive : Sheds nowMs full live) (liveWorking : Sheds nowMs live working)
    (fresh : ∀ key, command.counterKey = some key → Fresh nowMs full key) :
    ∃ full' live',
      applyOperations full (evaluateTransactionCommand working nowMs command).operations =
        .ok full' ∧
      applyOperations live (evaluateTransactionCommand working nowMs command).operations =
        .ok live' ∧
      Sheds nowMs full' live' ∧
      Sheds nowMs live' (evaluateTransactionCommand working nowMs command).store := by
  have liveStore := liveWorking.purge
  have purged := purgeExpired_purgeExpired working nowMs
  unfold evaluateTransactionCommand
  rcases evaluatePurged_reproduces command (fun _ => purged) with plain |
    ⟨key, delta, counter, logged, run⟩
  · obtain ⟨live', final, liveRun, finalRun, liveFinal, anchored⟩ :=
      liveStore.applyAnchored plain.anchored
    obtain ⟨full', live'', fullRun, liveRun', fullLive', -⟩ := fullLive.applyAnchored anchored
    rw [plain.run] at finalRun
    rw [liveRun] at liveRun'
    cases finalRun
    cases liveRun'
    exact ⟨full', live', fullRun, liveRun, fullLive', liveFinal⟩
  · rw [logged]
    have freshFull := fresh key counter
    obtain ⟨live', liveRun, liveFinal⟩ :=
      liveStore.applyCounter (fullLive.fresh_live freshFull) run
    obtain ⟨full', fullRun, fullLive'⟩ := fullLive.applyCounter freshFull liveRun
    exact ⟨full', live', fullRun, liveRun, fullLive', liveFinal⟩

namespace Engine

theorem evaluateTransaction_sheds {nowMs : Nat} {full live working final : EngineStore}
    {commands : List Command} {operations : List WalOperation}
    {results : List TransactionResult} (fullLive : Sheds nowMs full live)
    (liveWorking : Sheds nowMs live working) (fresh : CountersFresh nowMs full working commands)
    (evaluated : evaluateTransaction working nowMs commands = .ok (final, operations, results)) :
    ∃ full' live', applyOperations full operations = .ok full' ∧
      applyOperations live operations = .ok live' ∧ Sheds nowMs full' live' ∧
      Sheds nowMs live' final := by
  induction commands generalizing full live working operations results with
  | nil =>
    obtain ⟨rfl, rfl, rfl⟩ := evaluated
    exact ⟨full, live, rfl, rfl, fullLive, liveWorking⟩
  | cons command rest ih =>
    obtain ⟨full₁, live₁, fullRun, liveRun, fullLive₁, liveWorking₁⟩ :=
      evaluateTransactionCommand_sheds fullLive liveWorking fresh.1
    obtain ⟨result, later, following, -, restEvaluated, rfl, rfl⟩ :=
      evaluateTransaction_cons_ok.mp evaluated
    obtain ⟨full', live', fullRest, liveRest, fullLive', liveFinal⟩ :=
      ih fullLive₁ liveWorking₁ (fresh.2 full₁ fullRun) restEvaluated
    refine ⟨full', live', ?_, ?_, fullLive', liveFinal⟩
    · rw [applyOperations_append, fullRun]
      exact fullRest
    · rw [applyOperations_append, liveRun]
      exact liveRest

section Batch

variable {nowMs term visible : Nat} {store final : EngineStore} {record record' : BatchRollback}
  {commands : List Command} {entries : List WalEntry} {results : List CommandBatchResult}

theorem evaluateTransaction_of_evaluateBatch_error {err : EngineError}
    (failed : evaluateBatch store record nowMs term visible commands =
      (final, record', .error err)) :
    evaluateTransaction store nowMs commands = .error err := by
  induction commands generalizing store record visible with
  | nil => simp [evaluateBatch] at failed
  | cons command rest ih =>
    unfold evaluateBatch at failed
    unfold evaluateTransaction
    dsimp only at failed ⊢
    split at failed
    · obtain ⟨-, -, rfl⟩ := failed
      rfl
    · split at failed
      · rename_i following
        obtain ⟨rfl, rfl, rfl⟩ := failed
        simp [ih following]
      · simp at failed

/-- The loop of a batch is that of a transaction, with the operations cut into entries. -/
theorem evaluateTransaction_of_evaluateBatch_ok
    (done : evaluateBatch store record nowMs term visible commands =
      (final, record', .ok (entries, results))) :
    evaluateTransaction store nowMs commands =
        .ok (final, entries.flatMap WalEntry.operations, results.map CommandBatchResult.result) ∧
      results.length = commands.length := by
  induction commands generalizing store record visible entries results with
  | nil =>
    cases done
    exact ⟨rfl, rfl⟩
  | cons command rest ih =>
    obtain ⟨result, later, answers, answered, following, rfl, rfl⟩ := evaluateBatch_cons_ok done
    obtain ⟨evaluated, length⟩ := ih following
    refine ⟨evaluateTransaction_cons_ok.mpr ⟨result, _, _, answered, evaluated, ?_, rfl⟩,
      congrArg (· + 1) length⟩
    cases silent : (evaluateTransactionCommand store nowMs command).operations.isEmpty with
    | true => simp [List.isEmpty_iff.mp silent]
    | false => simp

theorem evaluateBatch_sheds {full : EngineStore} (sheds : Sheds nowMs full store)
    (fresh : CountersFresh nowMs full store commands)
    (done : evaluateBatch store record nowMs term visible commands =
      (final, record', .ok (entries, results))) :
    ∃ full', replayStore full entries = .ok full' ∧ Sheds nowMs full' final := by
  induction commands generalizing full store record visible entries results with
  | nil =>
    cases done
    exact ⟨full, rfl, sheds⟩
  | cons command rest ih =>
    obtain ⟨full₁, live₁, fullRun, -, fullLive, liveStore⟩ :=
      evaluateTransactionCommand_sheds sheds (Sheds.refl nowMs store) fresh.1
    obtain ⟨-, later, _, -, following, rfl, -⟩ := evaluateBatch_cons_ok done
    obtain ⟨full', replayed, related⟩ :=
      ih (fullLive.trans liveStore) (fresh.2 full₁ fullRun) following
    refine ⟨full', ?_, related⟩
    cases written : (evaluateTransactionCommand store nowMs command).operations.isEmpty with
    | true =>
      rw [List.isEmpty_iff.mp written] at fullRun
      cases fullRun
      simpa using replayed
    | false =>
      simp only [Bool.not_false, if_true, replayStore_cons, fullRun]
      exact replayed

end Batch

end Engine

theorem EngineState.prepareCommand_runs [Codec] {state : EngineState} {reading : Reading}
    {command : Command} {prepared : Prepared TransactionResult} {operations : List WalOperation}
    (found : state.prepareCommand reading command = some prepared)
    (logged : prepared.operations = some operations) :
    ∃ next, applyOperations prepared.state.store operations = .ok next := by
  rcases prepareCommand_logs state found logged with ⟨nowMs, purged, rfl⟩ | apart
  · exact ⟨_, evaluatePurged_run command purged⟩
  · have plain : command.counterKey = none := by cases apart <;> rfl
    have anchored := prepareCommand_anchors state plain found operations logged
    obtain ⟨next, -, run, -⟩ := (Sheds.refl 0 prepared.state.store).applyAnchored anchored
    exact ⟨next, run⟩

structure Engine.SameLog (engine next : Engine) : Prop where
  log : next.walEntries = engine.walEntries
  position : next.lastAppliedSequence = engine.lastAppliedSequence

namespace Engine

variable [Codec] (engine : Engine)

variable {err : EngineError}

theorem appendAndApply_error {createdAtMs : Nat} {operations : List WalOperation}
    (failed : (engine.appendAndApply createdAtMs operations).2 = some err) :
    engine.SameLog (engine.appendAndApply createdAtMs operations).1 := by
  unfold appendAndApply at failed ⊢
  dsimp only at failed ⊢
  rw [appendWal_state] at failed ⊢
  unfold EngineState.applyEntry at failed ⊢
  rcases reached : applyOperationsRecorded engine.state.store .empty
    (engine.nextEntry createdAtMs operations).operations with ⟨store, record, _ | cause⟩
  all_goals rw [reached] at failed
  · cases failed
  · exact ⟨rfl, rfl⟩

theorem executeCommand_error {reading : Reading} {command : Command} {err : ServerError}
    (plain : command ≠ .save ∧ command ≠ .snapshot)
    (failed : (engine.executeCommand reading command).2 = .error err) :
    engine.SameLog (engine.executeCommand reading command).1 := by
  rw [executeCommand_engine engine reading plain]
  cases found : engine.state.prepareCommand reading command with
  | none => exact ⟨rfl, rfl⟩
  | some prepared =>
    have position := (EngineState.prepareCommand_decidedOn _ found).position
    cases prepared with
    | quiet state answer => exact ⟨rfl, position⟩
    | failed state err => exact ⟨rfl, position⟩
    | log state operations answer =>
      obtain ⟨store, run⟩ := EngineState.prepareCommand_runs found rfl
      have applied := appendAndApply_of_ok { engine with state := state } reading.created run
      unfold executeCommand at failed
      split at failed
      · exact absurd rfl plain.1
      · exact absurd rfl plain.2
      · simp only [found, finish_log, applied] at failed
        cases failed

theorem executeTransaction_error {reading : Reading} {commands : List Command}
    (failed : (engine.executeTransaction reading commands).2 = .error err) :
    engine.SameLog (engine.executeTransaction reading commands).1 := by
  have position := EngineState.purgeExpired_lastAppliedSequence engine.state reading.now
  unfold executeTransaction at failed ⊢
  dsimp only at failed ⊢
  split at failed
  · exact ⟨rfl, position⟩
  · split at failed
    · cases failed
    · rename_i operations results evaluated written
      rw [if_neg written]
      split at failed
      · cases failed
      · rename_i final cause tried
        have kept := appendAndApply_error
          { engine with state := engine.state.purgeExpired reading.now } (congrArg Prod.snd tried)
        rw [tried] at kept
        exact ⟨kept.log, kept.position.trans position⟩

theorem executeCommandBatch_error {nowMs : Nat} {commands : List Command}
    (failed : (engine.executeCommandBatch nowMs commands).2 = .error err) :
    engine.SameLog (engine.executeCommandBatch nowMs commands).1 := by
  have position := EngineState.purgeExpired_lastAppliedSequence engine.state nowMs
  unfold executeCommandBatch at failed ⊢
  dsimp only at failed ⊢
  split at failed
  · exact ⟨rfl, position⟩
  · rename_i loop
    split at failed
    · cases failed
    · rw [buildWalEntryIdentities_of_numbered (evaluateBatch_numbered loop).1] at failed
      cases failed

end Engine

/-- Entries that continue the log and, run on `full`, give a keyspace that only has more expired
entries than the engine's. -/
def Grows (clock : Nat) (full : EngineStore) (engine next : Engine) : Prop :=
  ∃ entries full', next.walEntries = engine.walEntries ++ entries ∧
    From WalEntry.sequence (engine.lastAppliedSequence + 1) entries ∧
    next.lastAppliedSequence = engine.lastAppliedSequence + entries.length ∧
    replayStore full entries = .ok full' ∧ Sheds clock full' next.state.store

namespace Grows

variable [Codec] (engine : Engine) {full : EngineStore} {clock : Nat}

omit [Codec] in
theorem quiet {state : EngineState}
    (position : state.metadata.lastAppliedSequence = engine.lastAppliedSequence)
    (sheds : Sheds clock full state.store) :
    Grows clock full engine { engine with state := state } :=
  ⟨[], full, by simp, trivial, position, rfl, sheds⟩

theorem appended {state : EngineState} {createdAtMs : Nat} {operations : List WalOperation}
    {full' live' : EngineStore}
    (position : state.metadata.lastAppliedSequence = engine.lastAppliedSequence)
    (fullRun : applyOperations full operations = .ok full') (related : Sheds clock full' live') :
    let decided := { engine with state := state }
    Grows clock full engine
      (decided.appended (decided.nextEntry createdAtMs operations) live') := by
  intro decided
  have sequence : (decided.nextEntry createdAtMs operations).sequence =
      engine.lastAppliedSequence + 1 := congrArg (· + 1) position
  refine ⟨[decided.nextEntry createdAtMs operations], full', rfl, ⟨sequence, trivial⟩, sequence,
    ?_, related⟩
  rw [replayStore_singleton]
  exact fullRun

omit [Codec] in
theorem of_walEntries_eq {engine next : Engine} (grows : Grows clock full engine next)
    (kept : next.walEntries = engine.walEntries) :
    next.lastAppliedSequence = engine.lastAppliedSequence ∧
      Sheds clock full next.state.store := by
  obtain ⟨entries, full', log, -, position, run, related⟩ := grows
  obtain rfl : entries = [] := by simpa [kept] using log
  cases run
  exact ⟨position, related⟩

omit [Codec] in
theorem mono {engine next : Engine} {later : Nat} (grows : Grows clock full engine next)
    (order : clock ≤ later) : Grows later full engine next := by
  obtain ⟨entries, full', log, added, position, run, related⟩ := grows
  exact ⟨entries, full', log, added, position, run, related.mono order⟩

omit [Codec] in
theorem logContiguous {engine next : Engine} (grows : Grows clock full engine next)
    (contiguous : engine.LogContiguous) : next.LogContiguous := by
  obtain ⟨entries, full', log, added, position, -, -⟩ := grows
  obtain ⟨first, numbered, final⟩ := contiguous
  refine ⟨first, ?_, ?_⟩
  · rw [log, from_append, final]
    exact ⟨numbered, added⟩
  · rw [log, List.length_append]
    omega

section Readings

variable {reading : Reading} {command : Command}
  (sheds : Sheds reading.now full engine.state.store)
include sheds

theorem plain {prepared : Prepared TransactionResult}
    (found : engine.state.prepareCommand reading command = some prepared)
    (plain : command.counterKey = none) :
    Grows reading.created full engine (engine.finish reading.created prepared).1 := by
  obtain ⟨position, store⟩ := EngineState.prepareCommand_decidedOn _ found
  have decided : Sheds reading.later full prepared.state.store := by
    rcases store with same | same | same
    · exact same ▸ sheds.mono reading.now_le_later
    · exact same ▸ sheds.purge.mono reading.now_le_later
    · exact same ▸ (sheds.purge.mono reading.now_le_later).purge
  have atCreated := decided.mono reading.later_le_created
  cases logged : prepared.operations with
  | none =>
    rw [Engine.finish_of_none _ _ _ logged]
    exact quiet engine position atCreated
  | some operations =>
    have anchored := EngineState.prepareCommand_anchors _ plain found operations logged
    obtain ⟨full', live', fullRun, liveRun, related, -⟩ := atCreated.applyAnchored anchored
    rw [Engine.finish_of_ok _ _ _ logged liveRun]
    exact appended engine position fullRun related

theorem counter {α : Type} {key : Key} {delta : Int} (view : Int → α)
    (fresh : Fresh reading.now full key) :
    Grows reading.created full engine
      (engine.finish reading.created
        ((engine.state.add reading.now key delta).render view)).1 := by
  have decided := EngineState.add_state engine.state reading.now key delta
  have position : (engine.state.add reading.now key delta).state.metadata.lastAppliedSequence =
      engine.lastAppliedSequence := by
    rw [decided, EngineState.purgeExpired_lastAppliedSequence]
    rfl
  rw [← Prepared.render_state _ view] at decided position
  rcases EngineState.add_applies engine.state reading.now key delta with
    silent | ⟨logged, live', liveRun⟩
  · rw [← Prepared.render_operations _ view] at silent
    rw [Engine.finish_of_none _ _ _ silent]
    refine quiet engine position ?_
    rw [decided]
    exact sheds.purge.mono reading.now_le_created
  · obtain ⟨full', fullRun, related⟩ := sheds.purge.applyCounter fresh liveRun
    rw [← Prepared.render_operations _ view] at logged
    rw [← EngineState.purgeExpired_store, ← decided] at liveRun
    rw [Engine.finish_of_ok _ _ _ logged liveRun]
    exact appended engine position fullRun (related.mono reading.now_le_created)

theorem direct (fresh : ∀ key, command.counterKey = some key → Fresh reading.now full key)
    (plain : (EngineAction.direct reading command).snapshots = false) :
    Grows reading.created full engine (engine.executeCommand reading command).1 := by
  have direct : command ≠ .save ∧ command ≠ .snapshot := by
    constructor
    · rintro rfl
      cases plain
    · rintro rfl
      cases plain
  rw [Engine.executeCommand_engine engine reading direct]
  cases found : engine.state.prepareCommand reading command with
  | none =>
    exact quiet engine rfl (sheds.mono reading.now_le_created)
  | some prepared =>
    cases counterKey : command.counterKey with
    | none => exact Grows.plain engine sheds found counterKey
    | some key =>
      have freshKey := fresh key counterKey
      cases command <;>
        simp only [Command.counterKey, Option.some.injEq, reduceCtorEq] at counterKey
      case incr =>
        subst counterKey
        cases found
        exact counter engine sheds _ freshKey
      case decr =>
        subst counterKey
        cases found
        exact counter engine sheds _ freshKey

theorem transaction {commands : List Command}
    (fresh : CountersFresh reading.now full (engine.state.store.purgeExpired reading.now)
      commands) :
    Grows reading.created full engine (engine.executeTransaction reading commands).1 := by
  have position := EngineState.purgeExpired_lastAppliedSequence engine.state reading.now
  unfold Engine.executeTransaction
  dsimp only [EngineState.purgeExpired_store]
  cases evaluated : Engine.evaluateTransaction (engine.state.store.purgeExpired reading.now)
      reading.now commands with
  | error err => exact quiet engine position (sheds.purge.mono reading.now_le_created)
  | ok outcome =>
    obtain ⟨full', live', fullRun, liveRun, fullLive, liveWorking⟩ :=
      Engine.evaluateTransaction_sheds sheds.purge (Sheds.refl _ _) fresh evaluated
    dsimp only
    split
    · rename_i silent
      rw [List.isEmpty_iff.mp silent] at fullRun liveRun
      cases liveRun
      exact quiet engine position ((sheds.purge.trans liveWorking).mono reading.now_le_created)
    · rw [Engine.appendAndApply_of_ok { engine with state := engine.state.purgeExpired reading.now }
        reading.created liveRun]
      exact appended engine position fullRun (fullLive.mono reading.now_le_created)

end Readings

theorem batch {nowMs : Nat} {commands : List Command} (sheds : Sheds nowMs full engine.state.store)
    (fresh : CountersFresh nowMs full (engine.state.store.purgeExpired nowMs) commands)
    (undoable : BatchUndoable nowMs (engine.state.store.purgeExpired nowMs) commands) :
    Grows nowMs full engine (engine.executeCommandBatch nowMs commands).1 := by
  have position := EngineState.purgeExpired_lastAppliedSequence engine.state nowMs
  unfold Engine.executeCommandBatch
  dsimp only [EngineState.purgeExpired_store]
  rcases loop : Engine.evaluateBatch (engine.state.store.purgeExpired nowMs) ⟨∅, none⟩ nowMs
      engine.currentConsensusTerm (engine.state.purgeExpired nowMs).metadata.lastAppliedSequence
      commands with ⟨final, record, outcome⟩
  cases outcome with
  | error err =>
    have undone : record.rollback final = engine.state.store.purgeExpired nowMs :=
      Engine.evaluateBatch_undo (purgeExpired_purgeExpired _ _)
        (undoable ⟨err, Engine.evaluateTransaction_of_evaluateBatch_error loop⟩) loop
    dsimp only
    rw [undone]
    exact quiet engine position sheds.purge
  | ok result =>
    obtain ⟨entries, results⟩ := result
    obtain ⟨full', run, related⟩ := Engine.evaluateBatch_sheds sheds.purge fresh loop
    have numbered := (Engine.evaluateBatch_numbered loop).1
    rw [position] at numbered
    dsimp only
    cases last : entries.getLast? with
    | none =>
      obtain rfl := List.getLast?_eq_none_iff.mp last
      cases run
      exact quiet engine position related
    | some entry =>
      have final := numbered.getLast?_number last
      simp only [buildWalEntryIdentities_of_numbered numbered]
      refine ⟨entries, full', rfl, numbered, ?_, run, related⟩
      change entry.sequence = engine.state.metadata.lastAppliedSequence + entries.length
      omega

/-- What a call adds to the log brings a replay to its state. -/
theorem perform {action : EngineAction}
    (sheds : Sheds action.startMs full engine.state.store) (plain : action.snapshots = false)
    (replayable : action.Replayable engine full) :
    Grows action.endMs full engine (action.perform engine) := by
  cases action with
  | direct reading command => exact direct engine sheds replayable plain
  | transaction reading commands => exact transaction engine sheds replayable
  | batch nowMs commands => exact batch engine sheds replayable.1 replayable.2
  | noop createdAtMs =>
    simp only [EngineAction.perform, Engine.appendNoop]
    rw [Engine.appendAndApply_of_ok _ _ (applyOperations_nil _)]
    exact appended engine rfl (applyOperations_nil full) sheds
  | sweep nowMs =>
    exact quiet engine (EngineState.purgeExpired_lastAppliedSequence _ _) sheds.purge

end Grows

end Vaylix

import Vaylix.Engine.LogGrowth

/-!
# A transaction leaves what its working copy holds

`execute_transaction` computes its answers on a working copy and its final state by applying
the operations collected to the live state. The two agree as long as no command of the queue
gives a key an expiration that has already passed. `EXPIRE` saturates, so this needs a reading
below the largest 64-bit number.
-/

namespace Vaylix

open EngineStore

/-- The operation sets no expiration that has passed at `nowMs`. -/
def WalOperation.outlives (nowMs : Nat) : WalOperation → Prop
  | .expire _ expiresAtMs => nowMs < expiresAtMs
  | _ => True

def AllFresh (nowMs : Nat) (store : EngineStore) : Prop := ∀ key, Fresh nowMs store key

variable {nowMs : Nat} {store next final : EngineStore}

theorem allFresh_purgeExpired (nowMs : Nat) (store : EngineStore) :
    AllFresh nowMs (store.purgeExpired nowMs) := by
  intro key entry found
  rw [get_purgeExpired, Option.filter_eq_some_iff] at found
  simpa using found.2

variable (fresh : AllFresh nowMs store)
include fresh

theorem AllFresh.purgeExpired_eq :
    store.purgeExpired nowMs = store := by
  ext1 key
  rw [get_purgeExpired]
  cases found : store.get key with
  | none => rfl
  | some entry => simp [Option.filter, fresh key entry found]

theorem AllFresh.insertEntry (key : Key) {entry : StoredValue}
    (unexpired : entry.expiredAt nowMs = false) : AllFresh nowMs (store.insertEntry key entry) := by
  intro other stored found
  rw [get_insertEntry] at found
  split at found
  · cases found
    exact unexpired
  · exact fresh other stored found

theorem AllFresh.remove (key : Key) :
    AllFresh nowMs (store.remove key) := by
  intro other stored found
  rw [get_remove] at found
  split at found
  · cases found
  · exact fresh other stored found

theorem AllFresh.applyOperation {operation : WalOperation} (outlives : operation.outlives nowMs)
    (run : applyOperation store operation = .ok next) :
    AllFresh nowMs next := by
  cases operation with
  | set key value version =>
    cases run
    exact fresh.insertEntry key rfl
  | delete key =>
    cases run
    exact fresh.remove key
  | expire key expiresAtMs =>
    cases run
    unfold setExpirationIfPresent
    split
    · refine fresh.insertEntry key ?_
      simpa [StoredValue.expiredAt, WalOperation.outlives] using outlives
    · exact fresh
  | persist key =>
    cases run
    unfold clearExpiration
    split
    · exact fresh.insertEntry key rfl
    · exact fresh
  | clear =>
    cases run
    intro key entry found
    simp at found
  | checkInteger key delta =>
    obtain ⟨number, sum, -, -, rfl⟩ := applyOperation_checkInteger.mp run
    exact fresh.insertEntry key rfl

theorem AllFresh.applyOperations {operations : List WalOperation}
    (outlive : ∀ operation ∈ operations, operation.outlives nowMs)
    (run : applyOperations store operations = .ok final) : AllFresh nowMs final :=
  applyOperations_preserves _ (fun operation member _ _ holds first =>
    AllFresh.applyOperation holds (outlive operation member) first) fresh run

omit fresh

/-! ### What the commands of a queue set -/

theorem Logs.outlives {command : Command} {start : EngineStore} {operations : List WalOperation}
    (before : nowMs < u64Max) (logs : Logs command start nowMs store operations final) :
    ∀ operation ∈ operations, operation.outlives nowMs := by
  induction logs with
  | set _ _ _ _ ih | delete _ _ ih => exact List.forall_mem_cons.mpr ⟨trivial, ih⟩
  | expire _ _ ahead => exact List.forall_mem_singleton.mpr (ahead before)
  | _ => simp [WalOperation.outlives]

theorem evaluatePurged_outlives (before : nowMs < u64Max) (fresh : AllFresh nowMs store)
    (command : Command) :
    ∀ operation ∈ (evaluatePurged store nowMs command).operations,
      operation.outlives nowMs := by
  rcases evaluatePurged_logs command fun _ => fresh.purgeExpired_eq with
    logs | ⟨key, delta, -, logged, -⟩
  · exact logs.outlives before
  · simp [logged, WalOperation.outlives]

theorem evaluateTransactionCommand_run (before : nowMs < u64Max) (fresh : AllFresh nowMs store)
    (command : Command) :
    applyOperations store (evaluateTransactionCommand store nowMs command).operations =
        .ok (evaluateTransactionCommand store nowMs command).store ∧
      AllFresh nowMs (evaluateTransactionCommand store nowMs command).store := by
  unfold evaluateTransactionCommand
  rw [fresh.purgeExpired_eq]
  have run := evaluatePurged_run command fun _ => fresh.purgeExpired_eq
  exact ⟨run, fresh.applyOperations (evaluatePurged_outlives before fresh command) run⟩

namespace Engine

variable {commands : List Command} {operations : List WalOperation}
  {results : List TransactionResult}

/-- The operations of a queue lead to its working copy. -/
theorem evaluateTransaction_run (before : nowMs < u64Max) (fresh : AllFresh nowMs store)
    (evaluated : evaluateTransaction store nowMs commands = .ok (final, operations, results)) :
    applyOperations store operations = .ok final ∧ results.length = commands.length := by
  induction commands generalizing store operations results with
  | nil =>
    simp only [evaluateTransaction, Except.ok.injEq, Prod.mk.injEq] at evaluated
    obtain ⟨rfl, rfl, rfl⟩ := evaluated
    exact ⟨rfl, rfl⟩
  | cons command rest ih =>
    obtain ⟨run, freshNext⟩ := evaluateTransactionCommand_run before fresh command
    obtain ⟨result, later, following, -, restEvaluated, rfl, rfl⟩ :=
      evaluateTransaction_cons_ok.mp evaluated
    obtain ⟨restRun, restLength⟩ := ih freshNext restEvaluated
    refine ⟨?_, by simp [restLength]⟩
    rw [applyOperations_append, run]
    exact restRun

variable [Codec]

/-- The engine that a refused transaction leaves: purged at `nowMs`, otherwise as it was. -/
structure OnlyPurged (engine next : Engine) (nowMs : Nat) : Prop where
  keys : next.state.store = engine.state.store.purgeExpired nowMs
  sequence : next.lastAppliedSequence = engine.lastAppliedSequence
  log : next.walEntries = engine.walEntries
  identities : next.walEntryIdentities = engine.walEntryIdentities
  disk : next.disk = engine.disk

/-- The keys of the working copy, and one entry unless nothing was collected. -/
structure Committed (engine next : Engine) (createdAtMs : Nat) (working : EngineStore)
    (operations : List WalOperation) : Prop where
  keys : next.state.store = working
  log : next.walEntries = engine.walEntries ++
    if operations = [] then [] else [engine.nextEntry createdAtMs operations]
  disk : next.disk =
    if operations = [] then engine.disk
    else (engine.appendWal [engine.nextEntry createdAtMs operations]).disk
  sequence : next.lastAppliedSequence =
    if operations = [] then engine.lastAppliedSequence else engine.lastAppliedSequence + 1

omit [Codec] in
theorem nextEntry_purged (engine : Engine) (nowMs createdAtMs : Nat)
    (operations : List WalOperation) :
    Engine.nextEntry { engine with state := engine.state.purgeExpired nowMs } createdAtMs
      operations = engine.nextEntry createdAtMs operations := by
  simp [nextEntry, lastAppliedSequence]

theorem committed_appended (engine : Engine) (nowMs createdAtMs : Nat) (working : EngineStore)
    (written : operations ≠ []) :
    engine.Committed
      (Engine.appended { engine with state := engine.state.purgeExpired nowMs }
        (engine.nextEntry createdAtMs operations) working)
      createdAtMs working operations where
  keys := rfl
  log := by rw [if_neg written]; rfl
  disk := by rw [if_neg written]; rfl
  sequence := by rw [if_neg written]; rfl

variable {engine : Engine} {reading : Reading}

theorem executeTransaction_of_error {err : EngineError}
    (refused : evaluateTransaction (engine.state.store.purgeExpired reading.now) reading.now
      commands = .error err) :
    engine.executeTransaction reading commands =
      ({ engine with state := engine.state.purgeExpired reading.now }, .error err) := by
  simp only [executeTransaction, EngineState.purgeExpired_store, refused]

theorem executeTransaction_of_ok {working : EngineStore} (before : reading.now < u64Max)
    (evaluated : evaluateTransaction (engine.state.store.purgeExpired reading.now) reading.now
      commands = .ok (working, operations, results)) :
    (engine.executeTransaction reading commands).2 = .ok results ∧
      engine.Committed (engine.executeTransaction reading commands).1 reading.created working
        operations := by
  have fresh := allFresh_purgeExpired reading.now engine.state.store
  obtain ⟨run, -⟩ := evaluateTransaction_run before fresh evaluated
  simp only [executeTransaction, EngineState.purgeExpired_store, evaluated]
  by_cases silent : operations = []
  · subst silent
    exact ⟨rfl, rfl, (List.append_nil _).symm, rfl,
      engine.state.purgeExpired_lastAppliedSequence reading.now⟩
  · have logged := appendAndApply_of_ok
      { engine with state := engine.state.purgeExpired reading.now } reading.created run
    rw [nextEntry_purged] at logged
    simp only [List.isEmpty_iff, silent, if_false, logged]
    exact ⟨trivial, engine.committed_appended _ _ _ silent⟩

/-- A transaction at a clock reading below the largest 64-bit number is refused and only purges,
or leaves exactly what evaluating the queue on a working copy leaves, with one log entry if
anything was written. -/
theorem executeTransaction_faithful (engine : Engine) (reading : Reading)
    (commands : List Command) (before : reading.now < u64Max) :
    match engine.executeTransaction reading commands with
    | (next, .error err) =>
      evaluateTransaction (engine.state.store.purgeExpired reading.now) reading.now commands =
        .error err ∧ engine.OnlyPurged next reading.now
    | (next, .ok results) =>
      results.length = commands.length ∧ ∃ working operations,
        evaluateTransaction (engine.state.store.purgeExpired reading.now) reading.now commands =
          .ok (working, operations, results) ∧
        engine.Committed next reading.created working operations := by
  cases evaluated : evaluateTransaction (engine.state.store.purgeExpired reading.now) reading.now
      commands with
  | error err =>
    rw [executeTransaction_of_error evaluated]
    exact ⟨rfl, rfl, engine.state.purgeExpired_lastAppliedSequence _, rfl, rfl, rfl⟩
  | ok outcome =>
    obtain ⟨working, operations, results⟩ := outcome
    obtain ⟨-, answers⟩ := evaluateTransaction_run before
      (allFresh_purgeExpired reading.now engine.state.store) evaluated
    obtain ⟨answered, committed⟩ := executeTransaction_of_ok before evaluated
    rcases executed : engine.executeTransaction reading commands with ⟨next, answer⟩
    rw [executed] at answered committed
    obtain rfl : answer = .ok results := answered
    exact ⟨answers, working, operations, rfl, committed⟩

end Engine

section Runs

open Sample Engine

def holdingEngine : Engine :=
  ((Engine.create ⟨0, 0⟩ 0).executeCommand (.still 0) (.set "k" [53] {})).1

/-- A queue that counts, renames onto a free name and sets an expiration. -/
theorem executeTransaction_faithful_queue :
    (Reading.still 7).now < u64Max ∧
      match holdingEngine.executeTransaction (.still 7)
        [.incr "k", .renameNx "k" "m", .expire "m" 2] with
      | (next, .error err) =>
        evaluateTransaction (holdingEngine.state.store.purgeExpired 7) 7
          [.incr "k", .renameNx "k" "m", .expire "m" 2] = .error err ∧
          holdingEngine.OnlyPurged next 7
      | (next, .ok results) =>
        results.length = 3 ∧ ∃ working operations,
          evaluateTransaction (holdingEngine.state.store.purgeExpired 7) 7
            [.incr "k", .renameNx "k" "m", .expire "m" 2] = .ok (working, operations, results) ∧
          holdingEngine.Committed next 7 working operations :=
  ⟨by decide, executeTransaction_faithful holdingEngine (.still 7)
    [.incr "k", .renameNx "k" "m", .expire "m" 2] (by decide)⟩

/-- At the largest clock reading the working copy purges the key that `EXPIRE` kept. -/
theorem executeTransaction_saturated_expiration :
    (evaluateTransaction (holdingEngine.state.store.purgeExpired u64Max) u64Max
        [.expire "k" 1, .get "j"]).toOption.map (fun outcome => outcome.1.get "k") = some none ∧
      (holdingEngine.executeTransaction (.still u64Max) [.expire "k" 1, .get "j"]).2.toOption =
        some [.boolean true, .notFound] ∧
      (holdingEngine.executeTransaction (.still u64Max)
        [.expire "k" 1, .get "j"]).1.state.store.get "k" = some ⟨[53], some u64Max, 1⟩ := by
  refine ⟨?_, ?_, ?_⟩ <;> decide +kernel

end Runs

end Vaylix

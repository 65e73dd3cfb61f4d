import Vaylix.Engine.Appending

/-!
# The engine worker

One thread owns the engine. A write that may be batched runs through `execute_command_batch`,
alone or with others that wait; every other command runs through its direct method. The answer
carries the applied position.
-/

namespace Vaylix

namespace Command

def isWriteCommand : Command → Bool
  | .getEx _ expiration persists => expiration.isSome || persists
  | .set _ _ _ | .setNx _ _ | .getDel _ | .mSet _ | .delete _ | .incr _ | .decr _ | .expire _ _
  | .persist _ | .rename _ _ | .renameNx _ _ | .clear | .save | .snapshot | .restore _
  | .restoreFrom _ | .alterUserPassword _ _ | .createUser _ _ | .dropUser _ | .createRole _
  | .dropRole _ | .grantRole _ _ | .revokeRole _ _ | .grantPermission _ _ _
  | .revokePermission _ _ _ | .maintenanceOn | .maintenanceOff | .multi | .exec | .discard
  | .promoteFollower | .pauseReplication | .resumeReplication | .clusterJoin _ _
  | .clusterRemove _ => true
  | _ => false

def isFastPathRead : Command → Bool
  | .get _ | .mGet _ | .exists _ | .ttl _ => true
  | _ => false

/-- `is_batchable_engine_write`; the write coordinator accepts the same commands. -/
def isBatchableEngineWrite : Command → Bool
  | .getEx _ expiration persists => expiration.isSome || persists
  | .set _ _ _ | .setNx _ _ | .getDel _ | .mSet _ | .delete _ | .expire _ _ | .persist _
  | .rename _ _ | .renameNx _ _ | .clear => true
  | _ => false

/-- The commands that `validate_transaction_command` refuses inside a transaction. -/
def refusedInTransaction : Command → Bool
  | .info | .metrics | .metricsProm | .save | .snapshot | .backup | .backupTo _ | .backupVerify _
  | .backupVerifyFrom _ | .restore _ | .restoreFrom _ | .restoreCheck _ | .restoreCheckFrom _
  | .alterUserPassword _ _ | .createUser _ _ | .dropUser _ | .createRole _ | .dropRole _
  | .grantRole _ _ | .revokeRole _ _ | .grantPermission _ _ _ | .revokePermission _ _ _
  | .showUsers | .showRoles | .showGrants | .showGrantsForUser _ | .showGrantsForRole _ | .whoAmI
  | .maintenanceOn | .maintenanceOff | .maintenanceStatus | .health | .showCluster
  | .showReplication | .promoteFollower | .pauseReplication | .resumeReplication | .auth _ _
  | .help | .exit | .multi | .exec | .discard => true
  | _ => false

def isDataCommand : Command → Bool
  | .ping _ | .get _ | .getDel _ | .getEx _ _ _ | .set _ _ _ | .setNx _ _ | .mGet _ | .mSet _
  | .delete _ | .exists _ | .incr _ | .decr _ | .expire _ _ | .ttl _ | .persist _ | .rename _ _
  | .renameNx _ _ | .scan _ _ _ | .dbSize | .count | .list | .clear | .restore _ => true
  | _ => false

theorem counterKey_of_batchable {command : Command}
    (batchable : command.isBatchableEngineWrite = true) : command.counterKey = none := by
  cases command with
  | incr key => cases batchable
  | decr key => cases batchable
  | _ => rfl

theorem not_batchable_of_read {command : Command} (reads : command.isWriteCommand = false) :
    command.isBatchableEngineWrite = false := by
  cases command <;> first | rfl | cases reads | exact reads

end Command

theorem EngineState.prepareCommand_of_read [Codec] (state : EngineState) {reading : Reading}
    {command : Command} (reads : command.isWriteCommand = false)
    {prepared : Prepared TransactionResult}
    (found : state.prepareCommand reading command = some prepared) :
    prepared.operations = none ∧ (prepared.state.store = state.store ∨
      prepared.state.store = state.store.purgeExpired reading.now) := by
  cases command <;> simp only [prepareCommand, Option.some.injEq, reduceCtorEq] at found
  all_goals subst found
  case getEx key expires persists =>
    obtain ⟨rfl, rfl⟩ : expires = none ∧ persists = false := by
      simpa [Command.isWriteCommand] using reads
    rw [Prepared.render_operations, getEx]
    split
    · exact ⟨rfl, .inr rfl⟩
    · exact ⟨rfl, .inr rfl⟩
  case ping => exact ⟨rfl, .inl rfl⟩
  all_goals first | exact ⟨rfl, .inr rfl⟩ | cases reads

/-- An applied position with the identity of its entry. -/
structure LogAppendResult where
  lastAppliedSequence : Nat
  lastAppliedTerm : Option Nat
  lastAppliedChecksum : Option UInt32
deriving DecidableEq, Repr

structure ExecuteResult where
  response : TransactionResult
  applied : LogAppendResult
deriving DecidableEq, Repr

namespace Engine

variable [Codec] (engine : Engine)

def appliedStateForSequence (sequence : Nat) : LogAppendResult :=
  ⟨sequence, engine.walEntryTerm sequence, engine.walEntryChecksum sequence⟩

def lastAppliedState : LogAppendResult :=
  engine.appliedStateForSequence engine.lastAppliedSequence

def processSingleExecute (consensusTerm : Nat) (reading : Reading)
    (command : Command) : Engine × Except ServerError ExecuteResult :=
  match (engine.setConsensusTerm consensusTerm).executeCommand reading command with
  | (engine, .ok response) => (engine, .ok ⟨response, engine.lastAppliedState⟩)
  | (engine, .error err) => (engine, .error err)

/-- When the batch fails, the first caller gets the error and the others find their channel
closed. -/
def processWriteBatch (consensusTerm nowMs : Nat) (commands : List Command) :
    Engine × List (Except ServerError ExecuteResult) :=
  match (engine.setConsensusTerm consensusTerm).executeCommandBatch nowMs commands with
  | (engine, .ok results) =>
    (engine, results.map fun result =>
      .ok ⟨result.result, engine.appliedStateForSequence result.lastAppliedSequence⟩)
  | (engine, .error err) =>
    (engine, match commands with
      | [] => []
      | _ :: rest => .error (.engine err) :: rest.map fun _ => .error .engineWorkerClosed)

def execute (consensusTerm : Nat) (reading : Reading) (command : Command) :
    Engine × Except ServerError ExecuteResult :=
  if command.isBatchableEngineWrite then
    match engine.processWriteBatch consensusTerm reading.now [command] with
    | (engine, results) => (engine, results.headD (.error .engineWorkerClosed))
  else engine.processSingleExecute consensusTerm reading command

theorem execute_of_read (engine : Engine) (term : Nat) (reading : Reading) {command : Command}
    (reads : command.isWriteCommand = false) :
    ∃ state : EngineState, (state.store = engine.state.store ∨
        state.store = engine.state.store.purgeExpired reading.now) ∧
      (engine.execute term reading command).1 =
        { engine.setConsensusTerm term with state := state } := by
  have plain : command ≠ .save ∧ command ≠ .snapshot := by
    constructor
    · rintro rfl
      cases reads
    · rintro rfl
      cases reads
  have ran := executeCommand_engine (engine.setConsensusTerm term) reading plain
  simp only [execute, Command.not_batchable_of_read reads, Bool.false_eq_true, if_false,
    processSingleExecute]
  rcases outcome : (engine.setConsensusTerm term).executeCommand reading command with
    ⟨next, answer⟩
  rw [outcome] at ran
  cases found : (engine.setConsensusTerm term).state.prepareCommand reading command with
  | none =>
    rw [found] at ran
    cases ran
    cases answer <;> exact ⟨engine.state, .inl rfl, rfl⟩
  | some prepared =>
    obtain ⟨silent, purged⟩ := EngineState.prepareCommand_of_read _ reads found
    rw [found] at ran
    dsimp only at ran
    rw [finish_of_none _ _ _ silent] at ran
    cases ran
    cases answer <;> exact ⟨prepared.state, purged, rfl⟩

def executeBatch (consensusTerm : Nat) (reading : Reading)
    (commands : List Command) : Engine × Except ServerError (List TransactionResult) :=
  match (engine.setConsensusTerm consensusTerm).executeTransaction reading commands with
  | (engine, .ok results) => (engine, .ok results)
  | (engine, .error err) => (engine, .error (.engine err))

section Requests

variable (term : Nat) (reading : Reading)

theorem processWriteBatch_engine (nowMs : Nat) (commands : List Command) :
    (engine.processWriteBatch term nowMs commands).1 =
      ((engine.setConsensusTerm term).executeCommandBatch nowMs commands).1 := by
  unfold processWriteBatch
  split <;> rename_i ran <;> rw [ran]

theorem executeBatch_engine (commands : List Command) :
    (engine.executeBatch term reading commands).1 =
      ((engine.setConsensusTerm term).executeTransaction reading commands).1 := by
  unfold executeBatch
  split <;> rename_i ran <;> rw [ran]

theorem execute_engine (command : Command) :
    (engine.execute term reading command).1 =
      if command.isBatchableEngineWrite then
        ((engine.setConsensusTerm term).executeCommandBatch reading.now [command]).1
      else ((engine.setConsensusTerm term).executeCommand reading command).1 := by
  unfold execute
  split
  · exact engine.processWriteBatch_engine term reading.now [command]
  · unfold processSingleExecute
    split <;> rename_i ran <;> rw [ran]

theorem execute_answer (command : Command) :
    (∃ err, (engine.execute term reading command).2 = .error err ∧
        (command ≠ .save ∧ command ≠ .snapshot →
          engine.SameLog (engine.execute term reading command).1)) ∨
      ∃ result, (engine.execute term reading command).2 = .ok result ∧
        result.applied.lastAppliedSequence =
          (engine.execute term reading command).1.lastAppliedSequence := by
  have batch : ∀ err, ((engine.setConsensusTerm term).executeCommandBatch reading.now
      [command]).2 = .error err → _ := fun _ => executeCommandBatch_error _
  have single : ∀ results, ((engine.setConsensusTerm term).executeCommandBatch reading.now
      [command]).2 = .ok results → _ := fun _ => executeCommandBatch_single _
  have direct : ∀ err, command ≠ .save ∧ command ≠ .snapshot →
      ((engine.setConsensusTerm term).executeCommand reading command).2 = .error err → _ :=
    fun _ => executeCommand_error _
  unfold execute
  split
  · unfold processWriteBatch
    rcases ran : (engine.setConsensusTerm term).executeCommandBatch reading.now [command] with
      ⟨next, err | results⟩
    all_goals rw [ran] at batch single
    · exact .inl ⟨.engine err, rfl, fun _ => ⟨(batch err rfl).log, (batch err rfl).position⟩⟩
    · obtain ⟨answer, same⟩ := single results rfl
      dsimp only at same
      subst same
      exact .inr ⟨_, rfl, rfl⟩
  · unfold processSingleExecute
    rcases ran : (engine.setConsensusTerm term).executeCommand reading command with
      ⟨next, err | answer⟩
    all_goals rw [ran] at direct
    · exact .inl ⟨err, rfl, fun plain =>
        ⟨(direct err plain rfl).log, (direct err plain rfl).position⟩⟩
    · exact .inr ⟨_, rfl, rfl⟩

end Requests

end Engine

end Vaylix

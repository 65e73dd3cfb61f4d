import Vaylix.Engine.Storage

/-!
# Dispatching commands to the engine

The server runs one command on the engine by calling the method that stands for
it and rendering its result. Wire encoding of the answer is left out; the
answers of the direct methods and of batches meet in `TransactionResult`.
-/

namespace Vaylix

inductive ServerError where
  | engineWorkerClosed
  | engine (err : EngineError)
  | authenticationRequired
  | authenticationFailed
  | authenticationConfiguration
  | authenticationLocked (username : String) (remainingSeconds : Nat)
  | quotaExceeded
  | transactionAlreadyActive
  | noActiveTransaction
  | unsupportedRemoteCommand
  | permissionDenied
  | userAlreadyExists (username : String)
  | userNotFound (username : String)
  | roleAlreadyExists (role : String)
  | roleNotFound (role : String)
  | protectedRole (role : String)
  | lastAdminUser
  | authStoreDecode (version : Nat)
  | passwordPolicyViolation
  | maintenanceModeEnabled
  | transactionExpired (seconds : Nat)
  | replicationAckTimeout (sequence : Nat) (mode : String)
  | replicationAckUnavailable
  | replicationReadOnly
deriving DecidableEq, Repr

def renderSetResponse (options : SetOptions) (outcome : SetOutcome) : TransactionResult :=
  if options.returnPrevious then valueOrNotFound outcome.previous
  else if options.condition.isSome || options.ifVersion.isSome then .boolean outcome.applied
  else .ok

namespace EngineState

def prepareCommand [Codec] (state : EngineState) (reading : Reading) :
    Command → Option (Prepared TransactionResult)
  | .ping message => some (.quiet state (.value (textBytes (message.getD "PONG"))))
  | .get key =>
    let state := state.purgeExpired reading.now
    some (.quiet state (valueOrNotFound (state.store.getValue key)))
  | .getDel key => some ((state.getDel reading.now key).render valueOrNotFound)
  | .getEx key expiration persist =>
    some ((state.getEx reading.now key expiration persist).render valueOrNotFound)
  | .set key value options =>
    some ((state.setWithOptions reading.now key value options).render (renderSetResponse options))
  | .setNx key value => some ((state.setNx reading.now key value).render .boolean)
  | .mGet keys =>
    let state := state.purgeExpired reading.now
    some (.quiet state (.strings (keys.map state.store.getValue)))
  | .mSet entries => some ((state.mset entries).render fun _ => .ok)
  | .delete keys => some ((state.deleteMany reading.now keys).render .count)
  | .exists key =>
    let state := state.purgeExpired reading.now
    some (.quiet state (.boolean (state.store.containsKey key)))
  | .incr key => some ((state.incr reading.now key).render .integer)
  | .decr key => some ((state.decr reading.now key).render .integer)
  | .expire key seconds => some ((state.expire reading.now key seconds).render .boolean)
  | .ttl key =>
    let state := state.purgeExpired reading.now
    some (.quiet state (.integer (ttlAnswer state.store key reading.now)))
  | .persist key => some ((state.persist reading.now key).render .boolean)
  | .rename source destination =>
    some ((state.rename reading.now source destination).render .boolean)
  | .renameNx source destination =>
    some ((state.renameNx reading source destination).render .boolean)
  | .scan cursor pattern count =>
    let store := state.store.purgeExpired reading.now
    some (.quiet { state with store := store }
      (.scan (scanPage store.keysSorted cursor pattern count)))
  | .dbSize | .count =>
    let state := state.purgeExpired reading.now
    some (.quiet state (.count state.store.len))
  | .list =>
    let store := state.store.purgeExpired reading.now
    some (.quiet { state with store := store }
      (.entries (store.toEntries.map fun (key, entry) => (key, entry.value))))
  | .clear => some (state.clear.render fun _ => .ok)
  | .restore dump => some ((state.restoreLogicalBackup reading.now dump).render .count)
  | _ => none

end EngineState

namespace Engine

variable [Codec]

/-- `execute_command`. `INFO` and `BACKUP` only export data and are left out. -/
def executeCommand (engine : Engine) (reading : Reading) (command : Command) :
    Engine × Except ServerError TransactionResult :=
  match command with
  | .save | .snapshot =>
    match engine.snapshot reading with
    | (engine, none) => (engine, .ok .ok)
    | (engine, some err) => (engine, .error (.engine err))
  | _ =>
    match engine.state.prepareCommand reading command with
    | none => (engine, .error .unsupportedRemoteCommand)
    | some prepared =>
      match engine.finish reading.created prepared with
      | (engine, .ok result) => (engine, .ok result)
      | (engine, .error err) => (engine, .error (.engine err))

theorem executeCommand_engine (engine : Engine) (reading : Reading) {command : Command}
    (plain : command ≠ .save ∧ command ≠ .snapshot) :
    (engine.executeCommand reading command).1 =
      match engine.state.prepareCommand reading command with
      | none => engine
      | some prepared => (engine.finish reading.created prepared).1 := by
  unfold executeCommand
  split
  · exact absurd rfl plain.1
  · exact absurd rfl plain.2
  · cases engine.state.prepareCommand reading command with
    | none => rfl
    | some prepared =>
      dsimp only
      rcases engine.finish reading.created prepared with ⟨final, answer⟩
      cases answer <;> rfl

end Engine

end Vaylix

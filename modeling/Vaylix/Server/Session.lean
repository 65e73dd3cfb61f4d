import Vaylix.Server.Authorization
import Vaylix.Server.ReadIndex
import Vaylix.Server.WriteCommit

/-!
# Processing the commands of a session

A command passes the authentication, the timeout of an open transaction, the maintenance mode
and the role of the node before it is queued, executed or answered. The queue holds `MULTI` at
its head while a transaction is open.

What a command learns from other tasks and from clocks is given as its surroundings, one value
for each time the code asks. The answers of administrative commands are left out.
-/

namespace Vaylix

structure ServerGuards where
  maxKeyBytes : Nat
  maxValueBytes : Nat
  maxKeysPerBatch : Nat
  maxTransactionQueueLen : Nat

namespace ServerGuards

variable (guards : ServerGuards)

def validateKey (key : String) : Except ServerError Unit :=
  if guards.maxKeyBytes < key.utf8ByteSize then .error .quotaExceeded else .ok ()

def validateValue (value : String) : Except ServerError Unit :=
  if guards.maxValueBytes < value.utf8ByteSize then .error .quotaExceeded else .ok ()

def validateValueBytes (value : Bytes) : Except ServerError Unit :=
  if guards.maxValueBytes < value.length then .error .quotaExceeded else .ok ()

def validateKeyCount (count : Nat) : Except ServerError Unit :=
  if guards.maxKeysPerBatch < count then .error .quotaExceeded else .ok ()

def validateCommand : Command → Except ServerError Unit
  | .auth username password | .createUser username password
  | .alterUserPassword username password => do
    guards.validateKey username
    guards.validateValue password
  | .get key | .getDel key | .exists key | .incr key | .decr key | .ttl key | .persist key
  | .getEx key _ _ | .expire key _ => guards.validateKey key
  | .set key value _ | .setNx key value => do
    guards.validateKey key
    guards.validateValueBytes value
  | .mGet keys | .delete keys => do
    guards.validateKeyCount keys.length
    keys.forM guards.validateKey
  | .mSet entries => do
    guards.validateKeyCount entries.length
    entries.forM fun (key, value) => do
      guards.validateKey key
      guards.validateValueBytes value
  | .rename source destination | .renameNx source destination => do
    guards.validateKey source
    guards.validateKey destination
  | .scan _ (some pattern) _ => guards.validateKey pattern
  | .backupVerify text | .restore text | .backupTo text | .backupVerifyFrom text
  | .restoreFrom text | .restoreCheckFrom text | .restoreCheck text => guards.validateValue text
  | .dropUser name | .clusterRemove name | .createRole name | .dropRole name
  | .showGrantsForUser name | .showGrantsForRole name => guards.validateKey name
  | .clusterJoin nodeId address => do
    guards.validateKey nodeId
    guards.validateValue address
  | .grantRole role username | .revokeRole role username => do
    guards.validateKey role
    guards.validateKey username
  | .grantPermission permission pattern role | .revokePermission permission pattern role => do
    guards.validateKey permission
    guards.validateKey pattern
    guards.validateKey role
  | _ => .ok ()

end ServerGuards

/-- The settings a session depends on; `coordinated` says that the server has a write
coordinator. -/
structure ServerRuntime where
  replication : ReplicationConfig
  authConfigured : Bool
  coordinated : Bool
  guards : ServerGuards
  transactionMaxDurationMs : Nat

structure Server where
  engine : Engine
  readIndex : CommittedReadIndex
  maintenance : Bool

/-- `replication_role_accepts_writes`; the read fast path is open to the same roles. -/
def ReplicationRole.acceptsWrites : ReplicationRole → Bool
  | .standalone | .leader => true
  | .follower | .candidate => false

/-- One look at the role of the node and at its write window. -/
structure Standing where
  role : ReplicationRole
  windowAvailable : Bool

def Standing.enforceLeaderWriteability (standing : Standing) (command : Command) :
    Except ServerError Unit :=
  if !command.isWriteCommand then .ok ()
  else if !standing.role.acceptsWrites then .error .replicationReadOnly
  else if !standing.windowAvailable then .error .replicationAckUnavailable
  else .ok ()

/-- A lockout, a stored hash that cannot be read, a wrong password, or the right one. -/
inductive AuthVerdict where
  | locked (remainingSeconds : Nat)
  | unreadable
  | rejected
  | verified (identity : Identity)

/-- What one command meets. -/
structure Surroundings where
  authentication : AuthVerdict
  /-- The clock on arrival, inside the transaction handler, when a transaction starts and
  at a rollback. -/
  arrivedMs : Nat
  handledMs : Nat
  startedMs : Nat
  rollbackMs : Nat
  /-- The clock of the engine, and its term. -/
  reading : Reading
  currentTerm : Nat
  /-- The looks at the replication state, in the order of the code. -/
  onArrival : Standing
  dispatchRole : ReplicationRole
  coordinatorRole : ReplicationRole
  underLock : Standing
  leadsTerm : Bool
  /-- The writes that the coordinator puts before and after this one. -/
  batched : List Command × List Command
  /-- How `drive_write_commit` ends, and the replication state a rollback finds. -/
  driven : Option ServerError
  atRollback : ReplicationState
  /-- The outcome of an administrative command, and of writing or describing a file. -/
  administered : Except ServerError Unit
  /-- The text of a backup file, its path resolved and its manifest checked. -/
  file : Except ServerError String

inductive Reply where
  | data (result : TransactionResult)
  | results (results : List TransactionResult)
  | report
deriving DecidableEq, Repr

/-- The answer to a command that waits for `EXEC`. -/
def Reply.queued : Reply := .data (.value (textBytes "QUEUED"))

/-- `handed` is the queue that an `EXEC` passes to `execute_batch`. -/
structure Processed where
  server : Server
  session : SessionState
  reply : Except ServerError Reply
  handed : Option (List Command)

namespace Processed

def refused (server : Server) (session : SessionState) (err : ServerError) : Processed :=
  ⟨server, session, .error err, none⟩

def answered (server : Server) (session : SessionState) (reply : Reply) : Processed :=
  ⟨server, session, .ok reply, none⟩

def responded (session : SessionState) (outcome : Server × Except ServerError Reply) : Processed :=
  ⟨outcome.1, session, outcome.2, none⟩

end Processed

namespace SessionState

def new : SessionState := ⟨none, [], none⟩

variable (session : SessionState)

def inTransaction : Bool := !session.transactionQueue.isEmpty

def clearTransaction : SessionState :=
  { session with transactionQueue := [], transactionStartedAtMs := none }

def expireTransactionIfNeeded (runtime : ServerRuntime) (nowMs : Nat) :
    SessionState × Option ServerError :=
  match session.transactionStartedAtMs with
  | none => (session, none)
  | some startedAtMs =>
    if nowMs - startedAtMs ≤ runtime.transactionMaxDurationMs then (session, none)
    else (session.clearTransaction,
      some (.transactionExpired (runtime.transactionMaxDurationMs / 1000)))

def queuedCommands : List Command :=
  match session.transactionQueue with
  | .multi :: rest => rest
  | queue => queue

def authorize (runtime : ServerRuntime) (command : Command) : Except ServerError Unit :=
  if runtime.authConfigured then authorizeCommand command session else .ok ()

end SessionState

def Command.isPing : Command → Bool
  | .ping _ => true
  | _ => false

/-- The identity of everyone on a server without authentication. -/
def Identity.anonymous : Identity := ⟨"anonymous", Permission.all, everyGrant⟩

def handleAuth (runtime : ServerRuntime) (around : Surroundings) (server : Server)
    (session : SessionState) (username : String) : Processed :=
  if runtime.authConfigured then
    match around.authentication with
    | .locked remainingSeconds =>
      .refused server session (.authenticationLocked username remainingSeconds)
    | .unreadable => .refused server session .authenticationConfiguration
    | .rejected => .refused server session .authenticationFailed
    | .verified identity =>
      .answered server { session with identity := some identity } (.data .ok)
  else .answered server { session with identity := some .anonymous } (.data .ok)

namespace Engine

def validateLogicalBackup [Codec] (nowMs : Nat) (dump : String) : Except ServerError Reply :=
  match Codec.parseLogicalBackup dump with
  | .error err => .error (.engine err)
  | .ok backup => .ok (.data (.count (backup.entries.countP fun entry =>
      entry.expiresAtMs.all fun expiresAtMs => decide (nowMs < expiresAtMs))))

end Engine

namespace Server

variable [Codec] (server : Server) (runtime : ServerRuntime) (around : Surroundings)

/-- A write that is given up is rolled back, any other enters the read index. -/
def settleWrite (sequence : Nat) (reply : Reply) : Server × Except ServerError Reply :=
  match around.driven with
  | some err =>
    match rollbackUncommittedTail runtime.replication around.atRollback server.engine
        around.rollbackMs with
    | .error failure => (server, .error failure)
    | .ok (_, engine) => ({ server with engine := engine }, .error err)
  | none =>
    match server.readIndex.advanceReadIndexTo server.engine runtime.replication.fetchBatchSize
        sequence with
    | (readIndex, some err) => ({ server with readIndex := readIndex }, .error err)
    | (readIndex, none) => ({ server with readIndex := readIndex }, .ok reply)

def executeWrite (command : Command) : Server × Except ServerError Reply :=
  match server.engine.execute around.currentTerm around.reading command with
  | (engine, .error err) => ({ server with engine := engine }, .error err)
  | (engine, .ok result) =>
    Server.settleWrite { server with engine := engine } runtime around
      result.applied.lastAppliedSequence (.data result.response)

/-- `process_batch` as one of its senders sees it. The first one gets the error of a failed
batch. -/
def coordinate (command : Command) : Server × Except ServerError Reply :=
  let (earlier, later) := around.batched
  let refuse (err : ServerError) : Except ServerError Reply :=
    if earlier.isEmpty then .error err else .error .replicationAckUnavailable
  if around.underLock.role ≠ .leader then (server, refuse .replicationReadOnly)
  else if !around.underLock.windowAvailable then (server, refuse .replicationAckUnavailable)
  else
    match (server.engine.setConsensusTerm around.currentTerm).executeCommandBatch around.reading.now
        (earlier ++ command :: later) with
    | (engine, .error err) => ({ server with engine := engine }, refuse (.engine err))
    | (engine, .ok results) =>
      let server := { server with engine := engine }
      match results.drop earlier.length with
      | [] => (server, refuse .engineWorkerClosed)
      | result :: _ =>
        let around := if around.leadsTerm then around
          else { around with driven := some .replicationAckUnavailable }
        let frontier := (results.map Engine.CommandBatchResult.lastAppliedSequence).foldl max 0
        match server.settleWrite runtime around frontier (.data result.result) with
        | (server, .error err) => (server, refuse err)
        | (server, .ok reply) => (server, .ok reply)

def processWrite (command : Command) : Server × Except ServerError Reply :=
  if around.dispatchRole = .standalone then server.executeWrite runtime around command
  else if around.coordinatorRole = .leader ∧ command.isBatchableEngineWrite = true ∧
      runtime.coordinated = true then
    server.coordinate runtime around command
  else
    match around.underLock.enforceLeaderWriteability command with
    | .error err => (server, .error err)
    | .ok () =>
      if around.leadsTerm then server.executeWrite runtime around command
      else
        match server.engine.execute around.currentTerm around.reading command with
        | (engine, .error err) => ({ server with engine := engine }, .error err)
        | (engine, .ok _) => ({ server with engine := engine }, .error .replicationAckUnavailable)

/-- `INFO` and `BACKUP` purge what has expired and export the rest. -/
def exportData : Server × Except ServerError Reply :=
  ({ server with engine := server.engine.sweepExpired around.reading.now }, .ok .report)

def processRead (command : Command) : Server × Except ServerError Reply :=
  if around.dispatchRole.acceptsWrites ∧ command.isFastPathRead then
    (server, (server.readIndex.readCommand around.reading.now command).map .data)
  else if command = .backup then server.exportData around
  else
    match server.engine.execute around.currentTerm around.reading command with
    | (engine, result) =>
      ({ server with engine := engine }, result.map fun result => .data result.response)

def setMaintenance (enabled : Bool) : Server × Except ServerError Reply :=
  match around.administered with
  | .error err => (server, .error err)
  | .ok () => ({ server with maintenance := enabled }, .ok (.data .ok))

def dispatch (command : Command) : Server × Except ServerError Reply :=
  match command with
  | .maintenanceOn => server.setMaintenance around true
  | .maintenanceOff => server.setMaintenance around false
  | .maintenanceStatus | .metrics | .metricsProm | .health | .showReplication | .showCluster
  | .clusterJoin _ _ | .clusterRemove _ | .promoteFollower | .pauseReplication
  | .resumeReplication | .createUser _ _ | .alterUserPassword _ _ | .dropUser _ | .createRole _
  | .dropRole _ | .grantRole _ _ | .revokeRole _ _ | .grantPermission _ _ _
  | .revokePermission _ _ _ | .showUsers | .showRoles | .showGrants | .showGrantsForUser _
  | .showGrantsForRole _ | .whoAmI => (server, around.administered.map fun _ => .report)
  | .info => server.exportData around
  | .backupTo _ =>
    match server.exportData around with
    | (server, _) => (server, around.administered.map fun _ => .data .ok)
  | .backupVerify dump =>
    (server, around.administered.bind fun _ =>
      Engine.validateLogicalBackup around.reading.now dump)
  | .backupVerifyFrom _ =>
    (server, around.file.bind fun dump => Engine.validateLogicalBackup around.reading.now dump)
  | .restoreFrom _ =>
    match around.file with
    | .error err => (server, .error err)
    | .ok dump => server.executeWrite runtime around (.restore dump)
  | .restoreCheck dump => (server, Engine.validateLogicalBackup around.reading.now dump)
  | .restoreCheckFrom _ =>
    (server, around.file.bind fun dump => Engine.validateLogicalBackup around.reading.now dump)
  | command =>
    if command.isWriteCommand then server.processWrite runtime around command
    else server.processRead around command

def execTransaction (session : SessionState) : Processed :=
  match around.underLock.enforceLeaderWriteability .exec with
  | .error err => .refused server session err
  | .ok () =>
    let queued := session.queuedCommands
    let session := session.clearTransaction
    if queued.any Command.refusedInTransaction then
      .refused server session .unsupportedRemoteCommand
    else
      match server.engine.executeBatch around.currentTerm around.reading queued with
      | (engine, .error err) => ⟨{ server with engine := engine }, session, .error err, some queued⟩
      | (engine, .ok results) =>
        match Server.settleWrite { server with engine := engine } runtime around
            engine.lastAppliedSequence (.results results) with
        | (server, reply) => ⟨server, session, reply, some queued⟩

/-- The last branch of `handle_transaction_command`: the command waits for `EXEC`. -/
def enqueue (session : SessionState) (command : Command) : Processed :=
  if runtime.guards.maxTransactionQueueLen ≤ session.transactionQueue.length then
    .refused server session .quotaExceeded
  else
    match runtime.guards.validateCommand command with
    | .error err => .refused server session err
    | .ok () =>
      if command.refusedInTransaction then .refused server session .unsupportedRemoteCommand
      else
        match session.authorize runtime command with
        | .error err => .refused server session err
        | .ok () =>
          .answered server
            { session with transactionQueue := session.transactionQueue ++ [command] } .queued

def handleTransactionCommand (session : SessionState) (command : Command) : Processed :=
  match session.expireTransactionIfNeeded runtime around.handledMs with
  | (session, some err) => .refused server session err
  | (session, none) =>
    if !around.dispatchRole.acceptsWrites then .refused server session .replicationReadOnly
    else
      match command with
      | .multi => .refused server session .transactionAlreadyActive
      | .discard => .answered server session.clearTransaction (.data .ok)
      | .exec => server.execTransaction runtime around session
      | .auth _ _ => .refused server session .authenticationFailed
      | other => server.enqueue runtime session other

def handlePlainCommand (session : SessionState) (command : Command) : Processed :=
  match session.authorize runtime command with
  | .error err => .refused server session err
  | .ok () =>
    match command with
    | .multi =>
      .answered server
        { session with
          transactionQueue := session.transactionQueue ++ [.multi]
          transactionStartedAtMs := some around.startedMs } (.data .ok)
    | .exec | .discard => .refused server session .noActiveTransaction
    | command => .responded session (server.dispatch runtime around command)

def processCommand (session : SessionState) (command : Command) : Processed :=
  match command with
  | .auth username _ => handleAuth runtime around server session username
  | command =>
    if runtime.authConfigured ∧ session.identity.isNone ∧ !command.isPing then
      .refused server session .authenticationRequired
    else
      match session.expireTransactionIfNeeded runtime around.arrivedMs with
      | (session, some err) => .refused server session err
      | (session, none) =>
        if server.maintenance ∧ !command.isAllowedDuringMaintenance then
          .refused server session .maintenanceModeEnabled
        else
          match around.onArrival.enforceLeaderWriteability command with
          | .error err => .refused server session err
          | .ok () =>
            if session.inTransaction then
              server.handleTransactionCommand runtime around session command
            else server.handlePlainCommand runtime around session command

end Server

namespace Sample

def runtime : ServerRuntime where
  replication := ⟨"n1", none, .standalone, .local, 256, []⟩
  authConfigured := false
  coordinated := false
  guards := ⟨1024, 1024, 16, 16⟩
  transactionMaxDurationMs := 1000

def calm (nowMs : Nat) : Surroundings where
  authentication := .rejected
  arrivedMs := nowMs
  handledMs := nowMs
  startedMs := nowMs
  rollbackMs := nowMs
  reading := .still nowMs
  currentTerm := 0
  onArrival := ⟨.standalone, true⟩
  dispatchRole := .standalone
  coordinatorRole := .standalone
  underLock := ⟨.standalone, true⟩
  leadsTerm := true
  batched := ([], [])
  driven := none
  atRollback := .new runtime.replication none
  administered := .ok ()
  file := .error .unsupportedRemoteCommand

end Sample

end Vaylix

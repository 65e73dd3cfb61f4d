import Vaylix.Transport.PayloadCodec

/-!
# Requests

Every command that can be sent comes back from its request as it was, and every payload that
is accepted is the one its command is sent with, up to the flag that an old `SET` leaves out.
Decoding keeps inside the payload, except for a scan that stops right after its pattern.
-/

namespace Vaylix

open Cursor

inductive Opcode where
  | auth
  | ping
  | get
  | getDel
  | getEx
  | set
  | setNx
  | delete
  | exists
  | mGet
  | mSet
  | incr
  | decr
  | expire
  | ttl
  | persist
  | rename
  | renameNx
  | scan
  | dbSize
  | info
  | metrics
  | list
  | clear
  | count
  | save
  | snapshot
  | multi
  | exec
  | discard
  | backup
  | restore
  | createUser
  | dropUser
  | createRole
  | dropRole
  | grantRole
  | revokeRole
  | grantPermission
  | revokePermission
  | showUsers
  | showRoles
  | whoAmI
  | backupTo
  | restoreFrom
  | restoreCheck
  | restoreCheckFrom
  | alterUserPassword
  | metricsProm
  | backupVerify
  | backupVerifyFrom
  | showGrants
  | showGrantsForUser
  | showGrantsForRole
  | maintenanceOn
  | maintenanceOff
  | maintenanceStatus
  | health
  | showCluster
  | clusterJoin
  | clusterRemove
  | showReplication
  | promoteFollower
  | pauseReplication
  | resumeReplication
  | replicationStatus
  | replicationSnapshot
  | replicationFetch
  | replicationAck
  | replicationVote
  | replicationHeartbeat
  | replicationAppend
  | replicationInstallSnapshot
deriving DecidableEq, Repr

def Opcode.toByte : Opcode → UInt8
  | .auth => 0x01
  | .ping => 0x02
  | .get => 0x03
  | .getDel => 0x04
  | .getEx => 0x05
  | .set => 0x06
  | .setNx => 0x07
  | .delete => 0x08
  | .exists => 0x09
  | .mGet => 0x0A
  | .mSet => 0x0B
  | .incr => 0x0C
  | .decr => 0x0D
  | .expire => 0x0E
  | .ttl => 0x0F
  | .persist => 0x10
  | .rename => 0x11
  | .renameNx => 0x12
  | .scan => 0x13
  | .dbSize => 0x14
  | .info => 0x15
  | .metrics => 0x16
  | .list => 0x17
  | .clear => 0x18
  | .count => 0x19
  | .save => 0x1A
  | .snapshot => 0x1B
  | .multi => 0x1C
  | .exec => 0x1D
  | .discard => 0x1E
  | .backup => 0x1F
  | .restore => 0x20
  | .createUser => 0x21
  | .dropUser => 0x22
  | .createRole => 0x23
  | .dropRole => 0x24
  | .grantRole => 0x25
  | .revokeRole => 0x26
  | .grantPermission => 0x27
  | .revokePermission => 0x28
  | .showUsers => 0x29
  | .showRoles => 0x2A
  | .whoAmI => 0x2B
  | .backupTo => 0x2C
  | .restoreFrom => 0x2D
  | .restoreCheck => 0x2E
  | .restoreCheckFrom => 0x2F
  | .alterUserPassword => 0x30
  | .metricsProm => 0x31
  | .backupVerify => 0x32
  | .backupVerifyFrom => 0x33
  | .showGrants => 0x34
  | .showGrantsForUser => 0x35
  | .showGrantsForRole => 0x36
  | .maintenanceOn => 0x37
  | .maintenanceOff => 0x38
  | .maintenanceStatus => 0x39
  | .health => 0x3A
  | .showCluster => 0x3B
  | .clusterJoin => 0x3C
  | .clusterRemove => 0x3D
  | .showReplication => 0x3E
  | .promoteFollower => 0x3F
  | .pauseReplication => 0x40
  | .resumeReplication => 0x41
  | .replicationStatus => 0x42
  | .replicationSnapshot => 0x43
  | .replicationFetch => 0x44
  | .replicationAck => 0x45
  | .replicationVote => 0x46
  | .replicationHeartbeat => 0x47
  | .replicationAppend => 0x48
  | .replicationInstallSnapshot => 0x49

def Opcode.tryFrom : UInt8 → Except TransportError Opcode
  | 0x01 => .ok .auth
  | 0x02 => .ok .ping
  | 0x03 => .ok .get
  | 0x04 => .ok .getDel
  | 0x05 => .ok .getEx
  | 0x06 => .ok .set
  | 0x07 => .ok .setNx
  | 0x08 => .ok .delete
  | 0x09 => .ok .exists
  | 0x0A => .ok .mGet
  | 0x0B => .ok .mSet
  | 0x0C => .ok .incr
  | 0x0D => .ok .decr
  | 0x0E => .ok .expire
  | 0x0F => .ok .ttl
  | 0x10 => .ok .persist
  | 0x11 => .ok .rename
  | 0x12 => .ok .renameNx
  | 0x13 => .ok .scan
  | 0x14 => .ok .dbSize
  | 0x15 => .ok .info
  | 0x16 => .ok .metrics
  | 0x17 => .ok .list
  | 0x18 => .ok .clear
  | 0x19 => .ok .count
  | 0x1A => .ok .save
  | 0x1B => .ok .snapshot
  | 0x1C => .ok .multi
  | 0x1D => .ok .exec
  | 0x1E => .ok .discard
  | 0x1F => .ok .backup
  | 0x20 => .ok .restore
  | 0x21 => .ok .createUser
  | 0x22 => .ok .dropUser
  | 0x23 => .ok .createRole
  | 0x24 => .ok .dropRole
  | 0x25 => .ok .grantRole
  | 0x26 => .ok .revokeRole
  | 0x27 => .ok .grantPermission
  | 0x28 => .ok .revokePermission
  | 0x29 => .ok .showUsers
  | 0x2A => .ok .showRoles
  | 0x2B => .ok .whoAmI
  | 0x2C => .ok .backupTo
  | 0x2D => .ok .restoreFrom
  | 0x2E => .ok .restoreCheck
  | 0x2F => .ok .restoreCheckFrom
  | 0x30 => .ok .alterUserPassword
  | 0x31 => .ok .metricsProm
  | 0x32 => .ok .backupVerify
  | 0x33 => .ok .backupVerifyFrom
  | 0x34 => .ok .showGrants
  | 0x35 => .ok .showGrantsForUser
  | 0x36 => .ok .showGrantsForRole
  | 0x37 => .ok .maintenanceOn
  | 0x38 => .ok .maintenanceOff
  | 0x39 => .ok .maintenanceStatus
  | 0x3A => .ok .health
  | 0x3B => .ok .showCluster
  | 0x3C => .ok .clusterJoin
  | 0x3D => .ok .clusterRemove
  | 0x3E => .ok .showReplication
  | 0x3F => .ok .promoteFollower
  | 0x40 => .ok .pauseReplication
  | 0x41 => .ok .resumeReplication
  | 0x42 => .ok .replicationStatus
  | 0x43 => .ok .replicationSnapshot
  | 0x44 => .ok .replicationFetch
  | 0x45 => .ok .replicationAck
  | 0x46 => .ok .replicationVote
  | 0x47 => .ok .replicationHeartbeat
  | 0x48 => .ok .replicationAppend
  | 0x49 => .ok .replicationInstallSnapshot
  | other => .error (.unknownOpcode other)

theorem Opcode.tryFrom_toByte (opcode : Opcode) : tryFrom opcode.toByte = .ok opcode := by
  cases opcode <;> rfl

abbrev Uuid := Vector UInt8 16

structure RequestMetadata where
  deadlineMs : Option UInt64 := none
  traceId : Option Uuid := none
  sequence : Option UInt64 := none
deriving DecidableEq

structure Request where
  requestId : Uuid
  opcode : Opcode
  payload : Bytes
  metadata : RequestMetadata
deriving DecidableEq

namespace Request

def new (requestId : Uuid) (opcode : Opcode) (payload : Bytes) : Request :=
  ⟨requestId, opcode, payload, {}⟩

def fromCommand (requestId : Uuid) : Command → Except TransportError Request
  | .auth username password => (encodeKeyValue username password).map (new requestId .auth)
  | .ping message => (encodeOptionalString message).map (new requestId .ping)
  | .get key => (encodeKey key).map (new requestId .get)
  | .getDel key => (encodeKey key).map (new requestId .getDel)
  | .getEx key expiration persist => (encodeGetEx key expiration persist).map (new requestId .getEx)
  | .set key value options => (encodeSet key value options).map (new requestId .set)
  | .setNx key value => (encodeKeyBytes key value).map (new requestId .setNx)
  | .mGet keys => (encodeKeys keys).map (new requestId .mGet)
  | .mSet entries => (encodeBytePairs entries).map (new requestId .mSet)
  | .delete keys => (encodeKeys keys).map (new requestId .delete)
  | .exists key => (encodeKey key).map (new requestId .exists)
  | .incr key => (encodeKey key).map (new requestId .incr)
  | .decr key => (encodeKey key).map (new requestId .decr)
  | .expire key seconds => (encodeKeyU64 key seconds).map (new requestId .expire)
  | .ttl key => (encodeKey key).map (new requestId .ttl)
  | .persist key => (encodeKey key).map (new requestId .persist)
  | .rename source destination => (encodeKeyValue source destination).map (new requestId .rename)
  | .renameNx source destination =>
    (encodeKeyValue source destination).map (new requestId .renameNx)
  | .scan cursor pattern count => (encodeScan cursor pattern count).map (new requestId .scan)
  | .dbSize => .ok (new requestId .dbSize [])
  | .info => .ok (new requestId .info [])
  | .metrics => .ok (new requestId .metrics [])
  | .metricsProm => .ok (new requestId .metricsProm [])
  | .list => .ok (new requestId .list [])
  | .clear => .ok (new requestId .clear [])
  | .count => .ok (new requestId .count [])
  | .save => .ok (new requestId .save [])
  | .snapshot => .ok (new requestId .snapshot [])
  | .backup => .ok (new requestId .backup [])
  | .backupTo path => (encodeKey path).map (new requestId .backupTo)
  | .backupVerify dump => (encodeDump dump).map (new requestId .backupVerify)
  | .backupVerifyFrom path => (encodeKey path).map (new requestId .backupVerifyFrom)
  | .restore dump => (encodeDump dump).map (new requestId .restore)
  | .restoreFrom path => (encodeKey path).map (new requestId .restoreFrom)
  | .restoreCheck dump => (encodeDump dump).map (new requestId .restoreCheck)
  | .restoreCheckFrom path => (encodeKey path).map (new requestId .restoreCheckFrom)
  | .alterUserPassword username password =>
    (encodeKeyValue username password).map (new requestId .alterUserPassword)
  | .createUser username password =>
    (encodeKeyValue username password).map (new requestId .createUser)
  | .dropUser username => (encodeKey username).map (new requestId .dropUser)
  | .createRole role => (encodeKey role).map (new requestId .createRole)
  | .dropRole role => (encodeKey role).map (new requestId .dropRole)
  | .grantRole role username => (encodeKeyValue role username).map (new requestId .grantRole)
  | .revokeRole role username => (encodeKeyValue role username).map (new requestId .revokeRole)
  | .grantPermission permission pattern role =>
    (encodeThreeStrings permission pattern role).map (new requestId .grantPermission)
  | .revokePermission permission pattern role =>
    (encodeThreeStrings permission pattern role).map (new requestId .revokePermission)
  | .showUsers => .ok (new requestId .showUsers [])
  | .showRoles => .ok (new requestId .showRoles [])
  | .showGrants => .ok (new requestId .showGrants [])
  | .showGrantsForUser username => (encodeKey username).map (new requestId .showGrantsForUser)
  | .showGrantsForRole role => (encodeKey role).map (new requestId .showGrantsForRole)
  | .whoAmI => .ok (new requestId .whoAmI [])
  | .multi => .ok (new requestId .multi [])
  | .exec => .ok (new requestId .exec [])
  | .discard => .ok (new requestId .discard [])
  | .maintenanceOn => .ok (new requestId .maintenanceOn [])
  | .maintenanceOff => .ok (new requestId .maintenanceOff [])
  | .maintenanceStatus => .ok (new requestId .maintenanceStatus [])
  | .health => .ok (new requestId .health [])
  | .showCluster => .ok (new requestId .showCluster [])
  | .clusterJoin nodeId address => (encodeKeyValue nodeId address).map (new requestId .clusterJoin)
  | .clusterRemove nodeId => (encodeKey nodeId).map (new requestId .clusterRemove)
  | .showReplication => .ok (new requestId .showReplication [])
  | .promoteFollower => .ok (new requestId .promoteFollower [])
  | .pauseReplication => .ok (new requestId .pauseReplication [])
  | .resumeReplication => .ok (new requestId .resumeReplication [])
  | .help => .error (.unsupportedCommand "help")
  | .exit => .error (.unsupportedCommand "exit")

def intoCommand (request : Request) : Except (Stop TransportError) Command :=
  match request.opcode with
  | .auth => (decodeKeyValue request.payload).map fun fields => .auth fields.1 fields.2
  | .ping => (decodeOptionalString request.payload).map .ping
  | .get => (decodeSingleKey request.payload).map .get
  | .getDel => (decodeSingleKey request.payload).map .getDel
  | .getEx => (decodeGetEx request.payload).map fun fields => .getEx fields.1 fields.2.1 fields.2.2
  | .set => (decodeSet request.payload).map fun fields => .set fields.1 fields.2.1 fields.2.2
  | .setNx => (decodeKeyBytes request.payload).map fun fields => .setNx fields.1 fields.2
  | .mGet => (decodeKeys request.payload).map .mGet
  | .mSet => (decodePairs request.payload).map .mSet
  | .delete => (decodeKeys request.payload).map .delete
  | .exists => (decodeSingleKey request.payload).map .exists
  | .incr => (decodeSingleKey request.payload).map .incr
  | .decr => (decodeSingleKey request.payload).map .decr
  | .expire => (decodeKeyU64 request.payload).map fun fields => .expire fields.1 fields.2
  | .ttl => (decodeSingleKey request.payload).map .ttl
  | .persist => (decodeSingleKey request.payload).map .persist
  | .rename => (decodeKeyValue request.payload).map fun fields => .rename fields.1 fields.2
  | .renameNx => (decodeKeyValue request.payload).map fun fields => .renameNx fields.1 fields.2
  | .scan => (decodeScan request.payload).map fun fields => .scan fields.1 fields.2.1 fields.2.2
  | .dbSize => (decodeEmpty request.payload).map fun _ => .dbSize
  | .info => (decodeEmpty request.payload).map fun _ => .info
  | .metrics => (decodeEmpty request.payload).map fun _ => .metrics
  | .metricsProm => (decodeEmpty request.payload).map fun _ => .metricsProm
  | .list => (decodeEmpty request.payload).map fun _ => .list
  | .clear => (decodeEmpty request.payload).map fun _ => .clear
  | .count => (decodeEmpty request.payload).map fun _ => .count
  | .save => (decodeEmpty request.payload).map fun _ => .save
  | .snapshot => (decodeEmpty request.payload).map fun _ => .snapshot
  | .backup => (decodeEmpty request.payload).map fun _ => .backup
  | .backupTo => (decodeSingleKey request.payload).map .backupTo
  | .backupVerify => (decodeDump request.payload).map .backupVerify
  | .backupVerifyFrom => (decodeSingleKey request.payload).map .backupVerifyFrom
  | .restore => (decodeDump request.payload).map .restore
  | .restoreFrom => (decodeSingleKey request.payload).map .restoreFrom
  | .restoreCheck => (decodeDump request.payload).map .restoreCheck
  | .restoreCheckFrom => (decodeSingleKey request.payload).map .restoreCheckFrom
  | .alterUserPassword =>
    (decodeKeyValue request.payload).map fun fields => .alterUserPassword fields.1 fields.2
  | .createUser => (decodeKeyValue request.payload).map fun fields => .createUser fields.1 fields.2
  | .dropUser => (decodeSingleKey request.payload).map .dropUser
  | .createRole => (decodeSingleKey request.payload).map .createRole
  | .dropRole => (decodeSingleKey request.payload).map .dropRole
  | .grantRole => (decodeKeyValue request.payload).map fun fields => .grantRole fields.1 fields.2
  | .revokeRole => (decodeKeyValue request.payload).map fun fields => .revokeRole fields.1 fields.2
  | .grantPermission => (decodeThreeStrings request.payload).map fun fields =>
    .grantPermission fields.1 fields.2.1 fields.2.2
  | .revokePermission => (decodeThreeStrings request.payload).map fun fields =>
    .revokePermission fields.1 fields.2.1 fields.2.2
  | .showUsers => (decodeEmpty request.payload).map fun _ => .showUsers
  | .showRoles => (decodeEmpty request.payload).map fun _ => .showRoles
  | .showGrants => (decodeEmpty request.payload).map fun _ => .showGrants
  | .showGrantsForUser => (decodeSingleKey request.payload).map .showGrantsForUser
  | .showGrantsForRole => (decodeSingleKey request.payload).map .showGrantsForRole
  | .whoAmI => (decodeEmpty request.payload).map fun _ => .whoAmI
  | .multi => (decodeEmpty request.payload).map fun _ => .multi
  | .exec => (decodeEmpty request.payload).map fun _ => .exec
  | .discard => (decodeEmpty request.payload).map fun _ => .discard
  | .maintenanceOn => (decodeEmpty request.payload).map fun _ => .maintenanceOn
  | .maintenanceOff => (decodeEmpty request.payload).map fun _ => .maintenanceOff
  | .maintenanceStatus => (decodeEmpty request.payload).map fun _ => .maintenanceStatus
  | .health => (decodeEmpty request.payload).map fun _ => .health
  | .showCluster => (decodeEmpty request.payload).map fun _ => .showCluster
  | .clusterJoin =>
    (decodeKeyValue request.payload).map fun fields => .clusterJoin fields.1 fields.2
  | .clusterRemove => (decodeSingleKey request.payload).map .clusterRemove
  | .showReplication => (decodeEmpty request.payload).map fun _ => .showReplication
  | .promoteFollower => (decodeEmpty request.payload).map fun _ => .promoteFollower
  | .pauseReplication => (decodeEmpty request.payload).map fun _ => .pauseReplication
  | .resumeReplication => (decodeEmpty request.payload).map fun _ => .resumeReplication
  | .replicationStatus | .replicationSnapshot | .replicationFetch | .replicationAck
  | .replicationVote | .replicationHeartbeat | .replicationAppend | .replicationInstallSnapshot =>
    .error (.refused (.unsupportedCommand "replication"))

end Request

/-! ### The codec of each operation -/

structure CommandCodec where
  codec : PayloadCodec
  make : codec.Value → Command

/-- The payload of an operation; replication has its own messages. -/
def Opcode.codec : Opcode → Option CommandCodec
  | .auth => some ⟨.keyValue, fun fields => .auth fields.1 fields.2⟩
  | .ping => some ⟨.optionalString, .ping⟩
  | .get => some ⟨.key, .get⟩
  | .getDel => some ⟨.key, .getDel⟩
  | .getEx => some ⟨.getEx, fun fields => .getEx fields.1 fields.2.1 fields.2.2⟩
  | .set => some ⟨.set, fun fields => .set fields.1 fields.2.1 fields.2.2⟩
  | .setNx => some ⟨.keyBytes, fun fields => .setNx fields.1 fields.2⟩
  | .mGet => some ⟨.keys, .mGet⟩
  | .mSet => some ⟨.bytePairs, .mSet⟩
  | .delete => some ⟨.keys, .delete⟩
  | .exists => some ⟨.key, .exists⟩
  | .incr => some ⟨.key, .incr⟩
  | .decr => some ⟨.key, .decr⟩
  | .expire => some ⟨.keyU64, fun fields => .expire fields.1 fields.2⟩
  | .ttl => some ⟨.key, .ttl⟩
  | .persist => some ⟨.key, .persist⟩
  | .rename => some ⟨.keyValue, fun fields => .rename fields.1 fields.2⟩
  | .renameNx => some ⟨.keyValue, fun fields => .renameNx fields.1 fields.2⟩
  | .scan => some ⟨.scan, fun fields => .scan fields.1 fields.2.1 fields.2.2⟩
  | .dbSize => some ⟨.empty, fun _ => .dbSize⟩
  | .info => some ⟨.empty, fun _ => .info⟩
  | .metrics => some ⟨.empty, fun _ => .metrics⟩
  | .metricsProm => some ⟨.empty, fun _ => .metricsProm⟩
  | .list => some ⟨.empty, fun _ => .list⟩
  | .clear => some ⟨.empty, fun _ => .clear⟩
  | .count => some ⟨.empty, fun _ => .count⟩
  | .save => some ⟨.empty, fun _ => .save⟩
  | .snapshot => some ⟨.empty, fun _ => .snapshot⟩
  | .backup => some ⟨.empty, fun _ => .backup⟩
  | .backupTo => some ⟨.key, .backupTo⟩
  | .backupVerify => some ⟨.dump, .backupVerify⟩
  | .backupVerifyFrom => some ⟨.key, .backupVerifyFrom⟩
  | .restore => some ⟨.dump, .restore⟩
  | .restoreFrom => some ⟨.key, .restoreFrom⟩
  | .restoreCheck => some ⟨.dump, .restoreCheck⟩
  | .restoreCheckFrom => some ⟨.key, .restoreCheckFrom⟩
  | .alterUserPassword => some ⟨.keyValue, fun fields => .alterUserPassword fields.1 fields.2⟩
  | .createUser => some ⟨.keyValue, fun fields => .createUser fields.1 fields.2⟩
  | .dropUser => some ⟨.key, .dropUser⟩
  | .createRole => some ⟨.key, .createRole⟩
  | .dropRole => some ⟨.key, .dropRole⟩
  | .grantRole => some ⟨.keyValue, fun fields => .grantRole fields.1 fields.2⟩
  | .revokeRole => some ⟨.keyValue, fun fields => .revokeRole fields.1 fields.2⟩
  | .grantPermission =>
    some ⟨.threeStrings, fun fields => .grantPermission fields.1 fields.2.1 fields.2.2⟩
  | .revokePermission =>
    some ⟨.threeStrings, fun fields => .revokePermission fields.1 fields.2.1 fields.2.2⟩
  | .showUsers => some ⟨.empty, fun _ => .showUsers⟩
  | .showRoles => some ⟨.empty, fun _ => .showRoles⟩
  | .showGrants => some ⟨.empty, fun _ => .showGrants⟩
  | .showGrantsForUser => some ⟨.key, .showGrantsForUser⟩
  | .showGrantsForRole => some ⟨.key, .showGrantsForRole⟩
  | .whoAmI => some ⟨.empty, fun _ => .whoAmI⟩
  | .multi => some ⟨.empty, fun _ => .multi⟩
  | .exec => some ⟨.empty, fun _ => .exec⟩
  | .discard => some ⟨.empty, fun _ => .discard⟩
  | .maintenanceOn => some ⟨.empty, fun _ => .maintenanceOn⟩
  | .maintenanceOff => some ⟨.empty, fun _ => .maintenanceOff⟩
  | .maintenanceStatus => some ⟨.empty, fun _ => .maintenanceStatus⟩
  | .health => some ⟨.empty, fun _ => .health⟩
  | .showCluster => some ⟨.empty, fun _ => .showCluster⟩
  | .clusterJoin => some ⟨.keyValue, fun fields => .clusterJoin fields.1 fields.2⟩
  | .clusterRemove => some ⟨.key, .clusterRemove⟩
  | .showReplication => some ⟨.empty, fun _ => .showReplication⟩
  | .promoteFollower => some ⟨.empty, fun _ => .promoteFollower⟩
  | .pauseReplication => some ⟨.empty, fun _ => .pauseReplication⟩
  | .resumeReplication => some ⟨.empty, fun _ => .resumeReplication⟩
  | .replicationStatus | .replicationSnapshot | .replicationFetch | .replicationAck
  | .replicationVote | .replicationHeartbeat | .replicationAppend | .replicationInstallSnapshot =>
    none

/-- A command that can be sent: help and exit stay with the client. -/
def Command.Remote (command : Command) : Prop := command ≠ .help ∧ command ≠ .exit

/-- Each length that a command's payload states, with the bytes it is stated in. -/
def Command.lengths : Command → List (Nat × Nat)
  | .auth username password => [(textLength username, 2), (textLength password, 4)]
  | .ping message => message.toList.map fun text => (textLength text, 4)
  | .get key => [(textLength key, 2)]
  | .getDel key => [(textLength key, 2)]
  | .getEx key _ _ => [(textLength key, 2)]
  | .set key value _ => [(textLength key, 2), (value.length, 4)]
  | .setNx key value => [(textLength key, 2), (value.length, 4)]
  | .mGet keys => (keys.length, 2) :: keys.map fun key => (textLength key, 2)
  | .mSet entries => (entries.length, 2) ::
    entries.flatMap fun entry => [(textLength entry.1, 2), (entry.2.length, 4)]
  | .delete keys => (keys.length, 2) :: keys.map fun key => (textLength key, 2)
  | .exists key => [(textLength key, 2)]
  | .incr key => [(textLength key, 2)]
  | .decr key => [(textLength key, 2)]
  | .expire key _ => [(textLength key, 2)]
  | .ttl key => [(textLength key, 2)]
  | .persist key => [(textLength key, 2)]
  | .rename source destination => [(textLength source, 2), (textLength destination, 4)]
  | .renameNx source destination => [(textLength source, 2), (textLength destination, 4)]
  | .scan _ pattern _ => pattern.toList.map fun pattern => (textLength pattern, 2)
  | .backupTo path => [(textLength path, 2)]
  | .backupVerify dump => [(textLength dump, 4)]
  | .backupVerifyFrom path => [(textLength path, 2)]
  | .restore dump => [(textLength dump, 4)]
  | .restoreFrom path => [(textLength path, 2)]
  | .restoreCheck dump => [(textLength dump, 4)]
  | .restoreCheckFrom path => [(textLength path, 2)]
  | .alterUserPassword username password => [(textLength username, 2), (textLength password, 4)]
  | .createUser username password => [(textLength username, 2), (textLength password, 4)]
  | .dropUser username => [(textLength username, 2)]
  | .createRole role => [(textLength role, 2)]
  | .dropRole role => [(textLength role, 2)]
  | .grantRole role username => [(textLength role, 2), (textLength username, 4)]
  | .revokeRole role username => [(textLength role, 2), (textLength username, 4)]
  | .grantPermission permission pattern role =>
    [(textLength permission, 2), (textLength pattern, 2), (textLength role, 2)]
  | .revokePermission permission pattern role =>
    [(textLength permission, 2), (textLength pattern, 2), (textLength role, 2)]
  | .showGrantsForUser username => [(textLength username, 2)]
  | .showGrantsForRole role => [(textLength role, 2)]
  | .clusterJoin nodeId address => [(textLength nodeId, 2), (textLength address, 4)]
  | .clusterRemove nodeId => [(textLength nodeId, 2)]
  | _ => []

/-- Every length fits its field. -/
def Command.Fits (command : Command) : Prop :=
  ∀ field ∈ command.lengths, field.1 < 256 ^ field.2

/-- The numbers of a command are in the range of their machine types. -/
def Command.Typed : Command → Prop
  | .getEx _ expiration _ => ∀ e ∈ expiration, e.InRange
  | .set _ _ options => (∀ e ∈ options.expiration, e.InRange) ∧
    ∀ n ∈ options.ifVersion, n < 256 ^ 8
  | .expire _ seconds => seconds < 256 ^ 8
  | .scan cursor _ limit => cursor < 256 ^ 8 ∧ ∀ n ∈ limit, n < 256 ^ 2
  | _ => True

namespace Request

variable {opcode : Opcode} {entry : CommandCodec}

variable (listed : opcode.codec = some entry)
include listed

theorem fromCommand_make (requestId : Uuid) (value : entry.codec.Value) :
    fromCommand requestId (entry.make value) =
      (entry.codec.put value).map (new requestId opcode) := by
  cases opcode <;> cases listed <;> rfl

theorem intoCommand_eq (requestId : Uuid) (payload : Bytes) (metadata : RequestMetadata) :
    intoCommand ⟨requestId, opcode, payload, metadata⟩ =
      (entry.codec.decode payload).map entry.make := by
  cases opcode <;> cases listed <;> rfl

theorem lengths_make (value : entry.codec.Value) :
    (entry.make value).lengths = entry.codec.lengths value := by
  cases opcode <;> cases listed <;> rfl

theorem typed_make (value : entry.codec.Value) :
    (entry.make value).Typed ↔ entry.codec.Typed value := by
  cases opcode <;> cases listed <;> exact Iff.rfl

omit listed

theorem exists_make : ∀ {command : Command}, command.Remote →
    ∃ (opcode : Opcode) (entry : CommandCodec) (value : entry.codec.Value),
      opcode.codec = some entry ∧ entry.make value = command
  | .auth username password, _ => ⟨.auth, _, (username, password), rfl, rfl⟩
  | .ping message, _ => ⟨.ping, _, message, rfl, rfl⟩
  | .get key, _ => ⟨.get, _, key, rfl, rfl⟩
  | .set key value options, _ => ⟨.set, _, (key, value, options), rfl, rfl⟩
  | .setNx key value, _ => ⟨.setNx, _, (key, value), rfl, rfl⟩
  | .getDel key, _ => ⟨.getDel, _, key, rfl, rfl⟩
  | .getEx key expiration persist, _ => ⟨.getEx, _, (key, expiration, persist), rfl, rfl⟩
  | .mGet keys, _ => ⟨.mGet, _, keys, rfl, rfl⟩
  | .mSet entries, _ => ⟨.mSet, _, entries, rfl, rfl⟩
  | .delete keys, _ => ⟨.delete, _, keys, rfl, rfl⟩
  | .exists key, _ => ⟨.exists, _, key, rfl, rfl⟩
  | .incr key, _ => ⟨.incr, _, key, rfl, rfl⟩
  | .decr key, _ => ⟨.decr, _, key, rfl, rfl⟩
  | .expire key seconds, _ => ⟨.expire, _, (key, seconds), rfl, rfl⟩
  | .ttl key, _ => ⟨.ttl, _, key, rfl, rfl⟩
  | .persist key, _ => ⟨.persist, _, key, rfl, rfl⟩
  | .rename source destination, _ => ⟨.rename, _, (source, destination), rfl, rfl⟩
  | .renameNx source destination, _ => ⟨.renameNx, _, (source, destination), rfl, rfl⟩
  | .scan cursor pattern count, _ => ⟨.scan, _, (cursor, pattern, count), rfl, rfl⟩
  | .dbSize, _ => ⟨.dbSize, _, (), rfl, rfl⟩
  | .info, _ => ⟨.info, _, (), rfl, rfl⟩
  | .metrics, _ => ⟨.metrics, _, (), rfl, rfl⟩
  | .metricsProm, _ => ⟨.metricsProm, _, (), rfl, rfl⟩
  | .list, _ => ⟨.list, _, (), rfl, rfl⟩
  | .clear, _ => ⟨.clear, _, (), rfl, rfl⟩
  | .count, _ => ⟨.count, _, (), rfl, rfl⟩
  | .save, _ => ⟨.save, _, (), rfl, rfl⟩
  | .backup, _ => ⟨.backup, _, (), rfl, rfl⟩
  | .backupTo path, _ => ⟨.backupTo, _, path, rfl, rfl⟩
  | .backupVerify dump, _ => ⟨.backupVerify, _, dump, rfl, rfl⟩
  | .backupVerifyFrom path, _ => ⟨.backupVerifyFrom, _, path, rfl, rfl⟩
  | .restore dump, _ => ⟨.restore, _, dump, rfl, rfl⟩
  | .restoreFrom path, _ => ⟨.restoreFrom, _, path, rfl, rfl⟩
  | .restoreCheck dump, _ => ⟨.restoreCheck, _, dump, rfl, rfl⟩
  | .restoreCheckFrom path, _ => ⟨.restoreCheckFrom, _, path, rfl, rfl⟩
  | .alterUserPassword username password, _ =>
    ⟨.alterUserPassword, _, (username, password), rfl, rfl⟩
  | .createUser username password, _ => ⟨.createUser, _, (username, password), rfl, rfl⟩
  | .dropUser username, _ => ⟨.dropUser, _, username, rfl, rfl⟩
  | .createRole role, _ => ⟨.createRole, _, role, rfl, rfl⟩
  | .dropRole role, _ => ⟨.dropRole, _, role, rfl, rfl⟩
  | .grantRole role username, _ => ⟨.grantRole, _, (role, username), rfl, rfl⟩
  | .revokeRole role username, _ => ⟨.revokeRole, _, (role, username), rfl, rfl⟩
  | .grantPermission permission pattern role, _ =>
    ⟨.grantPermission, _, (permission, pattern, role), rfl, rfl⟩
  | .revokePermission permission pattern role, _ =>
    ⟨.revokePermission, _, (permission, pattern, role), rfl, rfl⟩
  | .showUsers, _ => ⟨.showUsers, _, (), rfl, rfl⟩
  | .showRoles, _ => ⟨.showRoles, _, (), rfl, rfl⟩
  | .showGrants, _ => ⟨.showGrants, _, (), rfl, rfl⟩
  | .showGrantsForUser username, _ => ⟨.showGrantsForUser, _, username, rfl, rfl⟩
  | .showGrantsForRole role, _ => ⟨.showGrantsForRole, _, role, rfl, rfl⟩
  | .whoAmI, _ => ⟨.whoAmI, _, (), rfl, rfl⟩
  | .multi, _ => ⟨.multi, _, (), rfl, rfl⟩
  | .exec, _ => ⟨.exec, _, (), rfl, rfl⟩
  | .discard, _ => ⟨.discard, _, (), rfl, rfl⟩
  | .maintenanceOn, _ => ⟨.maintenanceOn, _, (), rfl, rfl⟩
  | .maintenanceOff, _ => ⟨.maintenanceOff, _, (), rfl, rfl⟩
  | .maintenanceStatus, _ => ⟨.maintenanceStatus, _, (), rfl, rfl⟩
  | .health, _ => ⟨.health, _, (), rfl, rfl⟩
  | .showCluster, _ => ⟨.showCluster, _, (), rfl, rfl⟩
  | .clusterJoin nodeId address, _ => ⟨.clusterJoin, _, (nodeId, address), rfl, rfl⟩
  | .clusterRemove nodeId, _ => ⟨.clusterRemove, _, nodeId, rfl, rfl⟩
  | .showReplication, _ => ⟨.showReplication, _, (), rfl, rfl⟩
  | .promoteFollower, _ => ⟨.promoteFollower, _, (), rfl, rfl⟩
  | .pauseReplication, _ => ⟨.pauseReplication, _, (), rfl, rfl⟩
  | .resumeReplication, _ => ⟨.resumeReplication, _, (), rfl, rfl⟩
  | .snapshot, _ => ⟨.snapshot, _, (), rfl, rfl⟩
  | .help, remote => absurd rfl remote.1
  | .exit, remote => absurd rfl remote.2

variable {request : Request} {command : Command}

theorem opcode_codec_of_ok (accepted : request.intoCommand = .ok command) :
    ∃ entry, request.opcode.codec = some entry := by
  cases listed : request.opcode.codec with
  | some entry => exact ⟨entry, rfl⟩
  | none =>
    obtain ⟨requestId, opcode, payload, metadata⟩ := request
    cases opcode <;> cases listed <;> cases accepted

theorem abbreviable_make (listed : opcode.codec = some entry) {value : entry.codec.Value}
    (abbreviable : entry.codec.Abbreviable value) :
    opcode = .set ∧ ∃ key bytes options, entry.make value = .set key bytes options ∧
      options.ifVersion = none := by
  cases opcode <;> cases listed <;>
    first | exact absurd abbreviable id | exact ⟨rfl, _, _, _, rfl, abbreviable⟩

/-- A command becomes a request exactly if it fits. -/
theorem fromCommand_ok_iff (remote : command.Remote) (requestId : Uuid) :
    (∃ request, fromCommand requestId command = .ok request) ↔ command.Fits := by
  obtain ⟨opcode, entry, value, listed, rfl⟩ := exists_make remote
  rw [Command.Fits, lengths_make listed, ← entry.codec.put_ok_iff, fromCommand_make listed]
  simp only [Except.map_eq_ok_iff]
  constructor
  · rintro ⟨_, payload, written, -⟩
    exact ⟨payload, written⟩
  · rintro ⟨payload, written⟩
    exact ⟨_, payload, written, rfl⟩

theorem intoCommand_fromCommand (typed : command.Typed) {requestId : Uuid}
    (sent : fromCommand requestId command = .ok request) :
    request.intoCommand = .ok command := by
  have remote : command.Remote := by
    constructor <;> rintro rfl <;> cases sent
  obtain ⟨opcode, entry, value, listed, rfl⟩ := exists_make remote
  rw [fromCommand_make listed] at sent
  obtain ⟨payload, written, rfl⟩ := Except.map_eq_ok_iff.mp sent
  rw [new, intoCommand_eq listed, Except.map_eq_ok_iff]
  exact ⟨value, (entry.codec.decode_eq_ok payload value).mpr
    ⟨(typed_make listed value).mp typed, .inl written⟩, rfl⟩

/-- **Requests and commands.** A command that can be sent and fits its length fields becomes a
request that is decoded to the same command. A payload that is accepted is the one its command is
sent with; only a `SET` may leave out the flag that says there is no version. -/
theorem request_round_trip (requestId : Uuid) :
    (∀ command : Command, command.Typed → command.Remote → command.Fits →
      ∃ request, fromCommand requestId command = .ok request ∧
        request.intoCommand = .ok command) ∧
    (∀ command : Command, ¬ command.Remote ∨ ¬ command.Fits →
      ∃ err, fromCommand requestId command = .error err) ∧
    ∀ (request : Request) (command : Command), request.intoCommand = .ok command →
      ∃ again, fromCommand requestId command = .ok again ∧ again.opcode = request.opcode ∧
        (again.payload = request.payload ∨ request.opcode = .set ∧
          (∃ key value options, command = .set key value options ∧ options.ifVersion = none) ∧
          again.payload = request.payload ++ [0]) := by
  refine ⟨fun command typed remote fits => ?_, fun command unsendable => ?_,
    fun request command accepted => ?_⟩
  · obtain ⟨request, sent⟩ := (fromCommand_ok_iff remote requestId).mpr fits
    exact ⟨request, sent, intoCommand_fromCommand typed sent⟩
  · by_cases remote : command.Remote
    · cases outcome : fromCommand requestId command with
      | error err => exact ⟨err, rfl⟩
      | ok request =>
        have fits := (fromCommand_ok_iff remote requestId).mp ⟨request, outcome⟩
        exact absurd fits (unsendable.resolve_left (not_not.mpr remote))
    · rw [Command.Remote, not_and_or, not_not, not_not] at remote
      rcases remote with rfl | rfl
      · exact ⟨_, rfl⟩
      · exact ⟨_, rfl⟩
  · obtain ⟨entry, listed⟩ := opcode_codec_of_ok accepted
    obtain ⟨_, opcode, payload, _⟩ := request
    rw [intoCommand_eq listed] at accepted
    obtain ⟨value, decoded, rfl⟩ := Except.map_eq_ok_iff.mp accepted
    rw [fromCommand_make listed]
    obtain ⟨-, written | ⟨abbreviable, written⟩⟩ :=
      (entry.codec.decode_eq_ok payload value).mp decoded
    · exact ⟨_, Except.map_eq_ok_iff.mpr ⟨payload, written, rfl⟩, rfl, .inl rfl⟩
    · obtain ⟨rfl, key, bytes, options, same, none⟩ := abbreviable_make listed abbreviable
      exact ⟨_, Except.map_eq_ok_iff.mpr ⟨_, written, rfl⟩, rfl,
        .inr ⟨rfl, ⟨key, bytes, options, same, none⟩, rfl⟩⟩

/-- A `SET` with a version and an expiration. -/
theorem request_round_trip_set :
    ∃ request, fromCommand (Vector.replicate 16 0) (.set "k" [1, 2] ⟨some .nx, some 7,
        some (.seconds 60), false, true⟩) = .ok request ∧
      request.intoCommand = .ok (.set "k" [1, 2] ⟨some .nx, some 7, some (.seconds 60), false,
        true⟩) := by
  refine (request_round_trip (Vector.replicate 16 0)).1 _ ⟨?_, ?_⟩ ⟨nofun, nofun⟩ ?_
  · rintro _ ⟨⟩
    exact (by decide : 60 < 256 ^ 8)
  · rintro _ ⟨⟩
    decide
  · unfold Command.Fits
    decide +kernel

/-! ### Reads behind the end -/

/-- A scan whose payload stops right after its pattern. -/
def StopsAfterPattern (request : Request) : Prop :=
  request.opcode = .scan ∧ ∃ (cursor : Nat) (pattern : String) (bytes : Bytes),
    cursor < 256 ^ 8 ∧ putStringU16 pattern = .ok bytes ∧
      request.payload = bigEndian 8 cursor ++ 1 :: bytes

/-- Only a scan cut behind its pattern is read too far. -/
theorem overread_iff (listed : opcode.codec = some entry) (requestId : Uuid) (payload : Bytes)
    (metadata : RequestMetadata) :
    entry.codec.Overread payload ↔
      StopsAfterPattern ⟨requestId, opcode, payload, metadata⟩ := by
  cases opcode <;> cases listed <;>
    first
    | exact ⟨False.elim, fun stops => nomatch stops.1⟩
    | exact ⟨fun overran => ⟨rfl, overran⟩, And.right⟩

/-- **Decoding stays inside the payload** exactly for the requests that are not scans cut off
after their pattern. -/
theorem decoding_stays_inside_iff (request : Request) :
    request.intoCommand ≠ .error .overread ↔ ¬ request.StopsAfterPattern := by
  rw [not_iff_not]
  obtain ⟨requestId, opcode, payload, metadata⟩ := request
  cases listed : opcode.codec with
  | none =>
    constructor
    · intro overran
      cases opcode <;> cases listed <;> cases overran
    · rintro ⟨rfl, -⟩
      cases listed
  | some entry =>
    rw [intoCommand_eq listed, ← overread_iff listed, ← entry.codec.decode_eq_overread]
    cases entry.codec.decode payload with
    | error stop => simp [Except.map]
    | ok value => exact ⟨nofun, nofun⟩

/-- A scan with an empty pattern and nothing behind it. -/
theorem scan_without_count_overreads :
    (new (Vector.replicate 16 0) .scan [0, 0, 0, 0, 0, 0, 0, 0, 1, 0, 0]).intoCommand =
      .error .overread := by
  decide +kernel

end Request

end Vaylix

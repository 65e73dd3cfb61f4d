import Vaylix.Engine.State

/-!
# Commands and their answers

The parsed client command, independent of framing, with the options of `SET`
and the answers that the engine gives. The texts that only travel through the
server (user names, file paths, patterns of grants) are kept as strings.
-/

namespace Vaylix

inductive SetCondition where
  | nx
  | xx
deriving DecidableEq, Repr

inductive Expiration where
  | seconds (value : Nat)
  | milliseconds (value : Nat)
deriving DecidableEq, Repr

structure SetOptions where
  condition : Option SetCondition := none
  ifVersion : Option Nat := none
  expiration : Option Expiration := none
  keepTtl : Bool := false
  returnPrevious : Bool := false
deriving DecidableEq, Repr

inductive Command where
  | auth (username password : String)
  | ping (message : Option String)
  | get (key : Key)
  | set (key : Key) (value : Bytes) (options : SetOptions)
  | setNx (key : Key) (value : Bytes)
  | getDel (key : Key)
  | getEx (key : Key) (expiration : Option Expiration) (persist : Bool)
  | mGet (keys : List Key)
  | mSet (entries : List (Key × Bytes))
  | delete (keys : List Key)
  | exists (key : Key)
  | incr (key : Key)
  | decr (key : Key)
  | expire (key : Key) (seconds : Nat)
  | ttl (key : Key)
  | persist (key : Key)
  | rename (source destination : Key)
  | renameNx (source destination : Key)
  | scan (cursor : Nat) (pattern : Option String) (count : Option Nat)
  | dbSize
  | info
  | metrics
  | metricsProm
  | list
  | clear
  | count
  | save
  | backup
  | backupTo (path : String)
  | backupVerify (dump : String)
  | backupVerifyFrom (path : String)
  | restore (dump : String)
  | restoreFrom (path : String)
  | restoreCheck (dump : String)
  | restoreCheckFrom (path : String)
  | alterUserPassword (username password : String)
  | createUser (username password : String)
  | dropUser (username : String)
  | createRole (role : String)
  | dropRole (role : String)
  | grantRole (role username : String)
  | revokeRole (role username : String)
  | grantPermission (permission pattern role : String)
  | revokePermission (permission pattern role : String)
  | showUsers
  | showRoles
  | showGrants
  | showGrantsForUser (username : String)
  | showGrantsForRole (role : String)
  | whoAmI
  | multi
  | exec
  | discard
  | maintenanceOn
  | maintenanceOff
  | maintenanceStatus
  | health
  | showCluster
  | clusterJoin (nodeId address : String)
  | clusterRemove (nodeId : String)
  | showReplication
  | promoteFollower
  | pauseReplication
  | resumeReplication
  | help
  | exit
  | snapshot
deriving DecidableEq, Repr

structure ScanPage where
  nextCursor : Nat
  keys : List Key
deriving DecidableEq, Repr

inductive TransactionResult where
  | ok
  | notFound
  | value (bytes : Bytes)
  | boolean (flag : Bool)
  | count (number : Nat)
  | integer (number : Int)
  | entries (pairs : List (Key × Bytes))
  | strings (values : List (Option Bytes))
  | scan (page : ScanPage)
deriving DecidableEq, Repr

structure SetOutcome where
  applied : Bool
  previous : Option Bytes
  version : Option Nat
deriving DecidableEq, Repr

/-- One key of a logical backup; `value` is the decoded base64 text, if it decodes. -/
structure LogicalBackupEntry where
  key : Key
  value : Option Bytes
  expiresAtMs : Option Nat
  version : Nat
deriving DecidableEq, Repr

structure LogicalBackup where
  entries : List LogicalBackupEntry
deriving DecidableEq, Repr

def nextValueVersion (previous : Option StoredValue) : Nat :=
  (previous.map fun entry => satAdd entry.version 1).getD 1

def resolveExpiration (nowMs : Nat) : Expiration → Nat
  | .seconds value => satAdd nowMs (min (value * 1000) u64Max)
  | .milliseconds value => satAdd nowMs value

def parseIntegerValue (key : Key) (value : Bytes) : Except EngineError Int :=
  match parseI64 value with
  | some parsed => .ok parsed
  | none => .error (.invalidIntegerValue key value)

def SetOptions.allowed (options : SetOptions) (previous : Option StoredValue) : Bool :=
  (match options.condition with
    | some .nx => previous.isNone
    | some .xx => previous.isSome
    | none => true) &&
  (match options.ifVersion with
    | some expected => decide (previous.map StoredValue.version = some expected)
    | none => true)

def wildcardRow (pattern : Char) (left diag : Bool) : List Char → List Bool → List Bool
  | char :: chars, above :: row =>
    let cell :=
      if pattern = '*' then above || left
      else if pattern = '?' then diag
      else diag && decide (pattern = char)
    cell :: wildcardRow pattern cell above chars row
  | _, _ => []

def wildcardMatches (pattern text : String) : Bool :=
  let chars := text.toList
  let first := true :: List.replicate chars.length false
  let last := pattern.toList.foldl (fun row char =>
    let corner := row.headD false
    let start := decide (char = '*') && corner
    start :: wildcardRow char start corner chars row.tail) first
  last.getLastD false

def defaultScanCount : Nat := 10

def scanPage (keys : List Key) (cursor : Nat) (pattern : Option String) (count : Option Nat) :
    ScanPage :=
  let keys := match pattern with
    | some pattern => keys.filter (wildcardMatches pattern)
    | none => keys
  if keys.length ≤ cursor then ⟨0, []⟩
  else
    let limit := max (count.getD defaultScanCount) 1
    let stop := min (cursor + limit) keys.length
    ⟨if keys.length ≤ stop then 0 else stop, (keys.take stop).drop cursor⟩

end Vaylix

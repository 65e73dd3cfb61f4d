import Vaylix.Engine.Command

/-!
# Evaluating a command on a working state

`EXEC` and write batches evaluate commands at one clock reading: each purges what has expired,
changes the working state at once, and pushes the log operations that stand for the change.
Only integer updates can fail.
-/

namespace Vaylix

structure Evaluated where
  store : EngineStore
  operations : List WalOperation
  outcome : Except EngineError TransactionResult

namespace Evaluated

def answer (store : EngineStore) (result : TransactionResult) : Evaluated :=
  ⟨store, [], .ok result⟩

def failed (store : EngineStore) (err : EngineError) : Evaluated := ⟨store, [], .error err⟩

end Evaluated

def textBytes (text : String) : Bytes := text.toUTF8.toList

def valueOrNotFound : Option Bytes → TransactionResult
  | some bytes => .value bytes
  | none => .notFound

def SetOptions.answer (options : SetOptions) (previous : Option StoredValue) (applied : Bool) :
    TransactionResult :=
  if options.returnPrevious then valueOrNotFound (previous.map StoredValue.value)
  else if options.condition.isSome || options.ifVersion.isSome then .boolean applied
  else .ok

variable (store : EngineStore)

def evaluateExpiration (nowMs : Nat) (key : Key) (expiresAtMs : Nat) :
    EngineStore × List WalOperation :=
  if expiresAtMs ≤ nowMs then (store.remove key, [.delete key])
  else (store.setExpirationIfPresent key expiresAtMs, [.expire key expiresAtMs])

def evaluateGetDel (key : Key) : Evaluated :=
  match store.get key with
  | some entry => ⟨store.remove key, [.delete key], .ok (.value entry.value)⟩
  | none => .answer store .notFound

def evaluateGetEx (nowMs : Nat) (key : Key)
    (expiration : Option Expiration) (persist : Bool) : Evaluated :=
  match store.get key with
  | none => .answer store .notFound
  | some entry =>
    match expiration with
    | some expiration =>
      let (store, operations) :=
        evaluateExpiration store nowMs key (resolveExpiration nowMs expiration)
      ⟨store, operations, .ok (.value entry.value)⟩
    | none =>
      if persist && entry.expiresAtMs.isSome then
        ⟨store.clearExpiration key, [.persist key], .ok (.value entry.value)⟩
      else .answer store (.value entry.value)

def evaluateSet (nowMs : Nat) (key : Key) (value : Bytes) (options : SetOptions) : Evaluated :=
  let previous := store.get key
  if !options.allowed previous then .answer store (options.answer previous false)
  else
    let version := nextValueVersion previous
    let written := store.insertValueWithVersion key value version
    let (store, operations) :=
      match options.expiration with
      | some expiration =>
        evaluateExpiration written nowMs key (resolveExpiration nowMs expiration)
      | none =>
        match options.keepTtl, previous.bind StoredValue.expiresAtMs with
        | true, some expiresAtMs =>
          (written.setExpirationIfPresent key expiresAtMs, [.expire key expiresAtMs])
        | _, _ => (written, [])
    ⟨store, .set key value version :: operations, .ok (options.answer previous true)⟩

def evaluateSetNx (key : Key) (value : Bytes) : Evaluated :=
  if store.containsKey key then .answer store (.boolean false)
  else
    let version := nextValueVersion none
    ⟨store.insertValueWithVersion key value version, [.set key value version],
      .ok (.boolean true)⟩

def evaluateMSet (store : EngineStore) : List (Key × Bytes) → EngineStore × List WalOperation
  | [] => (store, [])
  | (key, value) :: rest =>
    let version := nextValueVersion (store.get key)
    let (final, operations) := evaluateMSet (store.insertValueWithVersion key value version) rest
    (final, .set key value version :: operations)

def evaluateDelete (store : EngineStore) : List Key → EngineStore × List WalOperation
  | [] => (store, [])
  | key :: rest =>
    let (final, operations) := evaluateDelete (store.remove key) rest
    (final, if store.containsKey key then .delete key :: operations else operations)

def evaluateAdd (key : Key) (delta : Int) : Evaluated :=
  let current := (store.getValue key).getD zeroText
  match parseIntegerValue key current with
  | .error err => .failed store err
  | .ok parsed =>
    match checkedAdd parsed delta with
    | none => .failed store (.numericOverflow key)
    | some next =>
      ⟨store.insertValueWithVersion key (renderI64 next) (nextValueVersion (store.get key)),
        [.checkInteger key delta], .ok (.integer next)⟩

def evaluateExpire (nowMs : Nat) (key : Key) (seconds : Nat) : Evaluated :=
  if !store.containsKey key then .answer store (.boolean false)
  else if seconds = 0 then ⟨store.remove key, [.delete key], .ok (.boolean true)⟩
  else
    let expiresAtMs := resolveExpiration nowMs (.seconds seconds)
    ⟨store.setExpirationIfPresent key expiresAtMs, [.expire key expiresAtMs],
      .ok (.boolean true)⟩

def evaluatePersist (key : Key) : Evaluated :=
  if (store.expiration key).isSome then
    ⟨store.clearExpiration key, [.persist key], .ok (.boolean true)⟩
  else .answer store (.boolean false)

/-- The destination's version is read after the source is gone. -/
def evaluateRename (source destination : Key) : Evaluated :=
  match store.get source with
  | none => .answer store (.boolean false)
  | some entry =>
    let removed := store.remove source
    let version := nextValueVersion (removed.get destination)
    let renamed := removed.insertValueWithVersion destination entry.value version
    let (store, operations) := match entry.expiresAtMs with
      | some expiresAtMs =>
        (renamed.setExpirationIfPresent destination expiresAtMs,
          [WalOperation.expire destination expiresAtMs])
      | none => (renamed, [])
    ⟨store, .delete source :: .set destination entry.value version :: operations,
      .ok (.boolean true)⟩

def evaluatePurged (nowMs : Nat) : Command → Evaluated
  | .ping message => .answer store (.value (textBytes (message.getD "PONG")))
  | .get key => .answer store (valueOrNotFound (store.getValue key))
  | .getDel key => evaluateGetDel store key
  | .getEx key expiration persist => evaluateGetEx store nowMs key expiration persist
  | .set key value options => evaluateSet store nowMs key value options
  | .setNx key value => evaluateSetNx store key value
  | .mGet keys => .answer store (.strings (keys.map store.getValue))
  | .mSet entries =>
    let (store, operations) := evaluateMSet store entries
    ⟨store, operations, .ok .ok⟩
  | .delete keys =>
    let (store, operations) := evaluateDelete store keys
    ⟨store, operations, .ok (.count operations.length)⟩
  | .exists key => .answer store (.boolean (store.containsKey key))
  | .incr key => evaluateAdd store key 1
  | .decr key => evaluateAdd store key (-1)
  | .expire key seconds => evaluateExpire store nowMs key seconds
  | .ttl key => .answer store (.integer (EngineState.ttlAnswer store key nowMs))
  | .persist key => evaluatePersist store key
  | .rename source destination => evaluateRename store source destination
  | .renameNx source destination =>
    if store.containsKey destination then .answer store (.boolean false)
    else evaluateRename (store.purgeExpired nowMs) source destination
  | .scan cursor pattern count =>
    .answer (store.purgeExpired nowMs)
      (.scan (scanPage (store.purgeExpired nowMs).keysSorted cursor pattern count))
  | .dbSize | .count => .answer store (.count store.len)
  | .list =>
    .answer (store.purgeExpired nowMs)
      (.entries ((store.purgeExpired nowMs).toEntries.map fun (key, entry) => (key, entry.value)))
  | .clear =>
    if store.isEmpty then .answer store .ok else ⟨store.clear, [.clear], .ok .ok⟩
  | _ => .failed store (.unsupportedCommand "command is not supported inside transactions")

/-- `evaluate_transaction_command` on the store; the purge comes first. -/
def evaluateTransactionCommand (nowMs : Nat) (command : Command) : Evaluated :=
  evaluatePurged (store.purgeExpired nowMs) nowMs command

end Vaylix

import Vaylix.Engine.Evaluate
import Vaylix.Engine.Wal

/-!
# The storage engine

The state, the retained log entries with their identities, and the open log on disk. A direct
command purges what has expired, decides on the purged state which operations it logs, appends
one entry and applies it. Clock readings are arguments.
-/

namespace Vaylix

structure Reading where
  now : Nat
  later : Nat
  created : Nat
  now_le_later : now ≤ later
  later_le_created : later ≤ created

namespace Reading

def still (nowMs : Nat) : Reading := ⟨nowMs, nowMs, nowMs, le_rfl, le_rfl⟩

theorem now_le_created (reading : Reading) : reading.now ≤ reading.created :=
  reading.now_le_later.trans reading.later_le_created

end Reading

/-- What replication compares instead of an entry. -/
structure WalEntryIdentity where
  term : Nat
  checksum : UInt32
deriving DecidableEq, Repr

abbrev IdentityIndex := Std.ExtTreeMap Nat WalEntryIdentity compare

structure Engine where
  state : EngineState
  options : EngineOptions
  disk : Disk
  writer : WalWriter
  walEntries : List WalEntry
  walEntryIdentities : IdentityIndex
  currentConsensusTerm : Nat

def walEntryIdentity [Codec] (entry : WalEntry) : WalEntryIdentity :=
  ⟨entry.term, entry.checksum⟩

/-- Indexes entries by sequence; two different identities at one sequence are refused. -/
def buildWalEntryIdentities [Codec] (entries : List WalEntry) : Except EngineError IdentityIndex :=
  entries.foldlM (fun index entry =>
    match index[entry.sequence]? with
    | some previous =>
      if previous ≠ walEntryIdentity entry then
        .error (.invalidStorageOperation
          s!"conflicting duplicate WAL identity at sequence {entry.sequence}")
      else .ok (index.insert entry.sequence (walEntryIdentity entry))
    | none => .ok (index.insert entry.sequence (walEntryIdentity entry))) ∅

def IdentityIndex.extend (index added : IdentityIndex) : IdentityIndex :=
  added.toList.foldl (fun index (sequence, identity) => index.insert sequence identity) index

/-- What a direct command decides before it writes. -/
inductive Prepared (α : Type) where
  | quiet (state : EngineState) (answer : α)
  | failed (state : EngineState) (err : EngineError)
  | log (state : EngineState) (operations : List WalOperation) (answer : α)

namespace Prepared

variable {α β : Type}

def state : Prepared α → EngineState
  | .quiet state _ | .failed state _ | .log state _ _ => state

def operations : Prepared α → Option (List WalOperation)
  | .quiet _ _ | .failed _ _ => none
  | .log _ operations _ => some operations

def answer : Prepared α → Except EngineError α
  | .quiet _ answer | .log _ _ answer => .ok answer
  | .failed _ err => .error err

def render (view : α → β) : Prepared α → Prepared β
  | .quiet state answer => .quiet state (view answer)
  | .failed state err => .failed state err
  | .log state operations answer => .log state operations (view answer)

@[simp] theorem render_state (prepared : Prepared α) (view : α → β) :
    (prepared.render view).state = prepared.state := by
  cases prepared <;> rfl

@[simp] theorem render_operations (prepared : Prepared α) (view : α → β) :
    (prepared.render view).operations = prepared.operations := by
  cases prepared <;> rfl

end Prepared

namespace EngineState

variable (state : EngineState)

def setWithOptions (nowMs : Nat) (key : Key) (value : Bytes)
    (options : SetOptions) : Prepared SetOutcome :=
  let state := state.purgeExpired nowMs
  let previous := state.store.get key
  if !options.allowed previous then
    .quiet state ⟨false, previous.map StoredValue.value, previous.map StoredValue.version⟩
  else
    let version := nextValueVersion previous
    let extra := match options.expiration with
      | some expiration =>
        let expiresAtMs := resolveExpiration nowMs expiration
        if expiresAtMs ≤ nowMs then [WalOperation.delete key]
        else [WalOperation.expire key expiresAtMs]
      | none =>
        match options.keepTtl, previous.bind StoredValue.expiresAtMs with
        | true, some expiresAtMs => [WalOperation.expire key expiresAtMs]
        | _, _ => []
    .log state (.set key value version :: extra)
      ⟨true, previous.map StoredValue.value, some version⟩

def setNx (nowMs : Nat) (key : Key) (value : Bytes) : Prepared Bool :=
  (state.setWithOptions nowMs key value { condition := some .nx }).render SetOutcome.applied

def getDel (nowMs : Nat) (key : Key) : Prepared (Option Bytes) :=
  let state := state.purgeExpired nowMs
  let previous := state.store.getValue key
  if previous.isSome then .log state [.delete key] previous else .quiet state previous

def getEx (nowMs : Nat) (key : Key) (expiration : Option Expiration)
    (persist : Bool) : Prepared (Option Bytes) :=
  let state := state.purgeExpired nowMs
  let previous := state.store.getValue key
  if previous.isNone then .quiet state none
  else
    match expiration with
    | some expiration =>
      let expiresAtMs := resolveExpiration nowMs expiration
      if expiresAtMs ≤ nowMs then .log state [.delete key] previous
      else .log state [.expire key expiresAtMs] previous
    | none =>
      if persist && (state.store.expiration key).isSome then .log state [.persist key] previous
      else .quiet state previous

/-- The versions `mset` assigns: a key named twice counts on from its own write. -/
def msetOperations (store : EngineStore) (nextVersions : Std.ExtTreeMap Key Nat compare) :
    List (Key × Bytes) → List WalOperation
  | [] => []
  | (key, value) :: rest =>
    let version := (nextVersions[key]?).getD (nextValueVersion (store.get key))
    .set key value version ::
      msetOperations store (nextVersions.insert key (satAdd version 1)) rest

/-- `mset` reads the versions without purging. -/
def mset (entries : List (Key × Bytes)) : Prepared Unit :=
  .log state (msetOperations state.store ∅ entries) ()

/-- `delete_many` logs every key named as soon as one of them is there. -/
def deleteMany (nowMs : Nat) (keys : List Key) : Prepared Nat :=
  let state := state.purgeExpired nowMs
  let removed := (keys.filter state.store.containsKey).length
  if removed = 0 then .quiet state 0 else .log state (keys.map WalOperation.delete) removed

/-- `incr` and `decr` differ in `delta` only. -/
def add (nowMs : Nat) (key : Key) (delta : Int) : Prepared Int :=
  let state := state.purgeExpired nowMs
  match parseIntegerValue key ((state.store.getValue key).getD zeroText) with
  | .error err => .failed state err
  | .ok parsed =>
    match checkedAdd parsed delta with
    | none => .failed state (.numericOverflow key)
    | some next => .log state [.checkInteger key delta] next

def incr (nowMs : Nat) (key : Key) : Prepared Int := state.add nowMs key 1

def decr (nowMs : Nat) (key : Key) : Prepared Int :=
  state.add nowMs key (-1)

def expire (nowMs : Nat) (key : Key) (seconds : Nat) : Prepared Bool :=
  let state := state.purgeExpired nowMs
  if !state.store.containsKey key then .quiet state false
  else if seconds = 0 then .log state [.delete key] true
  else .log state [.expire key (resolveExpiration nowMs (.seconds seconds))] true

def persist (nowMs : Nat) (key : Key) : Prepared Bool :=
  let state := state.purgeExpired nowMs
  if (state.store.expiration key).isNone then .quiet state false
  else .log state [.persist key] true

/-- The destination's version is read while the source is still there. -/
def rename (nowMs : Nat) (source destination : Key) : Prepared Bool :=
  let state := state.purgeExpired nowMs
  match state.store.get source with
  | none => .quiet state false
  | some entry =>
    let version := nextValueVersion (state.store.get destination)
    let extra := match entry.expiresAtMs with
      | some expiresAtMs => [WalOperation.expire destination expiresAtMs]
      | none => []
    .log state (.delete source :: .set destination entry.value version :: extra) true

/-- `rename_nx` reads the clock, and then once more inside `rename`. -/
def renameNx (reading : Reading) (source destination : Key) : Prepared Bool :=
  let purged := state.purgeExpired reading.now
  if purged.store.containsKey destination then .quiet purged false
  else purged.rename reading.later source destination

/-- `clear` looks at the store without purging it. -/
def clear : Prepared Unit :=
  if state.store.isEmpty then .quiet state () else .log state [.clear] ()

def restoreOperations (nowMs : Nat) : List LogicalBackupEntry →
    Except EngineError (List WalOperation × Nat)
  | [] => .ok ([], 0)
  | entry :: rest =>
    if entry.expiresAtMs.any fun expiresAtMs => decide (expiresAtMs ≤ nowMs) then
      restoreOperations nowMs rest
    else
      match entry.value with
      | none => .error (.snapshotDeserialize "invalid base64")
      | some value =>
        match restoreOperations nowMs rest with
        | .error err => .error err
        | .ok (operations, restored) =>
          let expire := match entry.expiresAtMs with
            | some expiresAtMs => [WalOperation.expire entry.key expiresAtMs]
            | none => []
          .ok (.set entry.key value (max entry.version 1) :: expire ++ operations, restored + 1)

def restoreLogicalBackup [Codec] (state : EngineState) (nowMs : Nat) (dump : String) :
    Prepared Nat :=
  match Codec.parseLogicalBackup dump with
  | .error err => .failed state err
  | .ok backup =>
    match restoreOperations nowMs backup.entries with
    | .error err => .failed state err
    | .ok (operations, restored) => .log state (.clear :: operations) restored

end EngineState

namespace Engine

variable [Codec] {α : Type} (engine : Engine)

def lastAppliedSequence : Nat := engine.state.metadata.lastAppliedSequence

def setConsensusTerm (term : Nat) : Engine :=
  { engine with currentConsensusTerm := term }

def walEntryTerm (sequence : Nat) : Option Nat :=
  if sequence = 0 then none
  else (engine.walEntryIdentities[sequence]?).map WalEntryIdentity.term

def walEntryChecksum (sequence : Nat) : Option UInt32 :=
  if sequence = 0 then none
  else (engine.walEntryIdentities[sequence]?).map WalEntryIdentity.checksum

def nextEntry (createdAtMs : Nat) (operations : List WalOperation) : WalEntry :=
  ⟨engine.lastAppliedSequence + 1, engine.currentConsensusTerm, createdAtMs, operations⟩

def appendWal (entries : List WalEntry) : Engine :=
  let (walDir, writer) := WalWriter.appendBatch engine.options.walSegmentSizeBytes
    engine.disk.walDir engine.writer entries
  { engine with disk := { engine.disk with walDir := walDir }, writer := writer }

/-- `append_and_apply`: the entry is durable before it is applied. -/
def appendAndApply (createdAtMs : Nat) (operations : List WalOperation) :
    Engine × Option EngineError :=
  let entry := engine.nextEntry createdAtMs operations
  let engine := engine.appendWal [entry]
  match engine.state.applyEntry entry with
  | (state, some err) => ({ engine with state := state }, some err)
  | (state, none) =>
    ({ engine with
        state := state
        walEntries := engine.walEntries ++ [entry]
        walEntryIdentities :=
          engine.walEntryIdentities.insert entry.sequence (walEntryIdentity entry) }, none)

def appendNoop (createdAtMs : Nat) : Engine × Option EngineError :=
  engine.appendAndApply createdAtMs []

def finish (createdAtMs : Nat) (prepared : Prepared α) : Engine × Except EngineError α :=
  let engine := { engine with state := prepared.state }
  match prepared.operations with
  | none => (engine, prepared.answer)
  | some operations =>
    match engine.appendAndApply createdAtMs operations with
    | (engine, none) => (engine, prepared.answer)
    | (engine, some err) => (engine, .error err)

def sweepExpired (nowMs : Nat) : Engine :=
  { engine with state := engine.state.purgeExpired nowMs }

def evaluateTransaction (store : EngineStore) (nowMs : Nat) :
    List Command → Except EngineError (EngineStore × List WalOperation × List TransactionResult)
  | [] => .ok (store, [], [])
  | command :: rest =>
    let evaluated := evaluateTransactionCommand store nowMs command
    match evaluated.outcome with
    | .error err => .error err
    | .ok result =>
      match evaluateTransaction evaluated.store nowMs rest with
      | .error err => .error err
      | .ok (final, operations, results) =>
        .ok (final, evaluated.operations ++ operations, result :: results)

variable {nowMs : Nat} {command : Command} {rest : List Command}

omit [Codec] in
theorem evaluateTransaction_cons_ok {store final : EngineStore} {operations : List WalOperation}
    {results : List TransactionResult} :
    evaluateTransaction store nowMs (command :: rest) = .ok (final, operations, results) ↔
      ∃ result later following,
        (evaluateTransactionCommand store nowMs command).outcome = .ok result ∧
        evaluateTransaction (evaluateTransactionCommand store nowMs command).store nowMs rest =
          .ok (final, later, following) ∧
        operations = (evaluateTransactionCommand store nowMs command).operations ++ later ∧
        results = result :: following := by
  rw [evaluateTransaction]
  cases (evaluateTransactionCommand store nowMs command).outcome with
  | error err => simp
  | ok result =>
    cases evaluateTransaction (evaluateTransactionCommand store nowMs command).store nowMs rest with
    | error err => simp
    | ok outcome => simp [Prod.ext_iff, eq_comm, and_assoc]

/-- `execute_transaction`: one entry for the whole queue, or none. -/
def executeTransaction (reading : Reading) (commands : List Command) :
    Engine × Except EngineError (List TransactionResult) :=
  let engine := { engine with state := engine.state.purgeExpired reading.now }
  match evaluateTransaction engine.state.store reading.now commands with
  | .error err => (engine, .error err)
  | .ok (working, operations, results) =>
    if operations.isEmpty then
      ({ engine with state := { engine.state with store := working } }, .ok results)
    else
      match engine.appendAndApply reading.created operations with
      | (engine, none) => (engine, .ok results)
      | (engine, some err) => (engine, .error err)

structure BatchRollback where
  keys : Std.ExtTreeMap Key (Option StoredValue) compare
  clearSnapshot : Option EngineStore

namespace BatchRollback

def rememberKey (record : BatchRollback) (store : EngineStore) (key : Key) : BatchRollback :=
  if record.clearSnapshot.isSome ∨ record.keys.contains key then record
  else { record with keys := record.keys.insert key (store.get key) }

def rememberClear (record : BatchRollback) (store : EngineStore) : BatchRollback :=
  match record.clearSnapshot with
  | some _ => record
  | none => ⟨∅, some store⟩

def rememberCommand (record : BatchRollback) (store : EngineStore) : Command → BatchRollback
  | .set key _ _ | .setNx key _ | .getDel key | .getEx key _ _ | .expire key _ | .persist key
  | .incr key | .decr key => record.rememberKey store key
  | .mSet entries => entries.foldl (fun record entry => record.rememberKey store entry.1) record
  | .delete keys | .mGet keys => keys.foldl (fun record key => record.rememberKey store key) record
  | .rename source destination | .renameNx source destination =>
    (record.rememberKey store source).rememberKey store destination
  | .clear => record.rememberClear store
  | _ => record

def rollback (record : BatchRollback) (store : EngineStore) : EngineStore :=
  match record.clearSnapshot with
  | some previous => previous
  | none => record.keys.toList.foldl (fun store (key, value) =>
      match value with
      | some entry => store.insertEntry key entry
      | none => store.remove key) store

end BatchRollback

structure CommandBatchResult where
  result : TransactionResult
  lastAppliedSequence : Nat
deriving DecidableEq, Repr

/-- The loop of `execute_command_batch`, up to its end or its error. -/
def evaluateBatch (store : EngineStore) (record : BatchRollback) (nowMs term visible : Nat) :
    List Command → EngineStore × BatchRollback ×
      Except EngineError (List WalEntry × List CommandBatchResult)
  | [] => (store, record, .ok ([], []))
  | command :: rest =>
    let record := record.rememberCommand store command
    let evaluated := evaluateTransactionCommand store nowMs command
    match evaluated.outcome with
    | .error err => (evaluated.store, record, .error err)
    | .ok result =>
      let written := !evaluated.operations.isEmpty
      let visible' := if written then visible + 1 else visible
      match evaluateBatch evaluated.store record nowMs term visible' rest with
      | (final, record, .error err) => (final, record, .error err)
      | (final, record, .ok (entries, results)) =>
        (final, record, .ok (
          if written then ⟨visible + 1, term, nowMs, evaluated.operations⟩ :: entries else entries,
          ⟨result, visible'⟩ :: results))

omit [Codec] in
theorem evaluateBatch_cons_ok {store final : EngineStore} {record record' : BatchRollback}
    {term visible : Nat} {entries : List WalEntry} {results : List CommandBatchResult}
    (done : evaluateBatch store record nowMs term visible (command :: rest) =
      (final, record', .ok (entries, results))) :
    let evaluated := evaluateTransactionCommand store nowMs command
    let visible' := if !evaluated.operations.isEmpty then visible + 1 else visible
    ∃ result later following, evaluated.outcome = .ok result ∧
      evaluateBatch evaluated.store (record.rememberCommand store command) nowMs term visible'
        rest = (final, record', .ok (later, following)) ∧
      entries = (if !evaluated.operations.isEmpty then
        ⟨visible + 1, term, nowMs, evaluated.operations⟩ :: later else later) ∧
      results = ⟨result, visible'⟩ :: following := by
  unfold evaluateBatch at done
  dsimp only at done
  split at done
  · cases done
  · rename_i result answered
    split at done
    · cases done
    · rename_i following
      cases done
      exact ⟨result, _, _, answered, following, rfl, rfl⟩

/-- `execute_command_batch`: each command that changes something gets its own entry. -/
def executeCommandBatch (nowMs : Nat) (commands : List Command) :
    Engine × Except EngineError (List CommandBatchResult) :=
  let state := engine.state.purgeExpired nowMs
  match evaluateBatch state.store ⟨∅, none⟩ nowMs engine.currentConsensusTerm
      state.metadata.lastAppliedSequence commands with
  | (store, record, .error err) =>
    ({ engine with state := { state with store := record.rollback store } }, .error err)
  | (store, _, .ok (entries, results)) =>
    match entries.getLast? with
    | none => ({ engine with state := { state with store := store } }, .ok results)
    | some last =>
      let written : EngineState := ⟨store, { state.metadata with
        lastAppliedSequence := last.sequence, updatedAtMs := nowMs }⟩
      match buildWalEntryIdentities entries with
      | .error err => ({ engine with state := written }, .error err)
      | .ok identities =>
        let engine := engine.appendWal entries
        ({ engine with
            state := written
            walEntries := engine.walEntries ++ entries
            walEntryIdentities := engine.walEntryIdentities.extend identities }, .ok results)

end Engine

end Vaylix

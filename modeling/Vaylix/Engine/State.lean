import Vaylix.Engine.Store

/-!
# Log entries and the engine state they rebuild

`applyEntry` is the one interpreter of entries on the engine side: the live engine, recovery
and every replica run it. An entry whose operation fails is undone from the rollback record
kept meanwhile.
-/

namespace Vaylix

inductive WalOperation where
  | set (key : Key) (value : Bytes) (version : Nat)
  | delete (key : Key)
  | expire (key : Key) (expiresAtMs : Nat)
  | persist (key : Key)
  | clear
  | checkInteger (key : Key) (delta : Int)
deriving DecidableEq, Repr

structure WalEntry where
  sequence : Nat
  term : Nat
  createdAtMs : Nat
  operations : List WalOperation
deriving DecidableEq, Repr

/-- The failures that the model can reach. A rejected number is reported with its bytes, which the
source prints through `from_utf8_lossy`. -/
inductive EngineError where
  | io (detail : String)
  | snapshotDeserialize (detail : String)
  | manifestDeserialize (detail : String)
  | walDeserialize (detail : String)
  | checksumMismatch (resource : String)
  | unsupportedStorageFormat (resource : String)
  | storageMigrationRequired (resource : String)
  | invalidStorageOperation (detail : String)
  | restorePointUnavailable (detail : String)
  | invalidIntegerValue (key : Key) (value : Bytes)
  | numericOverflow (key : Key)
  | unsupportedCommand (detail : String)
deriving DecidableEq, Repr

def engineVersion : Nat := 3

def ttlNoExpiry : Int := -1

def ttlKeyMissing : Int := -2

structure EngineMetadata where
  version : Nat
  createdAtMs : Nat
  updatedAtMs : Nat
  lastSnapshotAtMs : Option Nat
  lastAppliedSequence : Nat
deriving DecidableEq, Repr

structure EngineState where
  store : EngineStore
  metadata : EngineMetadata

def i64Min : Int := -9223372036854775808

def i64Max : Int := 9223372036854775807

def parseDigits (digits : Bytes) : Option Nat :=
  if digits.isEmpty then none
  else digits.foldl (fun acc digit => acc.bind fun n =>
    if 48 ≤ digit ∧ digit ≤ 57 then some (10 * n + (digit.toNat - 48)) else none) (some 0)

def parseI64 (text : Bytes) : Option Int :=
  let parsed : Option Int := match text with
    | 43 :: digits => (parseDigits digits).map fun n => (n : Int)
    | 45 :: digits => (parseDigits digits).map fun n => -(n : Int)
    | digits => (parseDigits digits).map fun n => (n : Int)
  parsed.filter fun n => decide (i64Min ≤ n ∧ n ≤ i64Max)

def checkedAdd (a b : Int) : Option Int :=
  if i64Min ≤ a + b ∧ a + b ≤ i64Max then some (a + b) else none

def renderI64 (n : Int) : Bytes :=
  let digits := (Nat.toDigits 10 n.natAbs).map fun c => c.toNat.toUInt8
  if n < 0 then 45 :: digits else digits

def zeroText : Bytes := [48]

def incrementedEntry (current : Option StoredValue) (next : Int) : StoredValue :=
  ⟨renderI64 next, none, (current.map fun entry => satAdd entry.version 1).getD 1⟩

def applyOperation (store : EngineStore) : WalOperation → Except EngineError EngineStore
  | .set key value version => .ok (store.insertValueWithVersion key value version)
  | .delete key => .ok (store.remove key)
  | .expire key expiresAtMs => .ok (store.setExpirationIfPresent key expiresAtMs)
  | .persist key => .ok (store.clearExpiration key)
  | .clear => .ok store.clear
  | .checkInteger key delta =>
    let current := store.get key
    let currentValue := (current.map StoredValue.value).getD zeroText
    match parseI64 currentValue with
    | none => .error (.invalidIntegerValue key currentValue)
    | some parsed =>
      match checkedAdd parsed delta with
      | none => .error (.numericOverflow key)
      | some next => .ok (store.insertEntry key (incrementedEntry current next))

theorem applyOperation_checkInteger {store next : EngineStore} {key : Key} {delta : Int} :
    applyOperation store (.checkInteger key delta) = .ok next ↔
      ∃ number sum, parseI64 (((store.get key).map StoredValue.value).getD zeroText) = some number ∧
        checkedAdd number delta = some sum ∧
        next = store.insertEntry key (incrementedEntry (store.get key) sum) := by
  simp only [applyOperation]
  split
  · simp [*]
  · split <;> simp [*, eq_comm]

/-- What `applyEntry` remembers so that it can undo a failed entry. -/
structure EntryRollback where
  keys : Std.ExtTreeMap Key (Option StoredValue) compare
  clearSnapshot : Option EngineStore

namespace EntryRollback

def empty : EntryRollback := ⟨∅, none⟩

def rememberKey (rollback : EntryRollback) (store : EngineStore) (key : Key) : EntryRollback :=
  if rollback.clearSnapshot.isSome ∨ rollback.keys.contains key then rollback
  else { rollback with keys := rollback.keys.insert key (store.get key) }

def rememberClear (rollback : EntryRollback) (store : EngineStore) : EntryRollback :=
  match rollback.clearSnapshot with
  | some _ => rollback
  | none => ⟨∅, some store⟩

def remember (rollback : EntryRollback) (store : EngineStore) : WalOperation → EntryRollback
  | .set key _ _ | .delete key | .expire key _ | .persist key | .checkInteger key _ =>
    rollback.rememberKey store key
  | .clear => rollback.rememberClear store

def rollback (record : EntryRollback) (store : EngineStore) : EngineStore :=
  match record.clearSnapshot with
  | some previous => previous
  | none => record.keys.toList.foldl (fun store (key, value) =>
      match value with
      | some entry => store.insertEntry key entry
      | none => store.remove key) store

end EntryRollback

/-- The loop of `apply_entry`, up to its end or its error. -/
def applyOperationsRecorded (store : EngineStore) (record : EntryRollback) :
    List WalOperation → EngineStore × EntryRollback × Option EngineError
  | [] => (store, record, none)
  | operation :: rest =>
    let record := record.remember store operation
    match applyOperation store operation with
    | .error err => (store, record, some err)
    | .ok next => applyOperationsRecorded next record rest

namespace EngineState

def new (nowMs : Nat) : EngineState :=
  ⟨EngineStore.new, ⟨engineVersion, nowMs, nowMs, none, 0⟩⟩

def applyEntry (state : EngineState) (entry : WalEntry) : EngineState × Option EngineError :=
  match applyOperationsRecorded state.store .empty entry.operations with
  | (store, _, none) =>
    (⟨store, { state.metadata with
        lastAppliedSequence := entry.sequence, updatedAtMs := entry.createdAtMs }⟩, none)
  | (store, record, some err) => (⟨record.rollback store, state.metadata⟩, some err)

def purgeExpired (state : EngineState) (nowMs : Nat) : EngineState :=
  ⟨state.store.purgeExpired nowMs,
    if 0 < state.store.purgedCount nowMs then { state.metadata with updatedAtMs := nowMs }
    else state.metadata⟩

def remainingSeconds (remainingMs : Nat) : Int := ((remainingMs + 999) / 1000 : Nat)

def ttlAnswer (store : EngineStore) (key : Key) (nowMs : Nat) : Int :=
  match store.get key with
  | none => ttlKeyMissing
  | some entry =>
    match entry.expiresAtMs with
    | none => ttlNoExpiry
    | some expiresAtMs =>
      if expiresAtMs ≤ nowMs then ttlKeyMissing else remainingSeconds (expiresAtMs - nowMs)

def markSnapshot (state : EngineState) (nowMs sequence : Nat) : EngineState :=
  { state with metadata := { state.metadata with
      updatedAtMs := nowMs, lastSnapshotAtMs := some nowMs, lastAppliedSequence := sequence } }

@[simp] theorem purgeExpired_store (state : EngineState) (nowMs : Nat) :
    (state.purgeExpired nowMs).store = state.store.purgeExpired nowMs := rfl

@[simp] theorem purgeExpired_lastAppliedSequence (state : EngineState) (nowMs : Nat) :
    (state.purgeExpired nowMs).metadata.lastAppliedSequence =
      state.metadata.lastAppliedSequence := by
  unfold purgeExpired
  split <;> rfl

end EngineState

/-- The operations of an entry run one after the other, without the record. -/
def applyOperations (store : EngineStore) (operations : List WalOperation) :
    Except EngineError EngineStore :=
  operations.foldlM applyOperation store

@[simp] theorem applyOperations_nil (store : EngineStore) :
    applyOperations store [] = .ok store := rfl

theorem applyOperations_cons (store : EngineStore) (operation : WalOperation)
    (rest : List WalOperation) :
    applyOperations store (operation :: rest) =
      (applyOperation store operation).bind fun next => applyOperations next rest := rfl

theorem applyOperations_cons_eq_ok {store final : EngineStore} {operation : WalOperation}
    {rest : List WalOperation} : applyOperations store (operation :: rest) = .ok final ↔
      ∃ next, applyOperation store operation = .ok next ∧ applyOperations next rest = .ok final :=
  Except.bind_eq_ok_iff

/-- What each operation keeps, all of them keep. -/
theorem applyOperations_preserves (Holds : EngineStore → Prop) {operations : List WalOperation}
    (kept : ∀ operation ∈ operations, ∀ ⦃store next⦄, Holds store →
      applyOperation store operation = .ok next → Holds next)
    {store final : EngineStore} (holds : Holds store)
    (run : applyOperations store operations = .ok final) : Holds final := by
  induction operations generalizing store with
  | nil =>
    cases run
    exact holds
  | cons operation rest ih =>
    obtain ⟨next, first, following⟩ := applyOperations_cons_eq_ok.mp run
    exact ih (List.forall_mem_cons.mp kept).2
      (kept operation List.mem_cons_self holds first) following

theorem applyOperations_singleton (store : EngineStore) (operation : WalOperation) :
    applyOperations store [operation] = applyOperation store operation :=
  bind_pure _

theorem applyOperations_append (store : EngineStore) (first second : List WalOperation) :
    applyOperations store (first ++ second) =
      (applyOperations store first).bind fun next => applyOperations next second := by
  simp only [applyOperations, List.foldlM_append]
  rfl

theorem applyOperationsRecorded_eq (store : EngineStore) (record : EntryRollback)
    (operations : List WalOperation) :
    ∃ reached kept outcome,
      applyOperationsRecorded store record operations = (reached, kept, outcome) ∧
      applyOperations store operations =
        match outcome with
        | none => .ok reached
        | some err => .error err := by
  induction operations generalizing store record with
  | nil => exact ⟨store, record, none, rfl, rfl⟩
  | cons operation rest ih =>
    rw [applyOperations_cons, applyOperationsRecorded]
    cases applyOperation store operation with
    | error err => exact ⟨store, _, some err, rfl, rfl⟩
    | ok next => exact ih next _

namespace EngineState

def applied (state : EngineState) (entry : WalEntry) (store : EngineStore) : EngineState :=
  ⟨store, { state.metadata with
    lastAppliedSequence := entry.sequence, updatedAtMs := entry.createdAtMs }⟩

/-- An entry succeeds exactly if its operations run. -/
theorem applyEntry_ok_iff (state next : EngineState) (entry : WalEntry) :
    state.applyEntry entry = (next, none) ↔
      ∃ store, applyOperations state.store entry.operations = .ok store ∧
        next = state.applied entry store := by
  obtain ⟨reached, kept, outcome, loop, run⟩ :=
    applyOperationsRecorded_eq state.store .empty entry.operations
  rw [applyEntry, loop, run]
  cases outcome <;> simp [applied, eq_comm]

theorem applyEntry_of_ok (state : EngineState) (entry : WalEntry) {store : EngineStore}
    (run : applyOperations state.store entry.operations = .ok store) :
    state.applyEntry entry = (state.applied entry store, none) :=
  (applyEntry_ok_iff _ _ _).mpr ⟨store, run, rfl⟩

theorem applyEntry_error_iff (state : EngineState) (entry : WalEntry) (err : EngineError) :
    (state.applyEntry entry).2 = some err ↔
      applyOperations state.store entry.operations = .error err := by
  obtain ⟨reached, kept, outcome, loop, run⟩ :=
    applyOperationsRecorded_eq state.store .empty entry.operations
  rw [applyEntry, loop, run]
  cases outcome <;> simp

end EngineState

end Vaylix

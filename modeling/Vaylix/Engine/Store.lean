import Vaylix.Lib.Outcome

/-!
# The live keyspace

One map from keys to stored values, each with its expiration and its version. Shards are a
matter of locking: the map is the sorted view that the persistence code exports.

Unsigned 64-bit quantities are natural numbers. Terms, versions and expirations saturate at
`u64Max` as in the source; sequence numbers do not, except where a definition says so.
-/

namespace Vaylix

abbrev Key := String

abbrev Bytes := List UInt8

def u64Max : Nat := 18446744073709551615

def satAdd (a b : Nat) : Nat := min (a + b) u64Max

/-- A value together with its absolute expiration and its version. -/
structure StoredValue where
  value : Bytes
  expiresAtMs : Option Nat
  version : Nat
deriving DecidableEq, Repr, Inhabited

namespace StoredValue

def expiredAt (entry : StoredValue) (nowMs : Nat) : Bool :=
  match entry.expiresAtMs with
  | some expiresAtMs => decide (expiresAtMs ≤ nowMs)
  | none => false

theorem expiredAt_mono {entry : StoredValue} {earlier later : Nat}
    (order : earlier ≤ later) (expired : entry.expiredAt earlier = true) :
    entry.expiredAt later = true := by
  unfold expiredAt at expired ⊢
  cases found : entry.expiresAtMs with
  | none => simp [found] at expired
  | some expiresAtMs =>
    simp only [found, decide_eq_true_eq] at expired ⊢
    exact Nat.le_trans expired order

end StoredValue

structure EngineStore where
  entries : Std.ExtTreeMap Key StoredValue compare

namespace EngineStore

def new : EngineStore := ⟨∅⟩

instance : Inhabited EngineStore := ⟨new⟩

variable (store : EngineStore)

def get (key : Key) : Option StoredValue := store.entries[key]?

def getValue (key : Key) : Option Bytes :=
  (store.get key).map StoredValue.value

def containsKey (key : Key) : Bool := (store.get key).isSome

def expiration (key : Key) : Option Nat :=
  (store.get key).bind StoredValue.expiresAtMs

def len : Nat := store.entries.size

def isEmpty : Bool := store.entries.isEmpty

def clear (_ : EngineStore) : EngineStore := new

def insertEntry (key : Key) (entry : StoredValue) : EngineStore :=
  ⟨store.entries.insert key entry⟩

/-- A plain write: the expiration of the key is dropped. -/
def insertValueWithVersion (key : Key) (value : Bytes) (version : Nat) : EngineStore :=
  store.insertEntry key ⟨value, none, version⟩

def remove (key : Key) : EngineStore := ⟨store.entries.erase key⟩

def setExpirationIfPresent (key : Key) (expiresAtMs : Nat) : EngineStore :=
  match store.get key with
  | some entry => store.insertEntry key { entry with expiresAtMs := some expiresAtMs }
  | none => store

def clearExpiration (key : Key) : EngineStore :=
  match store.get key with
  | some entry => store.insertEntry key { entry with expiresAtMs := none }
  | none => store

def purgeExpired (nowMs : Nat) : EngineStore :=
  ⟨store.entries.filter fun _ entry => !entry.expiredAt nowMs⟩

def purgedCount (nowMs : Nat) : Nat :=
  store.len - (store.purgeExpired nowMs).len

def keysSorted : List Key := store.entries.toList.map Prod.fst

def toEntries : List (Key × StoredValue) := store.entries.toList

variable (key other : Key)

@[ext] theorem ext {left right : EngineStore} (same : ∀ key, left.get key = right.get key) :
    left = right := by
  cases left
  cases right
  congr
  exact Std.ExtTreeMap.ext_getElem? fun {key} => same key

@[simp] theorem get_new : new.get key = none := by
  simp [new, get]

@[simp] theorem get_clear : store.clear.get key = none := by
  simp [clear]

@[simp] theorem get_insertEntry (entry : StoredValue) :
    (store.insertEntry key entry).get other =
      if key = other then some entry else store.get other := by
  simp [insertEntry, get, Std.ExtTreeMap.getElem?_insert]

@[simp] theorem get_insertValueWithVersion (value : Bytes) (version : Nat) :
    (store.insertValueWithVersion key value version).get other =
      if key = other then some ⟨value, none, version⟩ else store.get other := by
  simp [insertValueWithVersion]

@[simp] theorem get_remove :
    (store.remove key).get other = if key = other then none else store.get other := by
  simp [remove, get, Std.ExtTreeMap.getElem?_erase]

@[simp] theorem get_setExpirationIfPresent (expiresAtMs : Nat) :
    (store.setExpirationIfPresent key expiresAtMs).get other =
      if key = other then
        (store.get key).map fun entry => { entry with expiresAtMs := some expiresAtMs }
      else store.get other := by
  unfold setExpirationIfPresent
  by_cases same : key = other
  · subst same
    cases found : store.get key <;> simp [found]
  · cases found : store.get key <;> simp [same]

@[simp] theorem get_clearExpiration :
    (store.clearExpiration key).get other =
      if key = other then
        (store.get key).map fun entry => { entry with expiresAtMs := none }
      else store.get other := by
  unfold clearExpiration
  by_cases same : key = other
  · subst same
    cases found : store.get key <;> simp [found]
  · cases found : store.get key <;> simp [same]

@[simp] theorem get_purgeExpired (nowMs : Nat) :
    (store.purgeExpired nowMs).get key =
      (store.get key).filter fun entry => !entry.expiredAt nowMs := by
  simp only [purgeExpired, get, Std.ExtTreeMap.getElem?_filter]
  cases found : store.entries[key]? with
  | none => simp
  | some entry => simp [Option.filter]

theorem purgeExpired_max (first second : Nat) :
    (store.purgeExpired first).purgeExpired second = store.purgeExpired (max first second) := by
  have either : ∀ entry : StoredValue, entry.expiredAt (max first second) =
      (entry.expiredAt first || entry.expiredAt second) := by
    intro entry
    unfold StoredValue.expiredAt
    cases entry.expiresAtMs with
    | none => rfl
    | some expiresAtMs =>
      rw [← Bool.decide_or]
      exact decide_eq_decide.mpr (by omega)
  ext key : 1
  simp only [get_purgeExpired, Option.filter_filter, either, Bool.not_or]

end EngineStore

end Vaylix

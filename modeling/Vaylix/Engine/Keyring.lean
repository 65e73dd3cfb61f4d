import Vaylix.Engine.Wal
import Vaylix.Lib.Run

/-!
# Keys of encrypted storage

Log entries and snapshots are encrypted with the active key and name it. A snapshot replaces a
key that is due: in memory first, then in the file. When the file cannot be written, what is
written with the new key is lost with the process.
-/

namespace Vaylix

open LabelledRun

structure StorageKey where
  id : Nat
  secret : String
  createdAtMs : Nat

structure StorageKeyring where
  active : StorageKey
  previous : List StorageKey

namespace StorageKeyring

def get (keyring : StorageKeyring) (id : Nat) : Option StorageKey :=
  if keyring.active.id = id then some keyring.active
  else keyring.previous.find? fun key => decide (key.id = id)

def rotationMs : Nat := 30 * 24 * 60 * 60 * 1000

/-- `rotate_if_due` before it saves. The fresh key is made at the current time. -/
def rotateIfDue (keyring : StorageKeyring) (fresh : StorageKey) : Option StorageKeyring :=
  if fresh.createdAtMs - keyring.active.createdAtMs < rotationMs then none
  else some ⟨fresh, keyring.previous ++ [keyring.active]⟩

/-- No other key has the id of the active one. -/
def Distinct (keyring : StorageKeyring) : Prop :=
  ∀ key ∈ keyring.previous, key.id ≠ keyring.active.id

variable {keyring rotated : StorageKeyring} {fresh : StorageKey}

theorem get_rotated (distinct : keyring.Distinct) (unknown : keyring.get fresh.id = none)
    (due : keyring.rotateIfDue fresh = some rotated) :
    rotated.Distinct ∧ ∀ id key, keyring.get id = some key → rotated.get id = some key := by
  unfold rotateIfDue at due
  split at due <;> cases due
  have others : keyring.active.id ≠ fresh.id ∧ ∀ key ∈ keyring.previous, key.id ≠ fresh.id := by
    simpa [get, ite_eq_iff] using unknown
  refine ⟨by simpa [Distinct, or_imp, forall_and] using others.symm, fun id key found => ?_⟩
  have other : fresh.id ≠ id := by
    rintro rfl
    rw [unknown] at found
    cases found
  unfold get at found ⊢
  rw [if_neg (by exact other), List.find?_append]
  split at found
  · rename_i here
    cases found
    have absent : keyring.previous.find? (fun key => decide (key.id = keyring.active.id)) = none :=
      by simpa [Distinct] using distinct
    simp [← here, absent]
  · simp [found]

end StorageKeyring

class StorageCipher where
  derive : String → Nat → Bytes
  encrypt : Bytes → Bytes → String → Bytes → Bytes
  decrypt : Bytes → Bytes → String → Bytes → Option Bytes
  hash : Bytes → UInt32
  decrypt_encrypt : ∀ key nonce resource plaintext,
    decrypt key nonce resource (encrypt key nonce resource plaintext) = some plaintext

structure Envelope where
  keyId : Nat
  salt : Nat
  nonce : Bytes
  checksum : UInt32
  ciphertext : Bytes

section Encryption

variable [StorageCipher]

/-- The salt is the id of the key. -/
def encrypt (key : StorageKey) (resource : String) (nonce plaintext : Bytes) : Envelope :=
  let ciphertext := StorageCipher.encrypt (StorageCipher.derive key.secret key.id) nonce resource
    plaintext
  ⟨key.id, key.id, nonce, StorageCipher.hash ciphertext, ciphertext⟩

def decrypt (keyring : StorageKeyring) (resource : String) (envelope : Envelope) : Option Bytes :=
  if StorageCipher.hash envelope.ciphertext ≠ envelope.checksum then none
  else (keyring.get envelope.keyId).bind fun key =>
    StorageCipher.decrypt (StorageCipher.derive key.secret envelope.salt) envelope.nonce resource
      envelope.ciphertext

/-- A log entry, or a snapshot with the key it would rotate to and what becomes of the two saves.
That of the keyring may replace the file and fail nevertheless. -/
inductive StorageEvent where
  | append (nonce entry : Bytes)
  | snapshot (fresh : StorageKey) (replaced saved : Bool) (nonce state : Bytes) (written : Bool)

/-- The keyring in memory, the one in the file, and all that was written. -/
structure EncryptedStorage where
  keyring : StorageKeyring
  stored : StorageKeyring
  written : List (String × Bytes × Envelope)

namespace EncryptedStorage

def write (storage : EncryptedStorage) (resource : String) (nonce plaintext : Bytes) :
    EncryptedStorage :=
  { storage with written :=
      (resource, plaintext, encrypt storage.keyring.active resource nonce plaintext) ::
        storage.written }

def step (storage : EncryptedStorage) : StorageEvent → Option EncryptedStorage
  | .append nonce entry => some (storage.write "wal entry" nonce entry)
  | .snapshot fresh replaced saved nonce state written =>
    match storage.keyring.rotateIfDue fresh with
    | none => some (if written then storage.write "snapshot" nonce state else storage)
    | some rotated =>
      let next : EncryptedStorage :=
        ⟨rotated, if replaced then rotated else storage.stored, storage.written⟩
      some (if saved && written then next.write "snapshot" nonce state else next)

def Readable (storage : EncryptedStorage) : Prop :=
  ∀ record ∈ storage.written, decrypt storage.stored record.1 record.2.2 = some record.2.1

/-- A key that is due is replaced in the file, by one with a new id. -/
def Saves (storage : EncryptedStorage) : StorageEvent → Prop
  | .append _ _ => True
  | .snapshot fresh replaced _ _ _ _ => (storage.keyring.rotateIfDue fresh).isSome →
      replaced = true ∧ storage.keyring.get fresh.id = none

structure Safe (storage : EncryptedStorage) : Prop where
  same : storage.stored = storage.keyring
  distinct : storage.keyring.Distinct
  readable : storage.Readable

variable {storage next final : EncryptedStorage} {event : StorageEvent}

theorem Safe.write (safe : storage.Safe) (resource : String) (nonce plaintext : Bytes) :
    (storage.write resource nonce plaintext).Safe := by
  refine ⟨safe.same, safe.distinct, List.forall_mem_cons.mpr ⟨?_, safe.readable⟩⟩
  simp [EncryptedStorage.write, decrypt, encrypt, safe.same, StorageKeyring.get,
    StorageCipher.decrypt_encrypt]

theorem Safe.rotated (safe : storage.Safe) {rotated : StorageKeyring}
    (distinct : rotated.Distinct)
    (kept : ∀ id key, storage.keyring.get id = some key → rotated.get id = some key) :
    Safe ⟨rotated, rotated, storage.written⟩ := by
  refine ⟨rfl, distinct, fun record member => ?_⟩
  have read := safe.readable record member
  unfold decrypt at read ⊢
  split at read
  · cases read
  · obtain ⟨key, found, opened⟩ := Option.bind_eq_some_iff.mp read
    rw [if_neg (by assumption), kept _ key (safe.same ▸ found)]
    exact opened

/-- A step that saves its key leaves nothing unreadable. -/
theorem Safe.step (safe : storage.Safe) (saves : storage.Saves event)
    (taken : storage.step event = some next) : next.Safe := by
  cases event with
  | append nonce entry =>
    cases taken
    exact safe.write _ nonce entry
  | snapshot fresh replaced saved nonce state written =>
    simp only [EncryptedStorage.step] at taken
    split at taken
    · cases taken
      split
      · exact safe.write _ nonce state
      · exact safe
    · rename_i rotated due
      obtain ⟨rfl, unknown⟩ := saves (by rw [due]; rfl)
      obtain ⟨distinct, kept⟩ := StorageKeyring.get_rotated safe.distinct unknown due
      have moved := safe.rotated distinct kept
      cases taken
      split
      · exact moved.write _ nonce state
      · exact moved

end EncryptedStorage

end Encryption

namespace EncryptedStorage

/-- A cipher that hides nothing. -/
local instance plainCipher : StorageCipher :=
  ⟨fun _ _ => [], fun _ _ _ text => text, fun _ _ _ text => some text, fun _ => 0, by simp⟩

end EncryptedStorage

end Vaylix

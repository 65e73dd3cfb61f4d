import Vaylix.Engine.Evaluate
import Vaylix.Lib.Cursor

/-!
# The payloads of requests

Texts and values with their length in front, numbers, flags for what is optional. An encoder
fails if a field is too long for its length; a decoder accepts exactly what its encoder
writes. `SET` alone also reads payloads that stop before the version flag.
-/

namespace Vaylix

open Cursor

inductive TransportError where
  | invalidFrame
  | unknownOpcode (opcode : UInt8)
  | unknownStatus (status : UInt8)
  | unsupportedCommand (command : String)
  | versionMismatch (expected actual : UInt8)
  | frameTooLarge (length max : Nat)
  | unexpectedEof
  | corruptedPayload
  | checksumMismatch (expected actual : UInt32)
  | unsupportedFlags (flags : UInt8)
  | compressionFailure
  | invalidUtf8
  | negotiationFailed (reason : String)
  | capabilityMismatch (reason : String)
  | decompressedFrameTooLarge (length max : Nat)
  | protocolStateViolation (reason : String)
deriving DecidableEq, Repr

/-! ### Texts as bytes -/

theorem toList_loop_eq (bytes : ByteArray) (index : Nat) (read : List UInt8) :
    ByteArray.toList.loop bytes index read = read.reverse ++ bytes.data.toList.drop index := by
  rw [ByteArray.toList.loop.eq_def]
  split
  · rename_i inside
    have bound : index < bytes.data.toList.length := inside
    rw [toList_loop_eq bytes (index + 1), List.drop_eq_getElem_cons bound, List.reverse_cons,
      List.append_assoc, ByteArray.get!, getElem!_pos bytes.data index inside,
      Array.getElem_toList, List.singleton_append]
  · rename_i outside
    rw [List.drop_eq_nil_of_le (not_lt.mp outside), List.append_nil]
termination_by bytes.size - index

theorem textBytes_eq (text : String) : textBytes text = text.toByteArray.data.toList :=
  toList_loop_eq _ 0 []

def fromUtf8 (bytes : Bytes) : Option String := String.fromUTF8? bytes.toByteArray

theorem fromUtf8_eq_some {bytes : Bytes} {text : String} :
    fromUtf8 bytes = some text ↔ bytes = textBytes text := by
  rw [textBytes_eq, fromUtf8, String.fromUTF8?]
  constructor
  · intro decoded
    split at decoded
    · rw [← Option.some.inj decoded]
      exact (List.toList_data_toByteArray).symm
    · cases decoded
  · rintro rfl
    have same : text.toByteArray.data.toList.toByteArray = text.toByteArray := by
      apply ByteArray.ext
      rw [List.data_toByteArray]
    have valid := text.isValidUTF8
    rw [← same] at valid
    rw [dif_pos valid, Option.some.injEq]
    exact String.toByteArray_inj.mp same

/-! ### Fields -/

/-- `put_bytes_u32` and its like: the length in so many bytes, if it fits, and the bytes. -/
def putBytes (width : Nat) (value : Bytes) : Except TransportError Bytes :=
  if value.length < 256 ^ width then .ok (bigEndian width value.length ++ value)
  else .error .corruptedPayload

def putBytesU32 (value : Bytes) : Except TransportError Bytes := putBytes 4 value

def putStringU16 (value : String) : Except TransportError Bytes := putBytes 2 (textBytes value)

def putStringU32 (value : String) : Except TransportError Bytes := putBytes 4 (textBytes value)

def readBytes (width : Nat) : Reader TransportError Bytes := do
  require width .unexpectedEof
  let length ← number width
  require length .unexpectedEof
  take length

def readString (width : Nat) : Reader TransportError String := do
  let bytes ← readBytes width
  match fromUtf8 bytes with
  | some text => pure text
  | none => refuse .invalidUtf8

def readBytesU32 : Reader TransportError Bytes := readBytes 4

def readStringU16 : Reader TransportError String := readString 2

def readStringU32 : Reader TransportError String := readString 4

def putBool (value : Bool) : Bytes := [if value then 1 else 0]

def readBool : Reader TransportError Bool := do
  require 1 .unexpectedEof
  match ← byte with
  | 0 => pure false
  | 1 => pure true
  | _ => refuse .corruptedPayload

theorem putBytes_eq_ok {width : Nat} {value bytes : Bytes} :
    putBytes width value = .ok bytes ↔
      value.length < 256 ^ width ∧ bigEndian width value.length ++ value = bytes := by
  unfold putBytes
  split <;> simp_all

theorem readBytes_eq_ok {width : Nat} {input value rest : Bytes} :
    readBytes width input = .ok (value, rest) ↔
      ∃ bytes, putBytes width value = .ok bytes ∧ input = bytes ++ rest := by
  simp only [readBytes, bind_eq_ok, require_eq_ok, number_eq_ok, take_eq_ok, putBytes_eq_ok]
  constructor
  · rintro ⟨_, _, ⟨-, rfl⟩, length, _, ⟨bound, rfl⟩, _, _, ⟨-, rfl⟩, rfl, rfl⟩
    exact ⟨_, ⟨bound, rfl⟩, (List.append_assoc ..).symm⟩
  · rintro ⟨_, ⟨bound, rfl⟩, rfl⟩
    refine ⟨(), _, ⟨?_, rfl⟩, value.length, value ++ rest, ⟨bound, List.append_assoc ..⟩, (), _,
      ⟨?_, rfl⟩, rfl, rfl⟩
    · simp only [List.length_append, length_bigEndian]
      omega
    · rw [List.length_append]
      omega

theorem readString_eq_ok {width : Nat} {input rest : Bytes} {value : String} :
    readString width input = .ok (value, rest) ↔
      ∃ bytes, putBytes width (textBytes value) = .ok bytes ∧ input = bytes ++ rest := by
  simp only [readString, bind_eq_ok, readBytes_eq_ok]
  constructor
  · rintro ⟨read, after, ⟨bytes, written, rfl⟩, decoded⟩
    cases valid : fromUtf8 read with
    | some text =>
      rw [valid] at decoded
      obtain ⟨rfl, rfl⟩ := Prod.mk.inj (pure_eq_ok.mp decoded)
      rw [← fromUtf8_eq_some.mp valid]
      exact ⟨bytes, written, rfl⟩
    | none =>
      rw [valid] at decoded
      exact absurd decoded refuse_ne_ok
  · rintro ⟨bytes, written, rfl⟩
    refine ⟨_, rest, ⟨bytes, written, rfl⟩, ?_⟩
    rw [fromUtf8_eq_some.mpr rfl]
    rfl

theorem readBool_eq_ok {input rest : Bytes} {value : Bool} :
    readBool input = .ok (value, rest) ↔ input = putBool value ++ rest := by
  simp only [readBool, bind_eq_ok, require_eq_ok, byte_eq_ok, putBool]
  constructor
  · rintro ⟨_, _, ⟨-, rfl⟩, flag, after, rfl, decoded⟩
    split at decoded
    · obtain ⟨rfl, rfl⟩ := Prod.mk.inj (pure_eq_ok.mp decoded)
      rfl
    · obtain ⟨rfl, rfl⟩ := Prod.mk.inj (pure_eq_ok.mp decoded)
      rfl
    · exact absurd decoded refuse_ne_ok
  · rintro rfl
    refine ⟨(), _, ⟨by simp, rfl⟩, _, rest, rfl, ?_⟩
    cases value <;> rfl

theorem safe_readBytes (width : Nat) : SafeFrom 0 (readBytes width) := by
  refine .require (.number (le_max_right ..) fun length => ?_)
  refine .require ?_
  intro input long overran
  rw [take, if_neg (not_lt.mpr ((le_max_right ..).trans long))] at overran
  cases overran

theorem safe_readString (width : Nat) : SafeFrom 0 (readString width) := by
  refine (safe_readBytes width).bind fun bytes => ?_
  split
  · exact .pure
  · exact .refuse

theorem safe_readBool : SafeFrom 0 readBool := by
  refine .require (.byte (le_max_right ..) fun flag => ?_)
  split
  · exact .pure
  · exact .pure
  · exact .refuse

/-! ### Payloads -/

/-- The whole payload; `ensure_empty` comes last. -/
def decodeWhole {α : Type} (reader : Reader TransportError α) (payload : Bytes) :
    Except (Stop TransportError) α :=
  ((do
    let value ← reader
    ended .corruptedPayload
    pure value) payload).map Prod.fst

def decodeEmpty (payload : Bytes) : Except (Stop TransportError) Unit :=
  if payload.isEmpty then .ok () else .error (.refused .corruptedPayload)

def encodeKey (key : String) : Except TransportError Bytes := putStringU16 key

def decodeSingleKey : Bytes → Except (Stop TransportError) String := decodeWhole readStringU16

def encodeDump (dump : String) : Except TransportError Bytes := putStringU32 dump

def decodeDump : Bytes → Except (Stop TransportError) String := decodeWhole readStringU32

def encodeKeyValue (key value : String) : Except TransportError Bytes := do
  let front ← putStringU16 key
  let back ← putStringU32 value
  pure (front ++ back)

def decodeKeyValue : Bytes → Except (Stop TransportError) (String × String) :=
  decodeWhole do
    let key ← readStringU16
    let value ← readStringU32
    pure (key, value)

def encodeKeyBytes (key : String) (value : Bytes) : Except TransportError Bytes := do
  let front ← putStringU16 key
  let back ← putBytesU32 value
  pure (front ++ back)

/-- One pair of `decode_pairs`, and the whole of `decode_key_bytes`. -/
def readKeyBytes : Reader TransportError (String × Bytes) := do
  let key ← readStringU16
  let value ← readBytesU32
  pure (key, value)

def decodeKeyBytes : Bytes → Except (Stop TransportError) (String × Bytes) :=
  decodeWhole readKeyBytes

def encodeThreeStrings (first second third : String) : Except TransportError Bytes := do
  let front ← putStringU16 first
  let middle ← putStringU16 second
  let back ← putStringU16 third
  pure (front ++ (middle ++ back))

def decodeThreeStrings : Bytes → Except (Stop TransportError) (String × String × String) :=
  decodeWhole do
    let first ← readStringU16
    let second ← readStringU16
    let third ← readStringU16
    pure (first, second, third)

def putNumber (width n : Nat) : Except TransportError Bytes := .ok (bigEndian width n)

def readNumber (width : Nat) : Reader TransportError Nat := do
  require width .unexpectedEof
  number width

def encodeKeyU64 (key : String) (value : Nat) : Except TransportError Bytes := do
  let front ← putStringU16 key
  pure (front ++ bigEndian 8 value)

def decodeKeyU64 : Bytes → Except (Stop TransportError) (String × Nat) :=
  decodeWhole do
    let key ← readStringU16
    let value ← readNumber 8
    pure (key, value)

def readCounted (width : Nat) {α : Type} (reader : Reader TransportError α) :
    Reader TransportError (List α) := do
  require width .unexpectedEof
  counted width reader

def encodeKeys (keys : List String) : Except TransportError Bytes :=
  putCounted 2 .corruptedPayload putStringU16 keys

def decodeKeys : Bytes → Except (Stop TransportError) (List String) :=
  decodeWhole (readCounted 2 readStringU16)

def encodeBytePairs (entries : List (String × Bytes)) : Except TransportError Bytes :=
  putCounted 2 .corruptedPayload (fun entry => encodeKeyBytes entry.1 entry.2) entries

def decodePairs : Bytes → Except (Stop TransportError) (List (String × Bytes)) :=
  decodeWhole (readCounted 2 readKeyBytes)

def putOptional {α : Type} (put : α → Except TransportError Bytes) :
    Option α → Except TransportError Bytes
  | some value => do
    let bytes ← put value
    pure (1 :: bytes)
  | none => .ok [0]

/-- A flag that is not checked to be there, and the value if there is one. -/
def readOptional {α : Type} (reader : Reader TransportError α) :
    Reader TransportError (Option α) := do
  match ← byte with
  | 0 => pure none
  | 1 => do
    let value ← reader
    pure (some value)
  | _ => refuse .corruptedPayload

def encodeOptionalString (value : Option String) : Except TransportError Bytes :=
  putOptional putStringU32 value

def decodeOptionalString : Bytes → Except (Stop TransportError) (Option String) :=
  decodeWhole do
    require 1 .unexpectedEof
    readOptional readStringU32

def encodeScan (cursor : Nat) (pattern : Option String) (count : Option Nat) :
    Except TransportError Bytes := do
  let front ← putOptional putStringU16 pattern
  let back ← putOptional (putNumber 2) count
  pure (bigEndian 8 cursor ++ (front ++ back))

/-- The check covers the flag of the count only if there is no pattern. -/
def readScan : Reader TransportError (Nat × Option String × Option Nat) := do
  require 10 .unexpectedEof
  let cursor ← number 8
  let pattern ← readOptional readStringU16
  let count ← readOptional (readNumber 2)
  pure (cursor, pattern, count)

def decodeScan : Bytes → Except (Stop TransportError) (Nat × Option String × Option Nat) :=
  decodeWhole readScan

def encodeCondition : Option SetCondition → UInt8
  | none => 0
  | some .nx => 1
  | some .xx => 2

def decodeCondition : Reader TransportError (Option SetCondition) := do
  require 1 .unexpectedEof
  match ← byte with
  | 0 => pure none
  | 1 => pure (some .nx)
  | 2 => pure (some .xx)
  | _ => refuse .corruptedPayload

def encodeExpiration : Option Expiration → Bytes
  | none => [0]
  | some (.seconds value) => 1 :: bigEndian 8 value
  | some (.milliseconds value) => 2 :: bigEndian 8 value

def decodeExpiration : Reader TransportError (Option Expiration) := do
  require 1 .unexpectedEof
  match ← byte with
  | 0 => pure none
  | 1 => do
    let value ← readNumber 8
    pure (some (.seconds value))
  | 2 => do
    let value ← readNumber 8
    pure (some (.milliseconds value))
  | _ => refuse .corruptedPayload

/-- The version of a `SET`, which may be missing with its flag. -/
def readIfVersion : Reader TransportError (Option Nat) := do
  if ← isEmpty then pure none else readOptional (readNumber 8)

def encodeSet (key : String) (value : Bytes) (options : SetOptions) :
    Except TransportError Bytes := do
  let front ← encodeKeyBytes key value
  let back ← putOptional (putNumber 8) options.ifVersion
  pure (front ++ (encodeCondition options.condition :: (encodeExpiration options.expiration ++
    (putBool options.keepTtl ++ (putBool options.returnPrevious ++ back)))))

def readSet : Reader TransportError (String × Bytes × SetOptions) := do
  let (key, value) ← readKeyBytes
  let condition ← decodeCondition
  let expiration ← decodeExpiration
  let keepTtl ← readBool
  let returnPrevious ← readBool
  let ifVersion ← readIfVersion
  pure (key, value, ⟨condition, ifVersion, expiration, keepTtl, returnPrevious⟩)

def decodeSet : Bytes → Except (Stop TransportError) (String × Bytes × SetOptions) :=
  decodeWhole readSet

def encodeGetEx (key : String) (expiration : Option Expiration) (persist : Bool) :
    Except TransportError Bytes := do
  let front ← putStringU16 key
  pure (front ++ (encodeExpiration expiration ++ putBool persist))

def readGetEx : Reader TransportError (String × Option Expiration × Bool) := do
  let key ← readStringU16
  let expiration ← decodeExpiration
  let persist ← readBool
  pure (key, expiration, persist)

def decodeGetEx : Bytes → Except (Stop TransportError) (String × Option Expiration × Bool) :=
  decodeWhole readGetEx

end Vaylix

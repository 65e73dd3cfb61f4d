import Vaylix.Transport.Payload

/-!
# Payload encoders and decoders as inverses

The encoder of a payload fails exactly if a length does not fit its field, and the decoder
accepts exactly what the encoder writes. There is one codec for each kind of payload.
-/

namespace Vaylix

open Cursor

/-- An encoder and a decoder of the same values. -/
structure PayloadCodec where
  Value : Type
  /-- The numbers are in the range of their machine types. -/
  Typed : Value → Prop
  /-- A payload of the value may stop before a last zero byte. -/
  Abbreviable : Value → Prop
  put : Value → Except TransportError Bytes
  decode : Bytes → Except (Stop TransportError) Value
  /-- The payloads on which the decoder asks for bytes behind the end. -/
  Overread : Bytes → Prop
  /-- Each length that is written, with the bytes it is written in. -/
  lengths : Value → List (Nat × Nat)
  put_ok_iff : ∀ value, (∃ payload, put value = .ok payload) ↔
    ∀ field ∈ lengths value, field.1 < 256 ^ field.2
  decode_eq_ok : ∀ payload value, decode payload = .ok value ↔ Typed value ∧
    (put value = .ok payload ∨ Abbreviable value ∧ put value = .ok (payload ++ [0]))
  decode_eq_overread : ∀ payload, decode payload = .error .overread ↔ Overread payload

section Fields

variable {α : Type} {reader : Reader TransportError α} {put : α → Except TransportError Bytes}
  {typed : α → Prop}

variable {payload : Bytes} {value : α}

theorem decodeWhole_eq_ok :
    decodeWhole reader payload = .ok value ↔ reader payload = .ok (value, []) := by
  unfold decodeWhole
  constructor
  · intro decoded
    obtain ⟨⟨found, rest⟩, result, same⟩ := Except.map_eq_ok_iff.mp decoded
    obtain rfl : found = value := same
    simp only [bind_eq_ok, ended_eq_ok, pure_eq_ok] at result
    obtain ⟨_, _, read, _, _, ⟨rfl, rfl⟩, same⟩ := result
    cases same
    exact read
  · intro read
    rw [bind_apply, read]
    rfl

theorem decodeWhole_eq_overread :
    decodeWhole reader payload = .error .overread ↔ reader payload = .error .overread := by
  unfold decodeWhole
  rw [bind_apply]
  rcases read : reader payload with stop | ⟨value, _ | ⟨byte, rest⟩⟩
  · simp [Except.map]
  · exact ⟨nofun, nofun⟩
  · exact ⟨nofun, nofun⟩

/-- A payload is accepted exactly if it is written for the value. -/
theorem decodeWhole_iff (inverse : Inverse typed put reader) :
    decodeWhole reader payload = .ok value ↔ typed value ∧ put value = .ok payload := by
  rw [decodeWhole_eq_ok, inverse]
  constructor
  · rintro ⟨well, bytes, written, rfl⟩
    exact ⟨well, by rwa [List.append_nil]⟩
  · rintro ⟨well, written⟩
    exact ⟨well, payload, written, (List.append_nil _).symm⟩

theorem inverse_readBytesU32 : Inverse (fun _ => True) putBytesU32 readBytesU32 := by
  intro input value rest
  rw [true_and]
  exact readBytes_eq_ok

theorem inverse_readStringU16 : Inverse (fun _ => True) putStringU16 readStringU16 := by
  intro input value rest
  rw [true_and]
  exact readString_eq_ok

theorem inverse_readStringU32 : Inverse (fun _ => True) putStringU32 readStringU32 := by
  intro input value rest
  rw [true_and]
  exact readString_eq_ok

variable {input rest : Bytes}

theorem readNumber_eq_ok {width n : Nat} :
    readNumber width input = .ok (n, rest) ↔
      n < 256 ^ width ∧ input = bigEndian width n ++ rest := by
  simp only [readNumber, bind_eq_ok, require_eq_ok, number_eq_ok]
  constructor
  · rintro ⟨_, _, ⟨-, rfl⟩, read⟩
    exact read
  · rintro ⟨bound, rfl⟩
    refine ⟨(), _, ⟨?_, rfl⟩, bound, rfl⟩
    rw [List.length_append, length_bigEndian]
    omega

theorem inverse_readNumber (width : Nat) :
    Inverse (fun n => n < 256 ^ width) (putNumber width) (readNumber width) := by
  intro input n rest
  rw [readNumber_eq_ok]
  constructor
  · rintro ⟨bound, rfl⟩
    exact ⟨bound, _, rfl, rfl⟩
  · rintro ⟨bound, _, ⟨⟩, rfl⟩
    exact ⟨bound, rfl⟩

theorem inverse_readCounted (width : Nat) (inverse : Inverse typed put reader) :
    Inverse (fun values : List α => ∀ value ∈ values, typed value)
      (putCounted width .corruptedPayload put) (readCounted width reader) :=
  (inverse.counted width .corruptedPayload).checked .unexpectedEof fun _ _ => length_putCounted

theorem putOptional_some_eq_ok {bytes : Bytes} :
    putOptional put (some value) = .ok bytes ↔ ∃ found, put value = .ok found ∧
      1 :: found = bytes := by
  simp only [putOptional, Except.bind_eq_ok_iff, Except.pure_eq_ok_iff]

theorem inverse_readOptional (inverse : Inverse typed put reader) :
    Inverse (fun value : Option α => ∀ found ∈ value, typed found) (putOptional put)
      (readOptional reader) := by
  intro input value rest
  simp only [readOptional, bind_eq_ok, byte_eq_ok]
  constructor
  · rintro ⟨flag, after, rfl, decoded⟩
    split at decoded
    · cases pure_eq_ok.mp decoded
      exact ⟨by rintro _ ⟨⟩, [0], rfl, rfl⟩
    · obtain ⟨found, _, read, same⟩ := bind_eq_ok.mp decoded
      cases pure_eq_ok.mp same
      obtain ⟨well, bytes, written, rfl⟩ := (inverse _ _ _).mp read
      refine ⟨?_, 1 :: bytes, putOptional_some_eq_ok.mpr ⟨bytes, written, rfl⟩, rfl⟩
      rintro _ ⟨⟩
      exact well
    · exact absurd decoded refuse_ne_ok
  · rintro ⟨well, bytes, written, rfl⟩
    cases value with
    | none =>
      cases written
      exact ⟨0, rest, rfl, rfl⟩
    | some found =>
      obtain ⟨front, wrote, rfl⟩ := putOptional_some_eq_ok.mp written
      exact ⟨1, front ++ rest, rfl, bind_eq_ok.mpr
        ⟨found, rest, (inverse _ _ _).mpr ⟨well found rfl, front, wrote, rfl⟩, rfl⟩⟩

def Expiration.InRange : Expiration → Prop
  | .seconds value => value < 256 ^ 8
  | .milliseconds value => value < 256 ^ 8

theorem decodeCondition_eq_ok {condition : Option SetCondition} :
    decodeCondition input = .ok (condition, rest) ↔ input = encodeCondition condition :: rest := by
  simp only [decodeCondition, bind_eq_ok, require_eq_ok, byte_eq_ok]
  constructor
  · rintro ⟨_, _, ⟨-, rfl⟩, flag, after, rfl, decoded⟩
    split at decoded
    · cases pure_eq_ok.mp decoded
      rfl
    · cases pure_eq_ok.mp decoded
      rfl
    · cases pure_eq_ok.mp decoded
      rfl
    · exact absurd decoded refuse_ne_ok
  · rintro rfl
    refine ⟨(), _, ⟨Nat.succ_le_succ (Nat.zero_le _), rfl⟩, _, rest, rfl, ?_⟩
    rcases condition with _ | _ | _ <;> rfl

theorem decodeExpiration_eq_ok {expiration : Option Expiration} :
    decodeExpiration input = .ok (expiration, rest) ↔
      (∀ e ∈ expiration, e.InRange) ∧ input = encodeExpiration expiration ++ rest := by
  simp only [decodeExpiration, bind_eq_ok, require_eq_ok, byte_eq_ok]
  constructor
  · rintro ⟨_, _, ⟨-, rfl⟩, flag, after, rfl, decoded⟩
    split at decoded
    · cases pure_eq_ok.mp decoded
      exact ⟨by rintro _ ⟨⟩, rfl⟩
    · obtain ⟨n, _, read, same⟩ := bind_eq_ok.mp decoded
      cases pure_eq_ok.mp same
      obtain ⟨bound, rfl⟩ := readNumber_eq_ok.mp read
      exact ⟨by rintro _ ⟨⟩; exact bound, rfl⟩
    · obtain ⟨n, _, read, same⟩ := bind_eq_ok.mp decoded
      cases pure_eq_ok.mp same
      obtain ⟨bound, rfl⟩ := readNumber_eq_ok.mp read
      exact ⟨by rintro _ ⟨⟩; exact bound, rfl⟩
    · exact absurd decoded refuse_ne_ok
  · rintro ⟨bound, rfl⟩
    refine ⟨(), _, ⟨?_, rfl⟩, ?_⟩
    · rw [List.length_append]
      rcases expiration with _ | _ | _ <;> simp [encodeExpiration] <;> omega
    · rcases expiration with _ | value | value
      · exact ⟨0, rest, rfl, rfl⟩
      · exact ⟨1, _, rfl, bind_eq_ok.mpr
          ⟨value, rest, readNumber_eq_ok.mpr ⟨bound _ rfl, rfl⟩, rfl⟩⟩
      · exact ⟨2, _, rfl, bind_eq_ok.mpr
          ⟨value, rest, readNumber_eq_ok.mpr ⟨bound _ rfl, rfl⟩, rfl⟩⟩

theorem readIfVersion_eq_ok {version : Option Nat} :
    readIfVersion input = .ok (version, rest) ↔
      (version = none ∧ input = [] ∧ rest = []) ∨ ((∀ n ∈ version, n < 256 ^ 8) ∧
        ∃ bytes, putOptional (putNumber 8) version = .ok bytes ∧ input = bytes ++ rest) := by
  have flagged := inverse_readOptional (inverse_readNumber 8) input version rest
  rw [← flagged]
  cases input with
  | nil =>
    have nothing : readIfVersion [] = .ok (none, []) := rfl
    have overread : readOptional (readNumber 8) [] = .error .overread := rfl
    rw [nothing, overread]
    simp [eq_comm]
  | cons flag after =>
    have same : readIfVersion (flag :: after) = readOptional (readNumber 8) (flag :: after) := rfl
    rw [same]
    simp

end Fields

/-! ### No read behind the end -/

section Safe

variable {α : Type} {reader : Reader TransportError α}

theorem safe_readNumber (width : Nat) : SafeFrom 0 (readNumber width) :=
  .require (Fixed.number.safe.mono (le_max_right ..))

theorem safe_readKeyBytes : SafeFrom 0 readKeyBytes :=
  (safe_readString 2).bind fun _ => (safe_readBytes 4).bind fun _ => .pure

theorem safe_readCounted {width : Nat} (safe : SafeFrom 0 reader) :
    SafeFrom 0 (readCounted width reader) :=
  .require (safe.counted.mono (le_max_right ..))

theorem safe_readOptional (safe : SafeFrom 0 reader) : SafeFrom 1 (readOptional reader) := by
  refine .byte (le_refl 1) fun flag => ?_
  split
  · exact .pure
  · exact safe.bind fun _ => .pure
  · exact .refuse

theorem safe_decodeCondition : SafeFrom 0 decodeCondition := by
  refine .require (.byte (le_max_right ..) fun flag => ?_)
  split
  · exact .pure
  · exact .pure
  · exact .pure
  · exact .refuse

theorem safe_decodeExpiration : SafeFrom 0 decodeExpiration := by
  refine .require (.byte (le_max_right ..) fun flag => ?_)
  split
  · exact .pure
  · exact (safe_readNumber 8).bind fun _ => .pure
  · exact (safe_readNumber 8).bind fun _ => .pure
  · exact .refuse

theorem safe_readIfVersion : SafeFrom 0 readIfVersion := by
  intro input _
  cases input with
  | nil => exact nofun
  | cons flag rest => exact safe_readOptional (safe_readNumber 8) (flag :: rest) (by simp)

theorem safe_readSet : SafeFrom 0 readSet :=
  safe_readKeyBytes.bind fun _ => safe_decodeCondition.bind fun _ =>
    safe_decodeExpiration.bind fun _ => safe_readBool.bind fun _ => safe_readBool.bind fun _ =>
      safe_readIfVersion.bind fun _ => .pure

theorem require_ne_overread {count : Nat} {err : TransportError} {input : Bytes} :
    require count err input ≠ .error .overread := by
  unfold require
  split <;> exact nofun

end Safe

/-! ### The length fields -/

section Lengths

variable {α : Type} {put : α → Except TransportError Bytes}

theorem length_putBytes {width : Nat} {value bytes : Bytes}
    (written : putBytes width value = .ok bytes) : width ≤ bytes.length := by
  obtain ⟨-, rfl⟩ := putBytes_eq_ok.mp written
  rw [List.length_append, length_bigEndian]
  omega

theorem putBytes_ok_iff {width : Nat} {value : Bytes} :
    (∃ payload, putBytes width value = .ok payload) ↔ value.length < 256 ^ width := by
  simp only [putBytes_eq_ok, exists_and_left, exists_eq', and_true]

variable {result : Except TransportError Bytes}

theorem then_ok_iff {next : Bytes → Except TransportError Bytes} {fits : Prop}
    (after : ∀ front, (∃ payload, next front = .ok payload) ↔ fits) :
    (∃ payload, result >>= next = .ok payload) ↔ (∃ front, result = .ok front) ∧ fits := by
  simp only [Except.bind_eq_ok_iff]
  constructor
  · rintro ⟨payload, front, one, two⟩
    exact ⟨⟨front, one⟩, (after front).mp ⟨payload, two⟩⟩
  · rintro ⟨⟨front, one⟩, well⟩
    obtain ⟨payload, two⟩ := (after front).mpr well
    exact ⟨payload, front, one, two⟩

theorem wrap_ok_iff {wrap : Bytes → Bytes} :
    (∃ payload, (do
      let bytes ← result
      pure (wrap bytes)) = .ok payload) ↔ ∃ bytes, result = .ok bytes := by
  simp only [Except.bind_eq_ok_iff, Except.pure_eq_ok_iff]
  constructor
  · rintro ⟨_, bytes, one, -⟩
    exact ⟨bytes, one⟩
  · rintro ⟨bytes, one⟩
    exact ⟨_, bytes, one, rfl⟩

theorem putOptional_ok_iff {value : Option α} :
    (∃ payload, putOptional put value = .ok payload) ↔
      ∀ found ∈ value, ∃ payload, put found = .ok payload := by
  cases value with
  | none => exact ⟨nofun, fun _ => ⟨[0], rfl⟩⟩
  | some found => simp only [putOptional, wrap_ok_iff, Option.mem_some_iff, forall_eq']

theorem putNumber_ok (width n : Nat) : ∃ payload, putNumber width n = .ok payload := ⟨_, rfl⟩

end Lengths

/-! ### One codec for each kind of payload -/

def textLength (text : String) : Nat := (textBytes text).length

namespace PayloadCodec

def ofInverse {α : Type} {typed : α → Prop} (put : α → Except TransportError Bytes)
    (reader : Reader TransportError α) (inverse : Inverse typed put reader)
    (safe : SafeFrom 0 reader) (lengths : α → List (Nat × Nat))
    (fits : ∀ value, (∃ payload, put value = .ok payload) ↔
      ∀ field ∈ lengths value, field.1 < 256 ^ field.2) : PayloadCodec where
  Value := α
  Typed := typed
  Abbreviable _ := False
  Overread _ := False
  put := put
  decode := decodeWhole reader
  lengths := lengths
  put_ok_iff := fits
  decode_eq_ok payload value := by rw [decodeWhole_iff inverse, false_and, or_false]
  decode_eq_overread payload := by
    rw [decodeWhole_eq_overread, iff_false]
    exact safe payload (Nat.zero_le _)

def empty : PayloadCodec where
  Value := Unit
  Typed _ := True
  Abbreviable _ := False
  Overread _ := False
  put _ := .ok []
  decode := decodeEmpty
  lengths _ := []
  put_ok_iff _ := by simp
  decode_eq_ok payload _ := by
    unfold decodeEmpty
    cases payload <;> simp
  decode_eq_overread payload := by
    unfold decodeEmpty
    cases payload <;> simp

def key : PayloadCodec :=
  ofInverse encodeKey readStringU16 inverse_readStringU16 (safe_readString 2)
    (fun key => [(textLength key, 2)])
    fun key => by
      rw [List.forall_mem_singleton]
      exact putBytes_ok_iff

def dump : PayloadCodec :=
  ofInverse encodeDump readStringU32 inverse_readStringU32 (safe_readString 4)
    (fun dump => [(textLength dump, 4)])
    fun dump => by
      rw [List.forall_mem_singleton]
      exact putBytes_ok_iff

def keyValue : PayloadCodec :=
  ofInverse (fun pair : String × String => encodeKeyValue pair.1 pair.2) _
    ((inverse_readStringU16.pair inverse_readStringU32).retyped fun _ => iff_of_eq (true_and _))
    ((safe_readString 2).bind fun _ => (safe_readString 4).bind fun _ => .pure)
    (fun pair => [(textLength pair.1, 2), (textLength pair.2, 4)])
    fun pair => by
      rw [List.forall_mem_cons, List.forall_mem_singleton]
      refine (then_ok_iff fun _ => ?_).trans (and_congr_left' putBytes_ok_iff)
      exact wrap_ok_iff.trans putBytes_ok_iff

theorem inverse_readKeyBytes :
    Inverse (fun _ : String × Bytes => True) (fun pair => encodeKeyBytes pair.1 pair.2)
      readKeyBytes := by
  intro input pair rest
  have both := inverse_readStringU16.pair inverse_readBytesU32 input pair rest
  rwa [and_self_iff] at both

variable {value : Bytes}

theorem encodeKeyBytes_ok_iff {key : String} :
    (∃ payload, encodeKeyBytes key value = .ok payload) ↔
      textLength key < 256 ^ 2 ∧ value.length < 256 ^ 4 := by
  refine (then_ok_iff fun _ => ?_).trans (and_congr_left' putBytes_ok_iff)
  exact wrap_ok_iff.trans putBytes_ok_iff

def keyBytes : PayloadCodec :=
  ofInverse (fun pair => encodeKeyBytes pair.1 pair.2) readKeyBytes inverse_readKeyBytes
    safe_readKeyBytes
    (fun pair => [(textLength pair.1, 2), (pair.2.length, 4)])
    fun pair => by
      rw [List.forall_mem_cons, List.forall_mem_singleton]
      exact encodeKeyBytes_ok_iff

theorem inverse_threeStrings :
    Inverse (fun _ : String × String × String => True)
      (fun texts => encodeThreeStrings texts.1 texts.2.1 texts.2.2) (do
        let first ← readStringU16
        let second ← readStringU16
        let third ← readStringU16
        pure (first, second, third)) := by
  have nested := inverse_readStringU16.pair (inverse_readStringU16.pair inverse_readStringU16)
  simp only [bind_assoc, pure_bind, and_self] at nested
  exact nested

def threeStrings : PayloadCodec :=
  ofInverse (fun texts : String × String × String =>
      encodeThreeStrings texts.1 texts.2.1 texts.2.2) _ inverse_threeStrings
    ((safe_readString 2).bind fun _ => (safe_readString 2).bind fun _ =>
      (safe_readString 2).bind fun _ => .pure)
    (fun texts => [(textLength texts.1, 2), (textLength texts.2.1, 2), (textLength texts.2.2, 2)])
    fun texts => by
      rw [List.forall_mem_cons, List.forall_mem_cons, List.forall_mem_singleton]
      refine (then_ok_iff fun _ => ?_).trans (and_congr_left' putBytes_ok_iff)
      refine (then_ok_iff fun _ => ?_).trans (and_congr_left' putBytes_ok_iff)
      exact wrap_ok_iff.trans putBytes_ok_iff

def keyU64 : PayloadCodec :=
  ofInverse (fun pair : String × Nat => encodeKeyU64 pair.1 pair.2) _
    ((inverse_readStringU16.pair (inverse_readNumber 8)).retyped fun _ => iff_of_eq (true_and _))
    ((safe_readString 2).bind fun _ => (safe_readNumber 8).bind fun _ => .pure)
    (fun pair => [(textLength pair.1, 2)])
    fun pair => by
      rw [List.forall_mem_singleton]
      exact wrap_ok_iff.trans putBytes_ok_iff

def keys : PayloadCodec :=
  ofInverse encodeKeys (readCounted 2 readStringU16)
    ((inverse_readCounted 2 inverse_readStringU16).retyped fun _ => forall₂_true_iff)
    (safe_readCounted (safe_readString 2))
    (fun keys => (keys.length, 2) :: keys.map fun key => (textLength key, 2))
    fun keys => by
      rw [List.forall_mem_cons, List.forall_mem_map]
      exact putCounted_ok_iff.trans
        (and_congr_right fun _ => forall₂_congr fun _ _ => putBytes_ok_iff)

def bytePairs : PayloadCodec :=
  ofInverse encodeBytePairs (readCounted 2 readKeyBytes)
    ((inverse_readCounted 2 inverse_readKeyBytes).retyped fun _ => forall₂_true_iff)
    (safe_readCounted safe_readKeyBytes)
    (fun entries => (entries.length, 2) ::
      entries.flatMap fun entry => [(textLength entry.1, 2), (entry.2.length, 4)])
    fun entries => by
      rw [List.forall_mem_cons, List.forall_mem_flatMap]
      refine putCounted_ok_iff.trans (and_congr_right fun _ => forall₂_congr fun entry _ => ?_)
      rw [List.forall_mem_cons, List.forall_mem_singleton]
      exact encodeKeyBytes_ok_iff

theorem length_putOptional {α : Type} {put : α → Except TransportError Bytes} {value : Option α}
    {bytes : Bytes} (written : putOptional put value = .ok bytes) : 1 ≤ bytes.length := by
  cases value with
  | none =>
    cases written
    exact le_refl 1
  | some found =>
    obtain ⟨front, -, rfl⟩ := putOptional_some_eq_ok.mp written
    rw [List.length_cons]
    omega

def optionalString : PayloadCodec :=
  ofInverse encodeOptionalString
    (do
      require 1 .unexpectedEof
      readOptional readStringU32)
    (((inverse_readOptional inverse_readStringU32).checked .unexpectedEof
      fun _ _ => length_putOptional).retyped fun _ => forall₂_true_iff)
    (.require ((safe_readOptional (safe_readString 4)).mono (le_max_right ..)))
    (fun value => value.toList.map fun text => (textLength text, 4))
    fun value => by
      rw [List.forall_mem_map]
      simp only [Option.mem_toList]
      exact putOptional_ok_iff.trans (forall₂_congr fun _ _ => putBytes_ok_iff)

theorem readScan_eq_ok {input rest : Bytes} {cursor : Nat} {pattern : Option String}
    {count : Option Nat} :
    readScan input = .ok ((cursor, pattern, count), rest) ↔
      (cursor < 256 ^ 8 ∧ ∀ n ∈ count, n < 256 ^ 2) ∧
        ∃ bytes, encodeScan cursor pattern count = .ok bytes ∧ input = bytes ++ rest := by
  simp only [readScan, encodeScan, bind_eq_ok, require_eq_ok, number_eq_ok, pure_eq_ok,
    inverse_readOptional inverse_readStringU16 _ _ _,
    inverse_readOptional (inverse_readNumber 2) _ _ _, Except.bind_eq_ok_iff,
    Except.pure_eq_ok_iff, Prod.mk.injEq]
  constructor
  · rintro ⟨_, _, ⟨-, rfl⟩, _, _, ⟨bound, rfl⟩, _, _, ⟨-, front, one, rfl⟩, _, _,
      ⟨small, back, two, rfl⟩, ⟨rfl, rfl, rfl⟩, rfl⟩
    refine ⟨⟨bound, small⟩, _, ⟨front, one, back, two, rfl⟩, ?_⟩
    simp only [List.append_assoc]
  · rintro ⟨⟨bound, small⟩, _, ⟨front, one, back, two, rfl⟩, rfl⟩
    have flag := length_putOptional one
    have flagNext := length_putOptional two
    refine ⟨(), _, ⟨?_, rfl⟩, cursor, front ++ (back ++ rest), ⟨bound, ?_⟩, pattern, back ++ rest,
      ⟨fun _ _ => trivial, front, one, rfl⟩, count, rest, ⟨small, back, two, rfl⟩,
      ⟨rfl, rfl, rfl⟩, rfl⟩
    · simp only [List.length_append, length_bigEndian]
      omega
    · simp only [List.append_assoc]

theorem decodeScan_eq_overread {payload : Bytes} :
    decodeScan payload = .error .overread ↔ ∃ (cursor : Nat) (pattern : String) (bytes : Bytes),
      cursor < 256 ^ 8 ∧ putStringU16 pattern = .ok bytes ∧
        payload = bigEndian 8 cursor ++ 1 :: bytes := by
  rw [decodeScan, decodeWhole_eq_overread]
  constructor
  · intro overran
    obtain ⟨_, _, passed, inside⟩ := (bind_eq_overread_of_safe require_ne_overread).mp overran
    obtain ⟨long, rfl⟩ := require_eq_ok.mp passed
    obtain short | ⟨cursor, rest, read, atPattern⟩ := bind_eq_overread.mp inside
    · exact absurd short (Fixed.number.safe payload (by omega))
    obtain ⟨bound, rfl⟩ := number_eq_ok.mp read
    rw [List.length_append, length_bigEndian] at long
    obtain missing | ⟨pattern, behind, readPattern, atCount⟩ := bind_eq_overread.mp atPattern
    · exact absurd missing (safe_readOptional (safe_readString 2) rest (by omega))
    obtain ⟨-, bytes, written, rfl⟩ :=
      (inverse_readOptional inverse_readStringU16 _ _ _).mp readPattern
    obtain missing | ⟨count, last, -, nothing⟩ := bind_eq_overread.mp atCount
    swap
    · cases nothing
    -- the flag of the count is missing: nothing is left
    obtain rfl : behind = [] := by
      cases behind with
      | nil => rfl
      | cons flag last =>
        exact absurd missing (safe_readOptional (safe_readNumber 2) _ (by simp))
    cases pattern with
    | none =>
      cases written
      simp at long
    | some pattern =>
      obtain ⟨front, wrote, rfl⟩ := putOptional_some_eq_ok.mp written
      exact ⟨cursor, pattern, front, bound, wrote, by rw [List.append_nil]⟩
  · rintro ⟨cursor, pattern, bytes, bound, written, rfl⟩
    have wide := length_putBytes written
    refine (bind_eq_overread_of_safe require_ne_overread).mpr
      ⟨(), _, require_eq_ok.mpr ⟨?_, rfl⟩, ?_⟩
    · simp only [List.length_append, length_bigEndian, List.length_cons]
      omega
    refine bind_eq_overread.mpr (.inr ⟨cursor, _, number_eq_ok.mpr ⟨bound, rfl⟩, ?_⟩)
    refine bind_eq_overread.mpr (.inr ⟨some pattern, [],
      (inverse_readOptional inverse_readStringU16 _ _ _).mpr ⟨fun _ _ => trivial, 1 :: bytes,
        putOptional_some_eq_ok.mpr ⟨bytes, written, rfl⟩, (List.append_nil _).symm⟩, ?_⟩)
    rfl

def scan : PayloadCodec where
  Value := Nat × Option String × Option Nat
  Typed fields := fields.1 < 256 ^ 8 ∧ ∀ n ∈ fields.2.2, n < 256 ^ 2
  Abbreviable _ := False
  Overread payload := ∃ (cursor : Nat) (pattern : String) (bytes : Bytes),
    cursor < 256 ^ 8 ∧ putStringU16 pattern = .ok bytes ∧
      payload = bigEndian 8 cursor ++ 1 :: bytes
  put fields := encodeScan fields.1 fields.2.1 fields.2.2
  decode := decodeScan
  lengths fields := fields.2.1.toList.map fun pattern => (textLength pattern, 2)
  put_ok_iff fields := by
    rw [List.forall_mem_map]
    simp only [Option.mem_toList]
    refine (then_ok_iff fun _ => iff_true_intro ?_).trans ?_
    · rw [wrap_ok_iff, putOptional_ok_iff]
      exact fun n _ => putNumber_ok 2 n
    · rw [and_true]
      exact putOptional_ok_iff.trans (forall₂_congr fun _ _ => putBytes_ok_iff)
  decode_eq_ok payload fields := by
    rw [false_and, or_false]
    exact decodeWhole_iff fun _ _ _ => readScan_eq_ok
  decode_eq_overread _ := decodeScan_eq_overread

theorem readGetEx_eq_ok {input rest : Bytes} {key : String} {expiration : Option Expiration}
    {persist : Bool} :
    readGetEx input = .ok ((key, expiration, persist), rest) ↔
      (∀ e ∈ expiration, e.InRange) ∧
        ∃ bytes, encodeGetEx key expiration persist = .ok bytes ∧ input = bytes ++ rest := by
  simp only [readGetEx, encodeGetEx, bind_eq_ok, inverse_readStringU16 _ _ _,
    decodeExpiration_eq_ok, readBool_eq_ok, pure_eq_ok, Except.bind_eq_ok_iff,
    Except.pure_eq_ok_iff, Prod.mk.injEq]
  constructor
  · rintro ⟨_, _, ⟨-, front, one, rfl⟩, _, _, ⟨bound, rfl⟩, _, _, rfl, ⟨rfl, rfl, rfl⟩, rfl⟩
    refine ⟨bound, _, ⟨front, one, rfl⟩, ?_⟩
    simp only [List.append_assoc]
  · rintro ⟨bound, _, ⟨front, one, rfl⟩, rfl⟩
    refine ⟨key, _, ⟨trivial, front, one, ?_⟩, expiration, _, ⟨bound, rfl⟩, persist, rest, rfl,
      ⟨rfl, rfl, rfl⟩, rfl⟩
    simp only [List.append_assoc]

def getEx : PayloadCodec :=
  ofInverse (fun fields : String × Option Expiration × Bool =>
      encodeGetEx fields.1 fields.2.1 fields.2.2) readGetEx
    (fun _ _ _ => readGetEx_eq_ok)
    ((safe_readString 2).bind fun _ => safe_decodeExpiration.bind fun _ =>
      safe_readBool.bind fun _ => .pure)
    (fun fields => [(textLength fields.1, 2)])
    fun fields => by
      rw [List.forall_mem_singleton]
      exact wrap_ok_iff.trans putBytes_ok_iff

variable {options : SetOptions}

theorem readSet_eq_ok {input rest : Bytes} {key : String} :
    readSet input = .ok ((key, value, options), rest) ↔
      (∀ e ∈ options.expiration, e.InRange) ∧ ∃ front after version,
        encodeKeyBytes key value = .ok front ∧
        input = front ++ (encodeCondition options.condition ::
          (encodeExpiration options.expiration ++ (putBool options.keepTtl ++
            (putBool options.returnPrevious ++ after)))) ∧
        options.ifVersion = version ∧ readIfVersion after = .ok (version, rest) := by
  simp only [readSet, bind_eq_ok, inverse_readKeyBytes _ _ _, decodeCondition_eq_ok,
    decodeExpiration_eq_ok, readBool_eq_ok, pure_eq_ok, Prod.mk.injEq]
  constructor
  · rintro ⟨⟨_, _⟩, _, ⟨-, front, one, rfl⟩, _, _, rfl, _, _, ⟨bound, rfl⟩, _, _, rfl, _, after,
      rfl, version, _, read, ⟨rfl, rfl, rfl⟩, rfl⟩
    exact ⟨bound, front, after, version, one, rfl, rfl, read⟩
  · rintro ⟨bound, front, after, _, one, rfl, rfl, read⟩
    exact ⟨(key, value), _, ⟨trivial, front, one, rfl⟩, _, _, rfl, _, _, ⟨bound, rfl⟩, _, _, rfl,
      _, after, rfl, _, _, read, ⟨rfl, rfl, rfl⟩, rfl⟩

theorem encodeSet_eq_ok {key : String} {payload : Bytes} :
    encodeSet key value options = .ok payload ↔ ∃ front back,
      encodeKeyBytes key value = .ok front ∧
      putOptional (putNumber 8) options.ifVersion = .ok back ∧
      payload = front ++ (encodeCondition options.condition ::
        (encodeExpiration options.expiration ++ (putBool options.keepTtl ++
          (putBool options.returnPrevious ++ back)))) := by
  simp only [encodeSet, Except.bind_eq_ok_iff, Except.pure_eq_ok_iff]
  constructor
  · rintro ⟨front, one, back, two, rfl⟩
    exact ⟨front, back, one, two, rfl⟩
  · rintro ⟨front, back, one, two, rfl⟩
    exact ⟨front, one, back, two, rfl⟩

/-- A `SET` payload is what the encoder writes, or that without the flag of no version. -/
theorem decodeSet_eq_ok {payload : Bytes} {key : String} :
    decodeSet payload = .ok (key, value, options) ↔
      ((∀ e ∈ options.expiration, e.InRange) ∧ ∀ n ∈ options.ifVersion, n < 256 ^ 8) ∧
        (encodeSet key value options = .ok payload ∨
          options.ifVersion = none ∧ encodeSet key value options = .ok (payload ++ [0])) := by
  simp only [decodeSet, decodeWhole_eq_ok, readSet_eq_ok, readIfVersion_eq_ok, encodeSet_eq_ok]
  constructor
  · rintro ⟨bound, front, after, version, one, rfl, rfl, ⟨none, rfl, -⟩ |
      ⟨small, back, two, same⟩⟩
    · refine ⟨⟨bound, by rw [none]; exact nofun⟩, .inr ⟨none, front, [0], one, ?_, ?_⟩⟩
      · rw [none]
        rfl
      · simp
    · obtain rfl : after = back := by rw [same, List.append_nil]
      exact ⟨⟨bound, small⟩, .inl ⟨front, after, one, two, rfl⟩⟩
  · rintro ⟨⟨bound, small⟩, ⟨front, back, one, two, rfl⟩ | ⟨none, front, back, one, two, same⟩⟩
    · exact ⟨bound, front, back, _, one, rfl, rfl,
        .inr ⟨small, back, two, (List.append_nil _).symm⟩⟩
    · rw [none] at two
      cases two
      refine ⟨bound, front, [], _, one, ?_, rfl, .inl ⟨none, rfl, trivial⟩⟩
      refine List.append_cancel_right (?_ : payload ++ [0] = _)
      simpa using same

def set : PayloadCodec where
  Value := String × Bytes × SetOptions
  Typed fields := (∀ e ∈ fields.2.2.expiration, e.InRange) ∧
    ∀ n ∈ fields.2.2.ifVersion, n < 256 ^ 8
  Abbreviable fields := fields.2.2.ifVersion = none
  Overread _ := False
  put fields := encodeSet fields.1 fields.2.1 fields.2.2
  decode := decodeSet
  lengths fields := [(textLength fields.1, 2), (fields.2.1.length, 4)]
  put_ok_iff fields := by
    rw [List.forall_mem_cons, List.forall_mem_singleton]
    refine (then_ok_iff fun _ => iff_true_intro ?_).trans ?_
    · rw [wrap_ok_iff, putOptional_ok_iff]
      exact fun n _ => putNumber_ok 8 n
    · rw [and_true]
      exact encodeKeyBytes_ok_iff
  decode_eq_ok _ _ := decodeSet_eq_ok
  decode_eq_overread payload := by
    rw [decodeSet, decodeWhole_eq_overread, iff_false]
    exact safe_readSet payload (Nat.zero_le _)

end PayloadCodec

end Vaylix

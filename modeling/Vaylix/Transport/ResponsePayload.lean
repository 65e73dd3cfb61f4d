import Vaylix.Transport.Stream

/-!
# The payloads of responses

One value, a list, an error, or the results of a transaction, which are of nine kinds with a
tag in front. Each decoder reads the payload its builder writes, and checks what is left
before every read.
-/

namespace Vaylix

open Cursor

structure ErrorPayload where
  code : String
  name : String
  message : String
deriving DecidableEq, Repr

structure ScanPayload where
  nextCursor : UInt64
  keys : List String
deriving DecidableEq, Repr

inductive ExecResultPayload where
  | ok
  | notFound
  | value (value : Bytes)
  | boolean (value : Bool)
  | count (value : UInt64)
  | integer (value : Int64)
  | entries (entries : List (String × Bytes))
  | strings (values : List (Option Bytes))
  | scan (page : ScanPayload)

/-! ### Parts of payloads -/

def i64Bytes (n : Int64) : Bytes := u64Bytes n.toUInt64

def readI64 : Reader TransportError Int64 := do
  let n ← readU64
  pure n.toInt64

def readCount : Reader TransportError UInt64 := do
  require 8 .unexpectedEof
  readU64

def readInteger : Reader TransportError Int64 := do
  require 8 .unexpectedEof
  readI64

def putEntries (entries : List (String × Bytes)) : Except TransportError Bytes :=
  putCounted 4 .corruptedPayload (fun entry => encodeKeyBytes entry.1 entry.2) entries

def readEntries : Reader TransportError (List (String × Bytes)) := readCounted 4 readKeyBytes

def putOptionalBytes (value : Option Bytes) : Except TransportError Bytes :=
  putOptional putBytesU32 value

def readOptionalBytes : Reader TransportError (Option Bytes) := do
  require 1 .unexpectedEof
  readOptional readBytesU32

def putStrings (values : List (Option Bytes)) : Except TransportError Bytes :=
  putCounted 4 .corruptedPayload putOptionalBytes values

def readStrings : Reader TransportError (List (Option Bytes)) := readCounted 4 readOptionalBytes

def putScan (page : ScanPayload) : Except TransportError Bytes := do
  let keys ← putCounted 4 .corruptedPayload putStringU16 page.keys
  pure (u64Bytes page.nextCursor ++ keys)

/-- One check covers the cursor and the number of keys. -/
def readScanPayload : Reader TransportError ScanPayload := do
  require 12 .unexpectedEof
  let nextCursor ← readU64
  let keys ← counted 4 readStringU16
  pure ⟨nextCursor, keys⟩

def encodeErrorPayload (code name message : String) : Except TransportError Bytes := do
  let code ← putStringU16 code
  let name ← putStringU16 name
  let message ← putStringU32 message
  pure (code ++ (name ++ message))

def readErrorPayload : Reader TransportError ErrorPayload := do
  let code ← readStringU16
  let name ← readStringU16
  let message ← readStringU32
  pure ⟨code, name, message⟩

def encodeExecResult : ExecResultPayload → Except TransportError Bytes
  | .ok => .ok [0x00]
  | .notFound => .ok [0x01]
  | .value value => (putBytesU32 value).map (0x02 :: ·)
  | .boolean value => .ok (0x03 :: putBool value)
  | .count value => .ok (0x04 :: u64Bytes value)
  | .integer value => .ok (0x05 :: i64Bytes value)
  | .entries entries => (putEntries entries).map (0x06 :: ·)
  | .strings values => (putStrings values).map (0x07 :: ·)
  | .scan page => (putScan page).map (0x08 :: ·)

def readExecResult : UInt8 → Reader TransportError ExecResultPayload
  | 0x00 => pure .ok
  | 0x01 => pure .notFound
  | 0x02 => do
    let value ← readBytesU32
    pure (.value value)
  | 0x03 => do
    let value ← readBool
    pure (.boolean value)
  | 0x04 => do
    let value ← readCount
    pure (.count value)
  | 0x05 => do
    let value ← readInteger
    pure (.integer value)
  | 0x06 => do
    let entries ← readEntries
    pure (.entries entries)
  | 0x07 => do
    let values ← readStrings
    pure (.strings values)
  | 0x08 => do
    let page ← readScanPayload
    pure (.scan page)
  | _ => refuse .corruptedPayload

def decodeExecResult : Reader TransportError ExecResultPayload := do
  require 1 .unexpectedEof
  let tag ← byte
  readExecResult tag

def putExecResults (results : List ExecResultPayload) : Except TransportError Bytes :=
  putCounted 4 .corruptedPayload encodeExecResult results

def readExecResults : Reader TransportError (List ExecResultPayload) :=
  readCounted 4 decodeExecResult

/-! ### Builders and decoders -/

namespace Response

variable (requestId : Uuid)

def error (code name message : String) : Except TransportError Response :=
  (encodeErrorPayload code name message).map fun payload => ⟨requestId, .error, payload⟩

def valueBytes (value : Bytes) : Except TransportError Response :=
  (putBytesU32 value).map fun payload => ⟨requestId, .ok, payload⟩

def value (value : String) : Except TransportError Response :=
  valueBytes requestId (textBytes value)

def boolean (value : Bool) : Response := ⟨requestId, .ok, putBool value⟩

def count (count : UInt64) : Response := ⟨requestId, .ok, u64Bytes count⟩

def integer (value : Int64) : Response := ⟨requestId, .ok, i64Bytes value⟩

def byteEntries (entries : List (String × Bytes)) : Except TransportError Response :=
  (putEntries entries).map fun payload => ⟨requestId, .ok, payload⟩

def entries (entries : List (String × String)) : Except TransportError Response :=
  byteEntries requestId (entries.map fun entry => (entry.1, textBytes entry.2))

def byteStrings (values : List (Option Bytes)) : Except TransportError Response :=
  (putStrings values).map fun payload => ⟨requestId, .ok, payload⟩

def strings (values : List (Option String)) : Except TransportError Response :=
  byteStrings requestId (values.map (Option.map textBytes))

def scan (nextCursor : UInt64) (keys : List String) : Except TransportError Response :=
  (putScan ⟨nextCursor, keys⟩).map fun payload => ⟨requestId, .ok, payload⟩

def execResults (results : List ExecResultPayload) : Except TransportError Response :=
  (putExecResults results).map fun payload => ⟨requestId, .ok, payload⟩

variable (response : Response)

def decodeValueBytes : Except (Stop TransportError) Bytes :=
  decodeWhole readBytesU32 response.payload

def decodeText (bytes : Bytes) : Except (Stop TransportError) String :=
  match fromUtf8 bytes with
  | some text => .ok text
  | none => .error (.refused .invalidUtf8)

def decodeValue : Except (Stop TransportError) String := do
  let value ← response.decodeValueBytes
  decodeText value

def decodeError : Except (Stop TransportError) ErrorPayload :=
  decodeWhole readErrorPayload response.payload

def decodeErrorMessage : Except (Stop TransportError) String := do
  let payload ← response.decodeError
  pure payload.message

def decodeBool : Except (Stop TransportError) Bool :=
  match response.payload with
  | [0] => .ok false
  | [1] => .ok true
  | _ => .error (.refused .corruptedPayload)

def decodeCount : Except (Stop TransportError) UInt64 :=
  decodeWhole readCount response.payload

def decodeInteger : Except (Stop TransportError) Int64 :=
  decodeWhole readInteger response.payload

def decodeByteEntries : Except (Stop TransportError) (List (String × Bytes)) :=
  decodeWhole readEntries response.payload

def decodeEntries : Except (Stop TransportError) (List (String × String)) := do
  let entries ← response.decodeByteEntries
  entries.mapM fun entry => do
    let value ← decodeText entry.2
    pure (entry.1, value)

def decodeByteStrings : Except (Stop TransportError) (List (Option Bytes)) :=
  decodeWhole readStrings response.payload

def decodeStrings : Except (Stop TransportError) (List (Option String)) := do
  let values ← response.decodeByteStrings
  values.mapM fun value => value.mapM decodeText

def decodeScan : Except (Stop TransportError) ScanPayload :=
  decodeWhole readScanPayload response.payload

def decodeExecResults : Except (Stop TransportError) (List ExecResultPayload) :=
  decodeWhole readExecResults response.payload

end Response

/-! ### Reading what was written -/

theorem restores_readCount : Restores (fun n => .ok (u64Bytes n)) readCount := by
  refine Restores.checked ?_ _ ?_
  · rintro n _ ⟨⟩ rest
    exact readU64_eq_ok.mpr rfl
  · rintro n _ ⟨⟩
    exact (length_u64Bytes n).ge

theorem restores_readInteger : Restores (fun n => .ok (i64Bytes n)) readInteger := by
  refine Restores.checked ?_ _ ?_
  · rintro n _ ⟨⟩ rest
    rw [readI64, i64Bytes, bind_of_ok (readU64_eq_ok.mpr rfl), Int64.toInt64_toUInt64]
    rfl
  · rintro n _ ⟨⟩
    exact (length_u64Bytes _).ge

theorem restores_readCounted {α : Type} {put : α → Except TransportError Bytes}
    {reader : Reader TransportError α} (restores : Restores put reader) :
    Restores (putCounted 4 .corruptedPayload put) (readCounted 4 reader) :=
  (restores.counted 4 .corruptedPayload).checked .unexpectedEof fun _ _ => length_putCounted

theorem restores_readEntries : Restores putEntries readEntries :=
  restores_readCounted PayloadCodec.inverse_readKeyBytes.restores

theorem restores_readStrings : Restores putStrings readStrings :=
  restores_readCounted <| Inverse.restores <|
    ((inverse_readOptional inverse_readBytesU32).checked .unexpectedEof
      fun _ _ => PayloadCodec.length_putOptional).retyped fun _ => forall₂_true_iff

theorem restores_readScanPayload : Restores putScan readScanPayload := by
  rintro ⟨cursor, keys⟩ bytes written rest
  obtain ⟨all, wrote, same⟩ := Except.bind_eq_ok_iff.mp written
  cases same
  have enough : 12 ≤ (u64Bytes cursor ++ all ++ rest).length := by
    have wide := length_putCounted wrote
    simp only [List.length_append, length_u64Bytes]
    omega
  rw [readScanPayload, bind_of_ok (require_of_le enough), List.append_assoc,
    bind_of_ok (readU64_eq_ok.mpr rfl),
    bind_of_ok (inverse_readStringU16.restores.counted 4 _ wrote _)]
  rfl

theorem restores_readErrorPayload : Restores (fun error : ErrorPayload =>
    encodeErrorPayload error.code error.name error.message) readErrorPayload := by
  rintro ⟨code, name, message⟩ bytes written rest
  simp only [encodeErrorPayload, Except.bind_eq_ok_iff, Except.pure_eq_ok_iff] at written
  obtain ⟨first, wroteCode, second, wroteName, third, wroteMessage, rfl⟩ := written
  rw [List.append_assoc, List.append_assoc, readErrorPayload,
    bind_of_ok (inverse_readStringU16.restores wroteCode _),
    bind_of_ok (inverse_readStringU16.restores wroteName _),
    bind_of_ok (inverse_readStringU32.restores wroteMessage _)]
  rfl

theorem restores_decodeExecResult : Restores encodeExecResult decodeExecResult := by
  intro result bytes written rest
  have tagged {tag : UInt8} {after : Bytes} :
      decodeExecResult (tag :: after) = readExecResult tag after := by
    rw [decodeExecResult, bind_of_ok (require_of_le (Nat.succ_le_succ (Nat.zero_le _))),
      bind_of_ok (byte_eq_ok.mpr rfl)]
  cases result with
  | ok | notFound =>
    cases written
    exact tagged
  | value value =>
    obtain ⟨part, wrote, rfl⟩ := Except.map_eq_ok_iff.mp written
    exact tagged.trans (bind_of_ok (inverse_readBytesU32.restores wrote rest))
  | boolean flag =>
    cases written
    exact tagged.trans (bind_of_ok (readBool_eq_ok.mpr rfl))
  | count n =>
    cases written
    exact tagged.trans (bind_of_ok (restores_readCount rfl rest))
  | integer n =>
    cases written
    exact tagged.trans (bind_of_ok (restores_readInteger rfl rest))
  | entries entries =>
    obtain ⟨part, wrote, rfl⟩ := Except.map_eq_ok_iff.mp written
    exact tagged.trans (bind_of_ok (restores_readEntries wrote rest))
  | strings values =>
    obtain ⟨part, wrote, rfl⟩ := Except.map_eq_ok_iff.mp written
    exact tagged.trans (bind_of_ok (restores_readStrings wrote rest))
  | scan page =>
    obtain ⟨part, wrote, rfl⟩ := Except.map_eq_ok_iff.mp written
    exact tagged.trans (bind_of_ok (restores_readScanPayload wrote rest))

theorem restores_readExecResults : Restores putExecResults readExecResults :=
  restores_readCounted restores_decodeExecResult

/-! ### The length fields -/

/-- Each length fits the bytes it is written in. -/
def LengthsFit (lengths : List (Nat × Nat)) : Prop := ∀ field ∈ lengths, field.1 < 256 ^ field.2

def entriesLengths (entries : List (String × Bytes)) : List (Nat × Nat) :=
  (entries.length, 4) ::
    entries.flatMap fun entry => [(textLength entry.1, 2), (entry.2.length, 4)]

def stringsLengths (values : List (Option Bytes)) : List (Nat × Nat) :=
  (values.length, 4) :: values.flatMap fun value => value.toList.map fun bytes => (bytes.length, 4)

def ScanPayload.lengths (page : ScanPayload) : List (Nat × Nat) :=
  (page.keys.length, 4) :: page.keys.map fun key => (textLength key, 2)

def ErrorPayload.lengths (error : ErrorPayload) : List (Nat × Nat) :=
  [(textLength error.code, 2), (textLength error.name, 2), (textLength error.message, 4)]

def ExecResultPayload.lengths : ExecResultPayload → List (Nat × Nat)
  | .value bytes => [(bytes.length, 4)]
  | .entries found => entriesLengths found
  | .strings values => stringsLengths values
  | .scan page => page.lengths
  | .ok | .notFound | .boolean _ | .count _ | .integer _ => []

def execResultsLengths (results : List ExecResultPayload) : List (Nat × Nat) :=
  (results.length, 4) :: results.flatMap ExecResultPayload.lengths

theorem lengthsFit_nil : LengthsFit [] := nofun

theorem lengthsFit_cons {field : Nat × Nat} {lengths : List (Nat × Nat)} :
    LengthsFit (field :: lengths) ↔ field.1 < 256 ^ field.2 ∧ LengthsFit lengths :=
  List.forall_mem_cons

theorem lengthsFit_singleton {field : Nat × Nat} :
    LengthsFit [field] ↔ field.1 < 256 ^ field.2 := List.forall_mem_singleton

theorem putCounted_ok_iff_lengths {α : Type} {put : α → Except TransportError Bytes}
    {lengths : α → List (Nat × Nat)}
    (each : ∀ value, (∃ payload, put value = .ok payload) ↔ LengthsFit (lengths value))
    {values : List α} :
    (∃ payload, putCounted 4 .corruptedPayload put values = .ok payload) ↔
      LengthsFit ((values.length, 4) :: values.flatMap lengths) := by
  rw [putCounted_ok_iff, lengthsFit_cons]
  refine and_congr_right fun _ => ?_
  simp only [each]
  exact List.forall_mem_flatMap.symm

theorem map_ok_iff {α β : Type} {result : Except TransportError α} {f : α → β} :
    (∃ value, result.map f = .ok value) ↔ ∃ value, result = .ok value := by
  cases result <;> simp [Except.map]

theorem putEntries_ok_iff {entries : List (String × Bytes)} :
    (∃ payload, putEntries entries = .ok payload) ↔ LengthsFit (entriesLengths entries) := by
  refine putCounted_ok_iff_lengths fun entry => ?_
  rw [lengthsFit_cons, lengthsFit_singleton]
  exact PayloadCodec.encodeKeyBytes_ok_iff

theorem putStrings_ok_iff {values : List (Option Bytes)} :
    (∃ payload, putStrings values = .ok payload) ↔ LengthsFit (stringsLengths values) := by
  refine putCounted_ok_iff_lengths fun value => ?_
  rw [LengthsFit, List.forall_mem_map]
  simp only [Option.mem_toList]
  exact putOptional_ok_iff.trans (forall₂_congr fun _ _ => putBytes_ok_iff)

theorem putScan_ok_iff {page : ScanPayload} :
    (∃ payload, putScan page = .ok payload) ↔ LengthsFit page.lengths := by
  refine wrap_ok_iff.trans (putCounted_ok_iff.trans ?_)
  rw [ScanPayload.lengths, lengthsFit_cons, LengthsFit, List.forall_mem_map]
  exact and_congr_right fun _ => forall₂_congr fun _ _ => putBytes_ok_iff

theorem encodeErrorPayload_ok_iff {error : ErrorPayload} :
    (∃ payload, encodeErrorPayload error.code error.name error.message = .ok payload) ↔
      LengthsFit error.lengths := by
  rw [ErrorPayload.lengths, lengthsFit_cons, lengthsFit_cons, lengthsFit_singleton]
  refine (then_ok_iff fun _ => ?_).trans (and_congr_left' putBytes_ok_iff)
  refine (then_ok_iff fun _ => ?_).trans (and_congr_left' putBytes_ok_iff)
  exact wrap_ok_iff.trans putBytes_ok_iff

theorem encodeExecResult_ok_iff (result : ExecResultPayload) :
    (∃ payload, encodeExecResult result = .ok payload) ↔ LengthsFit result.lengths := by
  cases result with
  | value bytes =>
    rw [ExecResultPayload.lengths, lengthsFit_singleton]
    exact map_ok_iff.trans putBytes_ok_iff
  | entries entries => exact map_ok_iff.trans putEntries_ok_iff
  | strings values => exact map_ok_iff.trans putStrings_ok_iff
  | scan page => exact map_ok_iff.trans putScan_ok_iff
  | ok | notFound | boolean _ | count _ | integer _ => exact iff_of_true ⟨_, rfl⟩ lengthsFit_nil

theorem putExecResults_ok_iff {results : List ExecResultPayload} :
    (∃ payload, putExecResults results = .ok payload) ↔ LengthsFit (execResultsLengths results) :=
  putCounted_ok_iff_lengths encodeExecResult_ok_iff

/-! ### No read behind the end -/

theorem safe_readCount : SafeFrom 0 readCount :=
  .require (fixed_readU64.safe.mono (le_max_right ..))

theorem safe_readInteger : SafeFrom 0 readInteger :=
  .require ((fixed_readU64.convert _).safe.mono (le_max_right ..))

theorem safe_readEntries : SafeFrom 0 readEntries := safe_readCounted safe_readKeyBytes

theorem safe_readStrings : SafeFrom 0 readStrings :=
  safe_readCounted (.require ((safe_readOptional (safe_readBytes 4)).mono (le_max_right ..)))

theorem safe_readScanPayload : SafeFrom 0 readScanPayload := by
  refine .require (.fixed fixed_readU64 (by decide) fun cursor => ?_)
  exact (safe_readString 2).counted.bind fun keys => .pure

theorem safe_readErrorPayload : SafeFrom 0 readErrorPayload :=
  (safe_readString 2).bind fun _ => (safe_readString 2).bind fun _ =>
    (safe_readString 4).bind fun _ => .pure

theorem safe_readExecResult (tag : UInt8) : SafeFrom 0 (readExecResult tag) := by
  unfold readExecResult
  split
  · exact .pure
  · exact .pure
  · exact (safe_readBytes 4).bind fun _ => .pure
  · exact safe_readBool.bind fun _ => .pure
  · exact safe_readCount.bind fun _ => .pure
  · exact safe_readInteger.bind fun _ => .pure
  · exact safe_readEntries.bind fun _ => .pure
  · exact safe_readStrings.bind fun _ => .pure
  · exact safe_readScanPayload.bind fun _ => .pure
  · exact .refuse

theorem safe_readExecResults : SafeFrom 0 readExecResults :=
  safe_readCounted (.require (.byte (by decide) fun tag =>
    (safe_readExecResult tag).mono (Nat.zero_le _)))

namespace Response

/-- No decoder reads behind the end of the payload. -/
structure DecodesSafely (response : Response) : Prop where
  value : response.decodeValue ≠ .error .overread
  valueBytes : response.decodeValueBytes ≠ .error .overread
  error : response.decodeError ≠ .error .overread
  errorMessage : response.decodeErrorMessage ≠ .error .overread
  bool : response.decodeBool ≠ .error .overread
  count : response.decodeCount ≠ .error .overread
  integer : response.decodeInteger ≠ .error .overread
  entries : response.decodeEntries ≠ .error .overread
  byteEntries : response.decodeByteEntries ≠ .error .overread
  strings : response.decodeStrings ≠ .error .overread
  byteStrings : response.decodeByteStrings ≠ .error .overread
  scan : response.decodeScan ≠ .error .overread
  execResults : response.decodeExecResults ≠ .error .overread

section Handled

variable {α β : Type}

theorem decodeWhole_ne_overread {reader : Reader TransportError α} (safe : SafeFrom 0 reader)
    (payload : Bytes) : decodeWhole reader payload ≠ .error .overread := by
  rw [Ne, decodeWhole_eq_overread]
  exact safe payload (Nat.zero_le _)

theorem bind_ne_overread {result : Except (Stop TransportError) α}
    {next : α → Except (Stop TransportError) β} (first : result ≠ .error .overread)
    (second : ∀ value, next value ≠ .error .overread) : (result >>= next) ≠ .error .overread := by
  cases result with
  | error stop => exact fun overran => first (congrArg _ (Except.error.inj overran))
  | ok value => exact second value

theorem mapM_ne_overread {f : α → Except (Stop TransportError) β}
    (handled : ∀ value, f value ≠ .error .overread) (values : List α) :
    values.mapM f ≠ .error .overread := by
  induction values with
  | nil => exact nofun
  | cons value values ih =>
    rw [List.mapM_cons]
    exact bind_ne_overread (handled value) fun _ => bind_ne_overread ih fun _ => nofun

theorem decodeText_ne_overread (bytes : Bytes) : decodeText bytes ≠ .error .overread := by
  unfold decodeText
  cases fromUtf8 bytes <;> exact nofun

end Handled

theorem decodesSafely (response : Response) : response.DecodesSafely where
  value := bind_ne_overread (decodeWhole_ne_overread (safe_readBytes 4) _) decodeText_ne_overread
  valueBytes := decodeWhole_ne_overread (safe_readBytes 4) _
  error := decodeWhole_ne_overread safe_readErrorPayload _
  errorMessage := bind_ne_overread (decodeWhole_ne_overread safe_readErrorPayload _) fun _ => nofun
  bool := by
    unfold decodeBool
    split <;> exact nofun
  count := decodeWhole_ne_overread safe_readCount _
  integer := decodeWhole_ne_overread safe_readInteger _
  entries := bind_ne_overread (decodeWhole_ne_overread safe_readEntries _) fun _ => by
    refine mapM_ne_overread (fun entry => ?_) _
    exact bind_ne_overread (decodeText_ne_overread entry.2) fun _ => nofun
  byteEntries := decodeWhole_ne_overread safe_readEntries _
  strings := bind_ne_overread (decodeWhole_ne_overread safe_readStrings _) fun _ => by
    refine mapM_ne_overread (fun value => ?_) _
    cases value with
    | none => exact nofun
    | some bytes => exact bind_ne_overread (decodeText_ne_overread bytes) fun _ => nofun
  byteStrings := decodeWhole_ne_overread safe_readStrings _
  scan := decodeWhole_ne_overread safe_readScanPayload _
  execResults := decodeWhole_ne_overread safe_readExecResults _

theorem exists_response {α : Type} {put : α → Except TransportError Bytes}
    {reader : Reader TransportError α} (restores : Restores put reader) (requestId : Uuid)
    (status : Status) {value : α} (fits : ∃ payload, put value = .ok payload) :
    ∃ response : Response,
      ((put value).map fun payload => ⟨requestId, status, payload⟩) = .ok response ∧
      decodeWhole reader response.payload = .ok value := by
  obtain ⟨payload, written⟩ := fits
  have read := restores written []
  rw [List.append_nil] at read
  exact ⟨⟨requestId, status, payload⟩, congrArg (Except.map _) written, decodeWhole_eq_ok.mpr read⟩

/-- **Responses round trip**: what fits its length fields is built, and decoded to what it was
built from. No decoder reads behind the end of any payload. -/
theorem response_payload_round_trip (requestId : Uuid) :
    (∀ entries, LengthsFit (entriesLengths entries) → ∃ response,
      byteEntries requestId entries = .ok response ∧ response.decodeByteEntries = .ok entries) ∧
    (∀ values, LengthsFit (stringsLengths values) → ∃ response,
      byteStrings requestId values = .ok response ∧ response.decodeByteStrings = .ok values) ∧
    (∀ page : ScanPayload, LengthsFit page.lengths → ∃ response,
      scan requestId page.nextCursor page.keys = .ok response ∧
        response.decodeScan = .ok page) ∧
    (∀ payload : ErrorPayload, LengthsFit payload.lengths → ∃ response,
      error requestId payload.code payload.name payload.message = .ok response ∧
        response.decodeError = .ok payload) ∧
    (∀ results, LengthsFit (execResultsLengths results) → ∃ response,
      execResults requestId results = .ok response ∧
        response.decodeExecResults = .ok results) ∧
    ∀ response : Response, response.DecodesSafely := by
  refine ⟨fun entries fits => ?_, fun values fits => ?_, fun page fits => ?_,
    fun payload fits => ?_, fun results fits => ?_, decodesSafely⟩
  · exact exists_response restores_readEntries requestId .ok (putEntries_ok_iff.mpr fits)
  · exact exists_response restores_readStrings requestId .ok (putStrings_ok_iff.mpr fits)
  · exact exists_response restores_readScanPayload requestId .ok (putScan_ok_iff.mpr fits)
  · exact exists_response restores_readErrorPayload requestId .error
      (encodeErrorPayload_ok_iff.mpr fits)
  · exact exists_response restores_readExecResults requestId .ok (putExecResults_ok_iff.mpr fits)

end Response

end Vaylix

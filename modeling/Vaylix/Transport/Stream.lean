import Vaylix.Transport.Frame

/-!
# Streams of requests

The body of a request has its metadata in front of the payload, the body of a response its
status. A stream of frames is read request by request; how far it was written when it broke
off shows only in how many requests come out.
-/

namespace Vaylix

open Cursor

/-! ### Bodies -/

def requestMetaDeadlineMs : UInt8 := 1

def requestMetaTraceId : UInt8 := 2

def requestMetaSequence : UInt8 := 4

def flagBits (deadlineMs traceId sequence : Bool) : UInt8 :=
  (if deadlineMs then requestMetaDeadlineMs else 0) |||
    (if traceId then requestMetaTraceId else 0) |||
    (if sequence then requestMetaSequence else 0)

def metadataFlags (metadata : RequestMetadata) : UInt8 :=
  flagBits metadata.deadlineMs.isSome metadata.traceId.isSome metadata.sequence.isSome

def optionBytes {α : Type} (encode : α → Bytes) : Option α → Bytes
  | some value => encode value
  | none => []

def u64Bytes (n : UInt64) : Bytes := bigEndian 8 n.toNat

def encodeRequestBody (request : Request) : Bytes :=
  metadataFlags request.metadata :: (request.requestId.toList ++ (request.opcode.toByte ::
    (optionBytes u64Bytes request.metadata.deadlineMs ++
      (optionBytes Vector.toList request.metadata.traceId ++
        (optionBytes u64Bytes request.metadata.sequence ++ request.payload)))))

theorem encodeRequestBody_ne_nil (request : Request) : encodeRequestBody request ≠ [] :=
  List.cons_ne_nil _ _

def uuidFromSlice (bytes : Bytes) : Except TransportError Uuid :=
  if h : bytes.length = 16 then .ok ⟨bytes.toArray, by rw [List.size_toArray, h]⟩
  else .error .corruptedPayload

def readUuid : Reader TransportError Uuid := do
  let bytes ← take 16
  lift ((uuidFromSlice bytes).mapError .refused)

def readU64 : Reader TransportError UInt64 := do
  let n ← number 8
  pure (UInt64.ofNat n)

def readOpcode : Reader TransportError Opcode := do
  let value ← byte
  lift ((Opcode.tryFrom value).mapError .refused)

def readFlagged {α : Type} (flagged : Bool) (width : Nat) (reader : Reader TransportError α) :
    Reader TransportError (Option α) :=
  if flagged then do
    require width .unexpectedEof
    let value ← reader
    pure (some value)
  else pure none

def decodeRequestPrefix : Reader TransportError (Uuid × Opcode × RequestMetadata) := do
  require 18 .unexpectedEof
  let flags ← byte
  if flags &&& ~~~(requestMetaDeadlineMs ||| requestMetaTraceId ||| requestMetaSequence) ≠ 0 then
    refuse .corruptedPayload
  else do
    let requestId ← readUuid
    let opcode ← readOpcode
    let deadlineMs ← readFlagged (flags &&& requestMetaDeadlineMs != 0) 8 readU64
    let traceId ← readFlagged (flags &&& requestMetaTraceId != 0) 16 readUuid
    let sequence ← readFlagged (flags &&& requestMetaSequence != 0) 8 readU64
    pure (requestId, opcode, ⟨deadlineMs, traceId, sequence⟩)

def decodeRequestBody (body : Bytes) : Except (Stop TransportError) Request :=
  (decodeRequestPrefix body).map fun read =>
    ⟨read.1.1, read.1.2.1, read.2, read.1.2.2⟩

inductive Status where
  | ok
  | error
  | notFound
deriving DecidableEq, Repr

def Status.toByte : Status → UInt8
  | .ok => 0
  | .error => 1
  | .notFound => 2

def Status.tryFrom : UInt8 → Except TransportError Status
  | 0 => .ok .ok
  | 1 => .ok .error
  | 2 => .ok .notFound
  | other => .error (.unknownStatus other)

structure Response where
  requestId : Uuid
  status : Status
  payload : Bytes
deriving DecidableEq

def encodeResponseBody (response : Response) : Bytes :=
  response.requestId.toList ++ (response.status.toByte :: response.payload)

def readStatus : Reader TransportError Status := do
  let value ← byte
  lift ((Status.tryFrom value).mapError .refused)

def decodeResponsePrefix : Reader TransportError (Uuid × Status) := do
  require 17 .unexpectedEof
  let requestId ← readUuid
  let status ← readStatus
  pure (requestId, status)

def decodeResponseBody (body : Bytes) : Except (Stop TransportError) Response :=
  (decodeResponsePrefix body).map fun read => ⟨read.1.1, read.1.2, read.2⟩

theorem uuidFromSlice_eq_ok {bytes : Bytes} {id : Uuid} :
    uuidFromSlice bytes = .ok id ↔ bytes = id.toList := by
  unfold uuidFromSlice
  constructor
  · intro same
    split at same
    · cases same
      rfl
    · cases same
  · rintro rfl
    rw [dif_pos id.length_toList]
    rfl

variable {input rest : Bytes}

theorem readUuid_eq_ok {id : Uuid} :
    readUuid input = .ok (id, rest) ↔ input = id.toList ++ rest := by
  simp only [readUuid, bind_eq_ok, take_eq_ok, lift_eq_ok, Except.mapError_eq_ok_iff,
    uuidFromSlice_eq_ok]
  constructor
  · rintro ⟨_, _, ⟨-, rfl⟩, rfl, rfl⟩
    rfl
  · rintro rfl
    exact ⟨_, _, ⟨id.length_toList, rfl⟩, rfl, rfl⟩

theorem readU64_eq_ok {n : UInt64} :
    readU64 input = .ok (n, rest) ↔ input = u64Bytes n ++ rest := by
  simp only [readU64, bind_eq_ok, number_eq_ok, pure_eq_ok, Prod.mk.injEq, u64Bytes]
  constructor
  · rintro ⟨value, _, ⟨bound, rfl⟩, rfl, rfl⟩
    rw [UInt64.toNat_ofNat_of_lt' bound]
  · rintro rfl
    exact ⟨n.toNat, rest, ⟨n.toNat_lt, rfl⟩, UInt64.ofNat_toNat, rfl⟩

variable {value : UInt8} {opcode : Opcode}

theorem Opcode.tryFrom_eq_ok :
    Opcode.tryFrom value = .ok opcode ↔ value = opcode.toByte := by
  constructor
  · intro same
    unfold Opcode.tryFrom at same
    split at same <;> cases same <;> rfl
  · rintro rfl
    exact opcode.tryFrom_toByte

theorem Status.tryFrom_eq_ok {status : Status} :
    Status.tryFrom value = .ok status ↔ value = status.toByte := by
  constructor
  · intro same
    unfold Status.tryFrom at same
    split at same <;> cases same <;> rfl
  · rintro rfl
    cases status <;> rfl

theorem readOpcode_eq_ok :
    readOpcode input = .ok (opcode, rest) ↔ input = opcode.toByte :: rest := by
  simp only [readOpcode, bind_eq_ok, byte_eq_ok, lift_eq_ok, Except.mapError_eq_ok_iff,
    Opcode.tryFrom_eq_ok]
  constructor
  · rintro ⟨_, _, rfl, rfl, rfl⟩
    rfl
  · rintro rfl
    exact ⟨_, _, rfl, rfl, rfl⟩

theorem readStatus_eq_ok {status : Status} :
    readStatus input = .ok (status, rest) ↔ input = status.toByte :: rest := by
  simp only [readStatus, bind_eq_ok, byte_eq_ok, lift_eq_ok, Except.mapError_eq_ok_iff,
    Status.tryFrom_eq_ok]
  constructor
  · rintro ⟨_, _, rfl, rfl, rfl⟩
    rfl
  · rintro rfl
    exact ⟨_, _, rfl, rfl, rfl⟩

theorem mapError_refused_ne_overread {α : Type} (result : Except TransportError α) :
    result.mapError Stop.refused ≠ .error .overread := by
  cases result <;> exact nofun

theorem fixed_readU64 : Fixed 8 readU64 := Fixed.number.convert _

theorem fixed_readUuid : Fixed 16 readUuid :=
  Fixed.take.lift fun _ => mapError_refused_ne_overread _

theorem fixed_readStatus : Fixed 1 readStatus :=
  Fixed.byte.lift fun _ => mapError_refused_ne_overread _

theorem readFlagged_eq_ok {α : Type} {flagged : Bool} {width : Nat}
    {reader : Reader TransportError α} {encode : α → Bytes}
    (reads : ∀ {input rest value}, reader input = .ok (value, rest) ↔ input = encode value ++ rest)
    (wide : ∀ value, (encode value).length = width) {value : Option α} :
    readFlagged flagged width reader input = .ok (value, rest) ↔
      flagged = value.isSome ∧ input = optionBytes encode value ++ rest := by
  cases flagged with
  | false =>
    simp only [readFlagged, Bool.false_eq_true, if_false, pure_eq_ok, Prod.mk.injEq]
    constructor
    · rintro ⟨rfl, rfl⟩
      exact ⟨rfl, rfl⟩
    · rintro ⟨none, rfl⟩
      cases value
      · exact ⟨rfl, rfl⟩
      · cases none
  | true =>
    simp only [readFlagged, if_true, bind_eq_ok, require_eq_ok, reads, pure_eq_ok, Prod.mk.injEq]
    constructor
    · rintro ⟨_, _, ⟨-, rfl⟩, found, _, rfl, rfl, rfl⟩
      exact ⟨rfl, rfl⟩
    · rintro ⟨present, rfl⟩
      cases value with
      | none => cases present
      | some found =>
        refine ⟨(), _, ⟨?_, rfl⟩, found, rest, rfl, rfl, rfl⟩
        rw [List.length_append, optionBytes, wide]
        omega

theorem flagBits_known : ∀ deadlineMs traceId sequence, flagBits deadlineMs traceId sequence &&&
    ~~~(requestMetaDeadlineMs ||| requestMetaTraceId ||| requestMetaSequence) = 0 := by
  decide

theorem metadataFlags_known (metadata : RequestMetadata) : metadataFlags metadata &&&
    ~~~(requestMetaDeadlineMs ||| requestMetaTraceId ||| requestMetaSequence) = 0 :=
  flagBits_known ..

theorem flagBits_deadlineMs : ∀ deadlineMs traceId sequence,
    (flagBits deadlineMs traceId sequence &&& requestMetaDeadlineMs != 0) = deadlineMs := by
  decide

theorem flagBits_traceId : ∀ deadlineMs traceId sequence,
    (flagBits deadlineMs traceId sequence &&& requestMetaTraceId != 0) = traceId := by
  decide

theorem flagBits_sequence : ∀ deadlineMs traceId sequence,
    (flagBits deadlineMs traceId sequence &&& requestMetaSequence != 0) = sequence := by
  decide

theorem flagBits_of_known_nat : ∀ n < 256, UInt8.ofNat n &&&
    ~~~(requestMetaDeadlineMs ||| requestMetaTraceId ||| requestMetaSequence) = 0 →
    flagBits (UInt8.ofNat n &&& requestMetaDeadlineMs != 0)
      (UInt8.ofNat n &&& requestMetaTraceId != 0)
      (UInt8.ofNat n &&& requestMetaSequence != 0) = UInt8.ofNat n := by
  decide +kernel

theorem flagBits_of_known (flags : UInt8) (known : flags &&&
      ~~~(requestMetaDeadlineMs ||| requestMetaTraceId ||| requestMetaSequence) = 0) :
    flagBits (flags &&& requestMetaDeadlineMs != 0) (flags &&& requestMetaTraceId != 0)
      (flags &&& requestMetaSequence != 0) = flags := by
  have byte : UInt8.ofNat flags.toNat = flags := UInt8.ofNat_toNat
  rw [← byte] at known ⊢
  exact flagBits_of_known_nat _ flags.toNat_lt known

theorem length_uuid (id : Uuid) : id.toList.length = 16 := id.length_toList

theorem length_u64Bytes (n : UInt64) : (u64Bytes n).length = 8 := length_bigEndian ..

theorem decodeRequestPrefix_eq_ok {body payload : Bytes} {requestId : Uuid}
    {metadata : RequestMetadata} :
    decodeRequestPrefix body = .ok ((requestId, opcode, metadata), payload) ↔
      encodeRequestBody ⟨requestId, opcode, payload, metadata⟩ = body := by
  obtain ⟨deadlineMs, traceId, sequence⟩ := metadata
  constructor
  · intro decoded
    obtain ⟨_, _, passed, read⟩ := bind_eq_ok.mp decoded
    obtain ⟨-, rfl⟩ := require_eq_ok.mp passed
    obtain ⟨flags, after, found, read⟩ := bind_eq_ok.mp read
    rw [byte_eq_ok] at found
    split at read
    · exact absurd read refuse_ne_ok
    rename_i known
    simp only [bind_eq_ok, readUuid_eq_ok, readOpcode_eq_ok,
      readFlagged_eq_ok readU64_eq_ok length_u64Bytes,
      readFlagged_eq_ok readUuid_eq_ok length_uuid, pure_eq_ok, Prod.mk.injEq,
      RequestMetadata.mk.injEq] at read
    obtain ⟨_, _, rfl, _, _, rfl, _, _, ⟨one, rfl⟩, _, _, ⟨two, rfl⟩, _, _, ⟨three, rfl⟩,
      ⟨rfl, rfl, rfl, rfl, rfl⟩, rfl⟩ := read
    rw [found, encodeRequestBody, metadataFlags]
    dsimp only
    rw [← one, ← two, ← three, flagBits_of_known flags (not_not.mp known)]
  · rintro rfl
    refine bind_eq_ok.mpr ⟨(), _, require_eq_ok.mpr ⟨?_, rfl⟩, bind_eq_ok.mpr
      ⟨_, _, byte_eq_ok.mpr rfl, ?_⟩⟩
    · simp only [encodeRequestBody, List.length_cons, List.length_append, Vector.length_toList]
      omega
    rw [if_neg (not_not.mpr (metadataFlags_known _))]
    simp only [bind_eq_ok, readUuid_eq_ok, readOpcode_eq_ok,
      readFlagged_eq_ok readU64_eq_ok length_u64Bytes,
      readFlagged_eq_ok readUuid_eq_ok length_uuid, pure_eq_ok, metadataFlags,
      flagBits_deadlineMs, flagBits_traceId, flagBits_sequence]
    exact ⟨_, _, rfl, _, _, rfl, _, _, ⟨rfl, rfl⟩, _, _, ⟨rfl, rfl⟩, _, _, ⟨rfl, rfl⟩, rfl⟩

variable {request : Request}

theorem decodeRequestBody_eq_ok {body : Bytes} :
    decodeRequestBody body = .ok request ↔ encodeRequestBody request = body := by
  obtain ⟨requestId, opcode, payload, metadata⟩ := request
  rw [decodeRequestBody, Except.map_eq_ok_iff, ← decodeRequestPrefix_eq_ok]
  constructor
  · rintro ⟨⟨⟨_, _, _⟩, _⟩, decoded, same⟩
    cases same
    exact decoded
  · intro decoded
    exact ⟨_, decoded, rfl⟩

theorem decodeResponseBody_eq_ok {body : Bytes} {response : Response} :
    decodeResponseBody body = .ok response ↔ encodeResponseBody response = body := by
  obtain ⟨requestId, status, payload⟩ := response
  rw [decodeResponseBody, Except.map_eq_ok_iff]
  simp only [decodeResponsePrefix, bind_eq_ok, require_eq_ok, readUuid_eq_ok, readStatus_eq_ok,
    pure_eq_ok, Response.mk.injEq]
  constructor
  · rintro ⟨_, ⟨_, _, ⟨-, rfl⟩, _, _, rfl, _, _, rfl, rfl⟩, rfl, rfl, rfl⟩
    rfl
  · rintro rfl
    refine ⟨_, ⟨(), _, ⟨?_, rfl⟩, _, _, rfl, _, _, rfl, rfl⟩, rfl, rfl, rfl⟩
    simp only [encodeResponseBody, List.length_cons, List.length_append, Vector.length_toList]
    omega

/-! ### Messages in frames -/

section Stream

variable [FrameCoding]

def encodeRequest (request : Request) (options : CodecOptions) : Except TransportError Bytes :=
  encodeFrame (encodeRequestBody request) options

def readRequest (options : CodecOptions) : Reader TransportError Request := do
  let body ← readFrame options
  lift (decodeRequestBody body)

def encodeResponse (response : Response) (options : CodecOptions) : Except TransportError Bytes :=
  encodeFrame (encodeResponseBody response) options

def readResponse (options : CodecOptions) : Reader TransportError Response := do
  let body ← readFrame options
  lift (decodeResponseBody body)

def decodeRequest (bytes : Bytes) : Except (Stop TransportError) Request := do
  let body ← decodeFrameBorrowing bytes {}
  decodeRequestBody body

def decodeResponse (bytes : Bytes) : Except (Stop TransportError) Response := do
  let body ← decodeFrameBorrowing bytes {}
  decodeResponseBody body

variable {options reading : CodecOptions} {request : Request} {frame rest stream : Bytes}

theorem readRequest_eq_ok :
    readRequest options stream = .ok (request, rest) ↔
      readFrame options stream = .ok (encodeRequestBody request, rest) := by
  simp only [readRequest, bind_eq_ok, lift_eq_ok, decodeRequestBody_eq_ok]
  constructor
  · rintro ⟨_, _, read, rfl, rfl⟩
    exact read
  · intro read
    exact ⟨_, _, read, rfl, rfl⟩

theorem readResponse_eq_ok {response : Response} :
    readResponse options stream = .ok (response, rest) ↔
      readFrame options stream = .ok (encodeResponseBody response, rest) := by
  simp only [readResponse, bind_eq_ok, lift_eq_ok, decodeResponseBody_eq_ok]
  constructor
  · rintro ⟨_, _, read, rfl, rfl⟩
    exact read
  · intro read
    exact ⟨_, _, read, rfl, rfl⟩

theorem decodeRequest_eq_ok :
    decodeRequest stream = .ok request ↔ readRequest {} stream = .ok (request, []) := by
  simp only [decodeRequest, readRequest_eq_ok, Except.bind_eq_ok_iff, decodeFrameBorrowing_eq_ok,
    decodeRequestBody_eq_ok, exists_eq_right']

theorem decodeResponse_eq_ok {response : Response} :
    decodeResponse stream = .ok response ↔ readResponse {} stream = .ok (response, []) := by
  simp only [decodeResponse, readResponse_eq_ok, Except.bind_eq_ok_iff,
    decodeFrameBorrowing_eq_ok, decodeResponseBody_eq_ok, exists_eq_right']

/-- **Slices and streams are decoded alike**; behind a whole frame, a slice with more bytes is
refused and a stream keeps them. -/
theorem decode_slice_iff_stream (bytes : Bytes) :
    (∀ request, decodeRequest bytes = .ok request ↔
      readRequest {} bytes = .ok (request, [])) ∧
    (∀ response, decodeResponse bytes = .ok response ↔
      readResponse {} bytes = .ok (response, [])) ∧
    ∀ body, readFrame {} bytes = .ok (body, []) → ∀ extra, extra ≠ [] →
      (∀ request, decodeRequest (bytes ++ extra) ≠ .ok request) ∧
      readFrame {} (bytes ++ extra) = .ok (body, extra) ∧
      ∀ request, decodeRequest bytes = .ok request →
        readRequest {} (bytes ++ extra) = .ok (request, extra) := by
  refine ⟨fun _ => decodeRequest_eq_ok, fun _ => decodeResponse_eq_ok, ?_⟩
  intro body read extra more
  have kept := readFrame_append read extra
  refine ⟨fun request decoded => ?_, kept, fun request decoded => ?_⟩
  · cases kept.symm.trans (readRequest_eq_ok.mp (decodeRequest_eq_ok.mp decoded))
    exact more rfl
  · rw [decodeRequest_eq_ok, readRequest_eq_ok] at decoded
    exact readRequest_eq_ok.mpr (readFrame_append decoded extra)

theorem readRequest_eof (read : readFrame options stream = .error (.refused .unexpectedEof)) :
    readRequest options stream = .error (.refused .unexpectedEof) := by
  rw [readRequest, bind_apply, read]

/-- One request after another, until the stream ends or something is wrong. -/
def readRequests (options : CodecOptions) (stream : Bytes) : List Request × Stop TransportError :=
  match _read : readRequest options stream with
  | .ok (request, rest) =>
    let more := readRequests options rest
    (request :: more.1, more.2)
  | .error stop => ([], stop)
termination_by stream.length
decreasing_by exact length_rest_lt (readRequest_eq_ok.mp ‹_›)

theorem readRequests_ok (read : readRequest options stream = .ok (request, rest)) :
    readRequests options stream =
      (request :: (readRequests options rest).1, (readRequests options rest).2) := by
  rw [readRequests]
  split
  · rename_i found
    cases read.symm.trans found
    rfl
  · rename_i found
    cases read.symm.trans found

theorem readRequests_error {stop : Stop TransportError}
    (read : readRequest options stream = .error stop) :
    readRequests options stream = ([], stop) := by
  rw [readRequests]
  split
  · rename_i found
    cases read.symm.trans found
  · rename_i found
    cases read.symm.trans found
    rfl

/-- The whole stream gives the requests, and a part of it the first of them, up to its end. -/
structure ReadsBack (options : CodecOptions) (requests : List Request) (stream : Bytes) :
    Prop where
  whole : readRequests options stream = (requests, .refused .unexpectedEof)
  cut : ∀ cut, cut <+: stream → cut ≠ stream → ∃ received, received <+: requests ∧
    readRequests options cut = (received, .refused .unexpectedEof)

/-- The payload of the request's frame has a length of four bytes. -/
def ShortOnWire (options : CodecOptions) (request : Request) : Prop :=
  (wirePayload (encodeRequestBody request) options).length < 2 ^ 32

theorem readRequest_encodeRequest (encoded : encodeRequest request options = .ok frame)
    (short : ShortOnWire options request) :
    readRequest options (frame ++ rest) = .ok (request, rest) := by
  have limits := length_frame_le encoded
  refine readRequest_eq_ok.mpr (readFrame_encodeFrame encoded ?_ limits.1 limits.2)
  rw [length_frame encoded]
  exact Nat.add_lt_add_left short _

theorem readRequest_cut {cut : Bytes} (encoded : encodeRequest request options = .ok frame)
    (short : ShortOnWire options request) (begins : cut <+: frame) (proper : cut ≠ frame) :
    readRequest options cut = .error (.refused .unexpectedEof) := by
  refine readRequest_eof (readFrame_cut encoded ?_ (length_frame_le encoded).1 begins proper)
  rw [length_frame encoded]
  exact Nat.add_lt_add_left short _

theorem readRequests_nil :
    readRequests options [] = ([], .refused .unexpectedEof) :=
  readRequests_error rfl

variable {requests : List Request} {frames : List Bytes}

variable (encoded : List.Forall₂ (fun request frame => encodeRequest request options = .ok frame)
    requests frames)
include encoded

/-- The induction is over the frames; a cut is inside the first one or behind it. -/
theorem readRequests_prefix (short : ∀ request ∈ requests, ShortOnWire options request)
    {cut : Bytes} (begins : cut <+: frames.flatten) :
    ∃ received, received <+: requests ∧
      readRequests options cut = (received, .refused .unexpectedEof) ∧
      (cut = frames.flatten → received = requests) := by
  induction encoded generalizing cut with
  | nil =>
    obtain rfl := List.prefix_nil.mp begins
    exact ⟨[], List.prefix_rfl, readRequests_nil, fun _ => rfl⟩
  | @cons request frame requests frames encoded _ ih =>
    obtain ⟨first, others⟩ := List.forall_mem_cons.mp short
    rw [List.flatten_cons] at begins ⊢
    by_cases inside : cut.length < frame.length
    · have part : cut <+: frame :=
        List.prefix_of_prefix_length_le begins (List.prefix_append ..) inside.le
      have proper : cut ≠ frame := by
        rintro rfl
        exact lt_irrefl _ inside
      refine ⟨[], List.nil_prefix, readRequests_error (readRequest_cut encoded first part proper),
        fun whole => ?_⟩
      rw [whole, List.length_append] at inside
      omega
    · obtain ⟨behind, rfl⟩ : frame <+: cut :=
        List.prefix_of_prefix_length_le (List.prefix_append ..) begins (not_lt.mp inside)
      obtain ⟨received, before, read, whole⟩ :=
        ih others ((List.prefix_append_right_inj _).mp begins)
      refine ⟨request :: received, List.cons_prefix_cons.mpr ⟨rfl, before⟩, ?_, fun same => ?_⟩
      · rw [readRequests_ok (readRequest_encodeRequest encoded first), read]
      · rw [whole (List.append_cancel_left same)]

theorem short_of_readRequests
    (read : readRequests options frames.flatten = (requests, .refused .unexpectedEof)) :
    ∀ request ∈ requests, ShortOnWire options request := by
  induction encoded with
  | nil => exact fun _ member => absurd member List.not_mem_nil
  | @cons request frame requests frames encoded _ ih =>
    rw [List.flatten_cons] at read
    have first : ShortOnWire options request := by
      by_contra long
      cases outcome : readRequest options (frame ++ frames.flatten) with
      | error stop =>
        rw [readRequests_error outcome] at read
        cases read
      | ok result =>
        obtain ⟨found, behind⟩ := result
        rw [readRequests_ok outcome] at read
        obtain rfl : found = request := (List.cons.inj (Prod.mk.inj read).1).1
        refine readFrame_wrapped (encodeRequestBody_ne_nil _) encoded ?_
          (readRequest_eq_ok.mp outcome)
        rw [length_frame encoded]
        exact Nat.add_le_add_left (not_lt.mp long) _
    refine List.forall_mem_cons.mpr ⟨first, ih ?_⟩
    rw [readRequests_ok (readRequest_encodeRequest encoded first), Prod.mk.injEq] at read
    exact Prod.ext (List.cons.inj read.1).2 read.2

omit encoded

/-- **A stream of requests is read back**, whole or broken off anywhere, exactly if every
payload on the wire has less than `2 ^ 32` bytes. -/
theorem stream_reads_back_iff (options : CodecOptions) (requests : List Request)
    (frames : List Bytes)
    (encoded : List.Forall₂ (fun request frame => encodeRequest request options = .ok frame)
      requests frames) :
    ReadsBack options requests frames.flatten ↔
      ∀ request ∈ requests, ShortOnWire options request := by
  constructor
  · intro back
    exact short_of_readRequests encoded back.whole
  · intro short
    constructor
    · obtain ⟨received, -, read, whole⟩ := readRequests_prefix encoded short List.prefix_rfl
      rw [read, whole rfl]
    · intro cut begins _
      obtain ⟨received, before, read, -⟩ := readRequests_prefix encoded short begins
      exact ⟨received, before, read⟩

end Stream

/-- A compression that only marks the end, and no checksum. -/
@[reducible] def Sample.frameCoding : FrameCoding where
  hash _ := 0
  compress body := some (body ++ [0])
  decompress bytes := (bytes.dropLast, true)
  decompress_compress := by
    rintro body _ ⟨⟩
    rw [List.dropLast_concat]
  decompress_cut := by
    rintro body _ cut ⟨⟩ filled begins proper same
    obtain rfl : cut.dropLast = body := (Prod.mk.inj same).1
    refine proper (begins.eq_of_length ?_)
    have some_cut : cut ≠ [] := by
      rintro rfl
      exact filled rfl
    have positive := List.length_pos_iff.mpr some_cut
    rw [List.length_append, List.length_dropLast, List.length_singleton]
    omega

def Sample.packing : CodecOptions := { compressionThresholdBytes := 64 }

def Sample.dated : Request :=
  ⟨Vector.replicate 16 0, .ping, [0], { deadlineMs := some 5, sequence := some 7 }⟩

def Sample.packed : Request := .new (Vector.replicate 16 1) .set (List.replicate 64 1)

open Sample in
/-- Two requests, one of them compressed. -/
theorem stream_reads_back_iff_ping :
    ∃ (_ : FrameCoding) (first second : Bytes),
      encodeRequest dated packing = .ok first ∧ encodeRequest packed packing = .ok second ∧
      shouldCompress (encodeRequestBody dated).length packing = false ∧
      shouldCompress (encodeRequestBody packed).length packing = true ∧
      (ReadsBack packing [dated, packed] [first, second].flatten ↔
        ∀ request ∈ [dated, packed], ShortOnWire packing request) := by
  obtain ⟨first, encodedFirst⟩ : ∃ frame, @encodeRequest frameCoding dated packing = .ok frame :=
    ⟨_, rfl⟩
  obtain ⟨second, encodedSecond⟩ : ∃ frame, @encodeRequest frameCoding packed packing = .ok frame :=
    ⟨_, rfl⟩
  exact ⟨frameCoding, first, second, encodedFirst, encodedSecond, by decide, by decide,
    @stream_reads_back_iff frameCoding packing _ _
      (.cons encodedFirst (.cons encodedSecond .nil))⟩

theorem not_readsBack_of_length [FrameCoding] {options : CodecOptions} {frame : Bytes}
    (plain : options.compression = .none) (encoded : encodeRequest request options = .ok frame)
    (length : (encodeRequestBody request).length = 2 ^ 32) :
    ¬ ReadsBack options [request] frame := by
  intro back
  have whole := back.whole
  rw [← List.flatten_singleton (l := frame)] at whole
  have short := short_of_readRequests (.cons encoded .nil) whole request (List.mem_singleton_self _)
  have sent : wirePayload (encodeRequestBody request) options = encodeRequestBody request := by
    rw [wirePayload, shouldCompress, plain]
    rfl
  rw [ShortOnWire, sent, length] at short
  exact lt_irrefl _ short

theorem exists_frame_of_length [FrameCoding] {options : CodecOptions}
    (plain : options.compression = .none) (length : (encodeRequestBody request).length = 2 ^ 32)
    (allowed : 2 ^ 32 ≤ options.maxFrameLen ∧ 2 ^ 32 ≤ options.maxDecompressedFrameLen) :
    ∃ frame, encodeRequest request options = .ok frame := by
  refine ⟨_, encodeFrame_eq_ok.mpr ⟨length ▸ allowed.2, flagsNone, encodeRequestBody request,
    maybeCompress_eq_ok.mpr (.inl ⟨?_, rfl, rfl⟩), length ▸ allowed.1, ?_, rfl⟩⟩
  · rw [shouldCompress, plain]
    rfl
  · rw [payloadHeader, length]
    exact Nat.zero_le _

theorem four_le_eight : 2 ^ 32 ≤ 2 ^ 33 := by decide

/-- A request of four gigabytes: the frame is written and cannot be read. -/
theorem wrapped_frame_lost :
    ∃ (_ : FrameCoding) (options : CodecOptions) (request : Request) (frame : Bytes),
      encodeRequest request options = .ok frame ∧ ¬ ReadsBack options [request] frame := by
  obtain ⟨payload, length⟩ : ∃ payload : Bytes, payload.length = 2 ^ 32 - 18 :=
    ⟨_, List.length_replicate (n := 2 ^ 32 - 18) (a := (0 : UInt8))⟩
  have body : (encodeRequestBody (.new (Vector.replicate 16 0) .ping payload)).length =
      2 ^ 32 := by
    simp only [encodeRequestBody, Request.new, optionBytes, List.length_cons, List.length_append,
      Vector.length_toList, List.length_nil, length]
    norm_num
  obtain ⟨frame, encoded⟩ := @exists_frame_of_length _ Sample.frameCoding
    ⟨.none, 0, 2 ^ 33, 2 ^ 33⟩ rfl body ⟨four_le_eight, four_le_eight⟩
  exact ⟨Sample.frameCoding, _, _, frame, encoded,
    @not_readsBack_of_length _ Sample.frameCoding _ _ rfl encoded body⟩

end Vaylix

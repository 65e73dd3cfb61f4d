import Vaylix.Transport.Request

/-!
# Frames

A frame is a header of fourteen bytes with the length and a checksum of the payload, then the
payload, compressed or not. A frame whose payload has less than `2 ^ 32` bytes is read back as
its body by every reader whose limits allow it. A longer payload is announced as a shorter
one.
-/

namespace Vaylix

open Cursor

class FrameCoding where
  hash : Bytes → UInt32
  compress : Bytes → Option Bytes
  /-- What the stream decoder delivers, and whether it then ends without an error. -/
  decompress : Bytes → Bytes × Bool
  decompress_compress : ∀ {body compressed}, compress body = some compressed →
    decompress compressed = (body, true)
  /-- A compressed body that is cut short is not taken for the whole. -/
  decompress_cut : ∀ {body compressed cut}, compress body = some compressed → body ≠ [] →
    cut <+: compressed → cut ≠ compressed → decompress cut ≠ (body, true)

inductive CompressionMode where
  | none
  | zstd
deriving DecidableEq, Repr

def magicNumber : UInt32 := 0x56545032

def protocolVersion : UInt8 := 2

def flagsNone : UInt8 := 0

def flagCompressedZstd : UInt8 := 1

def headerLen : Nat := 14

def maxFrameLen : Nat := 8 * 1024 * 1024

structure CodecOptions where
  compression : CompressionMode := .zstd
  compressionThresholdBytes : Nat := 1024
  maxFrameLen : Nat := Vaylix.maxFrameLen
  maxDecompressedFrameLen : Nat := Vaylix.maxFrameLen
deriving DecidableEq, Repr

/-! ### Headers -/

structure FrameHeader where
  magic : UInt32
  version : UInt8
  flags : UInt8
  length : UInt32
  checksum : UInt32
deriving DecidableEq, Repr

namespace FrameHeader

def new (length checksum : UInt32) : Except TransportError FrameHeader :=
  if length.toNat > maxFrameLen then .error (.frameTooLarge length.toNat maxFrameLen)
  else .ok ⟨magicNumber, protocolVersion, flagsNone, length, checksum⟩

def encode (header : FrameHeader) : Bytes :=
  bigEndian 4 header.magic.toNat ++ (header.version :: header.flags ::
    (bigEndian 4 header.length.toNat ++ bigEndian 4 header.checksum.toNat))

def readU32 : Reader TransportError UInt32 := do
  let n ← number 4
  pure (UInt32.ofNat n)

def decode : Reader TransportError FrameHeader := do
  require headerLen .unexpectedEof
  let magic ← readU32
  let version ← byte
  let flags ← byte
  let length ← readU32
  let checksum ← readU32
  if magic ≠ magicNumber then refuse .invalidFrame
  else if version ≠ protocolVersion then refuse (.versionMismatch protocolVersion version)
  else if length.toNat > maxFrameLen then refuse (.frameTooLarge length.toNat maxFrameLen)
  else if flags &&& ~~~flagCompressedZstd ≠ 0 then refuse (.unsupportedFlags flags)
  else pure ⟨magic, version, flags, length, checksum⟩

theorem readU32_eq_ok {input rest : Bytes} {n : UInt32} :
    readU32 input = .ok (n, rest) ↔ input = bigEndian 4 n.toNat ++ rest := by
  simp only [readU32, bind_eq_ok, number_eq_ok, pure_eq_ok, Prod.mk.injEq]
  constructor
  · rintro ⟨value, _, ⟨bound, rfl⟩, rfl, rfl⟩
    rw [UInt32.toNat_ofNat_of_lt' bound]
  · rintro rfl
    exact ⟨n.toNat, rest, ⟨n.toNat_lt, rfl⟩, UInt32.ofNat_toNat, rfl⟩

theorem fixed_readU32 : Fixed 4 readU32 := Fixed.number.convert _

/-- A header that the reader accepts. -/
structure Accepted (header : FrameHeader) : Prop where
  magic : header.magic = magicNumber
  version : header.version = protocolVersion
  length : header.length.toNat ≤ maxFrameLen
  flags : header.flags &&& ~~~flagCompressedZstd = 0

@[simp] theorem length_encode (header : FrameHeader) : header.encode.length = headerLen := by
  simp [encode, headerLen]

theorem decode_encode {header : FrameHeader} (accepted : header.Accepted) (rest : Bytes) :
    decode (header.encode ++ rest) = .ok (header, rest) := by
  obtain ⟨magic, version, flags, length, checksum⟩ := header
  obtain ⟨rfl, rfl, small, known⟩ := accepted
  unfold decode
  rw [bind_eq_ok]
  refine ⟨(), _, require_eq_ok.mpr ⟨?_, rfl⟩, ?_⟩
  · rw [List.length_append, length_encode]
    omega
  simp only [encode, List.append_assoc, List.cons_append, bind_eq_ok]
  refine ⟨_, _, readU32_eq_ok.mpr rfl, _, _, byte_eq_ok.mpr rfl, _, _, byte_eq_ok.mpr rfl, _, _,
    readU32_eq_ok.mpr rfl, _, _, readU32_eq_ok.mpr rfl, ?_⟩
  rw [if_neg (by simp), if_neg (by simp), if_neg (by simpa using small),
    if_neg (by simpa using known)]
  rfl

theorem decode_eq_ok {input rest : Bytes} {header : FrameHeader}
    (decoded : decode input = .ok (header, rest)) :
    header.Accepted ∧ input = header.encode ++ rest := by
  obtain ⟨_, _, passed, read⟩ := bind_eq_ok.mp decoded
  obtain ⟨-, rfl⟩ := require_eq_ok.mp passed
  simp only [bind_eq_ok, readU32_eq_ok, byte_eq_ok] at read
  obtain ⟨magic, _, rfl, version, _, rfl, flags, _, rfl, length, _, rfl, checksum, _, rfl,
    checked⟩ := read
  split at checked
  · exact absurd checked refuse_ne_ok
  rename_i magical
  split at checked
  · exact absurd checked refuse_ne_ok
  rename_i versioned
  split at checked
  · exact absurd checked refuse_ne_ok
  rename_i small
  split at checked
  · exact absurd checked refuse_ne_ok
  rename_i known
  obtain ⟨rfl, rfl⟩ := Prod.mk.inj (pure_eq_ok.mp checked)
  refine ⟨⟨not_not.mp magical, not_not.mp versioned, not_lt.mp small, not_not.mp known⟩, ?_⟩
  simp [encode]

end FrameHeader

/-! ### Payloads -/

/-- `read_exact`, with the end of the stream as an error. -/
def readExact (count : Nat) : Reader TransportError Bytes := do
  require count .unexpectedEof
  take count

theorem readExact_short {bytes : Bytes} {count : Nat} (short : bytes.length < count) :
    readExact count bytes = .error (.refused .unexpectedEof) := by
  rw [readExact, bind_apply, require, if_pos short]

section Frames

variable [FrameCoding]

def shouldCompress (bodyLen : Nat) (options : CodecOptions) : Bool :=
  options.compression = .zstd && options.compressionThresholdBytes ≤ bodyLen

def maybeCompress (body : Bytes) (options : CodecOptions) : Except TransportError (UInt8 × Bytes) :=
  if !shouldCompress body.length options then .ok (flagsNone, body)
  else
    match FrameCoding.compress body with
    | some compressed => .ok (flagCompressedZstd, compressed)
    | none => .error .compressionFailure

/-- The decoder is read up to one byte more than is allowed; an error behind that is not met. (A
limit that is already the largest `usize` is not raised; no buffer is that long.) -/
def maybeDecompress (header : FrameHeader) (payload : Bytes) (options : CodecOptions) :
    Except TransportError Bytes :=
  if header.flags = flagsNone then .ok payload
  else if header.flags = flagCompressedZstd then
    let decodeLimit := options.maxDecompressedFrameLen + 1
    let (output, complete) := FrameCoding.decompress payload
    if output.length < decodeLimit && !complete then .error .compressionFailure
    else
      let decoded := output.take decodeLimit
      if decoded.length > options.maxDecompressedFrameLen then
        .error (.decompressedFrameTooLarge decoded.length options.maxDecompressedFrameLen)
      else .ok decoded
  else .error (.unsupportedFlags header.flags)

/-- The header of a payload. The cast of the length keeps its last four bytes. -/
def payloadHeader (flags : UInt8) (payload : Bytes) : FrameHeader :=
  ⟨magicNumber, protocolVersion, flags, UInt32.ofNat payload.length, FrameCoding.hash payload⟩

def encodeFrame (body : Bytes) (options : CodecOptions) : Except TransportError Bytes :=
  if body.length > options.maxDecompressedFrameLen then
    .error (.frameTooLarge body.length options.maxDecompressedFrameLen)
  else do
    let (flags, payload) ← maybeCompress body options
    if payload.length > options.maxFrameLen then
      .error (.frameTooLarge payload.length options.maxFrameLen)
    else do
      let header ← FrameHeader.new (UInt32.ofNat payload.length) (FrameCoding.hash payload)
      pure ({ header with flags := flags }.encode ++ payload)

def readPayload (header : FrameHeader) (options : CodecOptions) : Reader TransportError Bytes := do
  let payload ← readExact header.length.toNat
  let actualChecksum := FrameCoding.hash payload
  if actualChecksum ≠ header.checksum then
    refuse (.checksumMismatch header.checksum actualChecksum)
  else lift ((maybeDecompress header payload options).mapError .refused)

/-- `read_frame_from_with_options`. The stream has the bytes of the header, or this is the
end. -/
def readFrame (options : CodecOptions) : Reader TransportError Bytes := do
  let header ← FrameHeader.decode
  if header.length.toNat > options.maxFrameLen then
    refuse (.frameTooLarge header.length.toNat options.maxFrameLen)
  else readPayload header options

/-- `decode_frame_borrowing`: the frame is all there is. -/
def decodeFrameBorrowing (frame : Bytes) (options : CodecOptions) :
    Except (Stop TransportError) Bytes :=
  if frame.length < headerLen then .error (.refused .unexpectedEof)
  else do
    let (header, payload) ← FrameHeader.decode frame
    if header.length.toNat > options.maxFrameLen then
      .error (.refused (.frameTooLarge header.length.toNat options.maxFrameLen))
    else if payload.length < header.length.toNat then .error (.refused .unexpectedEof)
    else if payload.length > header.length.toNat then .error (.refused .invalidFrame)
    else
      let actualChecksum := FrameCoding.hash payload
      if actualChecksum ≠ header.checksum then
        .error (.refused (.checksumMismatch header.checksum actualChecksum))
      else if header.flags = flagsNone then .ok payload
      else (maybeDecompress header payload options).mapError .refused

variable {options : CodecOptions} {header : FrameHeader} {body payload frame rest : Bytes}
  {flags : UInt8}

theorem maybeCompress_eq_ok : maybeCompress body options = .ok (flags, payload) ↔
    (shouldCompress body.length options = false ∧ flags = flagsNone ∧ payload = body) ∨
      (shouldCompress body.length options = true ∧ flags = flagCompressedZstd ∧
        FrameCoding.compress body = some payload) := by
  unfold maybeCompress
  cases shouldCompress body.length options with
  | false => simp [eq_comm]
  | true => cases FrameCoding.compress body <;> simp [eq_comm]

theorem encodeFrame_eq_ok : encodeFrame body options = .ok frame ↔
    body.length ≤ options.maxDecompressedFrameLen ∧ ∃ flags payload,
      maybeCompress body options = .ok (flags, payload) ∧
      payload.length ≤ options.maxFrameLen ∧
      (payloadHeader flags payload).length.toNat ≤ maxFrameLen ∧
      frame = (payloadHeader flags payload).encode ++ payload := by
  unfold encodeFrame
  split
  · rename_i long
    exact ⟨nofun, fun fits => absurd fits.1 (not_le.mpr long)⟩
  rename_i fits
  rw [Except.bind_eq_ok_iff]
  constructor
  · rintro ⟨⟨flags, payload⟩, compressed, encoded⟩
    dsimp only at encoded
    split at encoded
    · cases encoded
    rename_i small
    obtain ⟨header, made, written⟩ := Except.bind_eq_ok_iff.mp encoded
    unfold FrameHeader.new at made
    split at made
    · cases made
    rename_i short
    cases made
    exact ⟨not_lt.mp fits, flags, payload, compressed, not_lt.mp small, not_lt.mp short,
      (Except.pure_eq_ok_iff.mp written).symm⟩
  · rintro ⟨-, flags, payload, compressed, small, short, rfl⟩
    refine ⟨(flags, payload), compressed, ?_⟩
    dsimp only
    rw [if_neg (not_lt.mpr small), Except.bind_eq_ok_iff]
    exact ⟨_, if_neg (not_lt.mpr short), rfl⟩

theorem accepted_payloadHeader (compressed : maybeCompress body options = .ok (flags, payload))
    (short : (payloadHeader flags payload).length.toNat ≤ maxFrameLen) :
    (payloadHeader flags payload).Accepted := by
  refine ⟨rfl, rfl, short, ?_⟩
  rcases maybeCompress_eq_ok.mp compressed with ⟨-, rfl, -⟩ | ⟨-, rfl, -⟩
  · change flagsNone &&& ~~~flagCompressedZstd = 0
    decide
  · change flagCompressedZstd &&& ~~~flagCompressedZstd = 0
    decide

theorem readFrame_header (accepted : header.Accepted)
    (allowed : header.length.toNat ≤ options.maxFrameLen) :
    readFrame options (header.encode ++ rest) = readPayload header options rest := by
  rw [readFrame, bind_apply, FrameHeader.decode_encode accepted]
  dsimp only
  rw [if_neg (not_lt.mpr allowed)]

theorem readFrame_eq_ok (accepted : header.Accepted) {bytes behind : Bytes} :
    readFrame options (header.encode ++ bytes) = .ok (body, behind) ↔
      header.length.toNat ≤ options.maxFrameLen ∧ ∃ payload, bytes = payload ++ behind ∧
        payload.length = header.length.toNat ∧ FrameCoding.hash payload = header.checksum ∧
        maybeDecompress header payload options = .ok body := by
  rw [readFrame, bind_apply, FrameHeader.decode_encode accepted]
  dsimp only
  by_cases allowed : header.length.toNat > options.maxFrameLen
  · rw [if_pos allowed]
    exact iff_of_false refuse_ne_ok fun small => absurd small.1 (not_le.mpr allowed)
  rw [if_neg allowed, and_iff_right (not_lt.mp allowed)]
  simp only [readPayload, readExact, bind_eq_ok, require_eq_ok, take_eq_ok]
  constructor
  · rintro ⟨payload, _, ⟨_, _, ⟨-, rfl⟩, length, rfl⟩, checked⟩
    split at checked
    · exact absurd checked refuse_ne_ok
    rename_i checksum
    obtain ⟨decompressed, rfl⟩ := lift_eq_ok.mp checked
    exact ⟨payload, rfl, length, not_not.mp checksum, Except.mapError_eq_ok_iff.mp decompressed⟩
  · rintro ⟨payload, rfl, length, checksum, decompressed⟩
    refine ⟨payload, behind, ⟨(), _, ⟨?_, rfl⟩, length, rfl⟩, ?_⟩
    · rw [List.length_append]
      omega
    · rw [if_neg (not_not.mpr checksum), decompressed]
      rfl

theorem maybeDecompress_plain (plain : header.flags = flagsNone) :
    maybeDecompress header payload options = .ok payload :=
  if_pos plain

theorem maybeDecompress_zstd (zstd : header.flags = flagCompressedZstd) :
    maybeDecompress header payload options = .ok body ↔
      FrameCoding.decompress payload = (body, true) ∧
        body.length ≤ options.maxDecompressedFrameLen := by
  have zipped : header.flags ≠ flagsNone := by
    rw [zstd]
    decide
  unfold maybeDecompress
  rw [if_neg zipped, if_pos zstd]
  obtain ⟨output, complete⟩ := FrameCoding.decompress payload
  dsimp only
  by_cases long : options.maxDecompressedFrameLen < output.length
  · rw [if_neg (by simp; omega), if_pos (by rw [List.length_take]; omega)]
    simp only [reduceCtorEq, Prod.mk.injEq, false_iff, not_and]
    rintro ⟨rfl, -⟩
    exact not_le.mpr long
  · have inside : output.length < options.maxDecompressedFrameLen + 1 := by omega
    rw [List.take_of_length_le inside.le, if_neg long]
    cases complete
    · simp [inside]
    · simp only [Bool.not_true, Bool.and_false, Bool.false_eq_true, if_false, Except.ok.injEq,
        Prod.mk.injEq, and_true]
      constructor
      · rintro rfl
        exact ⟨rfl, not_lt.mp long⟩
      · exact And.left

variable {reading : CodecOptions}

theorem maybeDecompress_maybeCompress
    (compressed : maybeCompress body options = .ok (flags, payload))
    (fits : body.length ≤ reading.maxDecompressedFrameLen) :
    maybeDecompress (payloadHeader flags payload) payload reading = .ok body := by
  rcases maybeCompress_eq_ok.mp compressed with ⟨-, rfl, rfl⟩ | ⟨-, rfl, zipped⟩
  · exact maybeDecompress_plain rfl
  · exact (maybeDecompress_zstd rfl).mpr ⟨FrameCoding.decompress_compress zipped, fits⟩

theorem toNat_payloadHeader_length (flags : UInt8) (short : payload.length < 2 ^ 32) :
    payload.length = (payloadHeader flags payload).length.toNat :=
  (UInt32.toNat_ofNat_of_lt' short).symm

/-- **A frame is read back**, if its length fits the header, by any reader whose limits allow
it. -/
theorem readFrame_encodeFrame (encoded : encodeFrame body options = .ok frame)
    (short : frame.length < headerLen + 2 ^ 32)
    (allowed : frame.length ≤ headerLen + reading.maxFrameLen)
    (fits : body.length ≤ reading.maxDecompressedFrameLen) :
    readFrame reading (frame ++ rest) = .ok (body, rest) := by
  obtain ⟨-, flags, payload, compressed, -, announced, rfl⟩ := encodeFrame_eq_ok.mp encoded
  rw [List.length_append, FrameHeader.length_encode] at short allowed
  have length := toNat_payloadHeader_length flags (by omega : payload.length < 2 ^ 32)
  rw [List.append_assoc, readFrame_eq_ok (accepted_payloadHeader compressed announced)]
  exact ⟨by omega, payload, rfl, length, rfl, maybeDecompress_maybeCompress compressed fits⟩

theorem readFrame_cut {cut : Bytes} (encoded : encodeFrame body options = .ok frame)
    (short : frame.length < headerLen + 2 ^ 32)
    (allowed : frame.length ≤ headerLen + reading.maxFrameLen) (begins : cut <+: frame)
    (proper : cut ≠ frame) :
    readFrame reading cut = .error (.refused .unexpectedEof) := by
  obtain ⟨-, flags, payload, compressed, -, announced, rfl⟩ := encodeFrame_eq_ok.mp encoded
  rw [List.length_append, FrameHeader.length_encode] at short allowed
  have length := toNat_payloadHeader_length flags (by omega : payload.length < 2 ^ 32)
  rcases lt_or_ge cut.length headerLen with few | enough
  · have header : FrameHeader.decode cut = .error (.refused .unexpectedEof) := by
      rw [FrameHeader.decode, bind_apply, require, if_pos few]
    rw [readFrame, bind_apply, header]
  · obtain ⟨part, rfl⟩ : (payloadHeader flags payload).encode <+: cut :=
      List.prefix_of_prefix_length_le (List.prefix_append ..) begins (by simpa using enough)
    have inside : part <+: payload := (List.prefix_append_right_inj _).mp begins
    have less : part.length < payload.length := by
      refine lt_of_le_of_ne inside.length_le fun same => proper ?_
      rw [inside.eq_of_length same]
    rw [readFrame_header (accepted_payloadHeader compressed announced) (by omega), readPayload,
      bind_apply, readExact_short (by omega)]

/-- A payload whose length does not fit the header is read in part only, and refused. -/
theorem readFrame_wrapped (filled : body ≠ []) (encoded : encodeFrame body options = .ok frame)
    (long : headerLen + 2 ^ 32 ≤ frame.length) {behind : Bytes} :
    readFrame reading (frame ++ rest) ≠ .ok (body, behind) := by
  obtain ⟨-, flags, payload, compressed, -, announced, rfl⟩ := encodeFrame_eq_ok.mp encoded
  rw [List.length_append, FrameHeader.length_encode] at long
  intro read
  rw [List.append_assoc, readFrame_eq_ok (accepted_payloadHeader compressed announced)] at read
  obtain ⟨-, part, same, length, -, decompressed⟩ := read
  have bound := (payloadHeader flags payload).length.toNat_lt
  have before : part <+: payload ++ rest := ⟨behind, same.symm⟩
  have inside : part <+: payload :=
    List.prefix_of_prefix_length_le before (List.prefix_append ..) (by omega)
  have proper : part ≠ payload := by
    rintro rfl
    omega
  rcases maybeCompress_eq_ok.mp compressed with ⟨-, rfl, rfl⟩ | ⟨-, rfl, zipped⟩
  · rw [maybeDecompress_plain rfl] at decompressed
    exact proper (Except.ok.inj decompressed)
  · exact FrameCoding.decompress_cut zipped filled inside proper
      ((maybeDecompress_zstd rfl).mp decompressed).1

def wirePayload (body : Bytes) (options : CodecOptions) : Bytes :=
  if shouldCompress body.length options then (FrameCoding.compress body).getD [] else body

theorem length_frame (encoded : encodeFrame body options = .ok frame) :
    frame.length = headerLen + (wirePayload body options).length := by
  obtain ⟨-, flags, payload, compressed, -, -, rfl⟩ := encodeFrame_eq_ok.mp encoded
  rw [List.length_append, FrameHeader.length_encode, wirePayload]
  rcases maybeCompress_eq_ok.mp compressed with ⟨plain, -, rfl⟩ | ⟨zip, -, zipped⟩
  · rw [plain]
    rfl
  · rw [zip, zipped]
    rfl

theorem length_frame_le (encoded : encodeFrame body options = .ok frame) :
    frame.length ≤ headerLen + options.maxFrameLen ∧
      body.length ≤ options.maxDecompressedFrameLen := by
  obtain ⟨fits, flags, payload, -, small, -, rfl⟩ := encodeFrame_eq_ok.mp encoded
  rw [List.length_append, FrameHeader.length_encode]
  exact ⟨Nat.add_le_add_left small _, fits⟩

theorem decodeFrameBorrowing_eq_ok :
    decodeFrameBorrowing frame options = .ok body ↔ readFrame options frame = .ok (body, []) := by
  cases decoded : FrameHeader.decode frame with
  | error stop =>
    refine iff_of_false (fun read => ?_) (by simp [readFrame, decoded])
    obtain ⟨_, found, -⟩ := Except.bind_eq_ok_iff.mp (Except.guard_eq_ok_iff.mp read).2
    rw [decoded] at found
    cases found
  | ok result =>
    obtain ⟨header, payload⟩ := result
    obtain ⟨accepted, rfl⟩ := FrameHeader.decode_eq_ok decoded
    have whole : (if header.flags = flagsNone then .ok payload
        else (maybeDecompress header payload options).mapError Stop.refused) = .ok body ↔
        maybeDecompress header payload options = .ok body := by
      split
      · rename_i plain
        rw [maybeDecompress_plain plain, Except.ok.injEq, Except.ok.injEq]
      · exact Except.mapError_eq_ok_iff
    simp only [decodeFrameBorrowing, decoded, Except.guard_eq_ok_iff, bind, Except.bind, whole,
      readFrame_eq_ok accepted, List.append_nil, exists_eq_left', List.length_append,
      FrameHeader.length_encode, not_lt, not_not]
    constructor
    · rintro ⟨-, small, enough, all, checksum, read⟩
      exact ⟨small, le_antisymm all enough, checksum, read⟩
    · rintro ⟨small, length, checksum, read⟩
      exact ⟨Nat.le_add_right _ _, small, length.ge, length.le, checksum, read⟩

/-- What follows a frame is left. -/
theorem readFrame_append {stream : Bytes} (read : readFrame options stream = .ok (body, rest))
    (extra : Bytes) : readFrame options (stream ++ extra) = .ok (body, rest ++ extra) := by
  obtain ⟨header, bytes, decoded, -⟩ := bind_eq_ok.mp read
  obtain ⟨accepted, rfl⟩ := FrameHeader.decode_eq_ok decoded
  obtain ⟨small, payload, rfl, whole⟩ := (readFrame_eq_ok accepted).mp read
  rw [List.append_assoc, readFrame_eq_ok accepted]
  exact ⟨small, payload, List.append_assoc .., whole⟩

theorem length_rest_lt {stream : Bytes} (read : readFrame options stream = .ok (body, rest)) :
    rest.length < stream.length := by
  obtain ⟨header, bytes, decoded, -⟩ := bind_eq_ok.mp read
  obtain ⟨accepted, rfl⟩ := FrameHeader.decode_eq_ok decoded
  obtain ⟨-, payload, rfl, -⟩ := (readFrame_eq_ok accepted).mp read
  simp only [List.length_append, FrameHeader.length_encode, headerLen]
  omega

end Frames

end Vaylix

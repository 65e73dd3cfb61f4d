import Vaylix.Transport.Stream

/-!
# Negotiated options

The server keeps its threshold for compressing, the client compresses everything. Both have
the same limits, and a reader looks only at its limits and at the flags of a frame, so each
side reads what the other writes.
-/

namespace Vaylix

open Cursor

def capZstd : UInt64 := 1

def capRequestDeadline : UInt64 := 2

def capServerMetrics : UInt64 := 4

def capPipelining : UInt64 := 8

def capTraceContext : UInt64 := 16

def defaultCapabilities : UInt64 :=
  capZstd ||| capRequestDeadline ||| capServerMetrics ||| capPipelining ||| capTraceContext

structure ClientHello where
  protocolVersion : UInt8
  clientName : String
  clientVersion : String
  supportedCapabilities : UInt64
  desiredCompression : CompressionMode
  maxFrameLen : UInt32
  authIntent : Bool
deriving DecidableEq, Repr

structure ServerHello where
  protocolVersion : UInt8
  acceptedCapabilities : UInt64
  compression : CompressionMode
  maxFrameLen : UInt32
  serverId : Uuid
  status : Status
  errorCode : Option String
  errorName : Option String
  errorMessage : Option String
deriving DecidableEq

def ServerHello.ok (acceptedCapabilities : UInt64) (compression : CompressionMode)
    (maxFrameLen : UInt32) (serverId : Uuid) : ServerHello :=
  ⟨Vaylix.protocolVersion, acceptedCapabilities, compression, maxFrameLen, serverId, .ok, none,
    none, none⟩

def negotiatedCompression (hello : ClientHello) (serverOptions : CodecOptions) : Bool :=
  serverOptions.compression = .zstd && hello.desiredCompression = .zstd &&
    hello.supportedCapabilities &&& defaultCapabilities &&& capZstd != 0

def negotiateServerOptions (hello : ClientHello) (serverOptions : CodecOptions) (serverId : Uuid) :
    Except TransportError (ServerHello × CodecOptions) :=
  if hello.protocolVersion ≠ protocolVersion then
    .error (.negotiationFailed "unsupported protocol version")
  else
    let capabilities := hello.supportedCapabilities &&& defaultCapabilities
    let zstd := negotiatedCompression hello serverOptions
    let compression : CompressionMode := if zstd then .zstd else .none
    let capabilities := if zstd then capabilities else capabilities &&& ~~~capZstd
    let maxFrameLen := min (min hello.maxFrameLen.toNat serverOptions.maxFrameLen) maxFrameLen
    .ok (.ok capabilities compression (UInt32.ofNat maxFrameLen) serverId,
      ⟨compression, serverOptions.compressionThresholdBytes, maxFrameLen, maxFrameLen⟩)

def clientOptionsFromServerHello (hello : ServerHello) : Except TransportError CodecOptions :=
  if hello.status ≠ .ok then .error (.negotiationFailed "server rejected startup")
  else if hello.protocolVersion ≠ protocolVersion then
    .error (.negotiationFailed "unsupported server protocol version")
  else
    .ok ⟨hello.compression, 0, hello.maxFrameLen.toNat, hello.maxFrameLen.toNat⟩

section Interoperation

variable [FrameCoding] {client server : CodecOptions}

/-- Whatever `writing` sends is read with `reading`. -/
def Understands (reading writing : CodecOptions) : Prop :=
  (∀ (request : Request) (frame rest : Bytes), encodeRequest request writing = .ok frame →
    readRequest reading (frame ++ rest) = .ok (request, rest)) ∧
  ∀ (response : Response) (frame rest : Bytes), encodeResponse response writing = .ok frame →
    readResponse reading (frame ++ rest) = .ok (response, rest)

theorem understands_of_limits {reading writing : CodecOptions}
    (frameLimit : writing.maxFrameLen ≤ reading.maxFrameLen)
    (bodyLimit : writing.maxDecompressedFrameLen ≤ reading.maxDecompressedFrameLen)
    (short : writing.maxFrameLen < 2 ^ 32) : Understands reading writing := by
  have read {body frame rest : Bytes} (encoded : encodeFrame body writing = .ok frame) :
      readFrame reading (frame ++ rest) = .ok (body, rest) := by
    obtain ⟨frameLe, bodyLe⟩ := length_frame_le encoded
    exact readFrame_encodeFrame encoded (by omega) (by omega) (bodyLe.trans bodyLimit)
  exact ⟨fun _ _ _ encoded => readRequest_eq_ok.mpr (read encoded),
    fun _ _ _ encoded => readResponse_eq_ok.mpr (read encoded)⟩

end Interoperation

theorem negotiateServerOptions_eq_ok {hello : ClientHello} {serverOptions options : CodecOptions}
    {serverId : Uuid} {answer : ServerHello}
    (agreed : negotiateServerOptions hello serverOptions serverId = .ok (answer, options)) :
    options.maxFrameLen = min (min hello.maxFrameLen.toNat serverOptions.maxFrameLen) maxFrameLen ∧
      options.maxDecompressedFrameLen = options.maxFrameLen ∧
      answer.maxFrameLen.toNat = options.maxFrameLen ∧
      answer.compression = options.compression ∧
      (options.compression = .zstd → negotiatedCompression hello serverOptions = true) ∧
      (answer.acceptedCapabilities = hello.supportedCapabilities &&& defaultCapabilities ∨
        answer.acceptedCapabilities =
          hello.supportedCapabilities &&& defaultCapabilities &&& ~~~capZstd) := by
  unfold negotiateServerOptions at agreed
  split at agreed
  · cases agreed
  cases agreed
  refine ⟨rfl, rfl, UInt32.toNat_ofNat_of_lt' ?_, rfl, ?_, ?_⟩
  · exact lt_of_le_of_lt (min_le_right ..) (by decide)
  · cases negotiatedCompression hello serverOptions
    · exact nofun
    · exact fun _ => rfl
  · cases negotiatedCompression hello serverOptions
    · exact .inr rfl
    · exact .inl rfl

theorem clientOptionsFromServerHello_eq_ok {answer : ServerHello} {options : CodecOptions}
    (accepted : clientOptionsFromServerHello answer = .ok options) :
    options = ⟨answer.compression, 0, answer.maxFrameLen.toNat, answer.maxFrameLen.toNat⟩ := by
  unfold clientOptionsFromServerHello at accepted
  split at accepted
  · cases accepted
  split at accepted <;> cases accepted
  rfl

theorem and_and_left (a b : UInt64) : a &&& b &&& a = a &&& b := by
  rw [UInt64.and_comm (a &&& b) a, ← UInt64.and_assoc, UInt64.and_self]

theorem and_and_right (a b : UInt64) : a &&& b &&& b = a &&& b := by
  rw [UInt64.and_assoc, UInt64.and_self]

theorem and_and_of_subset {a b : UInt64} (subset : a &&& b = a) (mask : UInt64) :
    a &&& mask &&& b = a &&& mask := by
  rw [UInt64.and_assoc, UInt64.and_comm mask b, ← UInt64.and_assoc, subset]

/-- **Negotiated peers understand each other**: each reads what the other can write. Frames are
compressed only if both want it, and the frame limit is within both limits. -/
theorem negotiated_peers_interoperate [FrameCoding] (hello : ClientHello)
    (serverOptions : CodecOptions) (serverId : Uuid) (answer : ServerHello)
    (server client : CodecOptions)
    (agreed : negotiateServerOptions hello serverOptions serverId = .ok (answer, server))
    (accepted : clientOptionsFromServerHello answer = .ok client) :
    Understands server client ∧ Understands client server ∧
      answer.acceptedCapabilities &&& hello.supportedCapabilities = answer.acceptedCapabilities ∧
      answer.acceptedCapabilities &&& defaultCapabilities = answer.acceptedCapabilities ∧
      (server.compression = .zstd ∨ client.compression = .zstd →
        serverOptions.compression = .zstd ∧ hello.desiredCompression = .zstd) ∧
      server.maxFrameLen = client.maxFrameLen ∧
      server.maxFrameLen ≤ hello.maxFrameLen.toNat ∧
      server.maxFrameLen ≤ serverOptions.maxFrameLen := by
  obtain ⟨limit, decompressed, announced, compression, wanted, capabilities⟩ :=
    negotiateServerOptions_eq_ok agreed
  obtain rfl := clientOptionsFromServerHello_eq_ok accepted
  have short : server.maxFrameLen < 2 ^ 32 :=
    lt_of_le_of_lt (limit.le.trans (min_le_right ..)) (by decide)
  refine ⟨understands_of_limits announced.le (announced.trans decompressed.symm).le
      (announced.trans_lt short),
    understands_of_limits announced.ge (decompressed.trans announced.symm).le short, ?_, ?_, ?_,
    announced.symm, ?_, ?_⟩
  · rcases capabilities with same | same <;> rw [same]
    · exact and_and_left _ _
    · exact and_and_of_subset (and_and_left _ _) _
  · rcases capabilities with same | same <;> rw [same]
    · exact and_and_right _ _
    · exact and_and_of_subset (and_and_right _ _) _
  · intro zstd
    have both := wanted (zstd.elim id fun used => compression.symm.trans used)
    simp only [negotiatedCompression, Bool.and_eq_true, decide_eq_true_eq] at both
    exact both.1
  · rw [limit]
    exact (min_le_left ..).trans (min_le_left ..)
  · rw [limit]
    exact (min_le_left ..).trans (min_le_right ..)

/-- A client with a small limit and a server with the defaults: the server reads a compressed
request of the client. -/
theorem negotiated_peers_interoperate_small :
    ∃ (_ : FrameCoding) (answer : ServerHello) (server client : CodecOptions) (frame : Bytes),
      negotiateServerOptions ⟨2, "cli", "1", 31, .zstd, 4096, true⟩ {} (Vector.replicate 16 0) =
        .ok (answer, server) ∧
      clientOptionsFromServerHello answer = .ok client ∧ client.compression = .zstd ∧
      encodeRequest (.new (Vector.replicate 16 0) .ping [0]) client = .ok frame ∧
      readRequest server frame = .ok (.new (Vector.replicate 16 0) .ping [0], []) := by
  refine ⟨Sample.frameCoding, _, _, _, _, rfl, rfl, rfl, rfl, ?_⟩
  have understands := (@negotiated_peers_interoperate Sample.frameCoding
    ⟨2, "cli", "1", 31, .zstd, 4096, true⟩ {} (Vector.replicate 16 0) _ _ _ rfl rfl).1
  have read := understands.1 (.new (Vector.replicate 16 0) .ping [0]) _ [] rfl
  rwa [List.append_nil] at read

end Vaylix

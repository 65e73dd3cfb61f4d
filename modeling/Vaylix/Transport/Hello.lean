import Vaylix.Transport.Negotiation

/-!
# Startup hellos

Each decoder checks once that a run of fixed fields is there and reads them without further
checks. The server's check is for the bytes before the status: a hello that stops right there
is read behind its end. On every other input both decoders answer, and they read what the
encoders write.
-/

namespace Vaylix

open Cursor

def clientHello : UInt8 := 0xF0

def serverHello : UInt8 := 0xF1

def compressionToU8 : CompressionMode → UInt8
  | .none => 0
  | .zstd => 1

def compressionFromU8 : UInt8 → Except TransportError CompressionMode
  | 0 => .ok .none
  | 1 => .ok .zstd
  | _ => .error (.capabilityMismatch "unknown compression mode")

def readCompression : Reader TransportError CompressionMode := do
  let value ← byte
  lift ((compressionFromU8 value).mapError .refused)

/-- The flag at the end of the client's hello, which the check before it covers. -/
def readFlag : Reader TransportError Bool := do
  match ← byte with
  | 0 => pure false
  | 1 => pure true
  | _ => refuse .corruptedPayload

def putOptionalString (value : Option String) : Except TransportError Bytes :=
  putOptional putStringU16 value

def readOptionalString : Reader TransportError (Option String) := do
  require 1 .unexpectedEof
  readOptional readStringU16

def encodeClientHello (hello : ClientHello) : Except TransportError Bytes := do
  let name ← putStringU16 hello.clientName
  let version ← putStringU16 hello.clientVersion
  pure (clientHello :: hello.protocolVersion :: (name ++ (version ++
    (u64Bytes hello.supportedCapabilities ++ (compressionToU8 hello.desiredCompression ::
      (bigEndian 4 hello.maxFrameLen.toNat ++ putBool hello.authIntent))))))

def readClientHello : Reader TransportError ClientHello := do
  require 2 .unexpectedEof
  let kind ← byte
  if kind ≠ clientHello then refuse (.protocolStateViolation "expected client hello")
  else do
    let protocolVersion ← byte
    let clientName ← readStringU16
    let clientVersion ← readStringU16
    require 14 .unexpectedEof
    let supportedCapabilities ← readU64
    let desiredCompression ← readCompression
    let maxFrameLen ← FrameHeader.readU32
    let authIntent ← readFlag
    pure ⟨protocolVersion, clientName, clientVersion, supportedCapabilities, desiredCompression,
      maxFrameLen, authIntent⟩

def decodeClientHello : Bytes → Except (Stop TransportError) ClientHello :=
  decodeWhole readClientHello

def serverHelloHead (protocolVersion : UInt8) (acceptedCapabilities : UInt64)
    (compression : UInt8) (maxFrameLen : UInt32) (serverId : Uuid) : Bytes :=
  protocolVersion :: (u64Bytes acceptedCapabilities ++ (compression ::
    (bigEndian 4 maxFrameLen.toNat ++ serverId.toList)))

def encodeServerHello (hello : ServerHello) : Except TransportError Bytes := do
  let code ← putOptionalString hello.errorCode
  let name ← putOptionalString hello.errorName
  let message ← putOptionalString hello.errorMessage
  pure (serverHello :: (serverHelloHead hello.protocolVersion hello.acceptedCapabilities
    (compressionToU8 hello.compression) hello.maxFrameLen hello.serverId ++
      (hello.status.toByte :: (code ++ (name ++ message)))))

/-- `decode_server_hello` up to the end of the fields. The check is one byte short. -/
def readServerHello : Reader TransportError ServerHello := do
  require 31 .unexpectedEof
  let kind ← byte
  if kind ≠ serverHello then refuse (.protocolStateViolation "expected server hello")
  else do
    let protocolVersion ← byte
    let acceptedCapabilities ← readU64
    let compression ← readCompression
    let maxFrameLen ← FrameHeader.readU32
    let serverId ← readUuid
    let status ← readStatus
    let errorCode ← readOptionalString
    let errorName ← readOptionalString
    let errorMessage ← readOptionalString
    pure ⟨protocolVersion, acceptedCapabilities, compression, maxFrameLen, serverId, status,
      errorCode, errorName, errorMessage⟩

def decodeServerHello : Bytes → Except (Stop TransportError) ServerHello :=
  decodeWhole readServerHello

/-! ### What is accepted -/

variable {value : UInt8} {compression : CompressionMode}

theorem compressionFromU8_eq_ok :
    compressionFromU8 value = .ok compression ↔ value = compressionToU8 compression := by
  constructor
  · intro same
    unfold compressionFromU8 at same
    split at same <;> cases same <;> rfl
  · rintro rfl
    cases compression <;> rfl

theorem readCompression_eq_ok {input rest : Bytes} :
    readCompression input = .ok (compression, rest) ↔
      input = compressionToU8 compression :: rest := by
  simp only [readCompression, bind_eq_ok, byte_eq_ok, lift_eq_ok, Except.mapError_eq_ok_iff,
    compressionFromU8_eq_ok]
  constructor
  · rintro ⟨_, _, rfl, rfl, rfl⟩
    rfl
  · rintro rfl
    exact ⟨_, _, rfl, rfl, rfl⟩

theorem readFlag_eq_ok {input rest : Bytes} {flag : Bool} :
    readFlag input = .ok (flag, rest) ↔ input = putBool flag ++ rest := by
  simp only [readFlag, bind_eq_ok, byte_eq_ok, putBool]
  constructor
  · rintro ⟨value, after, rfl, decoded⟩
    split at decoded
    · cases pure_eq_ok.mp decoded
      rfl
    · cases pure_eq_ok.mp decoded
      rfl
    · exact absurd decoded refuse_ne_ok
  · rintro rfl
    refine ⟨_, rest, rfl, ?_⟩
    cases flag <;> rfl

theorem inverse_readOptionalString :
    Inverse (fun _ => True) putOptionalString readOptionalString := by
  exact ((inverse_readOptional inverse_readStringU16).checked .unexpectedEof
    fun _ _ => PayloadCodec.length_putOptional).retyped fun _ => forall₂_true_iff

variable {protocolVersion : UInt8} {capabilities : UInt64} {limit : UInt32}

theorem length_serverHelloHead {compression : UInt8} {serverId : Uuid} :
    (serverHelloHead protocolVersion capabilities compression limit serverId).length = 30 := by
  simp only [serverHelloHead, List.length_cons, List.length_append, length_u64Bytes,
    length_bigEndian, length_uuid]

/-! ### The length fields -/

def ClientHello.Fits (hello : ClientHello) : Prop :=
  (textBytes hello.clientName).length < 2 ^ 16 ∧ (textBytes hello.clientVersion).length < 2 ^ 16

def FitsU16 (value : Option String) : Prop := ∀ text ∈ value, (textBytes text).length < 2 ^ 16

def ServerHello.Fits (hello : ServerHello) : Prop :=
  FitsU16 hello.errorCode ∧ FitsU16 hello.errorName ∧ FitsU16 hello.errorMessage

theorem putStringU16_ok_iff {text : String} :
    (∃ bytes, putStringU16 text = .ok bytes) ↔ (textBytes text).length < 2 ^ 16 := putBytes_ok_iff

theorem putOptionalString_ok_iff {value : Option String} :
    (∃ bytes, putOptionalString value = .ok bytes) ↔ FitsU16 value :=
  putOptional_ok_iff.trans (forall₂_congr fun _ _ => putStringU16_ok_iff)

/-- A client's hello is read back. -/
theorem clientHello_round_trip {hello : ClientHello} (fits : hello.Fits) :
    ∃ written, encodeClientHello hello = .ok written ∧ decodeClientHello written = .ok hello := by
  obtain ⟨name, wroteName⟩ := putStringU16_ok_iff.mpr fits.1
  obtain ⟨version, wroteVersion⟩ := putStringU16_ok_iff.mpr fits.2
  simp only [encodeClientHello, wroteName, wroteVersion]
  refine ⟨_, rfl, decodeWhole_eq_ok.mpr (bind_eq_ok.mpr ⟨(), _, require_eq_ok.mpr ⟨?_, rfl⟩,
    bind_eq_ok.mpr ⟨_, _, byte_eq_ok.mpr rfl, ?_⟩⟩)⟩
  · simp only [List.length_cons]
    omega
  rw [if_neg (not_not.mpr rfl)]
  simp only [bind_eq_ok, byte_eq_ok, inverse_readStringU16 _ _ _, require_eq_ok, readU64_eq_ok,
    readCompression_eq_ok, FrameHeader.readU32_eq_ok, readFlag_eq_ok, pure_eq_ok]
  refine ⟨_, _, rfl, _, _, ⟨trivial, name, wroteName, rfl⟩, _, _,
    ⟨trivial, version, wroteVersion, rfl⟩, (), _, ⟨?_, rfl⟩, _, _, rfl, _, _, rfl, _, _, rfl,
    _, _, (List.append_nil _).symm, rfl⟩
  simp only [List.length_append, List.length_cons, length_u64Bytes, length_bigEndian, putBool,
    List.length_nil]
  omega

/-- A server's hello is read back. -/
theorem serverHello_round_trip {hello : ServerHello} (fits : hello.Fits) :
    ∃ written, encodeServerHello hello = .ok written ∧ decodeServerHello written = .ok hello := by
  obtain ⟨code, wroteCode⟩ := putOptionalString_ok_iff.mpr fits.1
  obtain ⟨name, wroteName⟩ := putOptionalString_ok_iff.mpr fits.2.1
  obtain ⟨message, wroteMessage⟩ := putOptionalString_ok_iff.mpr fits.2.2
  simp only [encodeServerHello, wroteCode, wroteName, wroteMessage]
  refine ⟨_, rfl, decodeWhole_eq_ok.mpr (bind_eq_ok.mpr ⟨(), _, require_eq_ok.mpr ⟨?_, rfl⟩,
    bind_eq_ok.mpr ⟨_, _, byte_eq_ok.mpr rfl, ?_⟩⟩)⟩
  · simp only [List.length_cons, List.length_append, length_serverHelloHead]
    omega
  rw [if_neg (not_not.mpr rfl)]
  simp only [bind_eq_ok, byte_eq_ok, readU64_eq_ok, readCompression_eq_ok,
    FrameHeader.readU32_eq_ok, readUuid_eq_ok, readStatus_eq_ok, inverse_readOptionalString _ _ _,
    pure_eq_ok, serverHelloHead, List.cons_append, List.append_assoc]
  exact ⟨_, _, rfl, _, _, rfl, _, _, rfl, _, _, rfl, _, _, rfl, _, _, rfl,
    _, _, ⟨trivial, code, wroteCode, rfl⟩, _, _, ⟨trivial, name, wroteName, rfl⟩,
    _, _, ⟨trivial, message, wroteMessage, (List.append_nil _).symm⟩, rfl⟩

/-! ### Reads behind the end -/

theorem fixed_readCompression : Fixed 1 readCompression :=
  Fixed.byte.lift fun _ => mapError_refused_ne_overread _

theorem safe_readFlag : SafeFrom 1 readFlag := by
  refine .byte (le_refl 1) fun flag => ?_
  split
  · exact .pure
  · exact .pure
  · exact .refuse

theorem safe_readOptionalString : SafeFrom 0 readOptionalString :=
  .require (safe_readOptional (safe_readString 2))

theorem safe_readClientHello : SafeFrom 0 readClientHello := by
  refine .require (.byte (by decide) fun kind => ?_)
  split
  · exact .refuse
  refine .byte (by decide) fun protocolVersion => ?_
  refine SafeFrom.mono ?_ (Nat.zero_le _)
  refine (safe_readString 2).bind fun name => (safe_readString 2).bind fun version => .require ?_
  refine .fixed fixed_readU64 (by decide) fun capabilities =>
    .fixed fixed_readCompression (by decide) fun compression =>
      .fixed FrameHeader.fixed_readU32 (by decide) fun limit => ?_
  exact safe_readFlag.bind fun auth => .pure

theorem safe_readServerHello : SafeFrom 32 readServerHello := by
  refine .require (.byte (by decide) fun kind => ?_)
  split
  · exact .refuse
  refine .byte (by decide) fun protocolVersion =>
    .fixed fixed_readU64 (by decide) fun capabilities =>
      .fixed fixed_readCompression (by decide) fun compression =>
        .fixed FrameHeader.fixed_readU32 (by decide) fun limit =>
          .fixed fixed_readUuid (by decide) fun id =>
            .fixed fixed_readStatus (by decide) fun status => ?_
  exact safe_readOptionalString.bind fun code => safe_readOptionalString.bind fun name =>
    safe_readOptionalString.bind fun message => .pure

/-- A server hello that stops right before its status. -/
def StopsBeforeStatus (bytes : Bytes) : Prop :=
  bytes.length = 31 ∧ bytes[0]? = some serverHello ∧ (bytes[10]? = some 0 ∨ bytes[10]? = some 1)

variable {bytes : Bytes}

theorem exists_u64Bytes (length : bytes.length = 8) : ∃ n, u64Bytes n = bytes := by
  have bound := ofBigEndian_lt bytes
  rw [length] at bound
  refine ⟨UInt64.ofNat (ofBigEndian bytes), ?_⟩
  rw [u64Bytes, UInt64.toNat_ofNat_of_lt' bound, ← length, bigEndian_ofBigEndian]

theorem exists_u32Bytes (length : bytes.length = 4) :
    ∃ n : UInt32, bigEndian 4 n.toNat = bytes := by
  have bound := ofBigEndian_lt bytes
  rw [length] at bound
  refine ⟨UInt32.ofNat (ofBigEndian bytes), ?_⟩
  rw [UInt32.toNat_ofNat_of_lt' bound, ← length, bigEndian_ofBigEndian]

theorem exists_uuid (length : bytes.length = 16) : ∃ id : Uuid, id.toList = bytes :=
  ⟨⟨bytes.toArray, length⟩, rfl⟩

theorem exists_split {count : Nat} (enough : count ≤ bytes.length) :
    ∃ front rest, bytes = front ++ rest ∧ front.length = count :=
  ⟨_, _, (List.take_append_drop count bytes).symm, List.length_take_of_le enough⟩

/-- Any thirty bytes are fields before the status, if the compression is not looked at. -/
theorem exists_serverHelloHead (length : bytes.length = 30) :
    ∃ protocolVersion capabilities compression limit id,
      bytes = serverHelloHead protocolVersion capabilities compression limit id := by
  obtain ⟨protocolVersion, fields, rfl⟩ :=
    List.exists_cons_of_length_pos (by omega : 0 < bytes.length)
  rw [List.length_cons] at length
  obtain ⟨front, fields, rfl, wide⟩ := exists_split (by omega : 8 ≤ fields.length)
  obtain ⟨capabilities, rfl⟩ := exists_u64Bytes wide
  rw [List.length_append, wide] at length
  obtain ⟨compression, fields, rfl⟩ := List.exists_cons_of_length_pos (by omega : 0 < fields.length)
  rw [List.length_cons] at length
  obtain ⟨front, fields, rfl, wide⟩ := exists_split (by omega : 4 ≤ fields.length)
  obtain ⟨limit, rfl⟩ := exists_u32Bytes wide
  rw [List.length_append, wide] at length
  obtain ⟨id, rfl⟩ := exists_uuid (by omega : fields.length = 16)
  exact ⟨protocolVersion, capabilities, compression, limit, id, rfl⟩

theorem getElem?_serverHelloHead {compression : UInt8} {id : Uuid} :
    (serverHelloHead protocolVersion capabilities compression limit id)[9]? = some compression := by
  rw [serverHelloHead, List.getElem?_cons_succ, List.getElem?_append_right (length_u64Bytes _).le,
    length_u64Bytes]
  rfl

theorem compressionFromU8_ok_iff :
    (∃ compression, compressionFromU8 value = .ok compression) ↔ value = 0 ∨ value = 1 := by
  simp only [compressionFromU8_eq_ok]
  constructor
  · rintro ⟨_ | _, rfl⟩
    · exact .inl rfl
    · exact .inr rfl
  · rintro (rfl | rfl)
    · exact ⟨.none, rfl⟩
    · exact ⟨.zstd, rfl⟩

section Head

variable {kind protocolVersion compression : UInt8} {capabilities : UInt64} {limit : UInt32}
  {id : Uuid}

/-- If the kind and the compression are right, nothing is left for the status. -/
theorem readServerHello_head :
    readServerHello (kind :: serverHelloHead protocolVersion capabilities compression limit id) =
        .error .overread ↔
      kind = serverHello ∧ (compression = 0 ∨ compression = 1) := by
  have long : 31 ≤ (kind :: serverHelloHead protocolVersion capabilities compression limit
      id).length := by
    rw [List.length_cons, length_serverHelloHead]
  rw [readServerHello, bind_of_ok (require_of_le long), bind_of_ok (byte_eq_ok.mpr rfl)]
  by_cases hello : kind = serverHello
  case neg =>
    rw [if_pos hello]
    exact ⟨nofun, fun right => absurd right.1 hello⟩
  rw [if_neg (not_not.mpr hello), serverHelloHead, bind_of_ok (byte_eq_ok.mpr rfl),
    bind_of_ok (readU64_eq_ok.mpr rfl), ← compressionFromU8_ok_iff]
  simp only [hello, true_and]
  cases mode : compressionFromU8 compression with
  | error err =>
    rw [bind_apply, readCompression, bind_of_ok (byte_eq_ok.mpr rfl), mode]
    exact ⟨nofun, nofun⟩
  | ok found =>
    rw [compressionFromU8_eq_ok.mp mode, bind_of_ok (readCompression_eq_ok.mpr rfl),
      bind_of_ok (FrameHeader.readU32_eq_ok.mpr rfl),
      bind_of_ok (readUuid_eq_ok.mpr (List.append_nil _).symm)]
    exact ⟨fun _ => ⟨found, rfl⟩, fun _ => rfl⟩

end Head

theorem decodeServerHello_eq_overread :
    decodeServerHello bytes = .error .overread ↔ StopsBeforeStatus bytes := by
  rw [decodeServerHello, decodeWhole_eq_overread]
  rcases lt_trichotomy bytes.length 31 with short | length | long
  · rw [readServerHello, bind_apply, require, if_pos short]
    exact ⟨by rintro ⟨⟩, fun stops => absurd stops.1 short.ne⟩
  · obtain ⟨kind, fields, rfl⟩ := List.exists_cons_of_length_pos (by omega : 0 < bytes.length)
    obtain ⟨protocolVersion, capabilities, compression, limit, id, rfl⟩ :=
      exists_serverHelloHead (Nat.succ.inj length)
    rw [readServerHello_head, StopsBeforeStatus, List.getElem?_cons_succ, getElem?_serverHelloHead]
    simp only [length, true_and, List.getElem?_cons_zero, Option.some.injEq]
  · exact ⟨fun overran => absurd overran (safe_readServerHello bytes long),
      fun stops => absurd stops.1 long.ne'⟩

/-- **Hellos decode safely, but for one length**: the server's is read behind its end exactly if
it stops right before its status. What fits its length fields is decoded from its encoding. -/
theorem hello_decoding_iff (bytes : Bytes) (client : ClientHello) (server : ServerHello) :
    decodeClientHello bytes ≠ .error .overread ∧
      (decodeServerHello bytes ≠ .error .overread ↔ ¬ StopsBeforeStatus bytes) ∧
      (client.Fits → ∃ written, encodeClientHello client = .ok written ∧
        decodeClientHello written = .ok client) ∧
      (server.Fits → ∃ written, encodeServerHello server = .ok written ∧
        decodeServerHello written = .ok server) := by
  refine ⟨fun overran => ?_, not_congr decodeServerHello_eq_overread, clientHello_round_trip,
    serverHello_round_trip⟩
  exact safe_readClientHello bytes (Nat.zero_le _) (decodeWhole_eq_overread.mp overran)

/-- The kind byte of a server hello and thirty zeros. -/
theorem short_server_hello_overread :
    ¬ ∀ bytes, decodeServerHello bytes ≠ .error .overread := by
  intro safe
  exact safe (serverHello :: List.replicate 30 0) (by decide)

end Vaylix

import Vaylix.Engine.Backup
import Vaylix.Server.AuditChain

/-!
# Broken lines

What JSON says about a line that was cut or glued to another one, and a small encoding
with these properties for runs on concrete bytes: the fields of a line are lists of
numbers, written in unary between braces.
-/

namespace Vaylix

/-- No beginning of an object is JSON, whatever follows it, and no text goes on behind one. -/
class AuditJson extends AuditCodec where
  torn : ∀ (event : ChainedAuditEvent) (written : Nat), 0 < written →
    written < (encodeEvent event).length →
      ∀ parsed, parseLine ((encodeEvent event).take written) ≠ .ok parsed
  torn_append : ∀ (event next : ChainedAuditEvent) (written : Nat), 0 < written →
    written < (encodeEvent event).length →
      ∀ parsed, parseLine ((encodeEvent event).take written ++ encodeEvent next) ≠ .ok parsed
  joined : ∀ (text : List UInt8) (event next : ChainedAuditEvent), parseLine text = .ok event →
    ∀ parsed, parseLine (text ++ encodeEvent next) ≠ .ok parsed

namespace SampleAudit

open SampleBytes SampleBackup

def optionCodes : Option String → List Nat
  | none => []
  | some text => 0 :: textCodes text

def codesOption : List Nat → Option String
  | [] => none
  | _ :: codes => some (codesText codes)

theorem codesOption_optionCodes (text : Option String) : codesOption (optionCodes text) = text := by
  cases text with
  | none => rfl
  | some text => rw [optionCodes, codesOption, codesText_textCodes]

def pairFields (pairs : List (String × String)) : List (List Nat) :=
  pairs.flatMap fun pair => [textCodes pair.1, textCodes pair.2]

def fieldPairs : List (List Nat) → List (String × String)
  | key :: value :: rest => (codesText key, codesText value) :: fieldPairs rest
  | _ => []

theorem fieldPairs_pairFields (pairs : List (String × String)) :
    fieldPairs (pairFields pairs) = pairs := by
  induction pairs with
  | nil => rfl
  | cons pair rest ih =>
    rw [pairFields, List.flatMap_cons]
    rw [pairFields] at ih
    simp only [List.cons_append, List.nil_append, fieldPairs, codesText_textCodes, ih]

theorem ofList_toList (details : Std.ExtTreeMap String String compare) :
    Std.ExtTreeMap.ofList details.toList compare = details := by
  refine Std.ExtTreeMap.ext_getElem? fun key => ?_
  cases held : details[key]? with
  | some value =>
    exact Std.ExtTreeMap.getElem?_ofList_of_mem Std.ReflCmp.compare_self
      Std.ExtTreeMap.distinct_keys_toList
      (Std.ExtTreeMap.mem_toList_iff_getElem?_eq_some.mpr held)
  | none =>
    refine Std.ExtTreeMap.getElem?_ofList_of_contains_eq_false ?_
    rw [Std.ExtTreeMap.map_fst_toList_eq_keys, Std.ExtTreeMap.contains_keys,
      Std.ExtTreeMap.contains_eq_isSome_getElem?, held]
    rfl

def eventFields (event : AuditEvent) : List (List Nat) :=
  [event.timestampMs, event.connectionId, event.latencyMs] :: optionCodes event.peer ::
    optionCodes event.username :: textCodes event.requestId :: textCodes event.opcode ::
    textCodes event.status :: optionCodes event.errorCode :: textCodes event.eventType ::
    pairFields event.details.toList

def fieldsEvent : List (List Nat) → Option AuditEvent
  | [timestampMs, connectionId, latencyMs] :: peer :: username :: requestId :: opcode ::
      status :: errorCode :: eventType :: details =>
    some ⟨timestampMs, connectionId, codesOption peer, codesOption username,
      codesText requestId, codesText opcode, codesText status, codesOption errorCode, latencyMs,
      codesText eventType, .ofList (fieldPairs details) compare⟩
  | _ => none

theorem fieldsEvent_eventFields (event : AuditEvent) :
    fieldsEvent (eventFields event) = some event := by
  simp only [fieldsEvent, eventFields, codesOption_optionCodes, codesText_textCodes,
    fieldPairs_pairFields, ofList_toList]

def payloadFields (payload : HashPayload) : List (List Nat) :=
  [payload.auditVersion, payload.sequence] :: textCodes payload.previousHash ::
    textCodes payload.hashAlgorithm :: eventFields payload.event

def fieldsPayload : List (List Nat) → Option HashPayload
  | [auditVersion, sequence] :: previousHash :: hashAlgorithm :: fields =>
    (fieldsEvent fields).map fun event =>
      ⟨auditVersion, sequence, codesText previousHash, codesText hashAlgorithm, event⟩
  | _ => none

theorem fieldsPayload_payloadFields (payload : HashPayload) :
    fieldsPayload (payloadFields payload) = some payload := by
  simp only [fieldsPayload, payloadFields, fieldsEvent_eventFields, codesText_textCodes,
    Option.map_some]

def chainedFields (event : ChainedAuditEvent) : List (List Nat) :=
  textCodes event.eventHash :: payloadFields
    ⟨event.auditVersion, event.sequence, event.previousHash, event.hashAlgorithm, event.event⟩

def fieldsChained : List (List Nat) → Option ChainedAuditEvent
  | eventHash :: fields =>
    (fieldsPayload fields).map fun payload =>
      ⟨payload.auditVersion, payload.sequence, payload.previousHash, codesText eventHash,
        payload.hashAlgorithm, payload.event⟩
  | _ => none

theorem fieldsChained_chainedFields (event : ChainedAuditEvent) :
    fieldsChained (chainedFields event) = some event := by
  simp only [fieldsChained, chainedFields, fieldsPayload_payloadFields, codesText_textCodes,
    Option.map_some]

def takeFields : Nat → List Nat → List (List Nat)
  | 0, _ => []
  | count + 1, codes =>
    match takeCounted codes with
    | none => []
    | some (field, rest) => field :: takeFields count rest

def fieldBytes (fields : List (List Nat)) : List UInt8 :=
  toBytes (fields.length :: fields.flatMap counted)

def bytesFields (bytes : List UInt8) : List (List Nat) :=
  match fromBytes 0 bytes with
  | [] => []
  | count :: codes => takeFields count codes

theorem takeFields_flatMap (fields : List (List Nat)) :
    takeFields fields.length (fields.flatMap counted) = fields := by
  induction fields with
  | nil => rfl
  | cons field rest ih =>
    rw [List.length_cons, List.flatMap_cons, takeFields, takeCounted_counted]
    simp only [ih]

theorem bytesFields_fieldBytes (fields : List (List Nat)) :
    bytesFields (fieldBytes fields) = fields := by
  rw [bytesFields, fieldBytes, fromBytes_toBytes]
  exact takeFields_flatMap fields

theorem toBytes_le {codes : List Nat} {byte : UInt8} (member : byte ∈ toBytes codes) :
    byte ≤ 1 := by
  obtain ⟨code, -, inside⟩ := List.mem_flatMap.mp member
  rcases List.mem_append.mp inside with repeated | last
  · rw [(List.mem_replicate.mp repeated).2]
    decide
  · rw [List.mem_singleton.mp last]
    decide

def unframe : List UInt8 → Option (List UInt8)
  | [] => none
  | first :: rest =>
    if first = 123 ∧ rest.getLast? = some closingBrace ∧ rest.dropLast.all (· ≤ 1) then
      some rest.dropLast
    else none

def frame (bits : List UInt8) : List UInt8 := 123 :: (bits ++ [closingBrace])

theorem unframe_eq_some_iff {line bits : List UInt8} :
    unframe line = some bits ↔ line = frame bits ∧ ∀ byte ∈ bits, byte ≤ 1 := by
  constructor
  · intro framed
    cases line with
    | nil => cases framed
    | cons first rest =>
      simp only [unframe, Option.ite_none_right_eq_some, Option.some.injEq] at framed
      obtain ⟨⟨rfl, last, small⟩, rfl⟩ := framed
      obtain ⟨front, rfl⟩ := List.getLast?_eq_some_iff.mp last
      rw [List.dropLast_concat] at small ⊢
      exact ⟨rfl, by simpa using small⟩
  · rintro ⟨rfl, small⟩
    simp only [unframe, frame, List.getLast?_concat, List.dropLast_concat, true_and]
    exact if_pos (by simpa using small)

def parseLine (line : List UInt8) : Except LineError ChainedAuditEvent :=
  if line.isEmpty then .error .blank
  else
    match unframe line with
    | none => .error (.malformed "EOF while parsing an object")
    | some bits =>
      match fieldsChained (bytesFields bits) with
      | none => .error (.malformed "missing field")
      | some event => .ok event

theorem unframe_of_parseLine {line : List UInt8} {event : ChainedAuditEvent}
    (parsed : parseLine line = .ok event) : ∃ bits, unframe line = some bits := by
  unfold parseLine at parsed
  split at parsed
  · cases parsed
  · split at parsed
    · cases parsed
    · exact ⟨_, ‹_›⟩

def encodeEvent (event : ChainedAuditEvent) : List UInt8 := frame (fieldBytes (chainedFields event))

theorem mem_fieldBytes_le {fields : List (List Nat)} : ∀ byte ∈ fieldBytes fields, byte ≤ 1 :=
  fun _ member => toBytes_le member

theorem unframe_brace {front back : List UInt8} {brace : UInt8} (large : 1 < brace) :
    unframe (123 :: (front ++ brace :: (back ++ [closingBrace]))) = none := by
  cases found : unframe _ with
  | none => rfl
  | some bits =>
    obtain ⟨same, small⟩ := unframe_eq_some_iff.mp found
    have inner : front ++ brace :: back = bits := by
      rw [frame, List.cons.injEq] at same
      have ends := same.2
      rw [← List.cons_append, ← List.append_assoc] at ends
      exact List.append_cancel_right ends
    exact absurd (small brace (by rw [← inner]; simp)) (UInt8.not_le.mpr large)

theorem parse_none {line : List UInt8} (broken : unframe line = none) (event : ChainedAuditEvent) :
    parseLine line ≠ .ok event := by
  intro parsed
  obtain ⟨bits, framed⟩ := unframe_of_parseLine parsed
  rw [broken] at framed
  cases framed

theorem take_encodeEvent {event : ChainedAuditEvent} {written : Nat} (begun : 0 < written)
    (notAll : written < (encodeEvent event).length) :
    ∃ front : List UInt8, (encodeEvent event).take written = 123 :: front ∧
      ∀ byte ∈ front, byte ≤ 1 := by
  obtain ⟨written, rfl⟩ := Nat.exists_eq_succ_of_ne_zero (by omega : written ≠ 0)
  refine ⟨(fieldBytes (chainedFields event)).take written, ?_, fun byte member =>
    mem_fieldBytes_le byte (List.mem_of_mem_take member)⟩
  simp only [encodeEvent, frame, List.length_cons, List.length_append, List.length_nil] at notAll
  rw [encodeEvent, frame, List.take_succ_cons, List.take_append_of_le_length (by omega)]

/-- The worked encoding, for any digest. -/
@[reducible] def auditJson (digest : List UInt8 → String) : AuditJson where
  encodePayload payload := fieldBytes (payloadFields payload)
  decodePayload bytes := fieldsPayload (bytesFields bytes)
  digest := digest
  encodeEvent := encodeEvent
  parseLine := parseLine
  decode_encodePayload payload := by
    rw [bytesFields_fieldBytes, fieldsPayload_payloadFields]
  parse_encode event := by
    have framed : unframe (encodeEvent event) = some (fieldBytes (chainedFields event)) :=
      unframe_eq_some_iff.mpr ⟨rfl, mem_fieldBytes_le⟩
    rw [parseLine, framed, if_neg (by simp [encodeEvent, frame])]
    simp only [bytesFields_fieldBytes, fieldsChained_chainedFields]
  newline_not_mem event member := by
    rw [encodeEvent, frame, List.mem_cons, List.mem_append, List.mem_singleton] at member
    rcases member with same | inside | same
    · exact absurd same (by decide)
    · exact absurd (mem_fieldBytes_le _ inside) (by decide)
    · exact absurd same (by decide)
  getLast_encode event := by
    rw [encodeEvent, frame, ← List.cons_append, List.getLast?_concat]
  torn event written begun notAll := by
    obtain ⟨front, torn, small⟩ := take_encodeEvent begun notAll
    refine parse_none ?_
    rw [torn]
    refine if_neg fun framed => ?_
    have last := small _ (List.mem_of_getLast? framed.2.1)
    exact absurd last (by decide)
  torn_append event next written begun notAll := by
    obtain ⟨front, torn, -⟩ := take_encodeEvent begun notAll
    refine parse_none ?_
    rw [torn]
    exact unframe_brace (by decide)
  joined text event next parsed := by
    obtain ⟨bits, framed⟩ := unframe_of_parseLine parsed
    obtain ⟨rfl, -⟩ := unframe_eq_some_iff.mp framed
    refine parse_none ?_
    have glued : frame bits ++ encodeEvent next = 123 :: (bits ++ closingBrace ::
        ((123 :: fieldBytes (chainedFields next)) ++ [closingBrace])) := by
      simp [encodeEvent, frame]
    rw [glued]
    exact unframe_brace (by decide)

/-- The worked encoding with a digest that keeps everything. -/
scoped instance keepingJson : AuditJson := auditJson encodeBytes

theorem keeping_injective (left right : HashPayload)
    (same : AuditCodec.digest (AuditCodec.encodePayload left) =
      AuditCodec.digest (AuditCodec.encodePayload right)) :
    AuditCodec.encodePayload left = AuditCodec.encodePayload right := by
  have decoded : decodeBytes (encodeBytes _) = decodeBytes (encodeBytes _) :=
    congrArg decodeBytes same
  rw [decodeBytes_encodeBytes, decodeBytes_encodeBytes] at decoded
  exact Option.some.inj decoded

def command : AuditEvent :=
  ⟨1, 2, some "127.0.0.1:1", some "alice", "id", "SET", "ok", none, 3, "command", ∅⟩

end SampleAudit

end Vaylix

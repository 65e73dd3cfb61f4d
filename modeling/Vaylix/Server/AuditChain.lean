import Std.Data.ExtTreeMap.Lemmas
import Vaylix.Lib.HashChain
import Vaylix.Lib.Lines

/-!
# The audit chain

Every audited command is a JSON line with its number, the hash of the line before it and its
own hash. A line passes exactly if it is the one `record` would have written there. As long as
hashing has no collisions, the chain state determines the events.
-/

namespace Vaylix

open HashChain Lines

structure AuditEvent where
  timestampMs : Nat
  connectionId : Nat
  peer : Option String
  username : Option String
  requestId : String
  opcode : String
  status : String
  errorCode : Option String
  latencyMs : Nat
  eventType : String
  details : Std.ExtTreeMap String String compare

structure HashPayload where
  auditVersion : Nat
  sequence : Nat
  previousHash : String
  hashAlgorithm : String
  event : AuditEvent

/-- One line of the log; in JSON the fields of the event stand beside the others. -/
structure ChainedAuditEvent where
  auditVersion : Nat
  sequence : Nat
  previousHash : String
  eventHash : String
  hashAlgorithm : String
  event : AuditEvent

/-- Why a line is no event: it is not UTF-8, it is blank, or it is not the JSON of one. -/
inductive LineError where
  | notUtf8
  | blank
  | malformed (detail : String)
deriving DecidableEq, Repr

def newline : UInt8 := 10

def carriageReturn : UInt8 := 13

def closingBrace : UInt8 := 125

/-- The JSON texts and the digest. A line is read as UTF-8, refused if it is blank after `trim`,
and parsed. -/
class AuditCodec where
  encodePayload : HashPayload → List UInt8
  decodePayload : List UInt8 → Option HashPayload
  /-- SHA-256 in hexadecimal. -/
  digest : List UInt8 → String
  encodeEvent : ChainedAuditEvent → List UInt8
  parseLine : List UInt8 → Except LineError ChainedAuditEvent
  decode_encodePayload : ∀ payload, decodePayload (encodePayload payload) = some payload
  parse_encode : ∀ event, parseLine (encodeEvent event) = .ok event
  -- Control characters are escaped.
  newline_not_mem : ∀ event, newline ∉ encodeEvent event
  getLast_encode : ∀ event, (encodeEvent event).getLast? = some closingBrace

def auditVersion : Nat := 1

def hashAlgorithm : String := "sha256"

def genesisHash : String := "0000000000000000000000000000000000000000000000000000000000000000"

abbrev AuditChainState := Head String

def genesis : AuditChainState := ⟨1, genesisHash⟩

inductive AuditError where
  | notUtf8
  | chainVerification (message : String)
deriving DecidableEq, Repr

def chainError (line : Nat) (message : String) : AuditError :=
  .chainVerification s!"line {line}: {message}"

section Chain

variable [AuditCodec]

def computeHash (sequence : Nat) (previousHash : String) (event : AuditEvent) : String :=
  AuditCodec.digest
    (AuditCodec.encodePayload ⟨auditVersion, sequence, previousHash, hashAlgorithm, event⟩)

def chainedEvent (chain : AuditChainState) (event : AuditEvent) : ChainedAuditEvent :=
  ⟨auditVersion, chain.next, chain.previous, computeHash chain.next chain.previous event,
    hashAlgorithm, event⟩

def checkEvent (chain : AuditChainState) (event : ChainedAuditEvent) :
    Except String AuditChainState :=
  if event.auditVersion ≠ auditVersion then
    .error s!"unsupported audit version {event.auditVersion}"
  else if event.hashAlgorithm ≠ hashAlgorithm then
    .error s!"unsupported hash algorithm {event.hashAlgorithm}"
  else if event.sequence ≠ chain.next then
    .error s!"expected sequence {chain.next}, found {event.sequence}"
  else if event.previousHash ≠ chain.previous then
    .error "previous hash mismatch"
  else if event.eventHash ≠ computeHash event.sequence event.previousHash event.event then
    .error "event hash mismatch"
  else .ok ⟨chain.next + 1, event.eventHash⟩

variable {chain next : AuditChainState}

theorem checkEvent_ok_iff {event : ChainedAuditEvent} :
    checkEvent chain event = .ok next ↔
      event = chainedEvent chain event.event ∧ next = advance computeHash chain event.event := by
  obtain ⟨version, sequence, previousHash, eventHash, algorithm, details⟩ := event
  constructor
  · intro accepted
    simp only [checkEvent] at accepted
    split_ifs at accepted with version algorithm sequence previous hash
    simp only [not_not] at version algorithm sequence previous hash
    subst version algorithm sequence previous hash
    exact ⟨rfl, (Except.ok.inj accepted).symm⟩
  · rintro ⟨same, rfl⟩
    rw [same]
    simp [checkEvent, chainedEvent, advance]

def lineText (line : Line UInt8) : List UInt8 :=
  if line.terminated ∧ line.text.getLast? = some carriageReturn then line.text.dropLast
  else line.text

def verifyLine (lineNumber : Nat) (chain : AuditChainState) (line : Line UInt8) :
    Except AuditError AuditChainState :=
  match AuditCodec.parseLine (lineText line) with
  | .error .notUtf8 => .error .notUtf8
  | .error .blank => .error (chainError lineNumber "empty audit log line")
  | .error (.malformed detail) => .error (chainError lineNumber detail)
  | .ok event =>
    match checkEvent chain event with
    | .error message => .error (chainError lineNumber message)
    | .ok next => .ok next

def verifyLines (lineNumber : Nat) (chain : AuditChainState) :
    List (Line UInt8) → Except AuditError AuditChainState
  | [] => .ok chain
  | line :: rest =>
    match verifyLine lineNumber chain line with
    | .error err => .error err
    | .ok next => verifyLines (lineNumber + 1) next rest

def verifyContent (content : List UInt8) : Except AuditError AuditChainState :=
  verifyLines 1 genesis (lines newline content)

/-- `verify_existing_chain`; a missing file starts a chain. -/
def verifyExistingChain : Option (List UInt8) → Except AuditError AuditChainState
  | none => .ok genesis
  | some content => verifyContent content

def fileEvents (content : List UInt8) : List AuditEvent :=
  (lines newline content).filterMap fun line =>
    match AuditCodec.parseLine (lineText line) with
    | .ok chained => some chained.event
    | .error _ => none

variable {lineNumber : Nat} {line : Line UInt8}

/-- A line passes exactly if `record` would have written it. -/
theorem verifyLine_ok_iff :
    verifyLine lineNumber chain line = .ok next ↔
      ∃ event, AuditCodec.parseLine (lineText line) = .ok (chainedEvent chain event) ∧
        next = advance computeHash chain event := by
  unfold verifyLine
  cases parsed : AuditCodec.parseLine (lineText line) with
  | error err => cases err <;> simp
  | ok chained =>
    constructor
    · intro verified
      dsimp only at verified
      split at verified
      · cases verified
      · rename_i reached passed
        cases verified
        obtain ⟨same, rfl⟩ := checkEvent_ok_iff.mp passed
        exact ⟨chained.event, congrArg Except.ok same, rfl⟩
    · rintro ⟨event, same, rfl⟩
      cases same
      dsimp only
      rw [checkEvent_ok_iff.mpr ⟨rfl, rfl⟩]
      rfl

theorem verifyLines_append (lineNumber : Nat) (chain : AuditChainState)
    (front back : List (Line UInt8)) :
    verifyLines lineNumber chain (front ++ back) =
      match verifyLines lineNumber chain front with
      | .error err => .error err
      | .ok next => verifyLines (lineNumber + front.length) next back := by
  induction front generalizing lineNumber chain with
  | nil => rfl
  | cons line rest ih =>
    simp only [List.cons_append, verifyLines]
    cases verifyLine lineNumber chain line with
    | error err => rfl
    | ok next =>
      simp only [ih, List.length_cons, Nat.add_assoc, Nat.add_comm 1]

theorem verifyLines_ok {final : AuditChainState} {lines : List (Line UInt8)}
    (verified : verifyLines lineNumber chain lines = .ok final) :
    final = extend computeHash chain (lines.filterMap fun line =>
      match AuditCodec.parseLine (lineText line) with
      | .ok chained => some chained.event
      | .error _ => none) := by
  induction lines generalizing lineNumber chain with
  | nil => exact (Except.ok.inj verified).symm
  | cons line rest ih =>
    rw [verifyLines] at verified
    split at verified
    · cases verified
    · rename_i next passed
      obtain ⟨event, parsed, rfl⟩ := verifyLine_ok_iff.mp passed
      rw [List.filterMap_cons, parsed]
      exact ih verified

variable {content : List UInt8}

theorem verifyContent_ok (verified : verifyContent content = .ok chain) :
    chain = extend computeHash genesis (fileEvents content) :=
  verifyLines_ok verified

theorem collisionFree_computeHash
    (injective : ∀ left right : HashPayload,
      AuditCodec.digest (AuditCodec.encodePayload left) =
        AuditCodec.digest (AuditCodec.encodePayload right) →
      AuditCodec.encodePayload left = AuditCodec.encodePayload right) :
    CollisionFree (computeHash : Nat → String → AuditEvent → String) := by
  intro number number' previous previous' event event' same
  have decoded := congrArg AuditCodec.decodePayload (injective _ _ same)
  rw [AuditCodec.decode_encodePayload, AuditCodec.decode_encodePayload] at decoded
  cases decoded
  exact ⟨rfl, rfl, rfl⟩

def eventLine (chain : AuditChainState) (event : AuditEvent) : List UInt8 :=
  AuditCodec.encodeEvent (chainedEvent chain event) ++ [newline]

theorem encodeEvent_ne_nil (event : ChainedAuditEvent) : AuditCodec.encodeEvent event ≠ [] := by
  intro empty
  have last := AuditCodec.getLast_encode event
  rw [empty] at last
  cases last

theorem lineText_encode (front : List UInt8) (event : ChainedAuditEvent) (terminated : Bool) :
    lineText ⟨front ++ AuditCodec.encodeEvent event, terminated⟩ =
      front ++ AuditCodec.encodeEvent event := by
  refine if_neg fun stripped => ?_
  have last := stripped.2
  rw [List.getLast?_append, AuditCodec.getLast_encode, Option.some_or] at last
  exact absurd last (by decide)

theorem lineText_encodeEvent (event : ChainedAuditEvent) (terminated : Bool) :
    lineText ⟨AuditCodec.encodeEvent event, terminated⟩ = AuditCodec.encodeEvent event :=
  lineText_encode [] event terminated

theorem lines_eventLine (chain : AuditChainState) (event : AuditEvent) :
    lines newline (eventLine chain event) =
      [⟨AuditCodec.encodeEvent (chainedEvent chain event), true⟩] :=
  lines_line (AuditCodec.newline_not_mem _)

theorem verifyContent_append (verified : verifyContent content = .ok chain)
    (terminated : Terminated newline content) (rest : List UInt8) :
    verifyContent (content ++ rest) =
      verifyLines (1 + (lines newline content).length) chain (lines newline rest) := by
  unfold verifyContent at verified ⊢
  rw [lines_append terminated, verifyLines_append, verified]

theorem verifyLines_singleton_ok_iff :
    verifyLines lineNumber chain [line] = .ok next ↔
      verifyLine lineNumber chain line = .ok next := by
  simp only [verifyLines]
  cases verifyLine lineNumber chain line <;> rfl

/-- **A recorded line is accepted** behind an accepted file of whole lines. -/
theorem verifyContent_eventLine (verified : verifyContent content = .ok chain)
    (terminated : Terminated newline content) (event : AuditEvent) :
    verifyContent (content ++ eventLine chain event) = .ok (advance computeHash chain event) := by
  rw [verifyContent_append verified terminated, lines_eventLine, verifyLines_singleton_ok_iff,
    verifyLine_ok_iff]
  refine ⟨event, ?_, rfl⟩
  rw [lineText_encodeEvent, AuditCodec.parse_encode]

theorem terminated_eventLine (content : List UInt8) (chain : AuditChainState)
    (event : AuditEvent) : Terminated newline (content ++ eventLine chain event) := by
  rw [eventLine, ← List.append_assoc]
  exact terminated_concat _

end Chain

end Vaylix

import Mathlib.Algebra.Order.BigOperators.Group.List
import Mathlib.Data.Nat.Log
import Vaylix.Server.FollowerCommit
import Vaylix.Server.Session
import Vaylix.Transport.Stream

/-!
# The size of an append

An append is held to the limit for a payload, and has to fit into a frame. In its JSON a byte
of a value becomes a decimal number and a comma. A write that was accepted may therefore not
get through, and is sent again for ever.
-/

namespace Vaylix

/-! ### The length of compact JSON -/

namespace JsonLen

def number (n : Nat) : Nat := Nat.log 10 n + 1

def integer (n : Int) : Nat := number n.natAbs + if n < 0 then 1 else 0

def nullable (n : Option Nat) : Nat := (n.map number).getD 4

def char (c : Char) : Nat :=
  if c ∈ ['"', '\\', '\n', '\r', '\t', '\x08', '\x0c'] then 2
  else if c.toNat < 32 then 6 else c.utf8Size

def text (s : String) : Nat := (s.toList.map char).sum + 2

/-- Brackets, and commas between the elements. -/
def array (elements : List Nat) : Nat := elements.sum + (elements.length - 1) + 2

def object (fields : List (String × Nat)) : Nat :=
  array (fields.map fun field => field.1.utf8ByteSize + 3 + field.2)

def bytes (value : Bytes) : Nat := array (value.map fun byte => number byte.toNat)

theorem number_le {n m : Nat} (bound : n ≤ m) : number n ≤ number m :=
  Nat.add_le_add_right (Nat.log_mono_right bound) 1

theorem array_le {elements : List Nat} {bound : Nat} (each : ∀ n ∈ elements, n ≤ bound) :
    array elements ≤ elements.length * (bound + 1) + 2 := by
  have sum := List.sum_le_card_nsmul elements bound each
  rw [nsmul_eq_mul, Nat.cast_id] at sum
  rw [array, Nat.mul_add]
  omega

end JsonLen

open JsonLen

/-- An operation with its name as the tag. -/
def WalOperation.jsonLen : WalOperation → Nat
  | .set key value version => object [("Set",
      object [("key", text key), ("value", bytes value), ("version", number version)])]
  | .delete key => object [("Delete", object [("key", text key)])]
  | .expire key expiresAtMs =>
    object [("Expire", object [("key", text key), ("expires_at_ms", number expiresAtMs)])]
  | .persist key => object [("Persist", object [("key", text key)])]
  | .clear => text "Clear"
  | .checkInteger key delta =>
    object [("CheckInteger", object [("key", text key), ("delta", integer delta)])]

def WalEntry.jsonLen (entry : WalEntry) : Nat :=
  object [("sequence", number entry.sequence), ("term", number entry.term),
    ("created_at_ms", number entry.createdAtMs),
    ("operations", array (entry.operations.map WalOperation.jsonLen))]

def ClusterMember.jsonLen (member : ClusterMember) : Nat :=
  object [("node_id", text member.nodeId), ("advertise_addr", text member.advertiseAddr),
    ("voter", if member.voter then 4 else 5)]

namespace AppendEntriesRequest

def jsonLen (request : AppendEntriesRequest) : Nat :=
  object [("term", number request.term), ("leader_node_id", text request.leaderNodeId),
    ("leader_addr", text request.leaderAddr), ("commit_sequence", number request.commitSequence),
    ("leader_frontier_sequence", number request.leaderFrontierSequence),
    ("prev_sequence", number request.prevSequence), ("prev_term", nullable request.prevTerm),
    ("prev_entry_checksum", nullable (request.prevEntryChecksum.map UInt32.toNat)),
    ("entries", array (request.entries.map WalEntry.jsonLen)),
    ("members", array (request.members.map ClusterMember.jsonLen))]

/-- The numbers are those of 64-bit fields. -/
structure Typed (request : AppendEntriesRequest) : Prop where
  term : request.term ≤ u64Max
  commitSequence : request.commitSequence ≤ u64Max
  leaderFrontierSequence : request.leaderFrontierSequence ≤ u64Max
  prevSequence : request.prevSequence ≤ u64Max
  prevTerm : ∀ term ∈ request.prevTerm, term ≤ u64Max

end AppendEntriesRequest

/-! ### Sending an append -/

class AppendJson where
  toVec : AppendEntriesRequest → Bytes
  length_toVec : ∀ request, (toVec request).length = request.jsonLen

def validateRequest (maxRequestPayloadBytes : Nat) (request : Request) : Except ServerError Unit :=
  if maxRequestPayloadBytes < request.payload.length then .error .quotaExceeded else .ok ()

def AppendEntriesRequest.rpc [AppendJson] (requestId : Uuid) (request : AppendEntriesRequest) :
    Request :=
  .new requestId .replicationAppend (AppendJson.toVec request)

/-- A request fits into a frame, and the receiver does not refuse it. -/
def Request.Arrives (maxRequestPayloadBytes : Nat) (request : Request) : Prop :=
  (encodeRequestBody request).length ≤ maxFrameLen ∧
    validateRequest maxRequestPayloadBytes request = .ok ()

def Node.envelope (node : Node) : Nat :=
  AppendEntriesRequest.jsonLen
    { term := u64Max
      leaderNodeId := node.config.nodeId
      leaderAddr := (node.replication.localAdvertiseAddr node.config).getD ""
      commitSequence := u64Max
      leaderFrontierSequence := u64Max
      prevSequence := u64Max
      prevTerm := some u64Max
      prevEntryChecksum := some (.ofNat (2 ^ 32 - 1))
      entries := []
      members := memberList node.replication.members }

/-- **Appends get through** when the batch size leaves room for the largest entries of the log. -/
theorem appends_arrive [Codec] [AppendJson] (node : Node) (logged : node.engine.Logged)
    (target : NodeId) (request : AppendEntriesRequest)
    (built : node.appendRequest target = some request) (typed : request.Typed) (requestId : Uuid)
    (maxRequestPayloadBytes bound : Nat)
    (light : ∀ entry ∈ node.engine.walEntries, entry.jsonLen ≤ bound)
    (payload : node.envelope + node.config.fetchBatchSize * (bound + 1) ≤ maxRequestPayloadBytes)
    (frame : node.envelope + node.config.fetchBatchSize * (bound + 1) + 18 ≤ maxFrameLen) :
    (request.rpc requestId).Arrives maxRequestPayloadBytes := by
  obtain ⟨cached, builds⟩ := Node.builds_of_appendRequest built
  have batch : request.entries.length ≤ node.config.fetchBatchSize :=
    builds.entries ▸ List.length_take_le _ _
  obtain ⟨carried, -⟩ := Node.carriedFrom_of_appendRequest logged built
  have entries : array (request.entries.map WalEntry.jsonLen) ≤
      node.config.fetchBatchSize * (bound + 1) + 2 := by
    refine (array_le (List.forall_mem_map.mpr fun entry inside =>
      light entry (carried.members entry inside))).trans ?_
    rw [List.length_map]
    exact Nat.add_le_add_right (Nat.mul_le_mul_right _ batch) 2
  have prevTerm : nullable request.prevTerm ≤ number u64Max := by
    cases known : request.prevTerm with
    | none => decide
    | some term => exact number_le (typed.prevTerm term known)
  have checksum : nullable (request.prevEntryChecksum.map UInt32.toNat) ≤
      number (UInt32.ofNat (2 ^ 32 - 1)).toNat := by
    cases request.prevEntryChecksum with
    | none => decide
    | some checksum => exact number_le (Nat.le_pred_of_lt checksum.toNat_lt)
  have length : request.jsonLen ≤ node.envelope + node.config.fetchBatchSize * (bound + 1) := by
    have term := number_le typed.term
    have commit := number_le typed.commitSequence
    have frontier := number_le typed.leaderFrontierSequence
    have previous := number_le typed.prevSequence
    simp only [Node.envelope, AppendEntriesRequest.jsonLen, object, builds.leaderNodeId,
      builds.leaderAddr, builds.members]
    simp only [array, List.map_cons, List.map_nil, List.sum_cons, List.sum_nil, List.length_cons,
      List.length_nil, nullable, Option.map_some, Option.getD_some] at entries prevTerm checksum ⊢
    omega
  have size : (request.rpc requestId).payload.length = request.jsonLen :=
    AppendJson.length_toVec request
  refine ⟨?_, if_neg (by omega)⟩
  have body : (encodeRequestBody (request.rpc requestId)).length = 18 + request.jsonLen := by
    simp only [encodeRequestBody, List.length_cons, List.length_append, Vector.length_toList]
    change _ + (0 + (0 + (0 + _))) + 1 + 1 = _
    omega
  omega

section Samples

open Sample

/-- Spaces take the place of the text. -/
instance Sample.appendJson : AppendJson :=
  ⟨fun request => List.replicate request.jsonLen 32, by simp⟩

def Node.executed (leader : Node) (command : Command) : Node :=
  Node.published { leader with
    engine := EngineAction.perform
      (leader.engine.setConsensusTerm leader.replication.currentTerm) (.direct (.still 0) command) }

/-- A value is accepted and executed, and the request that brings it to a follower refused. -/
theorem accepted_write_is_refused :
    let command : Command := .set "k" (List.replicate 100 255) {}
    let leader := voterWith "a" .leader 1 0 []
    (Request.fromCommand (Vector.replicate 16 0) command).toOption.map (validateRequest 640) =
        some (.ok ()) ∧
      ServerGuards.validateCommand ⟨10, 100, 10, 10⟩ command = .ok () ∧
      ((leader.executed command).appendRequest "b").map (fun request =>
        validateRequest 640 (request.rpc (Vector.replicate 16 0))) =
          some (.error .quotaExceeded) := by
  decide +kernel

/-- A leader of three voters with a short entry. -/
theorem appends_arrive_short :
    (AppendEntriesRequest.rpc (Vector.replicate 16 0)
      ⟨1, "a", "a", 0, 1, 0, none, none, [agreedEntry], threeMembers⟩).Arrives 1000 :=
  appends_arrive (voterWith "a" .leader 1 0 [agreedEntry]) (engineWith_logged [agreedEntry]) "b" _
    (by decide +kernel) ⟨by decide, by decide, by decide, by decide, by rintro _ ⟨⟩⟩ _ 1000 150
    (by decide +kernel) (by decide +kernel) (by decide +kernel)

end Samples

end Vaylix

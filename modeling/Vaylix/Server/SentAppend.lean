import Vaylix.Server.FollowerCommit

/-!
# What a leader sends is a part of its log

A follower that agrees with the sender's log up to the previous entry, and that has no other
entry with the identity of a carried one, ends up with the sender's log as far as the request
reaches, and with nothing behind.
-/

namespace Vaylix

open NumberedLog

variable [Codec]

/-- Different entries at one sequence and term have different checksums. -/
def ChecksumsTell (entries : List WalEntry) : Prop :=
  ∀ one ∈ entries, ∀ two ∈ entries, one.sequence = two.sequence → one.term = two.term →
    one.checksum = two.checksum → one = two

instance decidableChecksumsTell (entries : List WalEntry) : Decidable (ChecksumsTell entries) :=
  inferInstanceAs (Decidable (∀ one ∈ entries, ∀ two ∈ entries, _ → _ → _ → _))

/-- A request carries entries of a log, right behind the previous one. -/
structure AppendEntriesRequest.CutFrom (request : AppendEntriesRequest) (log : List WalEntry) :
    Prop where
  entries : request.entries <+: log.drop request.prevSequence
  base : request.baseSequence = request.prevSequence
  numbered : From WalEntry.sequence (request.prevSequence + 1) request.entries
  previous : 0 < request.prevSequence → ∃ entry, log[request.prevSequence - 1]? = some entry ∧
    request.prevTerm = some entry.term ∧ request.prevEntryChecksum = some entry.checksum

namespace AppendEntriesRequest

def lastSequence (request : AppendEntriesRequest) : Nat :=
  request.prevSequence + request.entries.length

namespace CutFrom

variable {request : AppendEntriesRequest} {log more : List WalEntry}

theorem take_lastSequence (cut : request.CutFrom log) :
    log.take request.lastSequence = log.take request.prevSequence ++ request.entries := by
  rw [lastSequence, List.take_add, ← List.prefix_iff_eq_take.mp cut.entries]

end CutFrom

end AppendEntriesRequest

namespace Node

theorem target_of_appendRequest {node : Node} {target : NodeId} {request : AppendEntriesRequest}
    (built : node.appendRequest target = some request) : target ≠ node.config.nodeId := by
  obtain ⟨cached, builds⟩ := builds_of_appendRequest built
  obtain ⟨member, rfl, planned⟩ := builds.planned
  obtain ⟨listed, inside, same⟩ := List.mem_map.mp planned
  obtain ⟨-, other⟩ := List.mem_filter.mp inside
  obtain ⟨rfl, -⟩ := Prod.mk.inj same
  exact of_decide_eq_true other

theorem cachedEntries_eq {node : Node} (whole : node.engine.Whole) {cached : List WalEntry}
    (read : node.cachedEntries = .ok cached) {member : ClusterMember} {prevSequence : Nat}
    (planned : (member, prevSequence) ∈ node.peerPlans) :
    ∃ start size, start ≤ prevSequence - 1 ∧
      cached = (node.engine.walEntries.drop start).take size := by
  unfold cachedEntries at read
  obtain ⟨size, -, since⟩ := whole.walEntriesSince_eq
    (((node.peerPlans.map Prod.snd).min?).getD node.engine.lastAppliedSequence - 1)
    (max (node.engine.lastAppliedSequence -
      (((node.peerPlans.map Prod.snd).min?).getD node.engine.lastAppliedSequence - 1) +
        node.config.fetchBatchSize) node.config.fetchBatchSize)
  rw [since] at read
  cases read
  refine ⟨_, size, Nat.sub_le_sub_right ?_ 1, rfl⟩
  have listed : prevSequence ∈ node.peerPlans.map Prod.snd := List.mem_map.mpr ⟨_, planned, rfl⟩
  cases least : (node.peerPlans.map Prod.snd).min? with
  | none =>
    rw [List.min?_eq_none_iff.mp least] at listed
    cases listed
  | some bound => exact (List.min?_eq_some_iff.mp least).2 prevSequence listed

/-- **Every request of a leader with its whole log is cut from that log.** -/
theorem cutFrom_of_appendRequest {leader : Node} (whole : leader.engine.Whole) {target : NodeId}
    {request : AppendEntriesRequest} (built : leader.appendRequest target = some request) :
    request.CutFrom leader.engine.walEntries := by
  have numbered := whole.numbered
  obtain ⟨cached, builds⟩ := builds_of_appendRequest built
  obtain ⟨member, -, planned⟩ := builds.planned
  obtain ⟨start, size, early, rfl⟩ := cachedEntries_eq whole builds.read planned
  have previous : 0 < request.prevSequence →
      request.prevSequence ≤ leader.engine.walEntries.length ∧
      ∃ entry, leader.engine.walEntries[request.prevSequence - 1]? = some entry ∧
        request.prevTerm = some entry.term ∧ request.prevEntryChecksum = some entry.checksum := by
    intro positive
    obtain ⟨entry, found, identity⟩ := builds.previous positive
    have member := List.mem_of_mem_drop (List.mem_of_mem_take (List.mem_of_find?_eq_some found))
    have named : entry.sequence = request.prevSequence := by simpa using List.find?_some found
    have bounds := numbered.mem_bounds member
    have here : leader.engine.walEntries[request.prevSequence - 1]? = some entry := by
      rw [← whole.entryAt_eq positive]
      exact whole.logged.entryAt_eq_some_iff.mpr ⟨member, named⟩
    exact ⟨by omega, entry, here, identity⟩
  have inside : request.prevSequence ≤ leader.engine.walEntries.length := by
    rcases Nat.eq_zero_or_pos request.prevSequence with zero | positive
    · omega
    · exact (previous positive).1
  have front : request.entries <+: leader.engine.walEntries.drop request.prevSequence := by
    have inOrder := (from_drop numbered (k := start) (by omega)).take size
    rw [builds.entries, inOrder.filter_gt, List.drop_take, List.drop_drop]
    refine (List.take_prefix _ _).trans ((List.take_prefix _ _).trans ?_)
    rw [show start + (request.prevSequence + 1 - (1 + start)) = request.prevSequence by omega]
  have inOrder : From WalEntry.sequence (request.prevSequence + 1) request.entries := by
    rw [List.prefix_iff_eq_take.mp front, Nat.add_comm]
    exact (from_drop numbered inside).take _
  refine ⟨front, ?_, inOrder, fun positive => (previous positive).2⟩
  cases carried : request.entries with
  | nil => simp [AppendEntriesRequest.baseSequence, carried]
  | cons entry rest =>
    rw [carried] at inOrder
    simp [AppendEntriesRequest.baseSequence, carried, inOrder.1]

end Node

namespace Engine

/-- **What a request leaves that is taken over**: the sender's log as far as it reaches. -/
theorem TookOver.walEntries_eq {engine next : Engine} {request : AppendEntriesRequest}
    {log : List WalEntry} (took : engine.TookOver request.baseSequence request.entries next)
    (whole : engine.Whole) (cut : request.CutFrom log)
    (recognizes : engine.Recognizes request.entries)
    (inside : request.prevSequence ≤ engine.walEntries.length)
    (agree : engine.walEntries.take request.prevSequence = log.take request.prevSequence) :
    next.walEntries = log.take request.lastSequence := by
  rw [cut.base] at took
  have replaced := took.suffixReplaced cut.numbered recognizes
  rw [(whole.replace replaced inside).2, agree, cut.take_lastSequence]

end Engine

section Identities

variable {node : Node} {request : AppendEntriesRequest} {log known : List WalEntry}

theorem ChecksumsTell.recognizes {engine : Engine} (tells : ChecksumsTell known)
    (own : engine.walEntries ⊆ known) (carried : log ⊆ known) : engine.Recognizes log :=
  fun mine inside entry member => tells mine (own inside) entry (carried member)

theorem ChecksumsTell.previous_eq (tells : ChecksumsTell known) (whole : node.engine.Whole)
    (own : node.engine.walEntries ⊆ known) (sent : log ⊆ known)
    (numbered : From WalEntry.sequence 1 log) {nowMs : Nat} (takes : node.TakesOver nowMs request)
    (cut : request.CutFrom log) (positive : 0 < request.prevSequence) :
    ∃ entry, node.engine.walEntries[request.prevSequence - 1]? = some entry ∧
      log[request.prevSequence - 1]? = some entry := by
  obtain ⟨theirs, there, term, checksum⟩ := cut.previous positive
  obtain ⟨termHere, checksumHere⟩ := whole.identity_eq request.prevSequence
  rw [takes.1, term, if_neg positive.ne'] at termHere
  rw [takes.2.1, checksum, if_neg positive.ne'] at checksumHere
  obtain ⟨mine, here, sameTerm⟩ := Option.map_eq_some_iff.mp termHere.symm
  rw [here, Option.map_some, Option.some.injEq] at checksumHere
  have sequence : mine.sequence = theirs.sequence := by
    rw [whole.numbered.number_eq here, numbered.number_eq there]
  obtain rfl := tells mine (own (List.mem_of_getElem? here)) theirs
    (sent (List.mem_of_getElem? there)) sequence sameTerm checksumHere.symm
  exact ⟨mine, here, there⟩

end Identities

end Vaylix

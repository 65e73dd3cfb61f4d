import Vaylix.Lib.MapFold
import Vaylix.Lib.Majority
import Vaylix.Replication.Consensus

/-!
# Member maps with a fixed set of voters

Every node keeps its own copy of the members. The copies may differ in addresses;
what elections and commits depend on is which members vote.
-/

namespace Vaylix

open Majority

/-- The members are listed under their own names, and exactly `voters` vote. -/
structure HasVoters (voters : Finset NodeId) (members : Members) : Prop where
  keyed : ∀ (id : NodeId) (member : ClusterMember), members[id]? = some member → member.nodeId = id
  voting : ∀ id, isVotingMember members id = true ↔ id ∈ voters

theorem mem_memberList {members : Members} {member : ClusterMember} :
    member ∈ memberList members ↔ ∃ id : NodeId, members[id]? = some member := by
  rw [memberList, List.mem_map]
  constructor
  · rintro ⟨⟨id, found⟩, listed, rfl⟩
    exact ⟨id, Std.ExtTreeMap.mem_toList_iff_getElem?_eq_some.mp listed⟩
  · rintro ⟨id, found⟩
    exact ⟨(id, member), Std.ExtTreeMap.mem_toList_iff_getElem?_eq_some.mpr found, rfl⟩

def voterMembers (members : Members) : List ClusterMember :=
  (memberList members).filter ClusterMember.voter

namespace HasVoters

variable {voters : Finset NodeId} {members : Members}

variable (has : HasVoters voters members)
include has

theorem membersOf_memberList :
    membersOf (memberList members) = members := by
  have faithful : ∀ member ∈ memberList members, members[member.nodeId]? = some member := by
    intro member listed
    obtain ⟨id, found⟩ := mem_memberList.mp listed
    rw [has.keyed id member found]
    exact found
  refine Std.ExtTreeMap.ext_getElem? ?_
  intro id
  rw [membersOf, MapFold.getElem?_foldl_insert faithful]
  split
  · rfl
  · rename_i unlisted
    cases found : members[id]? with
    | none => simp
    | some member =>
      refine absurd (List.mem_map.mpr ⟨member, mem_memberList.mpr ⟨id, found⟩, ?_⟩) unlisted
      exact has.keyed id member found

theorem mem_voterMembers {id : NodeId} :
    id ∈ (voterMembers members).map ClusterMember.nodeId ↔ id ∈ voters := by
  rw [← has.voting, List.mem_map]
  constructor
  · rintro ⟨member, listed, rfl⟩
    obtain ⟨inside, votes⟩ := List.mem_filter.mp listed
    obtain ⟨id, found⟩ := mem_memberList.mp inside
    obtain rfl := has.keyed id member found
    simpa [isVotingMember, found] using votes
  · intro votes
    unfold isVotingMember at votes
    split at votes
    · rename_i member found
      exact ⟨member, List.mem_filter.mpr ⟨mem_memberList.mpr ⟨id, found⟩, votes⟩,
        has.keyed id member found⟩
    · cases votes

theorem nodup_voterMembers :
    ((voterMembers members).map ClusterMember.nodeId).Nodup := by
  have keys : (memberList members).map ClusterMember.nodeId = members.toList.map Prod.fst := by
    rw [memberList, List.map_map]
    refine List.map_congr_left ?_
    rintro ⟨id, member⟩ listed
    exact has.keyed id member (Std.ExtTreeMap.mem_toList_iff_getElem?_eq_some.mp listed)
  have distinct : ((memberList members).map ClusterMember.nodeId).Nodup := by
    rw [keys]
    refine List.pairwise_map.mpr ?_
    refine members.distinct_keys_toList.imp ?_
    intro a b different same
    exact different (by simp [same])
  exact distinct.sublist ((List.filter_sublist).map _)

theorem length_voterMembers :
    (voterMembers members).length = voters.card := by
  have same : ((voterMembers members).map ClusterMember.nodeId).toFinset = voters := by
    ext id
    rw [List.mem_toFinset, has.mem_voterMembers]
  rw [← same, List.toFinset_card_of_nodup has.nodup_voterMembers, List.length_map]

theorem insert (member : ClusterMember) :
    HasVoters (if member.voter then Insert.insert member.nodeId voters
      else voters.erase member.nodeId) (members.insert member.nodeId member) := by
  refine ⟨?_, ?_⟩
  · intro other stored here
    rw [Std.ExtTreeMap.getElem?_insert] at here
    split at here
    · rename_i same
      cases here
      exact Std.LawfulEqCmp.eq_of_compare same
    · exact has.keyed other stored here
  · intro other
    rw [isVotingMember, Std.ExtTreeMap.getElem?_insert]
    by_cases same : member.nodeId = other
    · subst same
      cases votes : member.voter <;> simp [votes]
    · rw [if_neg (by simpa using same), ← isVotingMember, has.voting]
      cases member.voter <;> simp [Ne.symm same]

theorem erase (id : NodeId) :
    HasVoters (voters.erase id) (members.erase id) := by
  refine ⟨?_, ?_⟩
  · intro other stored here
    rw [Std.ExtTreeMap.getElem?_erase] at here
    split at here
    · cases here
    · exact has.keyed other stored here
  · intro other
    rw [isVotingMember, Std.ExtTreeMap.getElem?_erase]
    by_cases same : id = other
    · subst same
      simp
    · rw [if_neg (by simpa using same), ← isVotingMember, has.voting]
      simp [Ne.symm same]

theorem insert_address {id : NodeId} {member : ClusterMember} (found : members[id]? = some member)
    (address : String) :
    HasVoters voters (members.insert id { member with advertiseAddr := address }) := by
  obtain rfl := has.keyed id member found
  have votes : member.voter = true ↔ member.nodeId ∈ voters := by
    rw [← has.voting, isVotingMember, found]
  have listed := has.insert { member with advertiseAddr := address }
  by_cases voter : member.voter = true
  · rwa [if_pos voter, Finset.insert_eq_of_mem (votes.mp voter)] at listed
  · rwa [if_neg voter, Finset.erase_eq_of_notMem (voter ∘ votes.mpr)] at listed

end HasVoters

end Vaylix

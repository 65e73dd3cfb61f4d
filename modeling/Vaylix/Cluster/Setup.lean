import Vaylix.Cluster.Standing

/-!
# Clusters of equal voters

The usual deployment: every node is configured with the same list of voters, starts
as a follower and waits for a majority.
-/

namespace Vaylix

theorem getElem?_membersOf (members : List ClusterMember) (id : NodeId) :
    (membersOf members)[id]? = members.reverse.find? fun member => decide (member.nodeId = id) := by
  induction members using List.reverseRecOn with
  | nil => simp [membersOf]
  | append_singleton members last ih =>
    rw [membersOf, List.foldl_append, List.foldl_cons, List.foldl_nil,
      Std.ExtTreeMap.getElem?_insert, List.reverse_append, List.reverse_singleton,
      List.singleton_append, List.find?_cons]
    by_cases same : last.nodeId = id
    · simp [same]
    · rw [if_neg (by simpa using same), decide_eq_false same]
      exact ih

theorem hasVoters_membersOf (members : List ClusterMember)
    (all : ∀ member ∈ members, member.voter = true) :
    HasVoters (members.map ClusterMember.nodeId).toFinset (membersOf members) := by
  refine ⟨?_, ?_⟩
  · intro id member found
    rw [getElem?_membersOf] at found
    simpa using List.find?_some found
  · intro id
    rw [isVotingMember, getElem?_membersOf, List.mem_toFinset, List.mem_map]
    constructor
    · intro votes
      split at votes
      · rename_i member found
        exact ⟨member, List.mem_reverse.mp (List.mem_of_find?_eq_some found),
          by simpa using List.find?_some found⟩
      · cases votes
    · rintro ⟨member, listed, rfl⟩
      split
      · rename_i other found
        exact all other (List.mem_reverse.mp (List.mem_of_find?_eq_some found))
      · rename_i absent
        have := List.find?_eq_none.mp absent member (List.mem_reverse.mpr listed)
        simp at this

def equalVoter (ids : List NodeId) (fetchBatchSize : Nat) (id : NodeId) : ReplicationConfig where
  nodeId := id
  advertiseAddr := some id
  role := .follower
  writeAckMode := .replica
  fetchBatchSize := fetchBatchSize
  initialMembers := ids.map fun id => ⟨id, id, true⟩

theorem configured_equalVoter (ids : List NodeId) (fetchBatchSize : Nat) :
    ∀ id ∈ ids, Configured ids.toFinset id (equalVoter ids fetchBatchSize id) := by
  intro id member
  have voting : HasVoters ids.toFinset (membersOf (ids.map fun id => ⟨id, id, true⟩)) := by
    have all := hasVoters_membersOf (ids.map fun id => ⟨id, id, true⟩) (by simp)
    simpa [Function.comp_def] using all
  have listed : (membersOf (ids.map fun id => ⟨id, id, true⟩)).contains id = true := by
    have found := (voting.voting id).mpr (List.mem_toFinset.mpr member)
    unfold isVotingMember at found
    split at found
    · rename_i stored here
      rw [Std.ExtTreeMap.contains_eq_isSome_getElem?, here]
      rfl
    · cases found
  refine ⟨rfl, List.mem_toFinset.mpr member, ?_, ?_⟩
  · simp only [ReplicationState.new, equalVoter, listed, if_true]
    exact voting
  · rw [ReplicationState.new_role]
    split <;> rfl

end Vaylix

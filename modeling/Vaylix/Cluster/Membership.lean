import Vaylix.Cluster.Setup
import Vaylix.Lib.Run
import Vaylix.Server.Publication

/-!
# Changes of the membership

`CLUSTER JOIN` and `CLUSTER REMOVE` change the list of the leader at once, and heartbeats copy
it to the others. Where a leader changes its list only after all lists that are used or on
their way have the same voters, quorums of any two lists meet.
-/

namespace Vaylix

open LabelledRun Majority

/-- Enough voters of a list to win an election or to commit. -/
def IsQuorum (members : Members) (nodes : Finset NodeId) : Prop :=
  (∀ id ∈ nodes, isVotingMember members id = true) ∧ quorumSizeFromMembers members ≤ nodes.card

instance (members : Members) (nodes : Finset NodeId) : Decidable (IsQuorum members nodes) :=
  inferInstanceAs (Decidable (_ ∧ _))

theorem HasVoters.isMajority {voters nodes : Finset NodeId} {members : Members}
    (has : HasVoters voters members) (quorum : IsQuorum members nodes) :
    IsMajority voters nodes := by
  refine ⟨fun id among => (has.voting id).mp (quorum.1 id among), ?_⟩
  have size := quorum.2
  rw [quorumSizeFromMembers, voterCount, ← voterMembers, has.length_voterMembers, quorumSize]
    at size
  omega

/-- The nodes, the lists that candidates count votes with, and the heartbeats on their way. -/
structure MemberCluster where
  ids : List NodeId
  configs : NodeId → ReplicationConfig
  nodes : NodeId → ReplicationState
  counting : NodeId → Option Members
  network : List HeartbeatRequest

inductive MemberAction where
  | join (nodeId : NodeId) (address : String)
  | remove (nodeId : NodeId)
  | send
  | deliver (request : HeartbeatRequest)
  | drop (request : HeartbeatRequest)
  | vote (heard : Bool) (request : VoteRequest)
  | remoteTerm (term : Nat)
  | candidacy
  | electionEnd (term votesGranted : Nat)

namespace MemberCluster

variable (cluster : MemberCluster)

def inUse : List Members :=
  cluster.ids.map (fun id => (cluster.nodes id).members) ++ cluster.ids.filterMap cluster.counting

def lists : List Members :=
  cluster.inUse ++ cluster.network.map fun request => membersOf request.members

def enabled (id : NodeId) : MemberAction → Bool
  | .join _ _ | .remove _ => decide ((cluster.nodes id).role = .leader)
  | .deliver request | .drop request => decide (request ∈ cluster.network)
  | .electionEnd _ _ => (cluster.counting id).isSome
  | _ => true

/-- The state of the node afterwards. An election is decided by the list it began with. -/
def nodeAfter (id : NodeId) : MemberAction → ReplicationState
  | .join nodeId address => ((cluster.nodes id).addMember ⟨nodeId, address, true⟩).state
  | .remove nodeId => ((cluster.nodes id).removeMember nodeId).state
  | .send | .drop _ => cluster.nodes id
  | .deliver request => ((cluster.nodes id).handleHeartbeat request).state
  | .vote heard request =>
    ((cluster.nodes id).handleVoteRequest (cluster.configs id) heard request).state
  | .remoteTerm term => ((cluster.nodes id).observeRemoteTerm term).state
  | .candidacy => ((cluster.nodes id).beginElection (cluster.configs id)).state
  | .electionEnd term votesGranted =>
    ((cluster.nodes id).finalizeElection (cluster.configs id) term votesGranted
      (voterCount ((cluster.counting id).getD ∅))).state

def step (event : NodeId × MemberAction) : Option MemberCluster :=
  let (id, action) := event
  if id ∈ cluster.ids ∧ cluster.enabled id action then
    some { cluster with
      nodes := Function.update cluster.nodes id (cluster.nodeAfter id action)
      counting := match action with
        | .candidacy => Function.update cluster.counting id (some (cluster.nodes id).members)
        | .electionEnd _ _ => Function.update cluster.counting id none
        | _ => cluster.counting
      network := match action with
        | .send => ((cluster.nodes id).leaderHeartbeatPayload (cluster.configs id)).toList ++
            cluster.network
        | .drop request => cluster.network.erase request
        | _ => cluster.network }
  else none

/-- The membership is changed only while all lists have the same voters. -/
def Settled (event : NodeId × MemberAction) : Prop :=
  match event.2 with
  | .join _ _ | .remove _ => ∃ voters, ∀ members ∈ cluster.lists, HasVoters voters members
  | _ => True

/-- The voters of all lists are the same, up to one. -/
def Near : Prop :=
  ∃ voters added, ∀ members ∈ cluster.lists,
    HasVoters voters members ∨ HasVoters (insert added voters) members

variable {cluster} {next : MemberCluster} {id : NodeId} {action : MemberAction}

theorem members_mem_inUse (member : id ∈ cluster.ids) :
    (cluster.nodes id).members ∈ cluster.inUse :=
  List.mem_append_left _ (List.mem_map.mpr ⟨id, member, rfl⟩)

theorem members_mem_lists (member : id ∈ cluster.ids) :
    (cluster.nodes id).members ∈ cluster.lists :=
  List.mem_append_left _ (members_mem_inUse member)

theorem mem_lists_step (taken : cluster.step (id, action) = some next) {members : Members}
    (listed : members ∈ next.lists) :
    members ∈ cluster.lists ∨ members = (cluster.nodeAfter id action).members ∨
      (members = membersOf (memberList (cluster.nodes id).members) ∧ action = .send) := by
  simp only [step] at taken
  split at taken <;> cases taken
  simp only [lists, inUse, List.mem_append, List.mem_map, List.mem_filterMap] at listed
  rcases listed with (⟨other, member, rfl⟩ | ⟨other, member, counted⟩) | ⟨request, inFlight, rfl⟩
  · by_cases same : other = id
    · subst same
      exact .inr (.inl (by rw [Function.update_self]))
    · rw [Function.update_of_ne same]
      exact .inl (members_mem_lists member)
  · have kept (found : cluster.counting other = some members) : members ∈ cluster.lists :=
      List.mem_append_left _ (List.mem_append_right _
        (List.mem_filterMap.mpr ⟨other, member, found⟩))
    by_cases same : other = id
    · subst same
      cases action with
      | candidacy =>
        dsimp only at counted
        rw [Function.update_self] at counted
        cases counted
        exact .inl (members_mem_lists member)
      | electionEnd _ _ =>
        dsimp only at counted
        rw [Function.update_self] at counted
        cases counted
      | _ => exact .inl (kept counted)
    · cases action with
      | candidacy | electionEnd _ _ =>
        dsimp only at counted
        rw [Function.update_of_ne same] at counted
        exact .inl (kept counted)
      | _ => exact .inl (kept counted)
  · have sent (found : request ∈ cluster.network) :
        membersOf request.members ∈ cluster.lists :=
      List.mem_append_right _ (List.mem_map.mpr ⟨request, found, rfl⟩)
    cases action with
    | send =>
      rcases List.mem_append.mp inFlight with new | old
      · unfold ReplicationState.leaderHeartbeatPayload at new
        split at new
        · cases new
        · obtain rfl := List.mem_singleton.mp new
          exact .inr (.inr ⟨rfl, rfl⟩)
      · exact .inl (sent old)
    | drop lost => exact .inl (sent (List.mem_of_mem_erase inFlight))
    | _ => exact .inl (sent inFlight)

theorem hasVoters_nodeAfter (member : id ∈ cluster.ids)
    (enabled : cluster.enabled id action = true) :
    (∃ nodeId, (∃ address, action = .join nodeId address) ∧
      ∀ voters, HasVoters voters (cluster.nodes id).members →
        HasVoters (insert nodeId voters) (cluster.nodeAfter id action).members) ∨
    (∃ nodeId, action = .remove nodeId ∧ ∀ voters, HasVoters voters (cluster.nodes id).members →
        HasVoters (voters.erase nodeId) (cluster.nodeAfter id action).members) ∨
    ∃ members ∈ cluster.lists, ∀ voters, HasVoters voters members →
      HasVoters voters (cluster.nodeAfter id action).members := by
  have own := members_mem_lists member
  cases action with
  | join nodeId address =>
    exact .inl ⟨nodeId, ⟨address, rfl⟩, fun voters has => has.insert ⟨nodeId, address, true⟩⟩
  | remove nodeId => exact .inr (.inl ⟨nodeId, rfl, fun voters has => has.erase nodeId⟩)
  | send | candidacy | drop _ => exact .inr (.inr ⟨_, own, fun _ has => has⟩)
  | deliver request =>
    right; right
    dsimp only [nodeAfter, ReplicationState.handleHeartbeat]
    split
    · exact ⟨_, own, fun _ has => has⟩
    split
    · exact ⟨_, own, fun _ has => has⟩
    · exact ⟨membersOf request.members, List.mem_append_right _ (List.mem_map.mpr
        ⟨request, of_decide_eq_true enabled, rfl⟩), fun _ has => has⟩
  | vote heard request =>
    refine .inr (.inr ⟨_, own, fun voters has => ?_⟩)
    have entered : HasVoters voters ((cluster.nodes id).enterVoteTerm request.term).1.members := by
      unfold ReplicationState.enterVoteTerm
      split <;> exact has
    dsimp only [nodeAfter, ReplicationState.handleVoteRequest]
    split
    · exact has
    rename_i votes
    split
    · exact has
    split
    · exact has
    split
    · exact entered
    split
    · exact entered
    split
    · refine Node.Stands.withCandidate entered ((has.voting _).mp ?_)
      simpa using votes
    · exact entered
  | remoteTerm term =>
    refine .inr (.inr ⟨_, own, fun voters has => ?_⟩)
    dsimp only [nodeAfter, ReplicationState.observeRemoteTerm]
    split <;> exact has
  | electionEnd term votesGranted =>
    refine .inr (.inr ⟨_, own, fun voters has => ?_⟩)
    rcases ReplicationState.finalizeElection_cases (cluster.configs id) (cluster.nodes id) term
      votesGranted (voterCount ((cluster.counting id).getD ∅)) with ⟨-, same⟩ | ⟨-, -, -, won⟩
    · rwa [nodeAfter, same]
    · rwa [nodeAfter, won]

/-- One change takes equal lists apart by one voter at most. -/
theorem Near.step (near : cluster.Near) {event : NodeId × MemberAction}
    (settled : cluster.Settled event) (taken : cluster.step event = some next) : next.Near := by
  obtain ⟨id, action⟩ := event
  have possible : id ∈ cluster.ids ∧ cluster.enabled id action = true := by
    simp only [MemberCluster.step] at taken
    split at taken
    · assumption
    · cases taken
  obtain ⟨member, enabled⟩ := possible
  rcases hasVoters_nodeAfter member enabled with
    ⟨nodeId, ⟨address, rfl⟩, joined⟩ | ⟨nodeId, rfl, removed⟩ | ⟨source, among, copied⟩
  · obtain ⟨voters, same⟩ := settled
    refine ⟨voters, nodeId, fun members inside => ?_⟩
    rcases mem_lists_step taken inside with old | rfl | ⟨-, ⟨⟩⟩
    · exact .inl (same members old)
    · exact .inr (joined voters (same _ (members_mem_lists member)))
  · obtain ⟨voters, same⟩ := settled
    refine ⟨voters.erase nodeId, nodeId, fun members inside => ?_⟩
    rcases mem_lists_step taken inside with old | rfl | ⟨-, ⟨⟩⟩
    · by_cases voted : nodeId ∈ voters
      · right
        rw [Finset.insert_erase voted]
        exact same members old
      · left
        rw [Finset.erase_eq_of_notMem voted]
        exact same members old
    · exact .inl (removed voters (same _ (members_mem_lists member)))
  · obtain ⟨voters, added, all⟩ := near
    refine ⟨voters, added, fun members inside => ?_⟩
    rcases mem_lists_step taken inside with old | rfl | ⟨rfl, -⟩
    · exact all members old
    · exact (all source among).imp (copied _) (copied _)
    · refine (all _ (members_mem_lists member)).imp ?_ ?_ <;> intro has <;>
        rwa [has.membersOf_memberList]

theorem Near.inter_nonempty (near : cluster.Near) {one other : Members}
    (oneUsed : one ∈ cluster.lists)
    (otherUsed : other ∈ cluster.lists) {first second : Finset NodeId}
    (firstQuorum : IsQuorum one first) (secondQuorum : IsQuorum other second) :
    (first ∩ second).Nonempty := by
  obtain ⟨voters, added, all⟩ := near
  rcases all one oneUsed with oneHas | oneHas <;>
    rcases all other otherUsed with otherHas | otherHas
  · exact (oneHas.isMajority firstQuorum).inter_nonempty (otherHas.isMajority secondQuorum)
  · exact (oneHas.isMajority firstQuorum).inter_nonempty_insert (otherHas.isMajority secondQuorum)
  · rw [Finset.inter_comm]
    exact (otherHas.isMajority secondQuorum).inter_nonempty_insert (oneHas.isMajority firstQuorum)
  · exact (oneHas.isMajority firstQuorum).inter_nonempty (otherHas.isMajority secondQuorum)

/-- **Quorums of any two lists in use meet**, in every run that changes the membership only when
all lists have the same voters. -/
theorem quorums_meet (start final : MemberCluster) (voters : Finset NodeId)
    (same : ∀ members ∈ start.lists, HasVoters voters members)
    (events : List (NodeId × MemberAction))
    (settled : Meets MemberCluster.step Settled start events)
    (reached : run MemberCluster.step start events = some final) (one other : Members)
    (oneUsed : one ∈ final.inUse) (otherUsed : other ∈ final.inUse) (first second : Finset NodeId)
    (firstQuorum : IsQuorum one first) (secondQuorum : IsQuorum other second) :
    (first ∩ second).Nonempty := by
  have near : final.Near := invariant_of_meets (fun _ _ _ near settled taken =>
    Near.step near settled taken) ⟨voters, "", fun members listed => .inl (same members listed)⟩
    settled reached
  exact near.inter_nonempty (List.mem_append_left _ oneUsed) (List.mem_append_left _ otherUsed)
    firstQuorum secondQuorum

end MemberCluster

section Samples

open MemberCluster

def ledCluster : MemberCluster where
  ids := ["a", "b", "c"]
  configs := equalVoter ["a", "b", "c"] 1
  nodes id := { ReplicationState.new (equalVoter ["a", "b", "c"] 1 id) none with
    role := if id = "a" then .leader else .follower }
  counting _ := none
  network := []

theorem ledCluster_same :
    ∀ members ∈ ledCluster.lists, HasVoters {"a", "b", "c"} members := by
  intro members listed
  simp only [lists, inUse, ledCluster, List.map_nil, List.append_nil, List.filterMap_none,
    List.mem_map] at listed
  obtain ⟨id, member, rfl⟩ := listed
  exact (configured_equalVoter ["a", "b", "c"] 1 id member).members

/-- After one join, quorums of the leader's list and of an older one meet. -/
theorem quorums_meet_joined :
    ∃ final ∈ run MemberCluster.step ledCluster [("a", .join "d" "d:1")],
      IsQuorum (final.nodes "a").members {"a", "b", "d"} ∧
        IsQuorum (final.nodes "b").members {"b", "c"} ∧
        (({"a", "b", "d"} : Finset NodeId) ∩ {"b", "c"}).Nonempty := by
  have joined : ∃ final ∈ run MemberCluster.step ledCluster [("a", .join "d" "d:1")],
      ("a" ∈ final.ids ∧ "b" ∈ final.ids) ∧
        IsQuorum (final.nodes "a").members {"a", "b", "d"} ∧
        IsQuorum (final.nodes "b").members {"b", "c"} := by
    decide +kernel
  obtain ⟨final, reached, ⟨leads, follows⟩, leaderQuorum, followerQuorum⟩ := joined
  have meet := quorums_meet ledCluster final {"a", "b", "c"} ledCluster_same
    [("a", .join "d" "d:1")] ⟨⟨_, ledCluster_same⟩, fun _ _ => trivial⟩ reached _ _
    (members_mem_inUse leads) (members_mem_inUse follows) _ _ leaderQuorum followerQuorum
  exact ⟨final, reached, leaderQuorum, followerQuorum, meet⟩

/-- A leader that has accepted two joins and the voters that do not know of them have quorums
apart. -/
theorem two_joins_split_quorums :
    ¬ ∀ (start final : MemberCluster) (voters : Finset NodeId)
      (events : List (NodeId × MemberAction)) (one other : Members) (first second : Finset NodeId),
      (∀ members ∈ start.lists, HasVoters voters members) →
      run MemberCluster.step start events = some final → one ∈ final.inUse →
      other ∈ final.inUse → IsQuorum one first → IsQuorum other second →
      (first ∩ second).Nonempty := by
  intro meet
  have joined : ∃ final ∈ run MemberCluster.step ledCluster
      [("a", .join "d" "d:1"), ("a", .join "e" "e:1")],
      ("a" ∈ final.ids ∧ "b" ∈ final.ids) ∧
        IsQuorum (final.nodes "a").members {"a", "d", "e"} ∧
        IsQuorum (final.nodes "b").members {"b", "c"} := by
    decide +kernel
  obtain ⟨final, reached, ⟨leads, follows⟩, leaderQuorum, followerQuorum⟩ := joined
  have shared := meet ledCluster final {"a", "b", "c"} _ _ _ _ _ ledCluster_same reached
    (members_mem_inUse leads) (members_mem_inUse follows) leaderQuorum followerQuorum
  revert shared
  decide

end Samples

end Vaylix

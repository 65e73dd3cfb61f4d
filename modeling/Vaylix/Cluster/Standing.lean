import Vaylix.Cluster.Model
import Vaylix.Lib.Ballots
import Vaylix.Server.Steady

/-!
# What the handlers do to a node's ballot

The term and the vote of a node are its ballot. Every handler of the replication
state moves the ballot by steps that majority elections allow, and whatever part of
its writes has reached the disk is again a ballot on the way.
-/

namespace Vaylix

open Ballots Majority ReplicationState

structure Configured (voters : Finset NodeId) (id : NodeId) (config : ReplicationConfig) :
    Prop where
  named : config.nodeId = id
  votes : id ∈ voters
  members : HasVoters voters (ReplicationState.new config none).members
  follows : (ReplicationState.new config none).role = .follower

def Persists (voters : Finset NodeId) (state : State NodeId) (id : NodeId) :
    Option PersistedReplicationState → Prop
  | some written => state.ballot id = ⟨written.currentTerm, written.votedFor⟩ ∧
      HasVoters voters (membersOf written.members)
  | none => state.ballot id = ⟨0, none⟩

structure ReplicationState.Stands (voters : Finset NodeId) (state : State NodeId) (id : NodeId)
    (replication : ReplicationState) : Prop where
  members : HasVoters voters replication.members
  ballot : state.ballot id = ⟨replication.currentTerm, replication.votedFor⟩
  clustered : replication.role ≠ .standalone
  leads : replication.role = .leader → state.won id replication.currentTerm
  runs : replication.role = .candidate → state.granted id id replication.currentTerm

structure Node.Stands (voters : Finset NodeId) (state : State NodeId) (id : NodeId) (node : Node) :
    Prop where
  configured : Configured voters id node.config
  current : node.replication.Stands voters state id
  stored : Persists voters state id node.persisted

namespace ReplicationState

variable {voters : Finset NodeId} {state next : State NodeId} {id : NodeId}
  {replication other : ReplicationState}

variable (stands : replication.Stands voters state id)
include stands

theorem Stands.congr (same : SameStanding replication other) : other.Stands voters state id := by
  obtain ⟨role, term, vote, members⟩ := same
  refine ⟨members ▸ stands.members, ?_, role ▸ stands.clustered, ?_, ?_⟩
  · rw [term, vote]
    exact stands.ballot
  · rw [role, term]
    exact stands.leads
  · rw [role, term]
    exact stands.runs

theorem Stands.persists : Persists voters state id (some replication.persisted) := by
  refine ⟨stands.ballot, ?_⟩
  change HasVoters voters (membersOf (memberList replication.members))
  rw [stands.members.membersOf_memberList]
  exact stands.members

theorem Stands.steppedDown_eq : replication.steppedDown = .follower := if_neg stands.clustered

theorem Stands.mono {voter : NodeId} (steps : Steps voters voter state next)
    (different : id ≠ voter) : replication.Stands voters next id :=
  ⟨stands.members, (steps.others id different).trans stands.ballot, stands.clustered,
    fun role => steps.won _ _ (stands.leads role),
    fun role => steps.granted _ _ _ (stands.runs role)⟩

omit stands in
theorem stands_of_follower {followed : ReplicationState}
    (members : HasVoters voters followed.members)
    (ballot : state.ballot id = ⟨followed.currentTerm, followed.votedFor⟩)
    (role : followed.role = .follower) : followed.Stands voters state id := by
  refine ⟨members, ballot, ?_, ?_, ?_⟩ <;> rw [role]
  · decide
  · rintro ⟨⟩
  · rintro ⟨⟩

end ReplicationState

variable {voters : Finset NodeId} {state : State NodeId} {id : NodeId}
  {persisted : Option PersistedReplicationState}

theorem Persists.mono {next : State NodeId} {voter : NodeId}
    (persists : Persists voters state id persisted) (steps : Steps voters voter state next)
    (different : id ≠ voter) :
    Persists voters next id persisted := by
  have same := steps.others id different
  cases persisted with
  | none => exact same.trans persists
  | some written => exact ⟨same.trans persists.1, persists.2⟩

theorem Node.Stands.mono {next : State NodeId} {voter : NodeId} {node : Node}
    (stands : node.Stands voters state id) (steps : Steps voters voter state next)
    (different : id ≠ voter) : node.Stands voters next id :=
  ⟨stands.configured, stands.current.mono steps different, stands.stored.mono steps different⟩

/-- A handler moved the ballot of its node, in memory and on disk. -/
structure Handled.Moves {α : Type} (voters : Finset NodeId) (state : State NodeId) (id : NodeId)
    (persisted : Option PersistedReplicationState) (handled : Handled α) (next : State NodeId) :
    Prop where
  steps : Steps voters id state next
  current : handled.state.Stands voters next id
  stored : Persists voters next id ((handled.writes.getLast?).or persisted)

namespace Handled.Moves

variable {α : Type} {voters : Finset NodeId} {state next : State NodeId} {id : NodeId}
  {persisted : Option PersistedReplicationState}

theorem stay {replication : ReplicationState} (current : replication.Stands voters state id)
    (stored : Persists voters state id persisted) (answer : α) :
    Moves voters state id persisted ⟨replication, [], answer⟩ state :=
  ⟨Steps.refl voters id state, current, stored⟩

theorem written (persisted : Option PersistedReplicationState) {replication : ReplicationState}
    (steps : Steps voters id state next) (current : replication.Stands voters next id)
    (writes : List PersistedReplicationState) (answer : α) :
    Moves voters state id persisted ⟨replication, writes ++ [replication.persisted], answer⟩
      next := by
  refine ⟨steps, current, ?_⟩
  rw [List.getLast?_concat, Option.some_or]
  exact current.persists

theorem after {node : Node} {handled : Handled α} (configured : Configured voters id node.config)
    (moves : Moves voters state id node.persisted handled next) :
    (node.after handled).Stands voters next id :=
  ⟨configured, moves.current, moves.stored⟩

end Handled.Moves

/-- Whatever number of writes has reached the disk, a ballot on the way is there. -/
def Interrupted (voters : Finset NodeId) (state : State NodeId) (id : NodeId)
    (persisted : Option PersistedReplicationState) (writes : List PersistedReplicationState) :
    Prop :=
  ∀ written, ∃ reached, Steps voters id state reached ∧
    Persists voters reached id (((writes.take written).getLast?).or persisted)

namespace Interrupted

variable {voters : Finset NodeId} {state next : State NodeId} {id : NodeId}
  {persisted : Option PersistedReplicationState}

theorem nil (stored : Persists voters state id persisted) :
    Interrupted voters state id persisted [] := by
  intro written
  rw [List.take_nil]
  exact ⟨state, Steps.refl voters id state, stored⟩

theorem concat {writes : List PersistedReplicationState}
    (before : Interrupted voters state id persisted writes) (steps : Steps voters id state next)
    {last : PersistedReplicationState} (stored : Persists voters next id (some last)) :
    Interrupted voters state id persisted (writes ++ [last]) := by
  intro written
  rcases Nat.lt_or_ge writes.length written with all | some
  · rw [List.take_of_length_le (by simp; omega), List.getLast?_concat]
    exact ⟨next, steps, stored⟩
  · rw [List.take_append_of_le_length some]
    exact before written

end Interrupted

namespace Node.Stands

variable {voters : Finset NodeId} {state : State NodeId} {id : NodeId} {node : Node}

variable (stands : node.Stands voters state id)
include stands

theorem beginElection (below : node.replication.currentTerm < u64Max) :
    ∃ next, Handled.Moves voters state id node.persisted
        (node.replication.beginElection node.config) next := by
  have term : satAdd node.replication.currentTerm 1 = node.replication.currentTerm + 1 := by
    unfold satAdd
    omega
  have here := stands.current.ballot
  refine ⟨_, .written _ Steps.candidacy ?_ [] ()⟩
  refine ⟨stands.current.members, ?_, by simp, by simp, ?_⟩
  · simp only [State.grant, Steps.setBallot_self, here, term, stands.configured.named]
  · intro _
    rw [term, here]
    exact .inr ⟨rfl, rfl, rfl⟩

theorem observeRemoteTerm (term : Nat) :
    ∃ next, Handled.Moves voters state id node.persisted
      (node.replication.observeRemoteTerm term) next := by
  unfold ReplicationState.observeRemoteTerm
  split
  · rename_i later
    have here := stands.current.ballot
    refine ⟨_, .written _ (Steps.advance term ?_) ?_ [] ()⟩
    · rw [here]
      exact later
    · exact stands_of_follower stands.current.members (by simp)
        stands.current.steppedDown_eq
  · exact ⟨state, .stay stands.current stands.stored ()⟩

theorem followLeader {term : Nat} {leader : NodeId} (won : state.won leader term)
    (recent : node.replication.currentTerm ≤ term) {members : Members}
    (voting : HasVoters voters members) (address : Option String) (commit frontier : Nat) {α : Type}
    (answer : α) :
    ∃ next, Handled.Moves voters state id node.persisted
      ⟨node.replication.followLeader term leader address commit frontier members,
        [(node.replication.followLeader term leader address commit frontier members).persisted],
        answer⟩ next := by
  have here := stands.current.ballot
  refine ⟨_, .written _ (Steps.follow won ?_) ?_ [] answer⟩
  · rw [here]
    exact recent
  · refine stands_of_follower voting ?_ stands.current.steppedDown_eq
    simp [ReplicationState.followLeader, recent]

theorem handleHeartbeat (request : HeartbeatRequest)
    (won : state.won request.leaderNodeId request.term)
    (voting : HasVoters voters (membersOf request.members)) :
    ∃ next, Handled.Moves voters state id node.persisted
      (node.replication.handleHeartbeat request) next := by
  unfold ReplicationState.handleHeartbeat
  split
  · exact ⟨state, .stay stands.current stands.stored _⟩
  split
  · exact ⟨state, .stay stands.current stands.stored _⟩
  · rename_i recent
    exact stands.followLeader won (Nat.not_lt.mp recent) voting _ _ _ _

theorem observeLeaderStatus {status : LeaderStatus}
    (won : state.won status.leaderNodeId status.term)
    (voting : HasVoters voters (membersOf status.members)) :
    ∃ next, Handled.Moves voters state id node.persisted
      (node.replication.observeLeaderStatus status) next := by
  unfold ReplicationState.observeLeaderStatus
  split
  · exact ⟨state, .stay stands.current stands.stored _⟩
  · rename_i recent
    refine stands.followLeader won (Nat.not_lt.mp recent) ?_ _ _ _ _
    split
    · exact stands.current.members
    · exact voting

theorem enterVoteTerm {term : Nat} (recent : ¬ term < node.replication.currentTerm) :
    ∃ next, Handled.Moves voters state id node.persisted
        ⟨(node.replication.enterVoteTerm term).1, (node.replication.enterVoteTerm term).2, ()⟩
        next ∧ (node.replication.enterVoteTerm term).1.currentTerm = term ∧
      Interrupted voters state id node.persisted (node.replication.enterVoteTerm term).2 := by
  unfold ReplicationState.enterVoteTerm
  split
  · rename_i later
    have here := stands.current.ballot
    have steps : Steps voters id state (state.setBallot id ⟨term, none⟩) :=
      Steps.advance term (by rw [here]; exact later)
    have current : ReplicationState.Stands voters (state.setBallot id ⟨term, none⟩) id
        { node.replication with
          currentTerm := term
          votedFor := none
          bootstrapPreferred := false
          role := node.replication.steppedDown
          followers := ∅
          leaderNodeId := none
          leaderAdvertiseAddr := none } :=
      stands_of_follower stands.current.members (by simp)
        stands.current.steppedDown_eq
    have moves := Handled.Moves.written node.persisted steps current [] ()
    exact ⟨_, moves, rfl, (Interrupted.nil stands.stored).concat steps moves.current.persists⟩
  · rename_i same
    exact ⟨state, .stay stands.current stands.stored (),
      Nat.le_antisymm (Nat.not_lt.mp recent) (Nat.not_lt.mp same), .nil stands.stored⟩

omit stands in
theorem withCandidate {replication : ReplicationState} {request : VoteRequest}
    (members : HasVoters voters replication.members)
    (candidate : request.candidateNodeId ∈ voters) :
    HasVoters voters (replication.withCandidate request) := by
  have votes := (members.voting request.candidateNodeId).mpr candidate
  unfold isVotingMember at votes
  unfold ReplicationState.withCandidate
  split
  · rename_i member found
    exact members.insert_address found request.candidateAddr
  · rename_i absent
    rw [absent] at votes
    cases votes

/-- **What the handler of a vote request does to the ballot**, and what an interruption leaves. -/
theorem handleVoteRequest (heard : Bool) (request : VoteRequest) :
    (∃ next, Handled.Moves voters state id node.persisted
        (node.replication.handleVoteRequest node.config heard request) next ∧
      (request.prevote = false →
        (node.replication.handleVoteRequest node.config heard request).answer.voteGranted = true →
        next.granted id request.candidateNodeId request.term)) ∧
    Interrupted voters state id node.persisted
      (node.replication.handleVoteRequest node.config heard request).writes := by
  unfold ReplicationState.handleVoteRequest
  split
  · exact ⟨⟨state, .stay stands.current stands.stored _, fun _ granted => by cases granted⟩,
      .nil stands.stored⟩
  rename_i known
  split
  · exact ⟨⟨state, .stay stands.current stands.stored _, fun _ granted => by cases granted⟩,
      .nil stands.stored⟩
  rename_i recent
  split
  · rename_i probing
    exact ⟨⟨state, .stay stands.current stands.stored _, fun real => by
      rw [probing] at real; cases real⟩, .nil stands.stored⟩
  obtain ⟨middle, moves, term, interrupted⟩ := stands.enterVoteTerm recent
  have refusal : ∀ term : Nat, (∃ next, Handled.Moves voters state id node.persisted
        ⟨(node.replication.enterVoteTerm request.term).1,
          (node.replication.enterVoteTerm request.term).2, (⟨term, false⟩ : VoteResponse)⟩ next ∧
      (request.prevote = false → false = true →
        next.granted id request.candidateNodeId request.term)) ∧
      Interrupted voters state id node.persisted
        (node.replication.enterVoteTerm request.term).2 := fun term =>
    ⟨⟨middle, ⟨moves.steps, moves.current, moves.stored⟩, fun _ granted => by cases granted⟩,
      interrupted⟩
  dsimp only
  split
  · exact refusal _
  split
  · exact refusal _
  split
  · rename_i free
    have candidate : request.candidateNodeId ∈ voters :=
      (stands.current.members.voting _).mp (by simpa using known)
    have here := moves.current.ballot
    have granting : Steps voters id middle ((middle.setBallot id ⟨(middle.ballot id).term,
        some request.candidateNodeId⟩).grant id request.candidateNodeId
          (middle.ballot id).term) := by
      refine Steps.grant ?_
      rw [here]
      exact free
    have steps := moves.steps.trans granting
    have current : ReplicationState.Stands voters ((middle.setBallot id ⟨(middle.ballot id).term,
        some request.candidateNodeId⟩).grant id request.candidateNodeId (middle.ballot id).term) id
        { (node.replication.enterVoteTerm request.term).1 with
          votedFor := some request.candidateNodeId
          bootstrapPreferred := false
          role := (node.replication.enterVoteTerm request.term).1.steppedDown
          members := (node.replication.enterVoteTerm request.term).1.withCandidate request } :=
      stands_of_follower (withCandidate moves.current.members candidate)
        (by simp [State.grant, here]) moves.current.steppedDown_eq
    have followed := Handled.Moves.written node.persisted steps current
      (node.replication.enterVoteTerm request.term).2
      (⟨(node.replication.enterVoteTerm request.term).1.currentTerm, true⟩ : VoteResponse)
    refine ⟨⟨_, followed, fun _ _ => .inr ⟨rfl, rfl, ?_⟩⟩,
      interrupted.concat steps followed.current.persists⟩
    rw [here]
    exact term.symm
  · exact refusal _

theorem congr {other : Node} (config : other.config = node.config)
    (persisted : other.persisted = node.persisted)
    (same : ReplicationState.SameStanding node.replication other.replication) :
    other.Stands voters state id :=
  ⟨config ▸ stands.configured, stands.current.congr same, persisted ▸ stands.stored⟩

omit stands in
theorem published [Codec] (stands : node.Stands voters state id) :
    node.published.Stands voters state id :=
  stands.congr rfl rfl (sameStanding_publish _ _ _)

end Node.Stands

theorem ReplicationState.new_role (config : ReplicationConfig)
    (persisted : Option PersistedReplicationState) :
    (ReplicationState.new config persisted).role =
      if 1 < (voterMembers (ReplicationState.new config persisted).members).length ∧
          config.role ≠ .standalone then .follower
      else config.role := by
  simp only [ReplicationState.new, voterMembers, decide_eq_true_eq]

theorem ReplicationState.new_members (config : ReplicationConfig)
    {written : PersistedReplicationState} (voting : HasVoters voters (membersOf written.members))
    (votes : config.nodeId ∈ voters) :
    (ReplicationState.new config (some written)).members = membersOf written.members := by
  have listed : (membersOf written.members).contains config.nodeId = true := by
    have found := (voting.voting config.nodeId).mpr votes
    unfold isVotingMember at found
    split at found
    · rename_i member here
      rw [Std.ExtTreeMap.contains_eq_isSome_getElem?, here]
      rfl
    · cases found
  unfold ReplicationState.new
  dsimp only
  split
  · rw [if_pos listed]
  · rfl

theorem Persists.starts {config : ReplicationConfig} (stored : Persists voters state id persisted)
    (configured : Configured voters id config) :
    HasVoters voters (ReplicationState.new config persisted).members ∧
      (ReplicationState.new config persisted).role = .follower ∧
      state.ballot id = ⟨(ReplicationState.new config persisted).currentTerm,
        (ReplicationState.new config persisted).votedFor⟩ := by
  have votes : config.nodeId ∈ voters := configured.named ▸ configured.votes
  cases persisted with
  | none => exact ⟨configured.members, configured.follows, stored⟩
  | some saved =>
    have members := new_members config stored.2 votes
    have voting : HasVoters voters (ReplicationState.new config (some saved)).members :=
      members ▸ stored.2
    refine ⟨voting, ?_, stored.1⟩
    have first := configured.follows
    rw [new_role, configured.members.length_voterMembers] at first
    rw [new_role, voting.length_voterMembers]
    exact first

/-- **A restart brings the ballot back**, and makes a follower. -/
theorem Node.stands_of_restart [Codec] {node next : Node} {nowMs : Nat}
    (configured : Configured voters id node.config)
    (stored : Persists voters state id node.persisted)
    (restarted : node.restart nowMs = some next) :
    next.Stands voters state id ∧ next.replication.role = .follower := by
  unfold Node.restart at restarted
  split at restarted
  · cases restarted
  · cases restarted
    obtain ⟨members, role, ballot⟩ := stored.starts configured
    refine ⟨Node.Stands.published ⟨configured,
      stands_of_follower members ballot role, stored⟩, ?_⟩
    exact (sameStanding_publish _ _ _).role.trans role

namespace Node.Stands

variable [Codec] {voters : Finset NodeId} {state : State NodeId} {id : NodeId} {node : Node}

variable (stands : node.Stands voters state id)
include stands

theorem handleAppend (nowMs : Nat) {request : AppendEntriesRequest}
    (won : state.won request.leaderNodeId request.term)
    (voting : HasVoters voters (membersOf request.members)) :
    ∃ next, Steps voters id state next ∧
      (node.handleAppend nowMs request).1.Stands voters next id := by
  obtain ⟨next, moves⟩ := stands.handleHeartbeat request.heartbeat won voting
  have heard := moves.after stands.configured
  have same := node.sameStanding_handleAppend nowMs request
  exact ⟨next, moves.steps, heard.congr same.config same.persisted same.replication⟩

omit [Codec] in
theorem handleAppendReply (follower : NodeId) (term : Nat) (response : AppendEntriesResponse) :
    ∃ next, Steps voters id state next ∧
      (node.handleAppendReply follower term response).Stands voters next id := by
  unfold Node.handleAppendReply
  split
  · obtain ⟨next, moves⟩ := stands.observeRemoteTerm response.term
    exact ⟨next, moves.steps, moves.after stands.configured⟩
  · exact ⟨state, Steps.refl voters id state, stands.congr rfl rfl
      (recounts_recordAppendResult _ _ _ _ _ _ _).sameStanding⟩

theorem rollback {nowMs : Nat}
    {replication : ReplicationState} {engine : Engine}
    (done : rollbackUncommittedTail node.config node.replication node.engine nowMs =
      .ok (replication, engine)) :
    Node.Stands voters state id { node with replication := replication, engine := engine } := by
  refine stands.congr rfl rfl ?_
  unfold rollbackUncommittedTail at done
  split at done
  · cases done
    exact ⟨rfl, rfl, rfl, rfl⟩
  · split at done
    · cases done
    · cases done
      exact sameStanding_publish _ _ _

end Node.Stands

end Vaylix

import Vaylix.Cluster.Setup
import Vaylix.Cluster.Events

/-!
# Election safety

The ballots of all nodes, the votes in flight and the votes counted belong to one majority
election by term, so a term has at most one leader. Nothing is assumed of the logs, the clocks
or the order of messages.
-/

namespace Vaylix

open Ballots LabelledRun Majority ReplicationState

/-- What a message in flight says about the election. -/
def Message.Holds (voters : Finset NodeId) (state : State NodeId) : Message → Prop
  | .voteResponse source request response => source ∈ voters ∧
      (request.prevote = false → response.voteGranted = true →
        state.granted source request.candidateNodeId request.term)
  | .heartbeat _ request => state.won request.leaderNodeId request.term ∧
      HasVoters voters (membersOf request.members)
  | .append _ request => state.won request.leaderNodeId request.term ∧
      HasVoters voters (membersOf request.members)
  | .status _ leader | .fetched _ leader _ => state.won leader.leaderNodeId leader.term ∧
      HasVoters voters (membersOf leader.members)
  | _ => True

/-- The counted votes are those of different voters that support the candidate. -/
structure ElectionRound.Counts (voters : Finset NodeId) (supports : NodeId → Prop) (id : NodeId)
    (round : ElectionRound) : Prop where
  awaits : round.awaiting.Nodup ∧ id ∉ round.awaiting
  size : round.voterCount = voters.card
  counted : ∃ supporters : Finset NodeId, supporters ⊆ voters ∧ id ∉ supporters ∧
    (∀ voter ∈ supporters, voter ∉ round.awaiting ∧ supports voter) ∧
    round.votesGranted = supporters.card + 1

namespace ElectionRound.Counts

variable {voters : Finset NodeId} {supports : NodeId → Prop} {id : NodeId} {round : ElectionRound}

theorem start {awaiting : List NodeId} (awaits : awaiting.Nodup ∧ id ∉ awaiting) (term : Nat) :
    ElectionRound.Counts voters supports id ⟨term, awaiting, 1, voters.card⟩ :=
  ⟨awaits, rfl, ∅, by simp, by simp, by simp, by simp⟩

variable (counts : round.Counts voters supports id)
include counts

theorem mono {more : NodeId → Prop} (imply : ∀ voter, supports voter → more voter) :
    round.Counts voters more id := by
  obtain ⟨supporters, voting, other, support, votes⟩ := counts.counted
  exact ⟨counts.awaits, counts.size, supporters, voting, other,
    fun voter inside => ⟨(support voter inside).1, imply voter (support voter inside).2⟩, votes⟩

theorem failed (source : NodeId) :
    ElectionRound.Counts voters supports id
      { round with awaiting := round.awaiting.erase source } := by
  obtain ⟨supporters, voting, other, support, votes⟩ := counts.counted
  exact ⟨⟨counts.awaits.1.erase source, fun still =>
    counts.awaits.2 (List.mem_of_mem_erase still)⟩, counts.size, supporters, voting, other,
    fun voter inside => ⟨fun still => (support voter inside).1 (List.mem_of_mem_erase still),
      (support voter inside).2⟩, votes⟩

theorem granted {source : NodeId} (awaited : source ∈ round.awaiting) (voting : source ∈ voters)
    (support : supports source) :
    ElectionRound.Counts voters supports id { round with
      awaiting := round.awaiting.erase source, votesGranted := round.votesGranted + 1 } := by
  obtain ⟨supporters, inside, other, supported, votes⟩ := counts.counted
  have fresh : source ∉ supporters := fun counted => (supported source counted).1 awaited
  refine ⟨⟨counts.awaits.1.erase source, fun still =>
    counts.awaits.2 (List.mem_of_mem_erase still)⟩, counts.size, insert source supporters,
    Finset.insert_subset voting inside, ?_, ?_, ?_⟩
  · rw [Finset.mem_insert, not_or]
    exact ⟨fun same => counts.awaits.2 (same ▸ awaited), other⟩
  · intro voter counted
    rcases Finset.mem_insert.mp counted with rfl | old
    · exact ⟨counts.awaits.1.not_mem_erase, support⟩
    · exact ⟨fun still => (supported voter old).1 (List.mem_of_mem_erase still),
        (supported voter old).2⟩
  · rw [Finset.card_insert_of_notMem fresh, votes]

theorem majority (member : id ∈ voters)
    (enough : quorumSize (max round.voterCount 1) ≤ round.votesGranted) :
    ∃ supporters, IsMajority voters (insert id supporters) ∧
      ∀ voter ∈ supporters, supports voter := by
  obtain ⟨supporters, voting, other, support, votes⟩ := counts.counted
  refine ⟨supporters, ⟨Finset.insert_subset member voting, ?_⟩,
    fun voter inside => (support voter inside).2⟩
  rw [Finset.card_insert_of_notMem other]
  have size := counts.size
  simp only [quorumSize] at enough
  omega

end ElectionRound.Counts

namespace Message.Holds

variable {voters : Finset NodeId} {state next : State NodeId} {voter : NodeId}

theorem mono {message : Message} (holds : message.Holds voters state)
    (steps : Steps voters voter state next) : message.Holds voters next := by
  cases message with
  | voteResponse source request response =>
    exact ⟨holds.1, fun real granted => steps.granted _ _ _ (holds.2 real granted)⟩
  | heartbeat | append | status | fetched => exact ⟨steps.won _ _ holds.1, holds.2⟩
  | _ => trivial

end Message.Holds

structure Cluster.Elects (voters : Finset NodeId) (cluster : Cluster) (state : State NodeId) :
    Prop where
  safe : Safe voters state
  nodes : ∀ id ∈ cluster.voters, (cluster.nodes id).Stands voters state id
  rounds : ∀ id ∈ cluster.voters, ∀ round, cluster.rounds id = some round →
    round.Counts voters (fun voter => state.granted voter id round.term) id
  network : ∀ message ∈ cluster.network, message.Holds voters state
  elections : ∀ election ∈ cluster.elections, state.won election.node election.term

def Cluster.Elected (voters : Finset NodeId) (cluster : Cluster) : Prop :=
  ∃ state, cluster.Elects voters state

namespace Cluster.Elects

variable {voters : Finset NodeId} {cluster : Cluster} {state next : State NodeId} {id : NodeId}

variable {node : Node}

variable (elects : cluster.Elects voters state)
include elects

theorem setNode (steps : Steps voters id state next) (stands : node.Stands voters next id) :
    (cluster.setNode id node).Elects voters next := by
  refine ⟨elects.safe.steps steps.taken, ?_, ?_, ?_, ?_⟩
  · intro other member
    by_cases same : other = id
    · subst same
      simpa [Cluster.setNode] using stands
    · simp only [Cluster.setNode, Function.update_of_ne same]
      exact (elects.nodes other member).mono steps same
  · exact fun other member round running =>
      (elects.rounds other member round running).mono fun voter => steps.granted _ _ _
  · exact fun message inside => (elects.network message inside).mono steps
  · exact fun election inside => steps.won _ _ (elects.elections election inside)

theorem setNode_same (stands : node.Stands voters state id) :
    (cluster.setNode id node).Elects voters state :=
  elects.setNode (Steps.refl voters id state) stands

theorem send {messages : List Message} (hold : ∀ message ∈ messages, message.Holds voters state) :
    (cluster.send messages).Elects voters state :=
  ⟨elects.safe, elects.nodes, elects.rounds,
    fun message inside => (List.mem_append.mp inside).elim (hold message)
      (elects.network message), elects.elections⟩

theorem setRound (id : NodeId) (round : Option ElectionRound)
    (counts : ∀ running, round = some running →
      running.Counts voters (fun voter => state.granted voter id running.term) id) :
    (cluster.setRound id round).Elects voters state := by
  refine ⟨elects.safe, elects.nodes, ?_, elects.network, elects.elections⟩
  intro other member running found
  by_cases same : other = id
  · subst same
    simp only [Cluster.setRound, Function.update_self] at found
    exact counts running found
  · simp only [Cluster.setRound, Function.update_of_ne same] at found
    exact elects.rounds other member running found

theorem share (entries : List WalEntry) :
    (cluster.share entries).Elects voters state :=
  ⟨elects.safe, elects.nodes, elects.rounds, elects.network, elects.elections⟩

theorem setLock (id : NodeId) (lock : Option Nat) :
    (cluster.setLock id lock).Elects voters state :=
  ⟨elects.safe, elects.nodes, elects.rounds, elects.network, elects.elections⟩

theorem setReport (id : NodeId) (report : Option LogAppendResult) :
    (cluster.setReport id report).Elects voters state :=
  ⟨elects.safe, elects.nodes, elects.rounds, elects.network, elects.elections⟩

theorem beginElection (member : id ∈ cluster.voters)
    (below : (cluster.nodes id).replication.currentTerm < u64Max) :
    ∃ next, (cluster.beginElection id).Elects voters next := by
  have stands := elects.nodes id member
  obtain ⟨next, moves⟩ := stands.beginElection below
  have moved := moves.after stands.configured
  refine ⟨next, (((elects.setNode moves.steps moved).setRound id _ ?_).send ?_).share _⟩
  · rintro _ ⟨⟩
    have members := moved.current.members
    rw [members.length_voterMembers]
    exact ElectionRound.Counts.start ⟨members.nodup_voterMembers.filter _,
      by simp [moved.configured.named]⟩ _
  · exact List.forall_mem_map.mpr fun _ _ => trivial

theorem handleVote (member : id ∈ cluster.voters) (heard : Bool) (request : VoteRequest) :
    ∃ next, (cluster.handleVote id heard request).Elects voters next := by
  have stands := elects.nodes id member
  obtain ⟨⟨next, moves, granted⟩, -⟩ := stands.handleVoteRequest heard request
  refine ⟨next, (elects.setNode moves.steps (moves.after stands.configured)).send ?_⟩
  exact List.forall_mem_singleton.mpr ⟨stands.configured.votes, granted⟩

theorem finalized (member : id ∈ cluster.voters) {round : ElectionRound}
    (running : cluster.rounds id = some round) :
    ∃ next, (((cluster.setNode id ((cluster.nodes id).after
        (cluster.finalized id round))).setRound id none).Elects voters next) ∧
      ((cluster.finalized id round).answer = true → next.won id round.term) := by
  have stands := elects.nodes id member
  have counts := elects.rounds id member round running
  have kept := (elects.setNode_same (Handled.Moves.after stands.configured
    (.stay stands.current stands.stored false))).setRound id none (by rintro _ ⟨⟩)
  unfold Cluster.finalized ReplicationState.finalizeElection
  split
  · exact ⟨state, kept, by rintro ⟨⟩⟩
  rename_i current
  obtain ⟨sameTerm, candidate⟩ := not_or.mp current
  rw [not_not] at sameTerm candidate
  split
  · exact ⟨state, kept, by rintro ⟨⟩⟩
  rename_i enough
  -- The counted votes and the node's own one are a majority.
  obtain ⟨supporters, majority, support⟩ :=
    counts.majority stands.configured.votes (Nat.le_of_not_lt enough)
  have self := stands.current.runs candidate
  have steps : Steps voters id state (state.win id round.term) := by
    refine Steps.win majority ?_
    intro voter inside
    rcases Finset.mem_insert.mp inside with rfl | counted
    · exact sameTerm ▸ self
    · exact support voter counted
  have stood : ReplicationState.Stands voters (state.win id round.term) id
      { (cluster.nodes id).replication with
        role := .leader
        followers := ∅
        leaderTargetSequence := 0
        bootstrapPreferred := false
        leaderNodeId := some (cluster.nodes id).config.nodeId
        leaderAdvertiseAddr :=
          (cluster.nodes id).replication.localAdvertiseAddr (cluster.nodes id).config } :=
    ⟨stands.current.members, stands.current.ballot, by simp,
      fun _ => .inr ⟨rfl, sameTerm⟩, by rintro ⟨⟩⟩
  have moves := Handled.Moves.written (cluster.nodes id).persisted steps stood [] true
  exact ⟨_, (elects.setNode steps (moves.after stands.configured)).setRound id none
    (by rintro _ ⟨⟩), fun _ => .inr ⟨rfl, rfl⟩⟩

omit elects

variable [Codec]

theorem withRestarted (elects : cluster.Elects voters state) (steps : Steps voters id state next)
    {fresh : Node} {nowMs : Nat} (configured : Configured voters id node.config)
    (stored : Persists voters next id node.persisted)
    (restarted : node.restart nowMs = some fresh) :
    (cluster.withRestarted id fresh).Elects voters next := by
  obtain ⟨stands, -⟩ := Node.stands_of_restart configured stored restarted
  exact (((elects.setNode steps stands).setLock id none).setRound id none
    (by rintro _ ⟨⟩)).setReport id none

theorem withWritten (elects : cluster.Elects voters state) (member : id ∈ cluster.voters)
    (action : EngineAction) : (cluster.withWritten id action).Elects voters state := by
  have performed : Node.Stands voters state id { cluster.nodes id with
      engine := action.perform (cluster.writer id) } :=
    (elects.nodes id member).congr rfl rfl ⟨rfl, rfl, rfl, rfl⟩
  have moved := elects.setNode_same performed.published
  exact ⟨moved.safe, moved.nodes, moved.rounds, moved.network, moved.elections⟩

variable (stands : node.Stands voters state id)
include stands

omit [Codec] in
theorem leaderHeartbeatPayload {payload : HeartbeatRequest}
    (leading : node.replication.leaderHeartbeatPayload node.config = some payload) :
    state.won payload.leaderNodeId payload.term ∧
      HasVoters voters (membersOf payload.members) := by
  unfold ReplicationState.leaderHeartbeatPayload at leading
  split at leading
  · cases leading
  · rename_i leader
    cases leading
    refine ⟨stands.configured.named ▸ stands.current.leads (not_not.mp leader), ?_⟩
    dsimp only
    rw [stands.current.members.membersOf_memberList]
    exact stands.current.members

theorem appendRequest {target : NodeId} {request : AppendEntriesRequest}
    (built : node.appendRequest target = some request) :
    state.won request.leaderNodeId request.term ∧
      HasVoters voters (membersOf request.members) := by
  unfold Node.appendRequest at built
  split at built
  · rename_i payload member prev cached leading planned read
    have sent := leaderHeartbeatPayload stands leading
    split at built
    · cases built
      exact sent
    · obtain ⟨entry, -, rfl⟩ := Option.map_eq_some_iff.mp built
      exact sent
  · cases built

omit [Codec] in
theorem leaderStatus {status : LeaderStatus}
    (leading : node.replication.leaderStatus node.config = some status) :
    state.won status.leaderNodeId status.term ∧ HasVoters voters (membersOf status.members) := by
  unfold ReplicationState.leaderStatus at leading
  split at leading
  · cases leading
  · rename_i leader
    cases leading
    refine ⟨stands.configured.named ▸ stands.current.leads (not_not.mp leader), ?_⟩
    dsimp only
    rw [stands.current.members.membersOf_memberList]
    exact stands.current.members

theorem applyFetched {after : Node} {status : LeaderStatus} {entries : List WalEntry}
    {applied : Nat} (done : node.applyFetched status entries = some (after, applied)) :
    after.Stands voters state id := by
  unfold Node.applyFetched at done
  dsimp only at done
  split at done
  · cases done
  split at done
  · cases done
    exact stands
  split at done
  · cases done
  split at done
  · cases done
  · cases done
    exact stands.congr rfl rfl (sameStanding_publish _ _ _)

end Cluster.Elects

/-- Terms stay below the largest one: an election starts from a smaller term. -/
def Cluster.TermsBounded (cluster : Cluster) : ClusterEvent → Prop
  | .candidacy id => (cluster.nodes id).replication.currentTerm < u64Max
  | _ => True

instance : ∀ cluster event, Decidable (Cluster.TermsBounded cluster event) := fun _ event => by
  cases event <;> unfold Cluster.TermsBounded <;> infer_instance

namespace Cluster

variable [Codec] {voters : Finset NodeId} {cluster next : Cluster} {state : State NodeId}

/-- **Every event keeps the cluster in agreement with a safe election.** -/
theorem Elects.step (elects : cluster.Elects voters state) {event : ClusterEvent}
    (bounded : cluster.TermsBounded event) (taken : cluster.step event = some next) :
    next.Elected voters := by
  obtain ⟨member, acts⟩ := acts_of_step taken
  have stands := fun id actor => elects.nodes id (member id actor)
  cases acts with
  | probe id =>
    exact ⟨state, elects.send (List.forall_mem_map.mpr fun _ _ => trivial)⟩
  | candidacy id => exact elects.beginElection (member id rfl) bounded
  | vote id heard request => exact elects.handleVote (member id rfl) heard request
  | voteCrash id heard request writes nowMs node inFlight unlocked restarted =>
    obtain ⟨-, interrupted⟩ := (stands id rfl).handleVoteRequest heard request
    obtain ⟨reached, steps, stored⟩ := interrupted writes
    exact ⟨reached, elects.withRestarted steps (by exact (stands id rfl).configured)
      (by exact stored) restarted⟩
  | laterTerm id source request response round inFlight running =>
    obtain ⟨moved, moves⟩ := (stands id rfl).observeRemoteTerm response.term
    exact ⟨moved, (elects.setNode moves.steps (moves.after (stands id rfl).configured)).setRound
      id none (by rintro _ ⟨⟩)⟩
  | counted id source request response round inFlight running awaited =>
    refine ⟨state, elects.setRound id _ ?_⟩
    rintro _ ⟨⟩
    have counts := elects.rounds id (member id rfl) round running
    obtain ⟨voting, granted⟩ := elects.network _ inFlight
    cases vote : response.voteGranted with
    | false => exact counts.failed source
    | true =>
      exact counts.granted awaited.awaited voting
        (awaited.mine ▸ awaited.term ▸ granted awaited.real vote)
  | voteFailed id source round running =>
    refine ⟨state, elects.setRound id _ ?_⟩
    rintro _ ⟨⟩
    exact (elects.rounds id (member id rfl) round running).failed source
  | notElected id round running =>
    obtain ⟨moved, ended, -⟩ := elects.finalized (member id rfl) running
    exact ⟨moved, ended⟩
  | elected id round running complete won =>
    obtain ⟨moved, ended, wins⟩ := elects.finalized (member id rfl) running
    exact ⟨moved, ended.safe, ended.nodes, ended.rounds, ended.network,
      List.forall_mem_cons.mpr ⟨wins won, ended.elections⟩⟩
  | noop id createdAtMs => exact ⟨state, elects.withWritten (member id rfl) _⟩
  | livenessRead id => exact ⟨state, elects.setReport id _⟩
  | livenessSend id report messages read sent =>
    have published : Node.Stands voters state id (cluster.livenessNode id report) :=
      (stands id rfl).congr rfl rfl (sameStanding_publish _ _ _)
    refine ⟨state, ((elects.setNode_same published).setReport id none).send ?_⟩
    intro message inside
    obtain ⟨peer, payload, rfl, leading⟩ := sent message inside
    exact Elects.leaderHeartbeatPayload published leading
  | heartbeat id request inFlight =>
    obtain ⟨won, voting⟩ := elects.network _ inFlight
    obtain ⟨moved, moves⟩ := (stands id rfl).handleHeartbeat request won voting
    refine ⟨moved, (elects.setNode moves.steps (moves.after (stands id rfl).configured)).send ?_⟩
    exact List.forall_mem_singleton.mpr trivial
  | heartbeatReply id term response =>
    obtain ⟨moved, moves⟩ := (stands id rfl).observeRemoteTerm response.term
    exact ⟨moved, elects.setNode moves.steps (moves.after (stands id rfl).configured)⟩
  | appendSend id target request built =>
    refine ⟨state, ((elects.setNode_same (stands id rfl).published).send ?_).share _⟩
    exact List.forall_mem_singleton.mpr (Elects.appendRequest (stands id rfl).published built)
  | append id nowMs request messages inFlight unlocked sent =>
    obtain ⟨won, voting⟩ := elects.network _ inFlight
    obtain ⟨moved, steps, after⟩ := (stands id rfl).handleAppend nowMs won voting
    refine ⟨moved, (elects.setNode steps after).send ?_⟩
    intro message inside
    obtain ⟨response, -, rfl⟩ := sent message inside
    trivial
  | appendReply id source term response =>
    obtain ⟨moved, steps, after⟩ := (stands id rfl).handleAppendReply source term response
    exact ⟨moved, elects.setNode steps after⟩
  | write id action => exact ⟨state, (elects.withWritten (member id rfl) action).setLock id _⟩
  | writeEnd id =>
    refine ⟨state, (elects.setNode_same ?_).setLock id none⟩
    exact (stands id rfl).congr rfl rfl ⟨rfl, rfl, rfl, rfl⟩
  | rollbackFailed id => exact ⟨state, elects.setLock id none⟩
  | rollback id nowMs frontier replication engine locked done =>
    exact ⟨state, (elects.setLock id none).setNode_same ((stands id rfl).rollback done)⟩
  | status id target report reported =>
    refine ⟨state, elects.send ?_⟩
    exact List.forall_mem_singleton.mpr (Elects.leaderStatus (stands id rfl) reported)
  | statusObserve id report inFlight =>
    obtain ⟨won, voting⟩ := elects.network _ inFlight
    obtain ⟨moved, moves⟩ := (stands id rfl).observeLeaderStatus won voting
    exact ⟨moved, elects.setNode moves.steps (moves.after (stands id rfl).configured)⟩
  | fetch id report entries inFlight =>
    refine ⟨state, (elects.send ?_).share _⟩
    have reported := elects.network _ inFlight
    exact List.forall_mem_singleton.mpr reported
  | fetched id report entries node applied inFlight unlocked done =>
    refine ⟨state, (elects.setNode_same (Elects.applyFetched (stands id rfl) done)).send ?_⟩
    exact List.forall_mem_singleton.mpr trivial
  | ack id follower appliedSequence term =>
    exact ⟨state, elects.setNode_same ((stands id rfl).congr rfl rfl
      (recounts_registerFollowerAck _ _ _ _ _ _).sameStanding)⟩
  | crash id nowMs node restarted =>
    exact ⟨state, elects.withRestarted (Steps.refl voters id state) (stands id rfl).configured
      (stands id rfl).stored restarted⟩
  | drop message =>
    exact ⟨state, elects.safe, elects.nodes, elects.rounds,
      fun kept inside => elects.network kept (List.mem_of_mem_erase inside), elects.elections⟩

variable {ids : List NodeId} {configs : NodeId → ReplicationConfig}

theorem elects_initial (configured : ∀ id ∈ ids, Configured ids.toFinset id (configs id))
    (options : EngineOptions) (startMs : Nat) :
    (Cluster.initial ids configs options startMs).Elects ids.toFinset
      ⟨fun _ => ⟨0, none⟩, fun _ _ _ => False, fun _ _ => False⟩ := by
  refine ⟨Safe.initial _, ?_, ?_, ?_, ?_⟩
  · intro id member
    have here := configured id member
    exact Node.Stands.published ⟨here,
      stands_of_follower here.members rfl here.follows, rfl⟩
  · rintro id - round ⟨⟩
  · rintro message ⟨⟩
  · rintro election ⟨⟩

/-- Every run agrees with a safe election. -/
theorem elects_of_run (configured : ∀ id ∈ ids, Configured ids.toFinset id (configs id))
    {options : EngineOptions} {startMs : Nat} {events : List ClusterEvent}
    (bounded : Meets Cluster.step TermsBounded (initial ids configs options startMs) events)
    (reached : run Cluster.step (initial ids configs options startMs) events = some cluster) :
    cluster.Elected ids.toFinset := by
  have initially : (initial ids configs options startMs).Elected ids.toFinset :=
    ⟨_, elects_initial configured options startMs⟩
  exact invariant_of_meets (fun _ _ _ ⟨_, elects⟩ condition taken => elects.step condition taken)
    initially bounded reached

/-- **At most one leader per term.** The elections that were won in one term were won by one node,
and whoever leads in a term is that node. -/
theorem election_safety (ids : List NodeId) (configs : NodeId → ReplicationConfig)
    (options : EngineOptions) (startMs : Nat)
    (configured : ∀ id ∈ ids, Configured ids.toFinset id (configs id))
    (events : List ClusterEvent) (cluster : Cluster)
    (bounded : Meets Cluster.step TermsBounded (initial ids configs options startMs) events)
    (reached : run Cluster.step (initial ids configs options startMs) events = some cluster) :
    (∀ first ∈ cluster.elections, ∀ second ∈ cluster.elections,
      first.term = second.term → first.node = second.node) ∧
    ∀ leader ∈ cluster.voters, (cluster.nodes leader).replication.role = .leader →
      (∀ election ∈ cluster.elections,
        election.term = (cluster.nodes leader).replication.currentTerm →
          election.node = leader) ∧
      ∀ other ∈ cluster.voters, (cluster.nodes other).replication.role = .leader →
        (cluster.nodes other).replication.currentTerm =
          (cluster.nodes leader).replication.currentTerm → other = leader := by
  obtain ⟨state, elects⟩ := elects_of_run configured bounded reached
  refine ⟨?_, ?_⟩
  · intro first firstWon second secondWon same
    exact elects.safe.unique _ _ _ (elects.elections first firstWon)
      (same ▸ elects.elections second secondWon)
  · intro leader member leads
    have won := (elects.nodes leader member).current.leads leads
    refine ⟨?_, ?_⟩
    · intro election inside same
      exact elects.safe.unique _ _ _ (elects.elections election inside) (same ▸ won)
    · intro other otherMember otherLeads same
      exact elects.safe.unique _ _ _ ((elects.nodes other otherMember).current.leads otherLeads)
        (same ▸ won)

end Cluster

section Runs

open Sample Cluster

def threeVoters : Cluster := initial ["a", "b", "c"] (equalVoter ["a", "b", "c"] 2) ⟨0, 0⟩ 0

def firstVoteRequest : VoteRequest := ⟨1, "a", "a", 0, none, false⟩

/-- The first voter is elected, goes down, and the third one is elected in the next term. -/
def twoElections : List ClusterEvent :=
  [.probe "a", .candidacy "a", .vote "b" false firstVoteRequest,
    .voteReply "a" "b" firstVoteRequest ⟨1, true⟩, .voteFailed "a" "c", .electionEnd "a",
    .crash "a" 1, .vote "c" false firstVoteRequest, .candidacy "c",
    .vote "a" false ⟨2, "c", "c", 0, none, false⟩,
    .voteReply "c" "a" ⟨2, "c", "c", 0, none, false⟩ ⟨2, true⟩, .voteFailed "c" "b",
    .electionEnd "c"]

theorem election_safety_twice :
    ∃ cluster, run Cluster.step threeVoters twoElections = some cluster ∧
      cluster.elections.map Election.node = ["c", "a"] ∧
      ((∀ first ∈ cluster.elections, ∀ second ∈ cluster.elections,
        first.term = second.term → first.node = second.node) ∧
      ∀ leader ∈ cluster.voters, (cluster.nodes leader).replication.role = .leader →
        (∀ election ∈ cluster.elections,
          election.term = (cluster.nodes leader).replication.currentTerm →
            election.node = leader) ∧
        ∀ other ∈ cluster.voters, (cluster.nodes other).replication.role = .leader →
          (cluster.nodes other).replication.currentTerm =
            (cluster.nodes leader).replication.currentTerm → other = leader) := by
  obtain ⟨cluster, reached, names⟩ : ∃ cluster ∈ run Cluster.step threeVoters twoElections,
      cluster.elections.map Election.node = ["c", "a"] := by decide +kernel
  exact ⟨cluster, reached, names, election_safety _ _ _ _ (configured_equalVoter _ _) _ _
    (by decide +kernel) reached⟩

end Runs

end Vaylix

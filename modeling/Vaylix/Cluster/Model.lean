import Mathlib.Logic.Function.Basic
import Vaylix.Engine.LogGrowth
import Vaylix.Lib.Run
import Vaylix.Server.PullRound

/-!
# A cluster of nodes

The network delays, repeats, reorders and loses messages. An event is one atomic part of what
the source does: a handler that holds the apply lock, a client write up to its publication,
the rollback that ends it, one step of an election round, a crash and the restart after it. An
election may start at any time. Not among the events are the writes of `RESTORE FROM`, which
take no lock, and writes that fail or are not published.
-/

namespace Vaylix

/-- An answer remembers the request, or its term, that the caller compares it with. -/
inductive Message where
  | voteRequest (target : NodeId) (request : VoteRequest)
  | voteResponse (source : NodeId) (request : VoteRequest) (response : VoteResponse)
  | heartbeat (target : NodeId) (request : HeartbeatRequest)
  | heartbeatResponse (target : NodeId) (term : Nat) (response : HeartbeatResponse)
  | append (target : NodeId) (request : AppendEntriesRequest)
  | appendResponse (target source : NodeId) (term : Nat) (response : AppendEntriesResponse)
  | status (target : NodeId) (status : LeaderStatus)
  | fetched (target : NodeId) (status : LeaderStatus) (entries : List WalEntry)
  | ack (target follower : NodeId) (appliedSequence term : Nat)
deriving DecidableEq, Repr

structure ElectionRound where
  term : Nat
  awaiting : List NodeId
  votesGranted : Nat
  voterCount : Nat
deriving DecidableEq, Repr

structure Election where
  node : NodeId
  term : Nat
  log : List WalEntry
deriving DecidableEq, Repr

/-- `locks` holds the frontier of the write that has the apply lock of a node. `written` are the
entries that clients have caused, and `shared` those that another node may count on: the log up to
the end of an append request, the answer to a pull, and the log of a node that asks for votes. -/
structure Cluster where
  voters : List NodeId
  nodes : NodeId → Node
  locks : NodeId → Option Nat
  rounds : NodeId → Option ElectionRound
  reports : NodeId → Option LogAppendResult
  network : List Message
  elections : List Election
  written : List WalEntry
  shared : List WalEntry

inductive ClusterEvent where
  | probe (id : NodeId)
  | candidacy (id : NodeId)
  | vote (id : NodeId) (heard : Bool) (request : VoteRequest)
  | voteCrash (id : NodeId) (heard : Bool) (request : VoteRequest) (writes nowMs : Nat)
  | voteReply (id source : NodeId) (request : VoteRequest) (response : VoteResponse)
  | voteFailed (id source : NodeId)
  | electionEnd (id : NodeId)
  | noop (id : NodeId) (createdAtMs : Nat)
  | livenessRead (id : NodeId)
  | livenessSend (id : NodeId)
  | heartbeat (id : NodeId) (request : HeartbeatRequest)
  | heartbeatReply (id : NodeId) (term : Nat) (response : HeartbeatResponse)
  | appendSend (id target : NodeId)
  | append (id : NodeId) (nowMs : Nat) (request : AppendEntriesRequest)
  | appendReply (id source : NodeId) (term : Nat) (response : AppendEntriesResponse)
  | write (id : NodeId) (action : EngineAction)
  | writeEnd (id : NodeId)
  | rollback (id : NodeId) (nowMs : Nat)
  | status (id target : NodeId)
  | statusObserve (id : NodeId) (status : LeaderStatus)
  | fetch (id : NodeId) (status : LeaderStatus)
  | fetched (id : NodeId) (status : LeaderStatus) (entries : List WalEntry)
  | ack (id follower : NodeId) (appliedSequence term : Nat)
  | crash (id : NodeId) (nowMs : Nat)
  | drop (message : Message)

def ClusterEvent.actor : ClusterEvent → Option NodeId
  | .probe id | .candidacy id | .vote id _ _ | .voteCrash id _ _ _ _ | .voteReply id _ _ _
  | .voteFailed id _ | .electionEnd id | .noop id _ | .livenessRead id | .livenessSend id
  | .heartbeat id _ | .heartbeatReply id _ _ | .appendSend id _ | .append id _ _
  | .appendReply id _ _ _ | .write id _ | .writeEnd id | .rollback id _ | .status id _
  | .statusObserve id _ | .fetch id _ | .fetched id _ _ | .ack id _ _ _ | .crash id _ => some id
  | .drop _ => none

namespace Node

def peers (node : Node) : List NodeId :=
  ((voterMembers node.replication.members).map ClusterMember.nodeId).filter fun id =>
    decide (id ≠ node.config.nodeId)

def voteRequests (node : Node) (term : Nat) (prevote : Bool) : List Message :=
  let request := node.replication.voteRequest node.config term
    ((node.replication.localAdvertiseAddr node.config).getD "") prevote
  node.peers.map fun peer => .voteRequest peer request

end Node

namespace Cluster

variable [Codec] (cluster : Cluster)

def setNode (id : NodeId) (node : Node) : Cluster :=
  { cluster with nodes := Function.update cluster.nodes id node }

def setLock (id : NodeId) (lock : Option Nat) : Cluster :=
  { cluster with locks := Function.update cluster.locks id lock }

def setRound (id : NodeId) (round : Option ElectionRound) : Cluster :=
  { cluster with rounds := Function.update cluster.rounds id round }

def setReport (id : NodeId) (report : Option LogAppendResult) : Cluster :=
  { cluster with reports := Function.update cluster.reports id report }

def send (messages : List Message) : Cluster :=
  { cluster with network := messages ++ cluster.network }

def share (entries : List WalEntry) : Cluster :=
  { cluster with shared := entries ++ cluster.shared }

def restartNode (id : NodeId) (nowMs : Nat) (node : Node) : Option Cluster :=
  (node.restart nowMs).map fun restarted =>
    (((cluster.setNode id restarted).setLock id none).setRound id none).setReport id none

def beginElection (id : NodeId) : Cluster :=
  let node := (cluster.nodes id).after
    ((cluster.nodes id).replication.beginElection (cluster.nodes id).config)
  let term := node.replication.currentTerm
  let round := ⟨term, node.peers, 1, (voterMembers node.replication.members).length⟩
  (((cluster.setNode id node).setRound id (some round)).send
    (node.voteRequests term false)).share node.engine.walEntries

def handleVote (id : NodeId) (heard : Bool) (request : VoteRequest) : Cluster :=
  let node := cluster.nodes id
  let handled := node.replication.handleVoteRequest node.config heard request
  (cluster.setNode id (node.after handled)).send [.voteResponse id request handled.answer]

/-- The node goes down after some of the writes of the handler of a vote request. -/
def crashInVote (id : NodeId) (heard : Bool) (request : VoteRequest)
    (writes nowMs : Nat) : Option Cluster :=
  let node := cluster.nodes id
  let handled := node.replication.handleVoteRequest node.config heard request
  cluster.restartNode id nowMs { node with
    persisted := ((handled.writes.take writes).getLast?).or node.persisted }

/-- An answer to a vote request of the running round is counted. A later term ends the
round. -/
def countVote (id source : NodeId) (request : VoteRequest)
    (response : VoteResponse) : Option Cluster :=
  match cluster.rounds id with
  | none => none
  | some round =>
    if request.candidateNodeId ≠ id ∨ request.prevote ∨ request.term ≠ round.term ∨
        source ∉ round.awaiting then none
    else if round.term < response.term then
      let node := cluster.nodes id
      let next := node.after (node.replication.observeRemoteTerm response.term)
      some ((cluster.setNode id next).setRound id none)
    else
      let votesGranted := round.votesGranted + if response.voteGranted then 1 else 0
      some (cluster.setRound id (some { round with
        awaiting := round.awaiting.erase source
        votesGranted := votesGranted }))

def endElection (id : NodeId) : Option Cluster :=
  match cluster.rounds id with
  | none => none
  | some round =>
    if round.awaiting ≠ [] then none
    else
      let node := cluster.nodes id
      let handled := node.replication.finalizeElection node.config round.term round.votesGranted
        (max round.voterCount 1)
      let ended := (cluster.setNode id (node.after handled)).setRound id none
      some (if handled.answer then
        { ended with elections := ⟨id, round.term, node.engine.walEntries⟩ :: cluster.elections }
      else ended)

/-- A leader's engine runs a call in the current term and its position is published. In the source
the role check, the reading of the term, the call and the publication are separate steps, between
which a reply may end the leadership. A call that fails or is not published is no event here. -/
def performWrite (id : NodeId) (action : EngineAction) : Option Cluster :=
  let node := cluster.nodes id
  let engine := node.engine.setConsensusTerm node.replication.currentTerm
  if node.replication.role ≠ .leader ∨ action.snapshots ∨ !action.succeeds engine then none
  else
    let written := { node with engine := action.perform engine }
    some { cluster.setNode id written.published with
      written := written.engine.walEntries ++ cluster.written }

/-- The position that a liveness heartbeat has read is published and reported. -/
def sendLiveness (id : NodeId) (report : LogAppendResult) : Cluster :=
  let node := cluster.nodes id
  let publishedNode := { node with replication := node.replication.publish node.config report }
  let sent := (cluster.setNode id publishedNode).setReport id none
  match publishedNode.replication.leaderHeartbeatPayload node.config with
  | none => sent
  | some payload => sent.send (publishedNode.peers.map fun peer => .heartbeat peer payload)

/-- A follower handles a `ReplicationAppend`. An error response changes nothing at the leader,
so none is sent. -/
def handleAppend (id : NodeId) (nowMs : Nat) (request : AppendEntriesRequest) : Cluster :=
  match (cluster.nodes id).handleAppend nowMs request with
  | (node, .error _) => cluster.setNode id node
  | (node, .ok response) =>
    (cluster.setNode id node).send
      [.appendResponse request.leaderNodeId id request.term response]

def endByRollback (id : NodeId) (nowMs : Nat) : Cluster :=
  let node := cluster.nodes id
  let unlocked := cluster.setLock id none
  match rollbackUncommittedTail node.config node.replication node.engine nowMs with
  | .error _ => unlocked
  | .ok (replication, engine) =>
    unlocked.setNode id { node with replication := replication, engine := engine }

def act : ClusterEvent → Option Cluster
  | .probe id =>
    let node := cluster.nodes id
    some (cluster.send (node.voteRequests (satAdd node.replication.currentTerm 1) true))
  | .candidacy id => some (cluster.beginElection id)
  | .vote id heard request =>
    if .voteRequest id request ∈ cluster.network ∧ cluster.locks id = none then
      some (cluster.handleVote id heard request)
    else none
  | .voteCrash id heard request writes nowMs =>
    if .voteRequest id request ∈ cluster.network ∧ cluster.locks id = none then
      cluster.crashInVote id heard request writes nowMs
    else none
  | .voteReply id source request response =>
    if .voteResponse source request response ∈ cluster.network then
      cluster.countVote id source request response
    else none
  | .voteFailed id source =>
    (cluster.rounds id).map fun round =>
      cluster.setRound id (some { round with awaiting := round.awaiting.erase source })
  | .electionEnd id => cluster.endElection id
  | .noop id createdAtMs =>
    if cluster.locks id = none then cluster.performWrite id (.noop createdAtMs) else none
  | .livenessRead id =>
    let node := cluster.nodes id
    if node.replication.role = .leader then
      some (cluster.setReport id (some node.engine.lastAppliedState))
    else none
  | .livenessSend id => (cluster.reports id).map (cluster.sendLiveness id)
  | .heartbeat id request =>
    if .heartbeat id request ∈ cluster.network ∧ cluster.locks id = none then
      let node := cluster.nodes id
      let handled := node.replication.handleHeartbeat request
      some ((cluster.setNode id (node.after handled)).send
        [.heartbeatResponse request.leaderNodeId request.term handled.answer])
    else none
  | .heartbeatReply id term response =>
    if .heartbeatResponse id term response ∈ cluster.network ∧ term < response.term then
      let node := cluster.nodes id
      some (cluster.setNode id (node.after (node.replication.observeRemoteTerm response.term)))
    else none
  | .appendSend id target =>
    let node := (cluster.nodes id).published
    (node.appendRequest target).map fun request =>
      ((cluster.setNode id node).send [.append target request]).share
        (node.engine.logUpTo (request.prevSequence + request.entries.length))
  | .append id nowMs request =>
    if .append id request ∈ cluster.network ∧ cluster.locks id = none then
      some (cluster.handleAppend id nowMs request)
    else none
  | .appendReply id source term response =>
    if .appendResponse id source term response ∈ cluster.network then
      some (cluster.setNode id ((cluster.nodes id).handleAppendReply source term response))
    else none
  | .write id action =>
    if cluster.locks id = none then
      (cluster.performWrite id action).map fun written =>
        written.setLock id (some (written.nodes id).engine.lastAppliedSequence)
    else none
  | .writeEnd id =>
    match cluster.locks id with
    | none => none
    | some frontier =>
      let node := cluster.nodes id
      if frontier ≤ node.replication.commitSequence then
        let advanced := node.readIndex.advanceReadIndexTo node.engine node.config.fetchBatchSize
          frontier
        some ((cluster.setNode id { node with readIndex := advanced.1 }).setLock id none)
      else none
  | .rollback id nowMs =>
    match cluster.locks id with
    | none => none
    | some frontier =>
      if frontier ≤ (cluster.nodes id).replication.commitSequence then none
      else some (cluster.endByRollback id nowMs)
  | .status id target =>
    let node := cluster.nodes id
    (node.replication.leaderStatus node.config).map fun status =>
      cluster.send [.status target status]
  | .statusObserve id status =>
    if .status id status ∈ cluster.network then
      let node := cluster.nodes id
      some (cluster.setNode id (node.after (node.replication.observeLeaderStatus status)))
    else none
  | .fetch id status =>
    let node := cluster.nodes id
    let current := node.engine.lastAppliedSequence
    -- The status has been observed before, so the follower's term is not behind it.
    if .status id status ∈ cluster.network ∧ status.term ≤ node.replication.currentTerm ∧
        current ≤ status.commitSequence ∧ current ≤ status.localLastAppliedSequence then
      match (cluster.nodes status.leaderNodeId).engine.walEntriesSince current
          node.config.fetchBatchSize with
      | .error _ => none
      | .ok entries => some ((cluster.send [.fetched id status entries]).share entries)
    else none
  | .fetched id status entries =>
    if .fetched id status entries ∈ cluster.network ∧ cluster.locks id = none then
      ((cluster.nodes id).applyFetched status entries).map fun (node, applied) =>
        (cluster.setNode id node).send [.ack status.leaderNodeId id applied status.term]
    else none
  | .ack id follower appliedSequence term =>
    if .ack id follower appliedSequence term ∈ cluster.network then
      let node := cluster.nodes id
      let registered := node.replication.registerFollowerAck node.config follower
        appliedSequence term id
      some (cluster.setNode id { node with replication := registered })
    else none
  | .crash id nowMs => cluster.restartNode id nowMs (cluster.nodes id)
  | .drop message => some { cluster with network := cluster.network.erase message }

def step (event : ClusterEvent) : Option Cluster :=
  if event.actor.all fun id => decide (id ∈ cluster.voters) then cluster.act event else none

def initial (voters : List NodeId) (configs : NodeId → ReplicationConfig)
    (options : EngineOptions) (startMs : Nat) : Cluster where
  voters := voters
  nodes id := Node.published
    { config := configs id
      replication := ReplicationState.new (configs id) none
      persisted := none
      engine := Engine.create options startMs
      readIndex := CommittedReadIndex.new }
  locks _ := none
  rounds _ := none
  reports _ := none
  network := []
  elections := []
  written := []
  shared := []

end Cluster

end Vaylix

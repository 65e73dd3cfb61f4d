import Vaylix.Cluster.Model

/-!
# Events of a cluster, case by case

Every event that can happen is listed with what makes it possible and with the cluster
it leads to. An event concerns one node; the others stay as they are.
-/

namespace Vaylix

namespace Cluster

variable [Codec]

def withRestarted (cluster : Cluster) (id : NodeId) (node : Node) : Cluster :=
  (((cluster.setNode id node).setLock id none).setRound id none).setReport id none

def writer (cluster : Cluster) (id : NodeId) : Engine :=
  (cluster.nodes id).engine.setConsensusTerm (cluster.nodes id).replication.currentTerm

def writtenNode (cluster : Cluster) (id : NodeId) (action : EngineAction) : Node :=
  Node.published { cluster.nodes id with engine := action.perform (cluster.writer id) }

def withWritten (cluster : Cluster) (id : NodeId) (action : EngineAction) : Cluster :=
  { cluster.setNode id (cluster.writtenNode id action) with
    written := (action.perform (cluster.writer id)).walEntries ++ cluster.written }

structure CanWrite (cluster : Cluster) (id : NodeId) (action : EngineAction) : Prop where
  leads : (cluster.nodes id).replication.role = .leader
  plain : action.snapshots = false
  succeeds : action.succeeds (cluster.writer id) = true
  unlocked : cluster.locks id = none

def finalized (cluster : Cluster) (id : NodeId) (round : ElectionRound) : Handled Bool :=
  (cluster.nodes id).replication.finalizeElection (cluster.nodes id).config round.term
    round.votesGranted (max round.voterCount 1)

def livenessNode (cluster : Cluster) (id : NodeId) (report : LogAppendResult) : Node :=
  { cluster.nodes id with
    replication := (cluster.nodes id).replication.publish (cluster.nodes id).config report }

structure Awaited (id source : NodeId) (request : VoteRequest) (round : ElectionRound) : Prop where
  mine : request.candidateNodeId = id
  real : request.prevote = false
  term : request.term = round.term
  awaited : source ∈ round.awaiting

inductive Acts (cluster : Cluster) : ClusterEvent → Cluster → Prop
  | probe (id : NodeId) : Acts cluster (.probe id) (cluster.send ((cluster.nodes id).voteRequests
      (satAdd (cluster.nodes id).replication.currentTerm 1) true))
  | candidacy (id : NodeId) : Acts cluster (.candidacy id) (cluster.beginElection id)
  | vote (id : NodeId) (heard : Bool) (request : VoteRequest)
      (inFlight : .voteRequest id request ∈ cluster.network) (unlocked : cluster.locks id = none) :
      Acts cluster (.vote id heard request) (cluster.handleVote id heard request)
  | voteCrash (id : NodeId) (heard : Bool) (request : VoteRequest) (writes nowMs : Nat)
      (node : Node) (inFlight : .voteRequest id request ∈ cluster.network)
      (unlocked : cluster.locks id = none)
      (restarted : Node.restart { cluster.nodes id with
        persisted := ((((cluster.nodes id).replication.handleVoteRequest (cluster.nodes id).config
          heard request).writes.take writes).getLast?).or (cluster.nodes id).persisted } nowMs =
        some node) :
      Acts cluster (.voteCrash id heard request writes nowMs) (cluster.withRestarted id node)
  | laterTerm (id source : NodeId) (request : VoteRequest) (response : VoteResponse)
      (round : ElectionRound) (inFlight : .voteResponse source request response ∈ cluster.network)
      (running : cluster.rounds id = some round) (awaited : Awaited id source request round)
      (later : round.term < response.term) :
      Acts cluster (.voteReply id source request response)
        ((cluster.setNode id ((cluster.nodes id).after
          ((cluster.nodes id).replication.observeRemoteTerm response.term))).setRound id none)
  | counted (id source : NodeId) (request : VoteRequest) (response : VoteResponse)
      (round : ElectionRound) (inFlight : .voteResponse source request response ∈ cluster.network)
      (running : cluster.rounds id = some round) (awaited : Awaited id source request round) :
      Acts cluster (.voteReply id source request response)
        (cluster.setRound id (some { round with
          awaiting := round.awaiting.erase source
          votesGranted := round.votesGranted + if response.voteGranted then 1 else 0 }))
  | voteFailed (id source : NodeId) (round : ElectionRound)
      (running : cluster.rounds id = some round) :
      Acts cluster (.voteFailed id source)
        (cluster.setRound id (some { round with awaiting := round.awaiting.erase source }))
  | notElected (id : NodeId) (round : ElectionRound) (running : cluster.rounds id = some round)
      (complete : round.awaiting = []) (lost : (cluster.finalized id round).answer = false) :
      Acts cluster (.electionEnd id)
        ((cluster.setNode id ((cluster.nodes id).after (cluster.finalized id round))).setRound id
          none)
  | elected (id : NodeId) (round : ElectionRound) (running : cluster.rounds id = some round)
      (complete : round.awaiting = []) (won : (cluster.finalized id round).answer = true) :
      Acts cluster (.electionEnd id)
        { (cluster.setNode id ((cluster.nodes id).after (cluster.finalized id round))).setRound id
            none with
          elections := ⟨id, round.term, (cluster.nodes id).engine.walEntries⟩ ::
            cluster.elections }
  | noop (id : NodeId) (createdAtMs : Nat) (can : cluster.CanWrite id (.noop createdAtMs)) :
      Acts cluster (.noop id createdAtMs) (cluster.withWritten id (.noop createdAtMs))
  | livenessRead (id : NodeId) (leads : (cluster.nodes id).replication.role = .leader) :
      Acts cluster (.livenessRead id)
        (cluster.setReport id (some (cluster.nodes id).engine.lastAppliedState))
  | livenessSend (id : NodeId) (report : LogAppendResult) (messages : List Message)
      (read : cluster.reports id = some report)
      (sent : ∀ message ∈ messages, ∃ peer payload, message = .heartbeat peer payload ∧
        (cluster.livenessNode id report).replication.leaderHeartbeatPayload
          (cluster.nodes id).config = some payload) :
      Acts cluster (.livenessSend id)
        (((cluster.setNode id (cluster.livenessNode id report)).setReport id none).send messages)
  | heartbeat (id : NodeId) (request : HeartbeatRequest)
      (inFlight : .heartbeat id request ∈ cluster.network) (unlocked : cluster.locks id = none) :
      Acts cluster (.heartbeat id request)
        ((cluster.setNode id ((cluster.nodes id).after
          ((cluster.nodes id).replication.handleHeartbeat request))).send
            [.heartbeatResponse request.leaderNodeId request.term
              ((cluster.nodes id).replication.handleHeartbeat request).answer])
  | heartbeatReply (id : NodeId) (term : Nat) (response : HeartbeatResponse)
      (inFlight : .heartbeatResponse id term response ∈ cluster.network)
      (later : term < response.term) :
      Acts cluster (.heartbeatReply id term response)
        (cluster.setNode id ((cluster.nodes id).after
          ((cluster.nodes id).replication.observeRemoteTerm response.term)))
  | appendSend (id target : NodeId) (request : AppendEntriesRequest)
      (built : (cluster.nodes id).published.appendRequest target = some request) :
      Acts cluster (.appendSend id target)
        (((cluster.setNode id (cluster.nodes id).published).send [.append target request]).share
          ((cluster.nodes id).engine.logUpTo (request.prevSequence + request.entries.length)))
  | append (id : NodeId) (nowMs : Nat) (request : AppendEntriesRequest) (messages : List Message)
      (inFlight : .append id request ∈ cluster.network) (unlocked : cluster.locks id = none)
      (sent : ∀ message ∈ messages, ∃ response,
        ((cluster.nodes id).handleAppend nowMs request).2 = .ok response ∧
        message = .appendResponse request.leaderNodeId id request.term response) :
      Acts cluster (.append id nowMs request)
        ((cluster.setNode id ((cluster.nodes id).handleAppend nowMs request).1).send messages)
  | appendReply (id source : NodeId) (term : Nat) (response : AppendEntriesResponse)
      (inFlight : .appendResponse id source term response ∈ cluster.network) :
      Acts cluster (.appendReply id source term response)
        (cluster.setNode id ((cluster.nodes id).handleAppendReply source term response))
  | write (id : NodeId) (action : EngineAction) (can : cluster.CanWrite id action) :
      Acts cluster (.write id action) ((cluster.withWritten id action).setLock id
        (some (action.perform (cluster.writer id)).lastAppliedSequence))
  | writeEnd (id : NodeId) (frontier : Nat) (locked : cluster.locks id = some frontier)
      (committed : frontier ≤ (cluster.nodes id).replication.commitSequence) :
      Acts cluster (.writeEnd id)
        ((cluster.setNode id { cluster.nodes id with
          readIndex := ((cluster.nodes id).readIndex.advanceReadIndexTo (cluster.nodes id).engine
            (cluster.nodes id).config.fetchBatchSize frontier).1 }).setLock id none)
  | rollbackFailed (id : NodeId) (nowMs frontier : Nat) (err : ServerError)
      (locked : cluster.locks id = some frontier)
      (failed : rollbackUncommittedTail (cluster.nodes id).config (cluster.nodes id).replication
        (cluster.nodes id).engine nowMs = .error err) :
      Acts cluster (.rollback id nowMs) (cluster.setLock id none)
  | rollback (id : NodeId) (nowMs frontier : Nat) (replication : ReplicationState)
      (engine : Engine) (locked : cluster.locks id = some frontier)
      (done : rollbackUncommittedTail (cluster.nodes id).config (cluster.nodes id).replication
        (cluster.nodes id).engine nowMs = .ok (replication, engine)) :
      Acts cluster (.rollback id nowMs) ((cluster.setLock id none).setNode id
        { cluster.nodes id with replication := replication, engine := engine })
  | status (id target : NodeId) (report : LeaderStatus)
      (reported : (cluster.nodes id).replication.leaderStatus (cluster.nodes id).config =
        some report) :
      Acts cluster (.status id target) (cluster.send [.status target report])
  | statusObserve (id : NodeId) (report : LeaderStatus)
      (inFlight : .status id report ∈ cluster.network) :
      Acts cluster (.statusObserve id report)
        (cluster.setNode id ((cluster.nodes id).after
          ((cluster.nodes id).replication.observeLeaderStatus report)))
  | fetch (id : NodeId) (report : LeaderStatus) (entries : List WalEntry)
      (inFlight : .status id report ∈ cluster.network)
      (observed : report.term ≤ (cluster.nodes id).replication.currentTerm)
      (read : (cluster.nodes report.leaderNodeId).engine.walEntriesSince
        (cluster.nodes id).engine.lastAppliedSequence (cluster.nodes id).config.fetchBatchSize =
          .ok entries) :
      Acts cluster (.fetch id report)
        ((cluster.send [.fetched id report entries]).share entries)
  | fetched (id : NodeId) (report : LeaderStatus) (entries : List WalEntry) (node : Node)
      (applied : Nat) (inFlight : .fetched id report entries ∈ cluster.network)
      (unlocked : cluster.locks id = none)
      (done : (cluster.nodes id).applyFetched report entries = some (node, applied)) :
      Acts cluster (.fetched id report entries)
        ((cluster.setNode id node).send [.ack report.leaderNodeId id applied report.term])
  | ack (id follower : NodeId) (appliedSequence term : Nat)
      (inFlight : .ack id follower appliedSequence term ∈ cluster.network) :
      Acts cluster (.ack id follower appliedSequence term)
        (cluster.setNode id { cluster.nodes id with
          replication := (cluster.nodes id).replication.registerFollowerAck
            (cluster.nodes id).config follower appliedSequence term id })
  | crash (id : NodeId) (nowMs : Nat) (node : Node)
      (restarted : (cluster.nodes id).restart nowMs = some node) :
      Acts cluster (.crash id nowMs) (cluster.withRestarted id node)
  | drop (message : Message) :
      Acts cluster (.drop message) { cluster with network := cluster.network.erase message }

variable {cluster next : Cluster}

theorem canWrite_of_performWrite {id : NodeId} {action : EngineAction}
    (unlocked : cluster.locks id = none) (written : cluster.performWrite id action = some next) :
    cluster.CanWrite id action ∧ next = cluster.withWritten id action := by
  obtain ⟨possible, written⟩ := Option.ite_none_left_eq_some.mp written
  cases written
  simp only [not_or, not_not, Bool.not_eq_true, Bool.not_eq_false'] at possible
  exact ⟨⟨possible.1, possible.2.1, possible.2.2, unlocked⟩, rfl⟩

variable {event : ClusterEvent}

/-- **A step is one of the listed ones**, on a node of the cluster. -/
theorem acts_of_step (taken : cluster.step event = some next) :
    (∀ id, event.actor = some id → id ∈ cluster.voters) ∧ cluster.Acts event next := by
  obtain ⟨acting, taken⟩ := Option.ite_none_right_eq_some.mp taken
  refine ⟨fun id actor => by rw [actor] at acting; simpa using acting, ?_⟩
  cases event with
  | probe id =>
    cases taken
    exact .probe id
  | candidacy id =>
    cases taken
    exact .candidacy id
  | vote id heard request =>
    obtain ⟨enabled, ⟨⟩⟩ := Option.ite_none_right_eq_some.mp taken
    exact .vote id heard request enabled.1 enabled.2
  | voteCrash id heard request writes nowMs =>
    obtain ⟨enabled, taken⟩ := Option.ite_none_right_eq_some.mp taken
    obtain ⟨node, restarted, rfl⟩ := Option.map_eq_some_iff.mp taken
    exact .voteCrash id heard request writes nowMs node enabled.1 enabled.2 restarted
  | voteReply id source request response =>
    simp only [act, countVote] at taken
    split at taken
    swap
    · cases taken
    rename_i inFlight
    split at taken
    · cases taken
    rename_i round running
    split at taken
    · cases taken
    rename_i relevant
    simp only [not_or, not_not, Bool.not_eq_true] at relevant
    have awaited : Awaited id source request round :=
      ⟨relevant.1, relevant.2.1, relevant.2.2.1, relevant.2.2.2⟩
    split at taken
    · rename_i later
      cases taken
      exact .laterTerm id source request response round inFlight running awaited later
    · cases taken
      exact .counted id source request response round inFlight running awaited
  | voteFailed id source =>
    obtain ⟨round, running, rfl⟩ := Option.map_eq_some_iff.mp taken
    exact .voteFailed id source round running
  | electionEnd id =>
    simp only [act, endElection] at taken
    split at taken
    · cases taken
    rename_i round running
    split at taken
    · cases taken
    rename_i complete
    cases taken
    split
    · rename_i won
      exact .elected id round running (not_not.mp complete) won
    · rename_i lost
      exact .notElected id round running (not_not.mp complete) ((Bool.not_eq_true _).mp lost)
  | noop id createdAtMs =>
    obtain ⟨unlocked, taken⟩ := Option.ite_none_right_eq_some.mp taken
    obtain ⟨can, rfl⟩ := canWrite_of_performWrite unlocked taken
    exact .noop id createdAtMs can
  | livenessRead id =>
    obtain ⟨leads, ⟨⟩⟩ := Option.ite_none_right_eq_some.mp taken
    exact .livenessRead id leads
  | livenessSend id =>
    obtain ⟨report, read, rfl⟩ := Option.map_eq_some_iff.mp taken
    unfold sendLiveness
    dsimp only
    split
    · exact .livenessSend id report [] read (by rintro message ⟨⟩)
    · rename_i payload leading
      refine .livenessSend id report _ read ?_
      intro message sent
      obtain ⟨peer, -, rfl⟩ := List.mem_map.mp sent
      exact ⟨peer, payload, rfl, leading⟩
  | heartbeat id request =>
    obtain ⟨enabled, ⟨⟩⟩ := Option.ite_none_right_eq_some.mp taken
    exact .heartbeat id request enabled.1 enabled.2
  | heartbeatReply id term response =>
    obtain ⟨enabled, ⟨⟩⟩ := Option.ite_none_right_eq_some.mp taken
    exact .heartbeatReply id term response enabled.1 enabled.2
  | appendSend id target =>
    obtain ⟨request, built, rfl⟩ := Option.map_eq_some_iff.mp taken
    exact .appendSend id target request built
  | append id nowMs request =>
    obtain ⟨enabled, ⟨⟩⟩ := Option.ite_none_right_eq_some.mp taken
    unfold handleAppend
    split
    · rename_i node err handled
      have acts := Acts.append id nowMs request [] enabled.1 enabled.2 (by rintro message ⟨⟩)
      rw [handled] at acts
      exact acts
    · rename_i node response handled
      have acts := Acts.append id nowMs request
        [.appendResponse request.leaderNodeId id request.term response] enabled.1 enabled.2 (by
          intro message sent
          exact ⟨response, by rw [handled], List.mem_singleton.mp sent⟩)
      rw [handled] at acts
      exact acts
  | appendReply id source term response =>
    obtain ⟨inFlight, ⟨⟩⟩ := Option.ite_none_right_eq_some.mp taken
    exact .appendReply id source term response inFlight
  | write id action =>
    obtain ⟨unlocked, taken⟩ := Option.ite_none_right_eq_some.mp taken
    obtain ⟨written, performed, rfl⟩ := Option.map_eq_some_iff.mp taken
    obtain ⟨can, rfl⟩ := canWrite_of_performWrite unlocked performed
    have here : ((cluster.withWritten id action).nodes id).engine =
        action.perform (cluster.writer id) := by
      simp [withWritten, writtenNode, setNode, Node.published]
    rw [here]
    exact .write id action can
  | writeEnd id =>
    simp only [act] at taken
    split at taken
    · cases taken
    rename_i frontier locked
    split at taken <;> cases taken
    rename_i committed
    exact .writeEnd id frontier locked committed
  | rollback id nowMs =>
    simp only [act] at taken
    split at taken
    · cases taken
    rename_i frontier locked
    split at taken <;> cases taken
    unfold endByRollback
    dsimp only
    split
    · rename_i err failed
      exact .rollbackFailed id nowMs frontier err locked failed
    · rename_i replication engine done
      exact .rollback id nowMs frontier replication engine locked done
  | status id target =>
    obtain ⟨report, reported, rfl⟩ := Option.map_eq_some_iff.mp taken
    exact .status id target report reported
  | statusObserve id report =>
    obtain ⟨inFlight, ⟨⟩⟩ := Option.ite_none_right_eq_some.mp taken
    exact .statusObserve id report inFlight
  | fetch id report =>
    simp only [act] at taken
    split at taken
    swap
    · cases taken
    rename_i enabled
    split at taken <;> cases taken
    rename_i entries read
    exact .fetch id report entries enabled.1 enabled.2.1 read
  | fetched id report entries =>
    simp only [act] at taken
    split at taken
    swap
    · cases taken
    rename_i enabled
    obtain ⟨⟨node, applied⟩, done, rfl⟩ := Option.map_eq_some_iff.mp taken
    exact .fetched id report entries node applied enabled.1 enabled.2 done
  | ack id follower appliedSequence term =>
    obtain ⟨inFlight, ⟨⟩⟩ := Option.ite_none_right_eq_some.mp taken
    exact .ack id follower appliedSequence term inFlight
  | crash id nowMs =>
    obtain ⟨node, restarted, rfl⟩ := Option.map_eq_some_iff.mp taken
    exact .crash id nowMs node restarted
  | drop message =>
    cases taken
    exact .drop message

abbrev logOf (cluster : Cluster) (id : NodeId) : List WalEntry :=
  (cluster.nodes id).engine.walEntries

omit [Codec] in
theorem logOf_eq_of_update {id : NodeId} {node : Node}
    (nodes : next.nodes = Function.update cluster.nodes id node)
    (log : node.engine.walEntries = cluster.logOf id) (other : NodeId) :
    next.logOf other = cluster.logOf other := by
  rw [logOf, nodes]
  by_cases same : other = id
  · subst same
    rw [Function.update_self]
    exact log
  · rw [Function.update_of_ne same]

structure Alike (other : NodeId) (cluster next : Cluster) : Prop where
  node : next.nodes other = cluster.nodes other
  lock : next.locks other = cluster.locks other

/-- **An event leaves the other nodes alone**, and the set of voters. -/
theorem Acts.alike (acts : cluster.Acts event next) :
    next.voters = cluster.voters ∧
      ∀ other, event.actor ≠ some other → Alike other cluster next := by
  cases acts with
  | drop message => exact ⟨rfl, fun other _ => ⟨rfl, rfl⟩⟩
  | probe id | candidacy id | vote id | voteCrash id | laterTerm id | counted id | voteFailed id
  | notElected id | elected id | noop id | livenessRead id | livenessSend id | heartbeat id
  | heartbeatReply id | appendSend id | append id | appendReply id | write id | writeEnd id
  | rollbackFailed id | rollback id | status id | statusObserve id | fetch id | fetched id
  | ack id | crash id =>
    refine ⟨rfl, fun other different => ?_⟩
    have apart : other ≠ id := fun same => different (congrArg some same.symm)
    constructor <;> simp [beginElection, handleVote, withRestarted, withWritten, setNode, setLock,
      setRound, setReport, send, share, apart]

theorem Acts.history (acts : cluster.Acts event next) :
    cluster.elections ⊆ next.elections ∧ cluster.written ⊆ next.written ∧
      cluster.shared ⊆ next.shared := by
  cases acts with
  | elected => exact ⟨List.subset_cons_self _ _, List.Subset.refl _, List.Subset.refl _⟩
  | noop | write =>
    exact ⟨List.Subset.refl _, List.subset_append_right _ _, List.Subset.refl _⟩
  | candidacy | appendSend | fetch =>
    exact ⟨List.Subset.refl _, List.Subset.refl _, List.subset_append_right _ _⟩
  | _ => exact ⟨List.Subset.refl _, List.Subset.refl _, List.Subset.refl _⟩

/-- What a message says of the event that has sent it. -/
def Sends (cluster : Cluster) (event : ClusterEvent) : Message → Prop
  | .voteRequest _ request => request.prevote = true ∨ ∃ id, event = .candidacy id ∧
      ∃ address, request = ReplicationState.voteRequest (cluster.nodes id).config
        ((cluster.nodes id).replication.beginElection (cluster.nodes id).config).state
        ((cluster.nodes id).replication.beginElection (cluster.nodes id).config).state.currentTerm
        address false
  | .voteResponse source request response => ∃ heard, event = .vote source heard request ∧
      response = ((cluster.nodes source).replication.handleVoteRequest
        (cluster.nodes source).config heard request).answer
  | .append target request => ∃ id, event = .appendSend id target ∧
      (cluster.nodes id).published.appendRequest target = some request
  | .appendResponse target source term response => ∃ nowMs request,
      event = .append source nowMs request ∧ target = request.leaderNodeId ∧
      term = request.term ∧ ((cluster.nodes source).handleAppend nowMs request).2 = .ok response
  | .fetched target report entries => event = .fetch target report ∧
      .status target report ∈ cluster.network ∧
      report.term ≤ (cluster.nodes target).replication.currentTerm ∧
      (cluster.nodes report.leaderNodeId).engine.walEntriesSince
        (cluster.nodes target).engine.lastAppliedSequence
        (cluster.nodes target).config.fetchBatchSize = .ok entries
  | .ack target follower applied term => ∃ report entries node,
      event = .fetched follower report entries ∧ target = report.leaderNodeId ∧
      term = report.term ∧
      (cluster.nodes follower).applyFetched report entries = some (node, applied)
  | .status target report => ∃ id, event = .status id target ∧
      (cluster.nodes id).replication.leaderStatus (cluster.nodes id).config = some report
  | .heartbeat _ _ | .heartbeatResponse _ _ _ => True

omit [Codec] in
theorem mem_send {messages : List Message} {message : Message} {sends : Message → Prop}
    (inside : message ∈ (cluster.send messages).network)
    (new : ∀ message ∈ messages, sends message) :
    message ∈ cluster.network ∨ sends message :=
  (List.mem_append.mp inside).symm.imp_right (new message)

/-- **Every message in flight was there before or is sent by the event.** -/
theorem Acts.sent (acts : cluster.Acts event next) {message : Message}
    (inside : message ∈ next.network) :
    message ∈ cluster.network ∨ cluster.Sends event message := by
  cases acts with
  | voteCrash | laterTerm | counted | voteFailed | notElected | elected | noop | livenessRead
  | heartbeatReply | appendReply | write | writeEnd | rollbackFailed | rollback | statusObserve
  | ack | crash => exact .inl inside
  | drop message => exact .inl (List.mem_of_mem_erase inside)
  | probe id =>
    exact mem_send inside (List.forall_mem_map.mpr fun peer _ => .inl rfl)
  | candidacy id =>
    refine (List.mem_append.mp inside).symm.imp_right ?_
    exact List.forall_mem_map.mpr (fun peer _ => .inr ⟨id, rfl, _, rfl⟩) message
  | vote id heard request inFlight unlocked =>
    exact mem_send inside (List.forall_mem_singleton.mpr ⟨heard, rfl, rfl⟩)
  | livenessSend id report messages read sent =>
    refine mem_send inside fun message new => ?_
    obtain ⟨peer, payload, rfl, -⟩ := sent message new
    trivial
  | heartbeat id request inFlight unlocked =>
    exact mem_send inside (List.forall_mem_singleton.mpr trivial)
  | appendSend id target request built =>
    exact mem_send inside (List.forall_mem_singleton.mpr ⟨id, rfl, built⟩)
  | append id nowMs request messages inFlight unlocked sent =>
    refine mem_send inside fun message new => ?_
    obtain ⟨response, handled, rfl⟩ := sent message new
    exact ⟨nowMs, request, rfl, rfl, rfl, handled⟩
  | status id target report reported =>
    exact mem_send inside (List.forall_mem_singleton.mpr ⟨id, rfl, reported⟩)
  | fetch id report entries inFlight observed read =>
    exact mem_send inside (List.forall_mem_singleton.mpr ⟨rfl, inFlight, observed, read⟩)
  | fetched id report entries node applied inFlight unlocked done =>
    exact mem_send inside
      (List.forall_mem_singleton.mpr ⟨report, entries, node, rfl, rfl, rfl, done⟩)

end Cluster

end Vaylix

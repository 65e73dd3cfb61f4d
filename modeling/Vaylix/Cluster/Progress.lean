import Vaylix.Cluster.Elections
import Vaylix.Cluster.Events
import Vaylix.Engine.Appending

/-!
# How nodes move on

The term of a node does not go back; within a term it becomes a leader only as a candidate,
and its commit point is lost only in a restart. Its log changes in one of four ways: a leader
appends entries of its term, a request is taken over, fetched entries are appended, and a
write is given up.
-/

namespace Vaylix

open Ballots ReplicationState

def ClusterEvent.call : ClusterEvent → Option (NodeId × EngineAction)
  | .noop id createdAtMs => some (id, .noop createdAtMs)
  | .write id action => some (id, action)
  | _ => none

namespace Cluster

variable [Codec] {cluster next : Cluster} {event : ClusterEvent} {id : NodeId}

/-- What an event does to the term, the office, the commit point and the lock of a node. -/
structure Onward (cluster next : Cluster) (id : NodeId) : Prop where
  term : (cluster.nodes id).replication.currentTerm ≤ (next.nodes id).replication.currentTerm
  runs : (next.nodes id).replication.currentTerm = (cluster.nodes id).replication.currentTerm →
    (next.nodes id).replication.role = .candidate →
      (cluster.nodes id).replication.role = .candidate
  leads : (next.nodes id).replication.role = .leader →
    (next.nodes id).replication.currentTerm = (cluster.nodes id).replication.currentTerm ∧
      ((cluster.nodes id).replication.role = .leader ∨
        ((cluster.nodes id).replication.role = .candidate ∧
          ⟨id, (cluster.nodes id).replication.currentTerm, (cluster.nodes id).engine.walEntries⟩ ∈
            next.elections))
  commit : (cluster.nodes id).replication.commitSequence ≤
      (next.nodes id).replication.commitSequence ∨
    ((next.nodes id).replication.role = .follower ∧ next.locks id = none)
  lock : next.locks id = none ∨ next.locks id = cluster.locks id ∨
    ((cluster.nodes id).replication.role = .leader ∧
      (next.nodes id).replication.currentTerm = (cluster.nodes id).replication.currentTerm)

omit [Codec] in
theorem Onward.of_steady
    (steady : (cluster.nodes id).replication.Steady (next.nodes id).replication)
    (lock : next.locks id = none ∨ next.locks id = cluster.locks id ∨
      ((cluster.nodes id).replication.role = .leader ∧
        (next.nodes id).replication.currentTerm = (cluster.nodes id).replication.currentTerm)) :
    cluster.Onward next id :=
  ⟨steady.term, fun _ runs => (steady.office (.inr runs)).1.symm.trans runs,
    fun leads => ⟨(steady.office (.inl leads)).2,
      .inl ((steady.office (.inl leads)).1.symm.trans leads)⟩, .inl steady.commit, lock⟩

omit [Codec] in
theorem Onward.of_node {node : Node} (here : next.nodes id = node)
    (steady : (cluster.nodes id).replication.Steady node.replication)
    (lock : next.locks id = none ∨ next.locks id = cluster.locks id) :
    cluster.Onward next id :=
  .of_steady (here ▸ steady) (lock.imp_right .inl)

/-- What an event does to the log of a node. -/
inductive LogChange (cluster : Cluster) (event : ClusterEvent) (id : NodeId) (after : Node) : Prop
  | same (log : after.engine.walEntries = (cluster.nodes id).engine.walEntries)
  | written (entries : List WalEntry)
      (leads : (cluster.nodes id).replication.role = .leader) (unlocked : cluster.locks id = none)
      (log : after.engine.walEntries = (cluster.nodes id).engine.walEntries ++ entries)
      (terms : ∀ entry ∈ entries, entry.term = (cluster.nodes id).replication.currentTerm)
      (term : after.replication.currentTerm = (cluster.nodes id).replication.currentTerm)
      (calls : ∃ action, event.call = some (id, action) ∧
        after.engine = action.perform (cluster.writer id))
  | tookOver (nowMs : Nat) (request : AppendEntriesRequest)
      (happens : event = .append id nowMs request)
      (inFlight : .append id request ∈ cluster.network) (unlocked : cluster.locks id = none)
      (heeds : (cluster.nodes id).Heeds request.leaderNodeId request.term)
      (takes : (cluster.nodes id).TakesOver nowMs request)
      (took : (cluster.nodes id).engine.TookOver request.baseSequence request.entries after.engine)
      (term : after.replication.currentTerm = request.term)
      (role : after.replication.role = .follower)
  | pulled (status : LeaderStatus) (entries fetched : List WalEntry)
      (happens : event = .fetched id status entries)
      (inFlight : .fetched id status entries ∈ cluster.network)
      (unlocked : cluster.locks id = none) (among : ∀ entry ∈ fetched, entry ∈ entries)
      (log : after.engine.walEntries = (cluster.nodes id).engine.walEntries ++ fetched)
      (term : after.replication.currentTerm = (cluster.nodes id).replication.currentTerm)
  | cut (nowMs : Nat) (happens : event = .rollback id nowMs) (locked : cluster.locks id ≠ none)
      (log : after.engine.walEntries = (cluster.nodes id).engine.walEntries.take
        (cluster.nodes id).replication.commitSequence)
      (term : after.replication.currentTerm = (cluster.nodes id).replication.currentTerm)

structure LogMoved (cluster : Cluster) (event : ClusterEvent) (id : NodeId) (after : Node) :
    Prop where
  whole : after.engine.Whole
  change : cluster.LogChange event id after

/-- The logs are whole, and every append in flight carries consecutive entries. -/
structure LogsWhole (cluster : Cluster) : Prop where
  whole : ∀ id ∈ cluster.voters, (cluster.nodes id).engine.Whole
  carried : ∀ target request, .append target request ∈ cluster.network →
    request.CarriedFrom request.entries

omit [Codec] in
theorem Onward.of_alike (alike : Alike id cluster next) : cluster.Onward next id :=
  .of_steady (alike.node ▸ .refl _) (.inr (.inl alike.lock))

omit [Codec] in
theorem onward_withRestarted {voters : Finset NodeId} {state reached : State NodeId} {node : Node}
    (stands : (cluster.nodes id).Stands voters state id) (steps : Steps voters id state reached)
    (restarted : node.Stands voters reached id) (role : node.replication.role = .follower) :
    cluster.Onward (cluster.withRestarted id node) id := by
  have here : (cluster.withRestarted id node).nodes id = node := by
    simp [withRestarted, setNode, setLock, setRound, setReport]
  have unlocked : (cluster.withRestarted id node).locks id = none := by
    simp [withRestarted, setNode, setLock, setRound, setReport]
  have term := steps.term_le id
  rw [stands.current.ballot, restarted.current.ballot] at term
  refine ⟨?_, ?_, ?_, .inr ⟨?_, unlocked⟩, .inl unlocked⟩ <;> rw [here]
  · exact term
  · intro _ runs
    rw [role] at runs
    cases runs
  · intro leads
    rw [role] at leads
    cases leads
  · exact role

omit [Codec] in
theorem finalized_of_lost {id : NodeId} {round : ElectionRound}
    (lost : (cluster.finalized id round).answer = false) :
    (cluster.finalized id round).state = (cluster.nodes id).replication := by
  rcases (cluster.nodes id).replication.finalizeElection_cases (cluster.nodes id).config
    round.term round.votesGranted (max round.voterCount 1) with ⟨-, same⟩ | ⟨won, -⟩
  · exact same
  · exact absurd (lost.symm.trans won) (by decide)

/-- **Every event moves every node on.** -/
theorem Elects.onward {voters : Finset NodeId} {state : State NodeId}
    (elects : cluster.Elects voters state)
    (bounded : cluster.TermsBounded event) (taken : cluster.step event = some next)
    {actor : NodeId} (member : actor ∈ cluster.voters) : cluster.Onward next actor := by
  obtain ⟨-, acts⟩ := acts_of_step taken
  by_cases named : event.actor = some actor
  swap
  · exact .of_alike (acts.alike.2 actor named)
  have stands := elects.nodes _ member
  have clustered := stands.current.clustered
  cases acts <;> injection named <;> subst_vars
  case probe | counted | voteFailed | livenessRead | status | fetch =>
    exact .of_node rfl (.refl _) (.inr rfl)
  case candidacy id =>
    have term : satAdd (cluster.nodes id).replication.currentTerm 1 =
        (cluster.nodes id).replication.currentTerm + 1 := by
      have below : (cluster.nodes id).replication.currentTerm < u64Max := bounded
      unfold satAdd
      omega
    have here : (cluster.beginElection id).nodes id = (cluster.nodes id).after
        ((cluster.nodes id).replication.beginElection (cluster.nodes id).config) :=
      Function.update_self ..
    refine ⟨?_, ?_, ?_, .inl ?_, .inr (.inl rfl)⟩ <;> rw [here]
    · exact (Nat.le_succ _).trans term.ge
    · intro same
      exact absurd (term.symm.trans same) (Nat.succ_ne_self _)
    · rintro ⟨⟩
    · exact le_rfl
  case vote =>
    exact .of_node (Function.update_self ..) (yields_handleVoteRequest _ _ _ _).steady
      (.inr rfl)
  case voteCrash id heard request writes nowMs node inFlight unlocked restarted =>
    obtain ⟨-, interrupted⟩ := stands.handleVoteRequest heard request
    obtain ⟨reached, steps, stored⟩ := interrupted writes
    obtain ⟨restarts, role⟩ := Node.stands_of_restart (by exact stands.configured)
      (by exact stored) restarted
    exact onward_withRestarted stands steps restarts role
  case laterTerm | heartbeatReply =>
    exact .of_node (Function.update_self ..) (yields_observeRemoteTerm _ _).steady
      (.inr rfl)
  case notElected id round running complete lost =>
    refine .of_node (Function.update_self ..) ?_ (.inr rfl)
    exact finalized_of_lost lost ▸ .refl _
  case elected id round running complete won =>
    rcases (cluster.nodes id).replication.finalizeElection_cases (cluster.nodes id).config
      round.term round.votesGranted (max round.voterCount 1) with
      ⟨lost, -⟩ | ⟨-, runs, term, same⟩
    · exact absurd (lost.symm.trans won) (by decide)
    have here : (((cluster.setNode id ((cluster.nodes id).after
        (cluster.finalized id round))).setRound id none).nodes id) =
        (cluster.nodes id).after (cluster.finalized id round) := Function.update_self ..
    have after : ((cluster.nodes id).after (cluster.finalized id round)).replication = _ := same
    refine ⟨?_, ?_, ?_, .inl ?_, .inr (.inl rfl)⟩ <;> dsimp only <;> rw [here, after]
    · rintro - ⟨⟩
    · exact fun _ => ⟨rfl, .inr ⟨runs, term ▸ List.mem_cons_self⟩⟩
  case noop | livenessSend | appendSend =>
    exact .of_node (Function.update_self ..) (steady_publish _ _ clustered _)
      (.inr rfl)
  case heartbeat =>
    exact .of_node (Function.update_self ..) (Yields.of_hears (hears_handleHeartbeat _ _)).steady
      (.inr rfl)
  case append =>
    exact .of_node (Function.update_self ..) (Node.steady_handleAppend clustered _ _) (.inr rfl)
  case appendReply =>
    exact .of_node (Function.update_self ..) (Node.steady_handleAppendReply _ _ _ _) (.inr rfl)
  case write id action can =>
    have here : (cluster.withWritten id action).nodes id = cluster.writtenNode id action :=
      Function.update_self ..
    refine .of_steady ?_ (.inr (.inr ⟨can.leads, ?_⟩))
    · change (cluster.nodes id).replication.Steady
        ((cluster.withWritten id action).nodes id).replication
      rw [here]
      exact steady_publish _ _ clustered _
    · change ((cluster.withWritten id action).nodes id).replication.currentTerm = _
      rw [here]
      exact (sameStanding_publish _ _ _).currentTerm
  case writeEnd =>
    exact .of_node (Function.update_self ..) (.refl _) (.inl (Function.update_self ..))
  case rollbackFailed => exact .of_node rfl (.refl _) (.inl (Function.update_self ..))
  case rollback done =>
    exact .of_node (Function.update_self ..) (Node.steady_rollback clustered done)
      (.inl (Function.update_self ..))
  case statusObserve =>
    exact .of_node (Function.update_self ..)
      (Yields.of_hears (hears_observeLeaderStatus _ _)).steady
      (.inr rfl)
  case fetched done =>
    exact .of_node (Function.update_self ..) (Node.steady_applyFetched clustered done) (.inr rfl)
  case ack =>
    exact .of_node (Function.update_self ..)
      (recounts_registerFollowerAck _ _ _ _ _ _).steady (.inr rfl)
  case crash id nowMs node restarted =>
    obtain ⟨restarts, role⟩ := Node.stands_of_restart stands.configured stands.stored restarted
    exact onward_withRestarted stands (Steps.refl voters id state) restarts role

theorem LogMoved.of_engine_eq {after : Node} (whole : (cluster.nodes id).engine.Whole)
    (engine : after.engine = (cluster.nodes id).engine) :
    cluster.LogMoved event id after :=
  ⟨engine ▸ whole, .same (by rw [engine])⟩

theorem LogMoved.of_eq {after node : Node} (here : after = node)
    (moved : cluster.LogMoved event id node) : cluster.LogMoved event id after :=
  here ▸ moved

theorem LogMoved.of_restart {node after : Node} {nowMs : Nat}
    (whole : (cluster.nodes id).engine.Whole) (engine : node.engine = (cluster.nodes id).engine)
    (restarted : node.restart nowMs = some after) :
    cluster.LogMoved event id after := by
  unfold Node.restart at restarted
  split at restarted
  · cases restarted
  rename_i reopened opened
  cases restarted
  rw [engine] at opened
  obtain ⟨again, log, -⟩ := whole.reopen opened
  exact ⟨again, .same log⟩

theorem LogMoved.of_write {action : EngineAction} (whole : (cluster.nodes id).engine.Whole)
    (can : cluster.CanWrite id action) (calls : event.call = some (id, action)) :
    cluster.LogMoved event id (cluster.writtenNode id action) := by
  have appended := Engine.Appended.perform (cluster.writer id) can.plain can.succeeds
  have inTerm : (cluster.writer id).Whole :=
    ⟨whole.numbered, whole.position, whole.indexed, whole.stored, whole.snapshotless⟩
  exact ⟨inTerm.append appended, .written _ can.leads can.unlocked appended.log
    appended.terms (sameStanding_publish _ _ _).currentTerm ⟨action, calls, rfl⟩⟩

theorem LogMoved.of_append (whole : cluster.LogsWhole) (member : id ∈ cluster.voters)
    (clustered : (cluster.nodes id).replication.role ≠ .standalone) {nowMs : Nat}
    {request : AppendEntriesRequest} (inFlight : .append id request ∈ cluster.network)
    (unlocked : cluster.locks id = none) :
    cluster.LogMoved (.append id nowMs request) id
      ((cluster.nodes id).handleAppend nowMs request).1 := by
  have here := whole.whole id member
  rcases Node.handleAppend_cases clustered nowMs request with
    ⟨-, engine, -⟩ | ⟨heeds, takes, applied, done, -, -, role, -⟩
  · exact .of_engine_eq here engine
  · obtain ⟨took, -⟩ := Node.tookOver here.logged (whole.carried id request inFlight) takes done
    exact ⟨took.whole here, .tookOver nowMs request rfl inFlight unlocked heeds takes took
      (Node.currentTerm_handleAppend heeds nowMs) role⟩

/-- **What an event does to the logs**: they stay whole, and each changes in a listed way. -/
theorem LogsWhole.change (whole : cluster.LogsWhole)
    (clustered : ∀ id ∈ cluster.voters, (cluster.nodes id).replication.role ≠ .standalone)
    (taken : cluster.step event = some next) {actor : NodeId} (member : actor ∈ cluster.voters) :
    cluster.LogMoved event actor (next.nodes actor) := by
  obtain ⟨-, acts⟩ := acts_of_step taken
  have here := whole.whole actor member
  by_cases named : event.actor = some actor
  swap
  · exact .of_engine_eq here (congrArg Node.engine (acts.alike.2 actor named).node)
  cases acts <;> injection named <;> subst_vars
  case probe | counted | voteFailed | livenessRead | status | fetch | rollbackFailed =>
    exact .of_engine_eq here rfl
  case candidacy | vote | laterTerm | notElected | elected | livenessSend | heartbeat
      | heartbeatReply | appendSend | writeEnd | statusObserve | ack =>
    exact .of_eq (Function.update_self ..) (.of_engine_eq here rfl)
  case voteCrash restarted =>
    exact .of_eq (Function.update_self ..) (.of_restart here (by exact rfl) restarted)
  case crash restarted =>
    exact .of_eq (Function.update_self ..) (.of_restart here rfl restarted)
  case noop can => exact .of_eq (Function.update_self ..) (.of_write here can rfl)
  case write can => exact .of_eq (Function.update_self ..) (.of_write here can rfl)
  case append id nowMs request messages inFlight unlocked sent =>
    exact .of_eq (Function.update_self ..)
      (.of_append whole member (clustered id member) inFlight unlocked)
  case appendReply =>
    refine .of_eq (Function.update_self ..) (.of_engine_eq here ?_)
    unfold Node.handleAppendReply
    split <;> rfl
  case rollback id nowMs frontier replication engine locked done =>
    refine .of_eq (Function.update_self ..) ?_
    rcases rollbackUncommittedTail_cases here done with ⟨-, rfl, rfl⟩ | ⟨-, kept, log, -, rfl⟩
    · exact .of_engine_eq here rfl
    · exact ⟨kept, .cut nowMs rfl (by rw [locked]; rintro ⟨⟩) log
        (sameStanding_publish _ _ _).currentTerm⟩
  case fetched id report entries node applied inFlight unlocked done =>
    refine .of_eq (Function.update_self ..) ?_
    rcases Node.applyFetched_cases here done with
      ⟨rfl, -⟩ | ⟨engine, fetched, among, extended, log, -, rfl⟩
    · exact .of_engine_eq here rfl
    · exact ⟨extended, .pulled report entries fetched rfl inFlight unlocked among log
        (sameStanding_publish _ _ _).currentTerm⟩

theorem logsWhole_initial (ids : List NodeId) (configs : NodeId → ReplicationConfig)
    (options : EngineOptions) (startMs : Nat) : (initial ids configs options startMs).LogsWhole :=
  ⟨fun _ _ => Engine.whole_create options startMs, by rintro target request ⟨⟩⟩

/-- Every event keeps all logs whole. -/
theorem LogsWhole.step (whole : cluster.LogsWhole)
    (clustered : ∀ id ∈ cluster.voters, (cluster.nodes id).replication.role ≠ .standalone)
    (taken : cluster.step event = some next) : next.LogsWhole := by
  obtain ⟨members, acts⟩ := acts_of_step taken
  refine ⟨?_, ?_⟩
  · intro id member
    rw [acts.alike.1] at member
    exact (whole.change clustered taken member).whole
  · intro target request inside
    rcases acts.sent inside with before | ⟨id, rfl, built⟩
    · exact whole.carried target request before
    · have logged : (cluster.nodes id).published.engine.Logged :=
        (whole.whole id (members id rfl)).logged
      obtain ⟨carried, -⟩ := Node.carriedFrom_of_appendRequest logged built
      exact ⟨carried.known, carried.begins, carried.numbered, fun _ member => member⟩

end Cluster

end Vaylix

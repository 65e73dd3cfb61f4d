import Vaylix.Cluster.Progress
import Vaylix.Server.Counting

/-!
# The positions that leaders count

Only a liveness heartbeat publishes a position that was read before. What a leader has on
record of a follower comes from an answer or an acknowledgement in flight, and a commit point
that rises is held by a majority of the positions on record.
-/

namespace Vaylix

open Ballots Majority ReplicationState

namespace Cluster

variable [Codec] {cluster next : Cluster} {event : ClusterEvent} {id : NodeId}

/-- An event records that a follower has reached a sequence in the current term. -/
def Credited (cluster : Cluster) (event : ClusterEvent) (id follower : NodeId) (sequence : Nat) :
    Prop :=
  (∃ response,
      event = .appendReply id follower (cluster.nodes id).replication.currentTerm response ∧
    .appendResponse id follower (cluster.nodes id).replication.currentTerm response ∈
      cluster.network ∧ response.accepted = true ∧ response.matchSequence = sequence) ∨
  (event = .ack id follower sequence (cluster.nodes id).replication.currentTerm ∧
    .ack id follower sequence (cluster.nodes id).replication.currentTerm ∈ cluster.network)

/-- What an event does to the positions a node knows of. -/
structure Counted (cluster : Cluster) (event : ClusterEvent) (id : NodeId) (after : Node) :
    Prop where
  config : after.config = (cluster.nodes id).config
  position : (after.replication.position = (cluster.nodes id).replication.position ∧
      after.engine = (cluster.nodes id).engine) ∨
    after.replication.position = after.engine.lastAppliedState ∨
    (event = .livenessSend id ∧ cluster.reports id = some after.replication.position ∧
      after.engine = (cluster.nodes id).engine)
  progress : after.replication.role = .leader → ∀ follower,
    ((cluster.nodes id).replication.role = .leader ∧ after.replication.matchOf follower =
      (cluster.nodes id).replication.matchOf follower) ∨
    after.replication.matchOf follower = 0 ∨
    cluster.Credited event id follower (after.replication.matchOf follower)
  commits : Commits (cluster.nodes id).config (cluster.nodes id).replication after.replication

namespace Counted

variable {after node : Node}

omit [Codec] in
theorem of_quiet (here : after = node) (config : node.config = (cluster.nodes id).config)
    (engine : node.engine = (cluster.nodes id).engine)
    (quiet : Quiet (cluster.nodes id).replication node.replication) :
    cluster.Counted event id after := by
  subst here
  refine ⟨config, .inl ⟨quiet.position, engine⟩, ?_, quiet.commits _⟩
  intro leads follower
  obtain ⟨led, followers, -⟩ := quiet.leads leads
  exact .inl ⟨led, by rw [matchOf, followers]; rfl⟩

omit [Codec] in
theorem of_publish {report : LogAppendResult} (here : after = node)
    (config : node.config = (cluster.nodes id).config)
    (published : node.replication =
      (cluster.nodes id).replication.publish (cluster.nodes id).config report)
    (position : report = node.engine.lastAppliedState ∨
      (event = .livenessSend id ∧ cluster.reports id = some report ∧
        node.engine = (cluster.nodes id).engine)) :
    cluster.Counted event id after := by
  subst here
  have reported : after.replication.position = report := by
    rw [published, position_publish]
  refine ⟨config, .inr ?_, ?_, published ▸ commits_publish _ _ _⟩
  · rw [reported]
    exact position
  · intro leads follower
    rw [published] at leads ⊢
    refine .inl ⟨?_, ?_⟩
    · rw [← leads, (sameStanding_publish _ _ _).role]
    · rw [matchOf, followers_publish]
      rfl

theorem of_restart {before : Node} {nowMs : Nat}
    (config : before.config = (cluster.nodes id).config)
    (here : after = node) (restarted : before.restart nowMs = some node) :
    cluster.Counted event id after := by
  subst here
  unfold Node.restart at restarted
  split at restarted
  · cases restarted
  rename_i engine opened
  cases restarted
  refine ⟨config, .inr (.inl (position_publish _ _ _)), ?_, ?_⟩
  · intro leads follower
    refine .inr (.inl ?_)
    rw [matchOf, Node.published, followers_publish]
    simp [ReplicationState.new]
  · rw [← config]
    intro leads
    exact (commits_publish _ _ _ leads).trans (max_le_max (Nat.zero_le _) le_rfl)

omit [Codec] in
theorem of_records {follower : NodeId} {reported : Option Nat} {term : Nat} (here : after = node)
    (config : node.config = (cluster.nodes id).config)
    (engine : node.engine = (cluster.nodes id).engine)
    (role : node.replication.role = (cluster.nodes id).replication.role)
    (records : Records (cluster.nodes id).config follower reported term
      (cluster.nodes id).replication node.replication)
    (credits : ∀ sequence, reported = some sequence →
      (cluster.nodes id).replication.currentTerm = term →
        cluster.Credited event id follower sequence) :
    cluster.Counted event id after := by
  subst here
  refine ⟨config, .inl ⟨records.position, engine⟩, ?_, records.commits⟩
  intro leads other
  rcases records.progress other with same | ⟨rfl, reports, current⟩
  · exact .inl ⟨role.symm.trans leads, same⟩
  · exact .inr (.inr (credits _ reports current))

end Counted

/-- **What every event does to the positions of a node.** -/
theorem LogsWhole.counted (whole : cluster.LogsWhole)
    (clustered : ∀ id ∈ cluster.voters, (cluster.nodes id).replication.role ≠ .standalone)
    (taken : cluster.step event = some next) {actor : NodeId} (member : actor ∈ cluster.voters) :
    cluster.Counted event actor (next.nodes actor) := by
  obtain ⟨-, acts⟩ := acts_of_step taken
  have here := whole.whole actor member
  by_cases named : event.actor = some actor
  swap
  · exact .of_quiet (acts.alike.2 actor named).node rfl rfl (.refl _)
  cases acts <;> injection named <;> subst_vars
  case probe | counted | voteFailed | livenessRead | status | fetch | rollbackFailed =>
    exact .of_quiet rfl rfl rfl (.refl _)
  case candidacy => exact .of_quiet (Function.update_self ..) rfl rfl (quiet_beginElection _ _)
  case vote =>
    exact .of_quiet (Function.update_self ..) rfl rfl (yields_handleVoteRequest _ _ _ _).quiet
  case voteCrash restarted =>
    refine .of_restart ?_ (Function.update_self ..) restarted
    rfl
  case crash restarted => exact .of_restart rfl (Function.update_self ..) restarted
  case laterTerm | heartbeatReply =>
    exact .of_quiet (Function.update_self ..) rfl rfl (yields_observeRemoteTerm _ _).quiet
  case notElected id round running complete lost =>
    refine .of_quiet (Function.update_self ..) rfl rfl ?_
    exact finalized_of_lost lost ▸ .refl _
  case elected id round running complete won =>
    rcases (cluster.nodes id).replication.finalizeElection_cases (cluster.nodes id).config
      round.term round.votesGranted (max round.voterCount 1) with
      ⟨lost, -⟩ | ⟨-, -, -, same⟩
    · exact absurd (lost.symm.trans won) (by decide)
    have moved : (((cluster.setNode id ((cluster.nodes id).after
        (cluster.finalized id round))).setRound id none).nodes id) =
        (cluster.nodes id).after (cluster.finalized id round) := Function.update_self ..
    have after : ((cluster.nodes id).after (cluster.finalized id round)).replication = _ := same
    refine ⟨?_, .inl ⟨?_, ?_⟩, ?_, ?_⟩ <;> dsimp only <;> rw [moved] <;> try rw [after]
    · rfl
    · rfl
    · rfl
    · intro _ follower
      exact .inr (.inl (by simp [matchOf]))
    · exact fun _ => Nat.le_max_left _ _
  case noop | write | appendSend =>
    exact .of_publish (Function.update_self ..) rfl rfl (.inl rfl)
  case livenessSend read _ =>
    exact .of_publish (Function.update_self ..) rfl rfl (.inr ⟨rfl, read, rfl⟩)
  case heartbeat =>
    exact .of_quiet (Function.update_self ..) rfl rfl
      (Yields.of_hears (hears_handleHeartbeat _ _)).quiet
  case append id nowMs request messages inFlight unlocked sent =>
    have moved : ((cluster.setNode id
        ((cluster.nodes id).handleAppend nowMs request).1).send messages).nodes id = _ :=
      Function.update_self ..
    have config := (Node.sameStanding_handleAppend (cluster.nodes id) nowMs request).config
    rcases Node.handleAppend_cases (clustered id member) nowMs request with
      ⟨-, engine, hears, -⟩ | ⟨-, takes, applied, done, -, position, role, -⟩
    · exact .of_quiet moved config engine (Yields.of_hears hears).quiet
    · obtain ⟨-, rfl⟩ := Node.tookOver here.logged (whole.carried id request inFlight) takes done
      rw [moved]
      refine ⟨config, .inr (.inl position), ?_, ?_⟩
      · intro leads
        rw [role] at leads
        cases leads
      · intro leads
        rw [role] at leads
        cases leads
  case appendReply id source term response inFlight =>
    have moved : (cluster.setNode id ((cluster.nodes id).handleAppendReply source term
        response)).nodes id = _ := Function.update_self ..
    rw [moved]
    unfold Node.handleAppendReply
    split
    · exact .of_quiet rfl rfl rfl (yields_observeRemoteTerm _ response.term).quiet
    · refine .of_records rfl rfl rfl (recounts_recordAppendResult _ _ _ _ _ _ _).sameStanding.role
        (records_recordAppendResult _ _ source response.accepted response.matchSequence term _) ?_
      rintro sequence reported rfl
      split at reported <;> cases reported
      rename_i accepted
      exact .inl ⟨response, rfl, inFlight, accepted, rfl⟩
  case writeEnd => exact .of_quiet (Function.update_self ..) rfl rfl (.refl _)
  case rollback id nowMs frontier replication engine locked done =>
    rcases rollbackUncommittedTail_cases here done with ⟨-, rfl, rfl⟩ | ⟨-, -, -, -, rfl⟩
    · exact .of_quiet (Function.update_self ..) rfl rfl (.refl _)
    · exact .of_publish (Function.update_self ..) rfl rfl (.inl rfl)
  case statusObserve =>
    exact .of_quiet (Function.update_self ..) rfl rfl
      (Yields.of_hears (hears_observeLeaderStatus _ _)).quiet
  case fetched id report entries node applied inFlight unlocked done =>
    rcases Node.applyFetched_cases here done with
      ⟨rfl, -⟩ | ⟨engine, fetched, -, -, -, rfl, rfl⟩
    · exact .of_quiet (Function.update_self ..) rfl rfl (.refl _)
    · exact .of_publish (Function.update_self ..) rfl rfl (.inl rfl)
  case ack id follower appliedSequence term inFlight =>
    refine .of_records (Function.update_self ..) rfl rfl
      (recounts_registerFollowerAck _ _ _ _ _ _).sameStanding.role
      (records_registerFollowerAck _ _ follower appliedSequence term id) ?_
    rintro sequence ⟨⟩ rfl
    exact .inr ⟨rfl, inFlight⟩

end Cluster

end Vaylix

import Vaylix.Server.FollowerCommit
import Vaylix.Server.PullRound

/-!
# What handlers never do

No handler takes a term or a commit point back, none makes a candidate and none makes a
leader. Only an election and a restart do, and a standalone node commits whatever
position is published.
-/

namespace Vaylix

namespace ReplicationState

/-- Neither the term nor the commit point goes back, and no office is new in the term. -/
structure Steady (before after : ReplicationState) : Prop where
  term : before.currentTerm ≤ after.currentTerm
  office : after.role = .leader ∨ after.role = .candidate →
    after.role = before.role ∧ after.currentTerm = before.currentTerm
  commit : before.commitSequence ≤ after.commitSequence

namespace Steady

variable {first second : ReplicationState}

@[refl] theorem refl (state : ReplicationState) : Steady state state :=
  ⟨le_rfl, fun _ => ⟨rfl, rfl⟩, le_rfl⟩

theorem of_eq (role : second.role = first.role) (term : second.currentTerm = first.currentTerm)
    (commit : first.commitSequence ≤ second.commitSequence) : Steady first second :=
  ⟨term.ge, fun _ => ⟨role, term⟩, commit⟩

end Steady

/-- Nothing is different, or the node has stepped down and its commit point moves within its
position. -/
inductive Yields (before : ReplicationState) : ReplicationState → Prop
  | same : Yields before before
  | down {after : ReplicationState} (role : after.role = before.steppedDown)
      (position : after.position = before.position)
      (term : before.currentTerm ≤ after.currentTerm)
      (commit : before.commitSequence ≤ after.commitSequence)
      (within : after.commitSequence ≤
        max before.commitSequence before.localLastAppliedSequence) : Yields before after

/-- Nothing is different, or followers' progress was noted and counted. -/
inductive Recounts (config : ReplicationConfig) (before : ReplicationState) :
    ReplicationState → Prop
  | same : Recounts config before before
  | counted (followers : Std.ExtTreeMap NodeId FollowerProgress compare) :
      Recounts config before
        (ReplicationState.recomputeCommitSequence config { before with followers := followers })

/-- The fields that elections depend on. -/
structure SameStanding (replication other : ReplicationState) : Prop where
  role : other.role = replication.role
  currentTerm : other.currentTerm = replication.currentTerm
  votedFor : other.votedFor = replication.votedFor
  members : other.members = replication.members

theorem SameStanding.trans {replication other third : ReplicationState}
    (first : SameStanding replication other)
    (second : SameStanding other third) : SameStanding replication third :=
  ⟨second.role.trans first.role, second.currentTerm.trans first.currentTerm,
    second.votedFor.trans first.votedFor, second.members.trans first.members⟩

theorem sameStanding_publish (config : ReplicationConfig) (replication : ReplicationState)
    (applied : LogAppendResult) :
    SameStanding replication (replication.publish config applied) := by
  unfold publish setLocalLastAppliedState
  dsimp only
  split <;> exact ⟨rfl, rfl, rfl, rfl⟩

theorem sameStanding_observeLeaderCommit (replication : ReplicationState) (sequence : Nat) :
    SameStanding replication (replication.observeLeaderCommit sequence) := by
  unfold observeLeaderCommit
  split <;> exact ⟨rfl, rfl, rfl, rfl⟩

variable (config : ReplicationConfig) (state : ReplicationState)

theorem steady_publish (clustered : state.role ≠ .standalone) (applied : LogAppendResult) :
    Steady state (state.publish config applied) := by
  unfold publish setLocalLastAppliedState
  dsimp only
  split
  · rename_i standalone
    exact absurd standalone clustered
  · exact .of_eq rfl rfl (Nat.le_max_left _ _)
  · exact .of_eq rfl rfl le_rfl

theorem commitSequence_publish_standalone (standalone : state.role = .standalone)
    (applied : LogAppendResult) :
    (state.publish config applied).commitSequence = applied.lastAppliedSequence := by
  simp only [publish, setLocalLastAppliedState, standalone]

namespace Recounts

variable {config} {before after : ReplicationState}

theorem sameStanding (recounts : Recounts config before after) : SameStanding before after := by
  cases recounts <;> exact ⟨rfl, rfl, rfl, rfl⟩

theorem steady (recounts : Recounts config before after) : Steady before after := by
  cases recounts with
  | same => rfl
  | counted followers => exact .of_eq rfl rfl (Nat.le_max_left _ _)

end Recounts

theorem recounts_registerFollowerAck (follower : NodeId) (applied term : Nat) (leader : NodeId) :
    Recounts config state (state.registerFollowerAck config follower applied term leader) := by
  unfold registerFollowerAck
  split
  · exact .same
  · exact .counted _

theorem recounts_recordAppendResult (follower : NodeId) (accepted : Bool)
    (matchSequence term : Nat) (leader : NodeId) :
    Recounts config state
      (state.recordAppendResult config follower accepted matchSequence term leader) := by
  unfold recordAppendResult
  split
  · exact .same
  · exact .counted _

namespace Yields

variable {first second third : ReplicationState}

theorem trans (before : Yields first second) (after : Yields second third) :
    Yields first third := by
  cases before with
  | same => exact after
  | down role position term commit within =>
    cases after with
    | same => exact .down role position term commit within
    | down laterRole laterPosition laterTerm laterCommit laterWithin =>
      have again : second.steppedDown = first.steppedDown := by
        rw [steppedDown, role, steppedDown]
        split <;> rfl
      have here : second.localLastAppliedSequence = first.localLastAppliedSequence :=
        congrArg LogAppendResult.lastAppliedSequence position
      rw [here] at laterWithin
      exact .down (laterRole.trans again) (laterPosition.trans position)
        (term.trans laterTerm) (commit.trans laterCommit)
        (laterWithin.trans (Nat.max_le.mpr ⟨within, Nat.le_max_right _ _⟩))

theorem of_hears {heeds : Prop} {commit : Nat} (hears : Hears heeds commit first second) :
    Yields first second := by
  by_cases heeded : heeds
  · have commits := hears.commits heeded
    exact .down (hears.role heeded) hears.position hears.term
      ((Nat.le_max_left _ _).trans commits.ge)
      (commits.le.trans (max_le_max le_rfl (Nat.min_le_right _ _)))
  · rw [hears.ignored heeded]
    exact .same

theorem steady (yields : Yields first second) : Steady first second := by
  cases yields with
  | same => rfl
  | down role position term commit within =>
    refine ⟨term, fun office => ?_, commit⟩
    rw [role, steppedDown] at office
    split at office <;> rcases office with leads | runs <;> contradiction

end Yields

theorem yields_observeRemoteTerm (term : Nat) :
    Yields state (state.observeRemoteTerm term).state := by
  unfold observeRemoteTerm
  split
  · rename_i later
    exact .down rfl rfl later.le le_rfl (Nat.le_max_left _ _)
  · exact .same

theorem yields_handleVoteRequest (heard : Bool) (request : VoteRequest) :
    Yields state (state.handleVoteRequest config heard request).state := by
  have entered : Yields state (state.enterVoteTerm request.term).1 := by
    unfold enterVoteTerm
    split
    · rename_i later
      exact .down rfl rfl later.le le_rfl (Nat.le_max_left _ _)
    · exact .same
  unfold handleVoteRequest
  split
  · exact .same
  split
  · exact .same
  split
  · exact .same
  dsimp only
  split
  · exact entered
  split
  · exact entered
  split
  · exact entered.trans (.down rfl rfl le_rfl le_rfl (Nat.le_max_left _ _))
  · exact entered

theorem finalizeElection_cases (term votesGranted members : Nat) :
    ((state.finalizeElection config term votesGranted members).answer = false ∧
      (state.finalizeElection config term votesGranted members).state = state) ∨
    ((state.finalizeElection config term votesGranted members).answer = true ∧
      state.role = .candidate ∧ state.currentTerm = term ∧
      (state.finalizeElection config term votesGranted members).state = { state with
        role := .leader
        followers := ∅
        leaderTargetSequence := 0
        bootstrapPreferred := false
        leaderNodeId := some config.nodeId
        leaderAdvertiseAddr := state.localAdvertiseAddr config }) := by
  unfold finalizeElection
  split
  · exact .inl ⟨rfl, rfl⟩
  rename_i current
  obtain ⟨same, runs⟩ := not_or.mp current
  split
  · exact .inl ⟨rfl, rfl⟩
  · exact .inr ⟨rfl, not_not.mp runs, not_not.mp same, rfl⟩

end ReplicationState

namespace Node

open ReplicationState

variable [Codec]

/-- Nothing that elections depend on is different. -/
structure SameStanding (node other : Node) : Prop where
  config : other.config = node.config
  persisted : other.persisted = node.persisted
  replication : node.replication.SameStanding other.replication

omit [Codec] in
theorem SameStanding.trans {first second third : Node} (before : first.SameStanding second)
    (after : second.SameStanding third) : first.SameStanding third :=
  ⟨after.config.trans before.config, after.persisted.trans before.persisted,
    before.replication.trans after.replication⟩

omit [Codec] in
theorem sameStanding_noteFrontier (node : Node) (request : AppendEntriesRequest) :
    node.SameStanding (node.noteFrontier request) := by
  obtain ⟨target, phase, noted⟩ := node.noteFrontier_eq request
  rw [noted]
  exact ⟨rfl, rfl, rfl, rfl, rfl, rfl⟩

theorem sameStanding_acceptedAppend (node : Node) (request : AppendEntriesRequest) (term : Nat)
    (engine : Engine) (applied : Nat) :
    node.SameStanding (node.acceptedAppend request term engine applied).1 := by
  have same := (sameStanding_publish node.config node.replication
    (engine.appliedStateForSequence applied)).trans
      (sameStanding_observeLeaderCommit _ request.commitSequence)
  obtain ⟨phase, index, accepted⟩ := node.acceptedAppend_eq request term engine applied
  rw [accepted]
  exact ⟨rfl, rfl, same.trans ⟨rfl, rfl, rfl, rfl⟩⟩

theorem sameStanding_handleAppend (node : Node) (nowMs : Nat) (request : AppendEntriesRequest) :
    (node.after (node.replication.handleHeartbeat request.heartbeat)).SameStanding
      (node.handleAppend nowMs request).1 := by
  have noted := (node.after
    (node.replication.handleHeartbeat request.heartbeat)).sameStanding_noteFrontier request
  unfold handleAppend
  dsimp only
  split
  · rename_i stale
    have ignored : node.after (node.replication.handleHeartbeat request.heartbeat) = node := by
      unfold ReplicationState.handleHeartbeat
      split
      · rfl
      · rw [if_pos (show request.heartbeat.term < _ from stale)]
        rfl
    rw [ignored]
    exact ⟨rfl, rfl, rfl, rfl, rfl, rfl⟩
  split
  · exact ⟨rfl, rfl, rfl, rfl, rfl, rfl⟩
  split
  · exact noted
  split
  · exact noted
  split
  · exact noted
  · exact noted.trans (sameStanding_acceptedAppend _ _ _ _ _)

theorem currentTerm_handleAppend {node : Node} {request : AppendEntriesRequest}
    (heeds : node.Heeds request.leaderNodeId request.term) (nowMs : Nat) :
    (node.handleAppend nowMs request).1.replication.currentTerm = request.term := by
  rw [(node.sameStanding_handleAppend nowMs request).replication.currentTerm]
  have recent : ¬ request.heartbeat.term < node.replication.currentTerm :=
    Nat.not_lt.mpr heeds.2
  have votes : isVotingMember node.replication.members request.heartbeat.leaderNodeId = true :=
    heeds.1
  simp only [after, ReplicationState.handleHeartbeat, votes, recent, Bool.not_true,
    Bool.false_eq_true, if_false]
  exact Nat.max_eq_right heeds.2

theorem steady_handleAppend {node : Node} (clustered : node.replication.role ≠ .standalone)
    (nowMs : Nat) (request : AppendEntriesRequest) :
    Steady node.replication (node.handleAppend nowMs request).1.replication := by
  have heard := (Yields.of_hears (node.replication.hears_handleHeartbeat request.heartbeat)).steady
  have same := (node.sameStanding_handleAppend nowMs request).replication
  refine ⟨heard.term.trans same.currentTerm.ge, ?_, ?_⟩
  · intro office
    rw [same.role] at office ⊢
    rw [same.currentTerm]
    exact heard.office office
  · rcases handleAppend_cases clustered nowMs request with
      ⟨-, -, hears, -⟩ | ⟨-, -, applied, -, commit, -⟩
    · exact (Yields.of_hears hears).steady.commit
    · exact ((Nat.le_max_left _ _).trans (Nat.le_max_left _ _)).trans commit.ge

omit [Codec] in
theorem steady_handleAppendReply (node : Node) (follower : NodeId) (term : Nat)
    (response : AppendEntriesResponse) :
    Steady node.replication (node.handleAppendReply follower term response).replication := by
  unfold handleAppendReply
  split
  · exact (yields_observeRemoteTerm _ _).steady
  · exact (recounts_recordAppendResult _ _ _ _ _ _ _).steady

theorem steady_applyFetched {node next : Node} (clustered : node.replication.role ≠ .standalone)
    {status : LeaderStatus} {entries : List WalEntry} {applied : Nat}
    (done : node.applyFetched status entries = some (next, applied)) :
    Steady node.replication next.replication := by
  unfold applyFetched at done
  dsimp only at done
  split at done
  · cases done
  split at done
  · cases done
    rfl
  split at done
  · cases done
  split at done <;> cases done
  exact steady_publish _ _ clustered _

theorem steady_rollback {node : Node} (clustered : node.replication.role ≠ .standalone)
    {nowMs : Nat} {replication : ReplicationState} {engine : Engine}
    (done : rollbackUncommittedTail node.config node.replication node.engine nowMs =
      .ok (replication, engine)) : Steady node.replication replication := by
  unfold rollbackUncommittedTail at done
  split at done
  · cases done
    rfl
  split at done <;> cases done
  exact steady_publish _ _ clustered _

end Node

end Vaylix

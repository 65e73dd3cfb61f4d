import Mathlib.Order.Bounds.Basic
import Vaylix.Server.Steady

/-!
# What a leader counts

A leader commits what a majority has acknowledged. It knows its own position as the last
one that was published, and that of a follower from answers to requests and from
acknowledged pulls. Whatever raises its commit point has counted these positions.
-/

namespace Vaylix

open Majority

namespace ReplicationState

def matchOf (state : ReplicationState) (follower : NodeId) : Nat :=
  ((state.followers[follower]?).map FollowerProgress.matchIndex).getD 0

/-- Nothing is published, and a leader neither counts nor commits. -/
structure Quiet (before after : ReplicationState) : Prop where
  position : after.position = before.position
  leads : after.role = .leader → before.role = .leader ∧ after.followers = before.followers ∧
    after.commitSequence = before.commitSequence

namespace Quiet

variable {first second : ReplicationState}

@[refl] theorem refl (state : ReplicationState) : Quiet state state :=
  ⟨rfl, fun leads => ⟨leads, rfl, rfl⟩⟩

theorem of_not_leader (position : second.position = first.position)
    (role : second.role ≠ .leader) : Quiet first second :=
  ⟨position, fun leads => absurd leads role⟩

end Quiet

theorem Yields.quiet {before after : ReplicationState} (yields : Yields before after) :
    Quiet before after := by
  cases yields with
  | same => rfl
  | down role position term commit within =>
    refine .of_not_leader position ?_
    rw [role, steppedDown]
    split <;> rintro ⟨⟩

/-- A leader that commits has counted the positions it knows of. -/
def Commits (config : ReplicationConfig) (before after : ReplicationState) : Prop :=
  after.role = .leader → after.commitSequence ≤
    max before.commitSequence (min (after.commitCandidate config) after.localLastAppliedSequence)

theorem Quiet.commits {before after : ReplicationState} (quiet : Quiet before after)
    (config : ReplicationConfig) : Commits config before after := by
  intro leads
  rw [(quiet.leads leads).2.2]
  exact Nat.le_max_left _ _

variable (config : ReplicationConfig) (state : ReplicationState)

theorem quiet_beginElection : Quiet state (state.beginElection config).state :=
  .of_not_leader rfl (by rintro ⟨⟩)

theorem position_publish (applied : LogAppendResult) :
    (state.publish config applied).position = applied := by
  unfold publish setLocalLastAppliedState
  dsimp only
  split <;> rfl

theorem followers_publish (applied : LogAppendResult) :
    (state.publish config applied).followers = state.followers := by
  unfold publish setLocalLastAppliedState
  dsimp only
  split <;> rfl

theorem commits_publish (applied : LogAppendResult) :
    Commits config state (state.publish config applied) := by
  intro leads
  have led : state.role = .leader :=
    (sameStanding_publish config state applied).role.symm.trans leads
  simp only [publish, setLocalLastAppliedState, led]
  exact le_rfl

/-- What is recorded of a follower was before, or was reported in the current term. -/
structure Records (follower : NodeId) (reported : Option Nat) (term : Nat)
    (before after : ReplicationState) : Prop where
  position : after.position = before.position
  progress : ∀ id, after.matchOf id = before.matchOf id ∨
    (id = follower ∧ reported = some (after.matchOf id) ∧ before.currentTerm = term)
  commits : Commits config before after

variable {follower : NodeId} {reported : Option Nat} {term : Nat}

theorem Records.refl : Records config follower reported term state state :=
  ⟨rfl, fun _ => .inl rfl, (Quiet.refl state).commits config⟩

theorem records_insert (current : state.currentTerm = term) {progress : FollowerProgress}
    (known : progress.matchIndex = state.matchOf follower ∨ reported = some progress.matchIndex) :
    Records config follower reported term state
      (ReplicationState.recomputeCommitSequence config
        { state with followers := state.followers.insert follower progress }) := by
  refine ⟨rfl, ?_, fun _ => le_rfl⟩
  intro id
  have found : (ReplicationState.recomputeCommitSequence config
      { state with followers := state.followers.insert follower progress }).matchOf id =
        if id = follower then progress.matchIndex else state.matchOf id := by
    change (((state.followers.insert follower progress)[id]?).map FollowerProgress.matchIndex).getD
      0 = _
    rw [Std.ExtTreeMap.getElem?_insert]
    by_cases same : follower = id
    · simp [same]
    · rw [if_neg (by simpa using same), if_neg (Ne.symm same)]
      rfl
  rw [found]
  split
  · rename_i same
    subst same
    exact known.imp_right fun reports => ⟨rfl, reports, current⟩
  · exact .inl rfl

theorem records_registerFollowerAck (follower : NodeId) (applied term : Nat) (leader : NodeId) :
    Records config follower (some applied) term state
      (state.registerFollowerAck config follower applied term leader) := by
  unfold registerFollowerAck
  split
  · exact .refl config state
  · rename_i accepts
    simp only [not_or, not_not] at accepts
    exact records_insert config state accepts.2.1 (.inr rfl)

theorem records_recordAppendResult (follower : NodeId) (accepted : Bool)
    (matchSequence term : Nat) (leader : NodeId) :
    Records config follower (if accepted then some matchSequence else none) term state
      (state.recordAppendResult config follower accepted matchSequence term leader) := by
  unfold recordAppendResult
  by_cases ignored : state.role ≠ .leader ∨ state.currentTerm ≠ term ∨ leader ≠ config.nodeId
  · rw [if_pos ignored]
    exact .refl config state
  rw [if_neg ignored]
  simp only [not_or, not_not] at ignored
  refine records_insert config state ignored.2.1 ?_
  have current : ((state.followers[follower]?).getD ⟨0, 1, term⟩).matchIndex =
      state.matchOf follower := by
    unfold matchOf
    cases state.followers[follower]? <;> rfl
  unfold FollowerProgress.afterReply
  cases accepted with
  | false => exact .inl current
  | true =>
    simp only [if_true]
    rw [current]
    rcases Nat.le_total (state.matchOf follower) matchSequence with further | behind
    · exact .inr (by rw [Nat.max_eq_right further])
    · exact .inl (Nat.max_eq_left behind)

/-- The position that is counted for a voter: the published one for the node itself. -/
def countedFor (voter : NodeId) : Nat :=
  if voter = config.nodeId then state.localLastAppliedSequence else state.matchOf voter

def votersAt (sequence : Nat) : List ClusterMember :=
  (voterMembers state.members).filter fun voter =>
    decide (sequence ≤ state.countedFor config voter.nodeId)

theorem length_votersAt (sequence : Nat) :
    (state.votersAt config sequence).length =
      (state.voterMatchSequences config).countP fun value => decide (sequence ≤ value) := by
  rw [votersAt, ← List.countP_eq_length_filter, voterMatchSequences, List.countP_map]
  rfl

/-- The quorum's position is what more than half have reached. -/
theorem le_nthHighestVoterMatch_iff (voted : voterMembers state.members ≠ []) {sequence : Nat} :
    sequence ≤ state.nthHighestVoterMatch config (quorumSizeFromMembers state.members) ↔
      (voterMembers state.members).length < 2 * (state.votersAt config sequence).length := by
  have positive := List.length_pos_iff.mpr voted
  have size : quorumSizeFromMembers state.members =
      (voterMembers state.members).length / 2 + 1 := by
    rw [quorumSizeFromMembers, voterCount, ← voterMembers, Nat.max_eq_left positive]
    rfl
  have length : (state.voterMatchSequences config).length =
      (voterMembers state.members).length := List.length_map _
  have enough : (voterMembers state.members).length / 2 + 1 ≤
      (state.voterMatchSequences config).length := by omega
  have sorted := le_nthHighest (s := sequence) (Nat.succ_pos _) enough
  rw [size, length_votersAt]
  exact sorted.trans (by omega)

theorem le_minVoterMatch_iff (voted : voterMembers state.members ≠ []) {sequence : Nat} :
    sequence ≤ state.minVoterMatch config ↔
      ∀ voter ∈ voterMembers state.members, sequence ≤ state.countedFor config voter.nodeId := by
  have some_match : state.voterMatchSequences config ≠ [] := by
    rwa [voterMatchSequences, ne_eq, List.map_eq_nil_iff]
  rw [minVoterMatch, List.min?_eq_some_min some_match, Option.getD_some, List.le_min_iff]
  exact List.forall_mem_map

/-- The applied position, what more than half of the voters have reached, or what all of them
have. -/
def Commitable (sequence : Nat) : Prop :=
  match config.writeAckMode with
  | .local => sequence ≤ state.localLastAppliedSequence
  | .replica =>
    (voterMembers state.members).length < 2 * (state.votersAt config sequence).length
  | .all => ∀ voter ∈ voterMembers state.members, sequence ≤ state.countedFor config voter.nodeId

/-- **The commit point becomes the largest position that the acknowledgement mode commits**, no
further than the applied position, and never goes back. -/
theorem recomputeCommitSequence_greatest (voted : voterMembers state.members ≠ []) :
    ∃ greatest, IsGreatest {sequence | state.Commitable config sequence} greatest ∧
      state.recomputeCommitSequence config = { state with
        commitSequence := max state.commitSequence
          (min state.localLastAppliedSequence greatest) } := by
  refine ⟨state.commitCandidate config, ?_, by rw [recomputeCommitSequence, Nat.min_comm]⟩
  have reached : {sequence | state.Commitable config sequence} =
      Set.Iic (state.commitCandidate config) := by
    ext sequence
    unfold Commitable commitCandidate
    cases config.writeAckMode with
    | «local» => rfl
    | replica => exact (state.le_nthHighestVoterMatch_iff config voted).symm
    | all => exact (state.le_minVoterMatch_iff config voted).symm
  rw [reached]
  exact isGreatest_Iic

/-- A leader at 7 whose followers are at 5 and 3: two of the three have reached 5. -/
theorem recomputeCommitSequence_greatest_three :
    let config : ReplicationConfig :=
      ⟨"a", some "a:1", .leader, .replica, 1, [⟨"b", "b:1", true⟩, ⟨"c", "c:1", true⟩]⟩
    let state : ReplicationState := { ReplicationState.new config none with
      role := .leader
      localLastAppliedSequence := 7
      commitSequence := 2
      followers := (Std.ExtTreeMap.empty.insert "b" ⟨5, 6, 1⟩).insert "c" ⟨3, 4, 1⟩ }
    voterMembers state.members ≠ [] ∧ (state.recomputeCommitSequence config).commitSequence = 5 ∧
      ∃ greatest, IsGreatest {sequence | state.Commitable config sequence} greatest ∧
        state.recomputeCommitSequence config = { state with
          commitSequence := max state.commitSequence
            (min state.localLastAppliedSequence greatest) } :=
  ⟨by decide +kernel, by decide +kernel, recomputeCommitSequence_greatest _ _ (by decide +kernel)⟩

end ReplicationState

end Vaylix

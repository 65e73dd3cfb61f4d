import Vaylix.Engine.Wal
import Vaylix.Replication.State

/-!
# Elections, heartbeats and the messages between nodes

Each handler changes the replication state under its own lock, writes the persistent part to
disk where the source does, and answers. A crash may come between two writes, so they are
listed in order. What clocks decide is an argument.
-/

namespace Vaylix

structure VoteRequest where
  term : Nat
  candidateNodeId : NodeId
  candidateAddr : String
  lastLogIndex : Nat
  lastLogTerm : Option Nat
  prevote : Bool
deriving DecidableEq, Repr

structure VoteResponse where
  term : Nat
  voteGranted : Bool
deriving DecidableEq, Repr

structure HeartbeatRequest where
  term : Nat
  leaderNodeId : NodeId
  leaderAddr : String
  commitSequence : Nat
  leaderFrontierSequence : Nat
  members : List ClusterMember
deriving DecidableEq, Repr

structure HeartbeatResponse where
  term : Nat
  accepted : Bool
deriving DecidableEq, Repr

structure AppendEntriesRequest where
  term : Nat
  leaderNodeId : NodeId
  leaderAddr : String
  commitSequence : Nat
  leaderFrontierSequence : Nat
  prevSequence : Nat
  prevTerm : Option Nat
  prevEntryChecksum : Option UInt32
  entries : List WalEntry
  members : List ClusterMember
deriving DecidableEq, Repr

structure AppendEntriesResponse where
  term : Nat
  accepted : Bool
  matchSequence : Nat
deriving DecidableEq, Repr

/-- What a leader reports of itself to a follower that asks for its status. -/
structure LeaderStatus where
  leaderNodeId : NodeId
  leaderAddr : Option String
  term : Nat
  commitSequence : Nat
  localLastAppliedSequence : Nat
  members : List ClusterMember
deriving DecidableEq, Repr

/-- The new state, the writes of the persistent part in order, and the answer. -/
structure Handled (α : Type) where
  state : ReplicationState
  writes : List PersistedReplicationState
  answer : α

namespace ReplicationState

variable (config : ReplicationConfig) (state : ReplicationState)

def localAdvertiseAddr : Option String :=
  match config.advertiseAddr with
  | some advertiseAddr => some advertiseAddr
  | none => (state.members[config.nodeId]?).map ClusterMember.advertiseAddr

/-- `heard` says that the last heartbeat is younger than the lease. -/
def recentlyHeardFromKnownLeader (heard : Bool) : Bool := state.leaderNodeId.isSome && heard

/-- The request a candidate sends after `begin_election`, or the probe it sends before. -/
def voteRequest (term : Nat) (candidateAddr : String) (prevote : Bool) : VoteRequest :=
  ⟨term, config.nodeId, candidateAddr, state.localLastAppliedSequence,
    state.localLastAppliedTerm, prevote⟩

def beginElection : Handled Unit :=
  let next := { state with
    role := .candidate
    currentTerm := satAdd state.currentTerm 1
    votedFor := some config.nodeId
    bootstrapPreferred := false
    followers := ∅
    leaderTargetSequence := 0
    leaderNodeId := none
    leaderAdvertiseAddr := none }
  ⟨next, [next.persisted], ()⟩

def finalizeElection (term votesGranted members : Nat) : Handled Bool :=
  if state.currentTerm ≠ term ∨ state.role ≠ .candidate then ⟨state, [], false⟩
  else if votesGranted < quorumSize members then ⟨state, [], false⟩
  else
    let next := { state with
      role := .leader
      followers := ∅
      leaderTargetSequence := 0
      bootstrapPreferred := false
      leaderNodeId := some config.nodeId
      leaderAdvertiseAddr := state.localAdvertiseAddr config }
    ⟨next, [next.persisted], true⟩

/-- The role a node has once it knows of another leader or of a later term. -/
def steppedDown : ReplicationRole :=
  if state.role = .standalone then .standalone else .follower

def observeRemoteTerm (term : Nat) : Handled Unit :=
  if state.currentTerm < term then
    let next := { state with
      currentTerm := term
      votedFor := none
      bootstrapPreferred := false
      role := state.steppedDown
      followers := ∅
      leaderTargetSequence := 0
      leaderNodeId := none
      leaderAdvertiseAddr := none }
    ⟨next, [next.persisted], ()⟩
  else ⟨state, [], ()⟩

/-- The candidate's log is at least as recent as the local one. -/
def upToDate (request : VoteRequest) : Bool :=
  let localLogTerm := state.localLastAppliedTerm.getD 0
  let requestLogTerm := request.lastLogTerm.getD 0
  decide (localLogTerm < requestLogTerm ∨
    (requestLogTerm = localLogTerm ∧ state.localLastAppliedSequence ≤ request.lastLogIndex))

/-- The prevote branch of `handle_vote_request`; it changes nothing. -/
def grantsPrevote (heard : Bool) (request : VoteRequest) : Bool :=
  let localLogTerm := state.localLastAppliedTerm.getD 0
  let requestLogTerm := request.lastLogTerm.getD 0
  let hasUncommittedLocal := decide (state.commitSequence < state.localLastAppliedSequence)
  let votedForSelf := decide (state.votedFor = some config.nodeId)
  let sameTermCandidateTieBreak :=
    decide (state.currentTerm = request.term) && decide (state.role = .candidate) &&
      votedForSelf && decide (localLogTerm < requestLogTerm ∨
        (requestLogTerm = localLogTerm ∧ state.localLastAppliedSequence < request.lastLogIndex) ∨
        (requestLogTerm = localLogTerm ∧ request.lastLogIndex = state.localLastAppliedSequence ∧
          config.nodeId < request.candidateNodeId))
  let activeLeaderBlocksPrevote := decide (state.role = .leader) &&
    decide (state.leaderNodeId ≠ some request.candidateNodeId)
  let activeCandidateBlocksPrevote := decide (state.role = .candidate) &&
    decide (request.term ≤ state.currentTerm) && votedForSelf && !sameTermCandidateTieBreak
  let equalLogCandidateHasLowerPriority := decide (1 < request.term) &&
    decide (requestLogTerm = localLogTerm) &&
    decide (request.lastLogIndex = state.localLastAppliedSequence) &&
    decide (request.candidateNodeId < config.nodeId)
  let uncommittedTailBlocksPrevote := hasUncommittedLocal && !state.upToDate request
  state.upToDate request && !activeLeaderBlocksPrevote && !activeCandidateBlocksPrevote &&
    !equalLogCandidateHasLowerPriority && !uncommittedTailBlocksPrevote &&
    (!state.recentlyHeardFromKnownLeader heard ||
      decide (state.leaderNodeId = some request.candidateNodeId))

/-- The state after a vote request of a later term was seen, and what was written. -/
def enterVoteTerm (term : Nat) : ReplicationState × List PersistedReplicationState :=
  if state.currentTerm < term then
    let next := { state with
      currentTerm := term
      votedFor := none
      bootstrapPreferred := false
      role := state.steppedDown
      followers := ∅
      leaderNodeId := none
      leaderAdvertiseAddr := none }
    (next, [next.persisted])
  else (state, [])

def withCandidate (request : VoteRequest) : Members :=
  match state.members[request.candidateNodeId]? with
  | some member => state.members.insert request.candidateNodeId
      { member with advertiseAddr := request.candidateAddr }
  | none => state.members.insert request.candidateNodeId
      ⟨request.candidateNodeId, request.candidateAddr, true⟩

/-- The check for an uncommitted tail comes behind the one for an outdated log, and repeats it. -/
def handleVoteRequest (heard : Bool) (request : VoteRequest) : Handled VoteResponse :=
  if !isVotingMember state.members request.candidateNodeId then
    ⟨state, [], ⟨state.currentTerm, false⟩⟩
  else if request.term < state.currentTerm then ⟨state, [], ⟨state.currentTerm, false⟩⟩
  else if request.prevote then
    ⟨state, [], ⟨state.currentTerm, state.grantsPrevote config heard request⟩⟩
  else
    let upToDate := state.upToDate request
    let (entered, writes) := state.enterVoteTerm request.term
    if entered.recentlyHeardFromKnownLeader heard ∧
        entered.leaderNodeId ≠ some request.candidateNodeId then
      ⟨entered, writes, ⟨entered.currentTerm, false⟩⟩
    else if !upToDate then ⟨entered, writes, ⟨entered.currentTerm, false⟩⟩
    else if entered.votedFor = none ∨ entered.votedFor = some request.candidateNodeId then
      let granted := { entered with
        votedFor := some request.candidateNodeId
        bootstrapPreferred := false
        role := entered.steppedDown
        members := entered.withCandidate request }
      ⟨granted, writes ++ [granted.persisted], ⟨granted.currentTerm, true⟩⟩
    else ⟨entered, writes, ⟨entered.currentTerm, false⟩⟩

def heardPhase : Option FollowerPhase :=
  if state.paused then state.followerPhase
  else if state.localLastAppliedSequence ≠ state.leaderTargetSequence then some .catchingUp
  else some .streaming

/-- The part that `handle_heartbeat` and `observe_leader_status` share. -/
def followLeader (term : Nat) (leaderNodeId : NodeId) (leaderAddr : Option String)
    (commitSequence leaderFrontierSequence : Nat) (members : Members) : ReplicationState :=
  let heard := { state with
    currentTerm := max state.currentTerm term
    followers := if state.currentTerm < term then ∅ else state.followers
    role := state.steppedDown
    votedFor := some leaderNodeId
    bootstrapPreferred := false
    leaderNodeId := some leaderNodeId
    leaderAdvertiseAddr := leaderAddr
    commitSequence :=
      max state.commitSequence (min commitSequence state.localLastAppliedSequence)
    leaderTargetSequence :=
      max state.leaderTargetSequence (max leaderFrontierSequence commitSequence) }
  { heard with followerPhase := heard.heardPhase, members := members }

def handleHeartbeat (request : HeartbeatRequest) : Handled HeartbeatResponse :=
  if !isVotingMember state.members request.leaderNodeId then
    ⟨state, [], ⟨state.currentTerm, false⟩⟩
  else if request.term < state.currentTerm then ⟨state, [], ⟨state.currentTerm, false⟩⟩
  else
    let next := state.followLeader request.term request.leaderNodeId (some request.leaderAddr)
      request.commitSequence request.leaderFrontierSequence (membersOf request.members)
    ⟨next, [next.persisted], ⟨next.currentTerm, true⟩⟩

/-- As a heartbeat, but the sender need not be a member, and an empty member list is ignored. -/
def observeLeaderStatus (status : LeaderStatus) : Handled Unit :=
  if status.term < state.currentTerm then ⟨state, [], ()⟩
  else
    let members :=
      if status.members.isEmpty then state.members else membersOf status.members
    let next := state.followLeader status.term status.leaderNodeId status.leaderAddr
      status.commitSequence (max status.localLastAppliedSequence status.commitSequence) members
    ⟨next, [next.persisted], ()⟩

def leaderHeartbeatPayload : Option HeartbeatRequest :=
  if state.role ≠ .leader then none
  else some
    { term := state.currentTerm
      leaderNodeId := config.nodeId
      leaderAddr := (state.localAdvertiseAddr config).getD ""
      commitSequence := state.commitSequence
      leaderFrontierSequence := max state.localLastAppliedSequence state.commitSequence
      members := memberList state.members }

def leaderStatus : Option LeaderStatus :=
  if state.role ≠ .leader then none
  else some
    { leaderNodeId := config.nodeId
      leaderAddr := state.localAdvertiseAddr config
      term := state.currentTerm
      commitSequence := state.commitSequence
      localLastAppliedSequence := state.localLastAppliedSequence
      members := memberList state.members }

def noteLeaderFrontier (sequence : Nat) : ReplicationState :=
  if state.role = .follower then
    let noted := { state with leaderTargetSequence := max state.leaderTargetSequence sequence }
    { noted with followerPhase := noted.heardPhase }
  else state

end ReplicationState

end Vaylix

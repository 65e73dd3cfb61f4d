import Vaylix.Engine.Store
import Mathlib.Data.List.Sort

/-!
# The replication state of one node

The state is volatile except for the term, the vote and the members, which every change of
them writes to disk. What the source decides by comparing instants is an argument.
-/

namespace Vaylix

abbrev NodeId := String

inductive ReplicationRole where
  | standalone
  | leader
  | follower
  | candidate
deriving DecidableEq, Repr

inductive WriteAckMode where
  | local
  | replica
  | all
deriving DecidableEq, Repr

def WriteAckMode.asStr : WriteAckMode → String
  | .local => "local"
  | .replica => "majority"
  | .all => "all"

inductive FollowerPhase where
  | bootstrap
  | snapshotSync
  | catchingUp
  | streaming
  | stale
  | paused
deriving DecidableEq, Repr

structure ClusterMember where
  nodeId : NodeId
  advertiseAddr : String
  voter : Bool
deriving DecidableEq, Repr

abbrev Members := Std.ExtTreeMap NodeId ClusterMember compare

structure ReplicationConfig where
  nodeId : NodeId
  advertiseAddr : Option String
  role : ReplicationRole
  writeAckMode : WriteAckMode
  fetchBatchSize : Nat
  initialMembers : List ClusterMember
deriving DecidableEq, Repr

/-- What a leader knows of one follower. -/
structure FollowerProgress where
  matchIndex : Nat
  nextSequence : Nat
  lastAckTerm : Nat
deriving DecidableEq, Repr

structure ReplicationState where
  role : ReplicationRole
  paused : Bool
  leaderNodeId : Option NodeId
  leaderAdvertiseAddr : Option String
  localLastAppliedSequence : Nat
  localLastAppliedTerm : Option Nat
  localLastAppliedChecksum : Option UInt32
  commitSequence : Nat
  leaderTargetSequence : Nat
  followerPhase : Option FollowerPhase
  followers : Std.ExtTreeMap NodeId FollowerProgress compare
  currentTerm : Nat
  votedFor : Option NodeId
  bootstrapPreferred : Bool
  members : Members

structure PersistedReplicationState where
  currentTerm : Nat
  votedFor : Option NodeId
  members : List ClusterMember
deriving DecidableEq, Repr

/-- Members keyed by their identifier; a later entry replaces an earlier one. -/
def membersOf (members : List ClusterMember) : Members :=
  members.foldl (fun map member => map.insert member.nodeId member) ∅

def memberList (members : Members) : List ClusterMember := members.toList.map Prod.snd

def voterCount (members : Members) : Nat :=
  max ((memberList members).filter ClusterMember.voter).length 1

def quorumSize (memberCount : Nat) : Nat := memberCount / 2 + 1

def quorumSizeFromMembers (members : Members) : Nat := quorumSize (voterCount members)

def isVotingMember (members : Members) (nodeId : NodeId) : Bool :=
  match members[nodeId]? with
  | some member => member.voter
  | none => false

namespace ReplicationState

variable (config : ReplicationConfig) (state : ReplicationState)

def persisted : PersistedReplicationState :=
  ⟨state.currentTerm, state.votedFor, memberList state.members⟩

def new (persisted : Option PersistedReplicationState) : ReplicationState :=
  let listed := match persisted with
    | some state => state.members
    | none => config.initialMembers
  let loaded := membersOf listed
  let members := match config.advertiseAddr with
    | some advertiseAddr =>
      if loaded.contains config.nodeId then loaded
      else loaded.insert config.nodeId ⟨config.nodeId, advertiseAddr, true⟩
    | none => loaded
  let hasClusterPeers := decide (1 < ((memberList members).filter ClusterMember.voter).length)
  let role :=
    if hasClusterPeers ∧ config.role ≠ .standalone then ReplicationRole.follower else config.role
  let followerPhase := match role with
    | .follower | .candidate =>
      if hasClusterPeers ∧ persisted.isSome then some FollowerPhase.catchingUp
      else some FollowerPhase.bootstrap
    | _ => none
  { role := role
    paused := false
    leaderNodeId := none
    leaderAdvertiseAddr := none
    localLastAppliedSequence := 0
    localLastAppliedTerm := none
    localLastAppliedChecksum := none
    commitSequence := 0
    leaderTargetSequence := 0
    followerPhase := followerPhase
    followers := ∅
    currentTerm := (persisted.map PersistedReplicationState.currentTerm).getD 0
    votedFor := persisted.bind PersistedReplicationState.votedFor
    bootstrapPreferred := persisted.isNone && hasClusterPeers && decide (config.role = .leader)
    members := members }

def voterMatchSequences : List Nat :=
  ((memberList state.members).filter ClusterMember.voter).map fun member =>
    if member.nodeId = config.nodeId then state.localLastAppliedSequence
    else ((state.followers[member.nodeId]?).map FollowerProgress.matchIndex).getD 0

def nthHighestVoterMatch (quorum : Nat) : Nat :=
  let matches' := (state.voterMatchSequences config).insertionSort (· ≤ ·)
  matches'.getD (matches'.length - quorum) 0

def minVoterMatch : Nat :=
  ((state.voterMatchSequences config).min?).getD 0

/-- The position the acknowledgement mode would commit. -/
def commitCandidate : Nat :=
  match config.writeAckMode with
  | .local => state.localLastAppliedSequence
  | .replica => state.nthHighestVoterMatch config (quorumSizeFromMembers state.members)
  | .all => state.minVoterMatch config

/-- `recompute_commit_sequence`: the commit point never goes back here. -/
def recomputeCommitSequence : ReplicationState :=
  let advanced := min (state.commitCandidate config) state.localLastAppliedSequence
  { state with commitSequence := max state.commitSequence advanced }

/-- A standalone node commits what it is told, even when that is less than before. -/
def setLocalLastAppliedState
    (sequence : Nat) (term : Option Nat) (checksum : Option UInt32) : ReplicationState :=
  let state := { state with
    localLastAppliedSequence := sequence
    localLastAppliedTerm := term
    localLastAppliedChecksum := checksum }
  match state.role with
  | .standalone => { state with commitSequence := sequence }
  | .leader => state.recomputeCommitSequence config
  | _ => state

def observeLeaderCommit (leaderCommitSequence : Nat) : ReplicationState :=
  match state.role with
  | .leader | .standalone => state
  | _ =>
    let observed := min leaderCommitSequence state.localLastAppliedSequence
    { state with commitSequence := max state.commitSequence observed }

/-- `register_follower_ack`: the acknowledged position replaces the recorded one. -/
def registerFollowerAck
    (followerNodeId : NodeId) (appliedSequence term : Nat) (leaderNodeId : NodeId) :
    ReplicationState :=
  if state.role ≠ .leader ∨ state.currentTerm ≠ term ∨ leaderNodeId ≠ config.nodeId then state
  else
    ReplicationState.recomputeCommitSequence config { state with
      followers := state.followers.insert followerNodeId
        ⟨appliedSequence, appliedSequence + 1, term⟩ }

def followerNextSequence (followerNodeId : NodeId) : Nat :=
  ((state.followers[followerNodeId]?).map FollowerProgress.nextSequence).getD 1

def FollowerProgress.afterReply (progress : Option FollowerProgress) (accepted : Bool)
    (matchSequence term : Nat) : FollowerProgress :=
  let current := progress.getD ⟨0, 1, term⟩
  if accepted then
    let matchIndex := max current.matchIndex matchSequence
    ⟨matchIndex, matchIndex + 1, term⟩
  else
    ⟨current.matchIndex,
      min (max (current.nextSequence - 1) 1) (max (matchSequence + 1) 1), term⟩

def recordAppendResult (followerNodeId : NodeId) (accepted : Bool) (matchSequence term : Nat)
    (leaderNodeId : NodeId) : ReplicationState :=
  if state.role ≠ .leader ∨ state.currentTerm ≠ term ∨ leaderNodeId ≠ config.nodeId then state
  else
    ReplicationState.recomputeCommitSequence config { state with
      followers := state.followers.insert followerNodeId
        (FollowerProgress.afterReply state.followers[followerNodeId]? accepted matchSequence
          term) }

def writeWindowAvailable : Bool :=
  match config.writeAckMode with
  | .local => true
  | .replica | .all =>
    decide (state.localLastAppliedSequence - state.commitSequence < config.fetchBatchSize)

end ReplicationState

end Vaylix

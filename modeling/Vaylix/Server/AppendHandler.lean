import Vaylix.Engine.Truncation
import Vaylix.Replication.Consensus
import Vaylix.Server.ReadIndex
import Vaylix.Server.WriteCommit

/-!
# A follower receives entries

The handler of `ReplicationAppend` treats the request as a heartbeat, compares the entry
before the carried ones, looks for the first carried entry that the follower lacks, and
appends or replaces from there. A follower that has them all loses what it has behind the last
of them.
-/

namespace Vaylix

open NumberedLog

/-- The replication state with its durable part, the engine and the read index. -/
structure Node where
  config : ReplicationConfig
  replication : ReplicationState
  persisted : Option PersistedReplicationState
  engine : Engine
  readIndex : CommittedReadIndex

namespace Node

def after {α : Type} (node : Node) (handled : Handled α) : Node :=
  { node with
    replication := handled.state
    persisted := (handled.writes.getLast?).or node.persisted }

end Node

namespace AppendEntriesRequest

def heartbeat (request : AppendEntriesRequest) : HeartbeatRequest :=
  ⟨request.term, request.leaderNodeId, request.leaderAddr, request.commitSequence,
    request.leaderFrontierSequence, request.members⟩

def targetSequence (request : AppendEntriesRequest) : Nat :=
  max ((request.entries.getLast?.map WalEntry.sequence).getD request.commitSequence)
    request.commitSequence

end AppendEntriesRequest

def replacementEntriesAfter (prefixSequence : Nat) (entries : List WalEntry) : List WalEntry :=
  entries.filter fun entry => decide (prefixSequence < entry.sequence)

/-- Where carried entries stop agreeing with the local log. -/
inductive Overlap where
  | conflict (prefixSequence : Nat)
  | matched (sequence : Nat)
deriving DecidableEq, Repr

namespace Engine

variable [Codec]

/-- The loop over the carried entries that lie inside the local log. -/
def findOverlap (engine : Engine) (overlapMatchSequence : Nat) : List WalEntry → Overlap
  | [] => .matched overlapMatchSequence
  | entry :: rest =>
    if engine.lastAppliedSequence < entry.sequence then .matched overlapMatchSequence
    else if engine.walEntryTerm entry.sequence ≠ some entry.term ∨
        engine.walEntryChecksum entry.sequence ≠ some entry.checksum then
      .conflict (entry.sequence - 1)
    else engine.findOverlap entry.sequence rest

def acceptEntries (engine : Engine) (nowMs prevSequence : Nat) (entries : List WalEntry) :
    Except EngineError (Engine × Nat) :=
  if entries.isEmpty then
    if prevSequence < engine.lastAppliedSequence then
      engine.replaceReplicationSuffix nowMs prevSequence []
    else .ok (engine, engine.lastAppliedSequence)
  else
    match engine.findOverlap prevSequence entries with
    | .conflict prefixSequence =>
      engine.replaceReplicationSuffix nowMs prefixSequence
        (replacementEntriesAfter prefixSequence entries)
    | .matched sequence =>
      match entries.dropWhile fun entry => decide (entry.sequence < sequence + 1) with
      | [] =>
        if sequence < engine.lastAppliedSequence then
          engine.replaceReplicationSuffix nowMs sequence []
        else .ok (engine, max engine.lastAppliedSequence sequence)
      | first :: rest =>
        if engine.lastAppliedSequence + 1 ≠ first.sequence then
          engine.replaceReplicationSuffix nowMs sequence
            (replacementEntriesAfter sequence (first :: rest))
        else engine.applyReplicationEntries (first :: rest)

end Engine

namespace Node

variable [Codec]

def withPhase (node : Node) (phase : FollowerPhase) : Node :=
  { node with replication := { node.replication with followerPhase := some phase } }

/-- The position is published, the commit observed, the index advanced, and the position
reported. -/
def acceptedAppend (node : Node) (request : AppendEntriesRequest) (term : Nat) (engine : Engine)
    (appliedSequence : Nat) : Node × Except ServerError AppendEntriesResponse :=
  let published := node.replication.publish node.config
    (engine.appliedStateForSequence appliedSequence)
  let replication := published.observeLeaderCommit request.commitSequence
  let advanced := node.readIndex.advanceReadIndexTo engine node.config.fetchBatchSize
    (min replication.commitSequence appliedSequence)
  let node := { node with
    replication := replication, engine := engine, readIndex := advanced.1 }
  match advanced.2 with
  | some err => (node, .error err)
  | none =>
    (if request.targetSequence ≤ appliedSequence then node.withPhase .streaming else node,
      .ok ⟨term, true, appliedSequence⟩)

/-- What the handler learns of the leader's frontier before it looks at the log. -/
def noteFrontier (node : Node) (request : AppendEntriesRequest) : Node :=
  let noted := { node with
    replication := node.replication.noteLeaderFrontier request.targetSequence }
  if noted.engine.lastAppliedSequence < request.targetSequence then noted.withPhase .catchingUp
  else noted

/-- The handler of `ReplicationAppend`. An error is answered with an error response, which holds
no `AppendEntriesResponse`. -/
def handleAppend (node : Node) (nowMs : Nat) (request : AppendEntriesRequest) :
    Node × Except ServerError AppendEntriesResponse :=
  let localLast := node.replication.localLastAppliedSequence
  if request.term < node.replication.currentTerm then
    (node, .ok ⟨node.replication.currentTerm, false, localLast⟩)
  else
    let heartbeat := node.replication.handleHeartbeat request.heartbeat
    let heard := node.after heartbeat
    let term := heartbeat.answer.term
    if !heartbeat.answer.accepted then (heard, .ok ⟨term, false, localLast⟩)
    else
      let noted := heard.noteFrontier request
      let engine := node.engine
      if engine.walEntryTerm request.prevSequence ≠ request.prevTerm ∨
          engine.walEntryChecksum request.prevSequence ≠ request.prevEntryChecksum then
        (noted, .ok ⟨term, false, request.prevSequence - 1⟩)
      else if request.entries.isEmpty ∧ engine.lastAppliedSequence < request.prevSequence then
        (noted, .ok ⟨term, false, engine.lastAppliedSequence⟩)
      else
        match engine.acceptEntries nowMs request.prevSequence request.entries with
        | .error err => (noted, .error (.engine err))
        | .ok (engine, appliedSequence) =>
          noted.acceptedAppend request term engine appliedSequence

end Node

end Vaylix

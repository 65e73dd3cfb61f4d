import Vaylix.Replication.State
import Vaylix.Server.EngineWorker

/-!
# Waiting for a write to commit, and giving up on it

A write is published, driven until the commit point covers it, and otherwise
rolled back to the commit point.
-/

namespace Vaylix

namespace ReplicationState

def publish (config : ReplicationConfig) (state : ReplicationState) (applied : LogAppendResult) :
    ReplicationState :=
  state.setLocalLastAppliedState config applied.lastAppliedSequence applied.lastAppliedTerm
    applied.lastAppliedChecksum

/-- What `wait_for_write_ack` reports once its deadline has passed. -/
def ackFailure (config : ReplicationConfig) (state : ReplicationState) (sequence : Nat) :
    ServerError :=
  let matched := state.followers.toList.filter fun (_, progress) =>
    decide (progress.lastAckTerm = state.currentTerm ∧ sequence ≤ progress.matchIndex)
  if 1 < voterCount state.members ∧ matched.length = 0 then .replicationAckUnavailable
  else .replicationAckTimeout sequence config.writeAckMode.asStr

/-- One round of `drive_write_commit`, and of `wait_for_write_ack` behind its deadline, on a node
whose role does not change. `expired` says that both deadlines have passed. -/
def driveRound (config : ReplicationConfig) (state : ReplicationState) (sequence : Nat)
    (expired : Bool) : Option (Except ServerError Unit) :=
  if config.writeAckMode = .local then some (.ok ())
  else if sequence ≤ state.commitSequence then some (.ok ())
  else if state.role ≠ .leader then some (.error .replicationAckUnavailable)
  else if expired then some (.error (state.ackFailure config sequence))
  else none

end ReplicationState

/-- `rollback_uncommitted_tail`: the engine's log is cut at the commit point. -/
def rollbackUncommittedTail [Codec] (config : ReplicationConfig) (state : ReplicationState)
    (engine : Engine) (nowMs : Nat) : Except ServerError (ReplicationState × Engine) :=
  if engine.lastAppliedSequence ≤ state.commitSequence then .ok (state, engine)
  else
    match engine.replaceReplicationSuffix nowMs state.commitSequence [] with
    | .error err => .error (.engine err)
    | .ok (engine, applied) =>
      .ok (state.publish config (engine.appliedStateForSequence applied), engine)

end Vaylix

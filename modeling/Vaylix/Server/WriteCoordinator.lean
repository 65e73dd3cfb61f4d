import Vaylix.Engine.BatchAgreement
import Vaylix.Server.Session
import Vaylix.Server.WriteTasks

/-!
# The write coordinator

The writes that wait on a leader run as one batch and share one wait. Behind its deadline
there is a second one, which goes on when the node has lost its office. Results are paired
with requests by position.
-/

namespace Vaylix

/-- A look at the commit point, and then at the role and at the clock. -/
structure CommitLook where
  state : ReplicationState
  role : ReplicationRole
  expired : Bool

/-- A look at the role, then one for each request; the term and the clock; whether the node still
leads when the batch has run; what the two waits look at; and what a rollback finds. -/
structure BatchSurroundings where
  role : ReplicationRole
  standing : Nat → Standing
  term : Nat
  nowMs : Nat
  leadsTerm : Bool
  looks : List CommitLook
  waits : List CommitLook
  atRollback : ReplicationState
  rollbackMs : Nat

/-- `wait_for_write_ack`, which has a deadline of its own and does not look at the role. -/
def waitForWriteAck (config : ReplicationConfig) (sequence : Nat) :
    List CommitLook → Except ServerError Unit
  | [] => .error .replicationAckUnavailable
  | look :: rest =>
    if sequence ≤ look.state.commitSequence then .ok ()
    else if look.expired then .error (look.state.ackFailure config sequence)
    else waitForWriteAck config sequence rest

def driveLoop (config : ReplicationConfig) (sequence : Nat) (waits : List CommitLook) :
    List CommitLook → Except ServerError Unit
  | [] => .error .replicationAckUnavailable
  | look :: rest =>
    if sequence ≤ look.state.commitSequence then .ok ()
    else if look.role ≠ .leader then .error .replicationAckUnavailable
    else if look.expired then waitForWriteAck config sequence waits
    else driveLoop config sequence waits rest

namespace BatchSurroundings

def driveWriteCommit (around : BatchSurroundings) (config : ReplicationConfig)
    (sequence : Nat) : Except ServerError Unit :=
  if config.writeAckMode = .local then .ok ()
  else driveLoop config sequence around.waits around.looks

variable {config : ReplicationConfig} {sequence : Nat}

theorem waitForWriteAck_ok {waits : List CommitLook}
    (waited : waitForWriteAck config sequence waits = .ok ()) :
    ∃ look ∈ waits, sequence ≤ look.state.commitSequence := by
  induction waits with
  | nil => cases waited
  | cons look rest ih =>
    rw [waitForWriteAck] at waited
    split_ifs at waited with reached
    · exact ⟨look, List.mem_cons_self, reached⟩
    · obtain ⟨later, inside, reached⟩ := ih waited
      exact ⟨later, List.mem_cons_of_mem _ inside, reached⟩

/-- A wait that ends well has looked at the commit point. -/
theorem driveLoop_ok {waits looks : List CommitLook}
    (driven : driveLoop config sequence waits looks = .ok ()) :
    ∃ look ∈ looks ++ waits, sequence ≤ look.state.commitSequence := by
  induction looks with
  | nil => cases driven
  | cons look rest ih =>
    rw [driveLoop] at driven
    split_ifs at driven with reached deposed expired
    · exact ⟨look, List.mem_cons_self, reached⟩
    · obtain ⟨later, inside, reached⟩ := waitForWriteAck_ok driven
      exact ⟨later, List.mem_append_right _ inside, reached⟩
    · obtain ⟨later, inside, reached⟩ := ih driven
      exact ⟨later, List.mem_cons_of_mem _ inside, reached⟩

/-- A wait that ends well has seen the commit point at the sequence. -/
theorem observed {around : BatchSurroundings} (shared : config.writeAckMode ≠ .local)
    (driven : around.driveWriteCommit config sequence = .ok ()) :
    ∃ look ∈ around.looks ++ around.waits, sequence ≤ look.state.commitSequence := by
  rw [driveWriteCommit, if_neg shared] at driven
  exact driveLoop_ok driven

end BatchSurroundings

namespace Server

variable [Codec] (server : Server) (runtime : ServerRuntime) (around : BatchSurroundings)

variable {Channel : Type}

variable {server runtime around}

end Server

end Vaylix

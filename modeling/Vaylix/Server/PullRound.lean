import Vaylix.Engine.WholeLog
import Vaylix.Server.AppendRound

/-!
# Pull rounds, rollbacks and restarts

A follower appends what it has pulled without a look at the entry before. A write that is
given up takes the log back to the commit point. A restart finds the log and the persistent
replication state on disk, and indexes the whole log.
-/

namespace Vaylix

namespace Node

variable [Codec]

/-- The log is replayed, and the replication state starts from its persistent part. -/
def restart (node : Node) (nowMs : Nat) : Option Node :=
  match Engine.fromPathsWithOptions node.engine.disk node.engine.options nowMs with
  | .error _ => none
  | .ok engine => some (published
      { node with
        replication := ReplicationState.new node.config node.persisted
        engine := engine
        readIndex := CommittedReadIndex.rebuildFromEngineState engine.state })

/-- Entries up to the leader's commit point are appended and the position is acknowledged. -/
def applyFetched (node : Node) (status : LeaderStatus) (entries : List WalEntry) :
    Option (Node × Nat) :=
  let current := node.engine.lastAppliedSequence
  if status.commitSequence < current ∨ status.localLastAppliedSequence < current then none
  else
    let entries := entries.filter fun entry =>
      decide (current < entry.sequence ∧ entry.sequence ≤ status.commitSequence)
    match entries with
    | [] => some (node, current)
    | first :: _ =>
      if first.sequence ≠ current + 1 then none
      else
        match node.engine.applyReplicationEntries entries with
        | .error _ => none
        | .ok (engine, applied) =>
          let replication := node.replication.publish node.config
            (engine.appliedStateForSequence applied)
          some ({ node with engine := engine, replication := replication }, applied)

/-- **What a pull round does** to a whole log: some of the entries are put behind it. -/
theorem applyFetched_cases {node next : Node} {applied : Nat} (whole : node.engine.Whole)
    {status : LeaderStatus} {entries : List WalEntry}
    (done : node.applyFetched status entries = some (next, applied)) :
    (next = node ∧ applied = node.engine.lastAppliedSequence) ∨
    ∃ engine fetched, (∀ entry ∈ fetched, entry ∈ entries) ∧ engine.Whole ∧
      engine.walEntries = node.engine.walEntries ++ fetched ∧
      applied = engine.lastAppliedSequence ∧
      next = { node with
        engine := engine
        replication := node.replication.publish node.config
          (engine.appliedStateForSequence applied) } := by
  unfold applyFetched at done
  dsimp only at done
  split at done
  · cases done
  split at done
  · cases done
    exact .inl ⟨rfl, rfl⟩
  split at done
  · cases done
  split at done
  · cases done
  rename_i engine position accepted
  cases done
  obtain ⟨replaced, rfl⟩ := Engine.suffixReplaced_of_applied whole.logged accepted
  have log := replaced.log
  rw [whole.logged.logUpTo_eq_self le_rfl] at log
  exact .inr ⟨engine, _, fun entry member => (List.mem_filter.mp member).1,
    (whole.replace replaced whole.position.le).1, log, rfl, rfl⟩

end Node

/-- Cutting a whole log succeeds only inside of it. -/
theorem Engine.Whole.cut [Codec] {engine next : Engine} {nowMs sequence applied : Nat}
    (whole : engine.Whole)
    (done : engine.replaceReplicationSuffix nowMs sequence [] = .ok (next, applied)) :
    next.Whole ∧ next.walEntries = engine.walEntries.take sequence ∧
      next.lastAppliedSequence = sequence ∧ applied = sequence := by
  obtain ⟨replacement, replaced, checked, -, rfl⟩ :=
    Engine.suffixReplaced_of_ok whole.logged.numbered done
  obtain rfl : replacement = [] := checked.eq_of_from trivial
  have inside : sequence ≤ engine.walEntries.length := by
    rcases Engine.checkPrefix_ok_iff.mp checked.retained with ⟨-, start⟩ | ⟨last, ends, rfl⟩
    · rw [start, snapshotBaseline, whole.snapshotless.1]
      exact Nat.zero_le _
    · have member := (List.mem_filter.mp (List.mem_of_getLast? ends)).1
      have := whole.numbered.mem_bounds member
      omega
  obtain ⟨kept, log⟩ := whole.replace replaced inside
  exact ⟨kept, by rw [log, List.append_nil], replaced.position, replaced.position⟩

/-- **What a rollback does** to a whole log: if not all of it is committed, it ends at the commit
point, and that position is published. -/
theorem rollbackUncommittedTail_cases [Codec] {config : ReplicationConfig}
    {state replication : ReplicationState} {engine cut : Engine} {nowMs : Nat}
    (whole : engine.Whole)
    (done : rollbackUncommittedTail config state engine nowMs = .ok (replication, cut)) :
    (engine.lastAppliedSequence ≤ state.commitSequence ∧ replication = state ∧ cut = engine) ∨
    (state.commitSequence < engine.lastAppliedSequence ∧ cut.Whole ∧
      cut.walEntries = engine.walEntries.take state.commitSequence ∧
      cut.lastAppliedSequence = state.commitSequence ∧
      replication = state.publish config
        (cut.appliedStateForSequence cut.lastAppliedSequence)) := by
  unfold rollbackUncommittedTail at done
  split at done
  · rename_i committed
    cases done
    exact .inl ⟨committed, rfl, rfl⟩
  rename_i behind
  split at done
  · cases done
  rename_i next applied replacing
  cases done
  obtain ⟨kept, log, position, rfl⟩ := whole.cut replacing
  exact .inr ⟨Nat.not_le.mp behind, kept, log, position, by rw [position]⟩

end Vaylix

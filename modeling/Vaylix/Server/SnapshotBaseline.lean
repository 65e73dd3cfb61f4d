import Vaylix.Server.VoteHistory

/-!
# Snapshots and the commit point

`Engine::snapshot` saves whatever has been applied, and `replace_replication_suffix` does not
go back behind the saved state. As long as only committed entries are saved, every tail behind
the commit point can be replaced, provided that the retained entries before it run over the
saved state.
-/

namespace Vaylix

open LabelledRun NumberedLog

namespace Engine

variable [Codec] {engine next : Engine}

/-- The log reaches back to the saved state, or further. -/
def ReachesBack (engine : Engine) : Prop := engine.compactedSequence ≤ engine.savedSequence

theorem ReachesBack.perform (reaches : engine.ReachesBack) (kept : engine.Intact)
    {action : EngineAction} (completes : if action.snapshots then WalDir.Readable engine.walEntries
      else action.succeeds engine = true ∨ engine.Untouched (action.perform engine)) :
    (action.perform engine).ReachesBack ∧ (action.perform engine).savedSequence =
      if action.snapshots then engine.lastAppliedSequence else engine.savedSequence := by
  obtain ⟨-, ends⟩ := kept.logged.from_compacted
  unfold ReachesBack at reaches ⊢
  cases snapshots : action.snapshots with
  | false =>
    rw [snapshots] at completes
    rcases completes with succeeded | same
    · have appended := Appended.perform engine snapshots succeeded
      have saved : (action.perform engine).savedSequence = engine.savedSequence := by
        rw [savedSequence, appended.disk]
        rfl
      rw [saved, compactedSequence, appended.position, appended.log, List.length_append]
      exact ⟨by omega, rfl⟩
    · rw [savedSequence, compactedSequence, same.disk, same.position, same.log]
      exact ⟨reaches, rfl⟩
  | true =>
    rw [snapshots] at completes
    obtain ⟨_, _, -, snapshotted, -⟩ := perform_snapshotted kept.stored completes snapshots
    have saved : (action.perform engine).savedSequence = engine.lastAppliedSequence := by
      rw [savedSequence, snapshotted.saved]
      rfl
    rw [saved, compactedSequence, lastAppliedSequence, snapshotted.state]
    exact ⟨Nat.sub_le _ _, rfl⟩

theorem reachesBack_replaced {sequence : Nat} {replacement : List WalEntry}
    (replaced : engine.SuffixReplaced sequence replacement next)
    (kept : sequence ≤ engine.savedSequence + (engine.logUpTo sequence).length) :
    next.ReachesBack ∧ next.savedSequence = engine.savedSequence := by
  have same : next.savedSequence = engine.savedSequence := by
    rw [savedSequence, replaced.snapshot, savedSequence]
  rw [ReachesBack, compactedSequence, replaced.position, replaced.log, List.length_append]
  omega

theorem ReachesBack.receives (reaches : engine.ReachesBack) (kept : engine.Intact)
    (receives : engine.Receives next) :
    next.ReachesBack ∧ next.savedSequence = engine.savedSequence := by
  obtain ⟨numbered, ends⟩ := kept.logged.from_compacted
  unfold ReachesBack at reaches
  cases receives with
  | same => exact ⟨reaches, rfl⟩
  | @replaced _ nowMs sequence _ _ done =>
    obtain ⟨replacement, replaced, checked, -⟩ := suffixReplaced_of_ok kept.logged.numbered done
    refine reachesBack_replaced replaced ?_
    rcases checkPrefix_ok_iff.mp checked.retained with ⟨-, rfl⟩ | ⟨last, final, rfl⟩
    · rw [snapshotBaseline_sequence]
      exact Nat.le_add_right _ _
    · rw [logUpTo, numbered.filter_le] at final ⊢
      have := (numbered.take _).getLast?_number final
      omega
  | applied done =>
    obtain ⟨replaced, -⟩ := suffixReplaced_of_applied kept.logged done
    refine reachesBack_replaced replaced ?_
    rw [kept.logged.logUpTo_eq_self le_rfl]
    omega

end Engine

namespace ServingNode

variable [Codec]

end ServingNode

section Samples

open Sample ServingNode

end Samples

end Vaylix

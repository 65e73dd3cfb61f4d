import Vaylix.Engine.History
import Vaylix.Engine.Truncation

/-!
# The keyspace after a replaced suffix

The keyspace is rebuilt from the snapshot and the retained entries up to the cut, which may
start below the snapshot. The result is the keyspace right after the entry at the cut, and the
new entries applied to it.
-/

namespace Vaylix

open EngineStore LabelledRun NumberedLog

namespace RecordedEngine

section Replacing

variable [Codec] {recorded : RecordedEngine}

theorem Traced.window_numbered (traced : recorded.Traced) {start base : Nat}
    (baseline : recorded.engine.Baseline recorded.history start base) :
    From WalEntry.sequence (1 + start) recorded.engine.walEntries := by
  rw [baseline.window]
  exact from_drop traced.numbered (baseline.order.trans baseline.bound)

theorem Traced.consecutive (traced : recorded.Traced) : recorded.engine.Consecutive := by
  obtain ⟨start, base, baseline⟩ := traced.baseline
  have inside := baseline.order.trans baseline.bound
  refine ⟨1 + start, by omega, traced.window_numbered baseline, ?_⟩
  rw [baseline.window, traced.position, List.length_drop]
  omega

theorem Traced.logUpTo_eq (traced : recorded.Traced) {start base : Nat}
    (baseline : recorded.engine.Baseline recorded.history start base) (sequence : Nat) :
    recorded.engine.logUpTo sequence = (recorded.history.take sequence).drop start := by
  have shifted : sequence + 1 - (1 + start) = sequence - start := by omega
  rw [Engine.logUpTo, (traced.window_numbered baseline).filter_le, baseline.window, shifted,
    List.drop_take]

theorem Traced.replay_logUpTo (traced : recorded.Traced) {nowMs sequence : Nat}
    {entries : List WalEntry} {store : EngineStore}
    (behind : (recorded.engine.snapshotBaseline nowMs).metadata.lastAppliedSequence ≤ sequence)
    (replayed : replayStore (recorded.engine.snapshotBaseline nowMs).store
      (recorded.engine.logUpTo sequence ++ entries) = .ok store) :
    ∃ before, recorded.keyspaceAt sequence = .ok before ∧
      replayStore before entries = .ok store := by
  obtain ⟨start, base, baseline⟩ := traced.baseline
  rw [baseline.position] at behind
  rw [traced.logUpTo_eq baseline, replayStore_append, baseline.replay_upTo behind] at replayed
  obtain ⟨before, there, following⟩ := Except.bind_eq_ok_iff.mp replayed
  exact ⟨before, there, following⟩

/-- **A replaced suffix rebuilds the true state.** In every run of successful calls and settled
snapshots, replacing the log behind `sequence` leaves the keyspace the engine had right after that
entry, with the replacement applied to it, and a log without a gap. -/
theorem replaced_suffix_rebuilds (options : EngineOptions) (startMs : Nat)
    (calls : List EngineCall) (recorded : RecordedEngine)
    (reached : run step (create options startMs) calls = some recorded)
    (settled : Meets step Settled (create options startMs) calls) (nowMs sequence applied : Nat)
    (entries : List WalEntry) (next : Engine)
    (done : recorded.engine.replaceReplicationSuffix nowMs sequence entries =
      .ok (next, applied)) :
    ∃ before replacement, recorded.keyspaceAt sequence = .ok before ∧
      (∀ first rest earlier, calls = first ++ rest →
        run step (create options startMs) first = some earlier →
        earlier.engine.lastAppliedSequence = sequence → before = earlier.engine.state.store) ∧
      replayStore before replacement = .ok next.state.store ∧
      replacement.Sublist entries ∧
      (∀ entry ∈ entries, sequence < entry.sequence → ∃ kept ∈ replacement,
        kept.sequence = entry.sequence ∧ walEntryIdentity kept = walEntryIdentity entry) ∧
      From WalEntry.sequence (sequence + 1) replacement ∧
      next.walEntries = recorded.engine.logUpTo sequence ++ replacement ∧
      next.lastAppliedSequence = sequence + replacement.length := by
  have traced := traced_of_run reached settled
  obtain ⟨replacement, replaced, checked, replayed, -⟩ :=
    Engine.suffixReplaced_of_ok traced.consecutive done
  obtain ⟨⟨kept, (rfl : replacement = kept), sublist⟩, covered⟩ :=
    Engine.replacementAfter_keeps checked.selected
  obtain ⟨store, rerun, rebuilt⟩ := (EngineState.replayEntries_ok_iff _ _ _).mp replayed
  obtain ⟨before, there, following⟩ :=
    traced.replay_logUpTo (Engine.le_of_checkBaseline checked.baseline) rerun
  have kept : store = next.state.store := congrArg EngineState.store rebuilt.symm
  rw [kept] at following
  refine ⟨before, replacement, there, ?_, following, sublist, covered, checked.continues,
    replaced.log, replaced.position⟩
  rintro first rest earlier rfl reachedEarlier rfl
  have known := keyspaceAt_of_run reached settled reachedEarlier
  rw [there] at known
  exact Except.ok.inj known

end Replacing

end RecordedEngine

section Runs

open Sample RecordedEngine

def rewrittenCalls : List EngineCall :=
  [⟨1, .direct (.still 0) (.set "k" [49] {})⟩, ⟨1, .direct (.still 1) .snapshot⟩,
    ⟨1, .direct (.still 2) (.set "k" [50] {})⟩]

/-- The second write is cut off; the first is replayed over a snapshot that holds it. -/
theorem replaced_suffix_rebuilds_first_write :
    ∃ recorded, run step (create ⟨0, 1⟩ 0) rewrittenCalls = some recorded ∧
      ∃ next applied, recorded.engine.replaceReplicationSuffix 9 1 [] = .ok (next, applied) ∧
        recorded.keyspaceAt 1 = .ok next.state.store ∧ next.lastAppliedSequence = 1 := by
  obtain ⟨recorded, reached, ⟨next, applied⟩, done, -⟩ :
      ∃ recorded ∈ run step (create ⟨0, 1⟩ 0) rewrittenCalls,
        ∃ result ∈ (recorded.engine.replaceReplicationSuffix 9 1 []).toOption, True := by
    decide +kernel
  replace done := Except.eq_ok_of_mem_toOption done
  have settled : Meets step Settled (create ⟨0, 1⟩ 0) rewrittenCalls := by decide +kernel
  obtain ⟨before, replacement, there, -, following, sublist, -, -, -, position⟩ :=
    replaced_suffix_rebuilds ⟨0, 1⟩ 0 rewrittenCalls recorded reached settled 9 1 applied [] next
      done
  obtain rfl := List.sublist_nil.mp sublist
  obtain rfl := Except.ok.inj following
  exact ⟨recorded, reached, next, applied, done, there, position⟩

/-- Right after its only entry the engine held 1; cut behind that entry, the log rebuilds 2. -/
theorem replaced_suffix_recounts :
    ∃ recorded ∈ run step (create ⟨0, 1⟩ 0) recountedCalls,
      recorded.engine.lastAppliedSequence = 1 ∧
      recorded.engine.state.store.get "k" = some ⟨[49], none, 1⟩ ∧
      ((recorded.engine.replaceReplicationSuffix 9 1 []).toOption.map fun result =>
        result.1.state.store.get "k") = some (some ⟨[50], none, 2⟩) := by
  decide +kernel

end Runs

end Vaylix

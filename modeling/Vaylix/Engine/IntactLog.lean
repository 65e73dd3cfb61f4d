import Vaylix.Engine.SnapshotInstall
import Vaylix.Engine.SnapshotRecovery
import Vaylix.Engine.WholeLog

/-!
# One log, four views

The log is kept as a position, as a list of entries, as an index of identities and as files.
As long as operations succeed, entries can be read back and positions stay below the largest
64-bit number, the views agree. A state may be installed at that number; the entry behind it
then gets number 0.
-/

namespace Vaylix

open LabelledRun NumberedLog

namespace Engine

variable [Codec]

def savedSequence (engine : Engine) : Nat :=
  (engine.disk.snapshot.map fun state => state.metadata.lastAppliedSequence).getD 0

omit [Codec] in
theorem snapshotBaseline_sequence (engine : Engine) (nowMs : Nat) :
    (engine.snapshotBaseline nowMs).metadata.lastAppliedSequence = engine.savedSequence := by
  unfold snapshotBaseline savedSequence
  cases engine.disk.snapshot <;> rfl

/-- The log is indexed and stored, and an empty one follows the saved state. -/
structure Intact (engine : Engine) : Prop where
  logged : engine.Logged
  stored : engine.LogStored
  based : engine.walEntries = [] → engine.savedSequence = engine.lastAppliedSequence

structure Untouched (engine next : Engine) : Prop extends engine.SameLog next where
  identities : next.walEntryIdentities = engine.walEntryIdentities
  disk : next.disk = engine.disk
  writer : next.writer = engine.writer

theorem savedSequence_of_baseline {engine : Engine} {nowMs : Nat} {baseline : EngineState}
    (loaded : recoveryBaseline engine.disk nowMs = .ok baseline) :
    baseline.metadata.lastAppliedSequence = engine.savedSequence := by
  rw [(recoveryBaseline_ok loaded).2.1, savedSequence]
  cases engine.disk.snapshot <;> rfl

namespace Intact

variable {engine next : Engine}

theorem create (options : EngineOptions) (nowMs : Nat) : (create options nowMs).Intact :=
  ⟨(whole_create options nowMs).logged, (whole_create options nowMs).logStored, fun _ => rfl⟩

theorem installed {nowMs : Nat} {snapshot : ReplicationSnapshot}
    (done : engine.applyReplicationSnapshot nowMs snapshot = .ok next) : next.Intact := by
  unfold applyReplicationSnapshot at done
  split at done
  · cases done
  cases done
  exact ⟨⟨⟨_, Nat.succ_pos _, trivial, rfl⟩, fun sequence => by simp [entryAt]⟩,
    ⟨_, Stores.fresh _ 0, rfl⟩, fun _ => rfl⟩

variable (kept : engine.Intact)
include kept

theorem same (log : next.walEntries = engine.walEntries)
    (position : next.lastAppliedSequence = engine.lastAppliedSequence)
    (saved : next.savedSequence = engine.savedSequence)
    (indexed : Indexes next.walEntryIdentities engine.walEntries)
    (stored : ∃ first, Stores first next.disk.walDir next.writer engine.walEntries ∧
      first + engine.walEntries.length = engine.lastAppliedSequence + 1) : next.Intact := by
  refine ⟨⟨?_, log ▸ indexed⟩, ?_, ?_⟩
  · rw [Consecutive, log, position]
    exact kept.logged.numbered
  · rw [LogStored, log, position]
    exact stored
  · rw [log, position, saved]
    exact kept.based

theorem untouched (same : engine.Untouched next) : next.Intact := by
  refine kept.same same.log same.position ?_ (same.identities ▸ kept.logged.indexed) ?_
  · rw [savedSequence, same.disk, savedSequence]
  · rw [same.disk, same.writer]
    exact kept.stored

variable {entries : List WalEntry}

/-- An append keeps the four views together. -/
theorem append (appended : engine.Appended next entries) : next.Intact := by
  obtain ⟨first, positive, numbered, ends⟩ := kept.logged.numbered
  have continues : From WalEntry.sequence first (engine.walEntries ++ entries) :=
    from_append.mpr ⟨numbered, ends ▸ appended.numbered⟩
  refine ⟨⟨⟨first, positive, appended.log ▸ continues, ?_⟩, ?_⟩, kept.stored.grow appended, ?_⟩
  · rw [appended.log, appended.position, List.length_append]
    omega
  · rw [appended.log]
    exact appended.indexed first continues kept.logged.indexed
  · intro empty
    rw [appended.log, List.append_eq_nil_iff] at empty
    rw [appended.position, empty.2, savedSequence, appended.disk]
    exact kept.based empty.1

theorem snapshotted {reading : Reading} (snapshotted : engine.Snapshotted next reading)
    (indexed : Indexes next.walEntryIdentities next.walEntries) : next.Intact := by
  obtain ⟨first, positive, numbered, ends⟩ := kept.logged.numbered
  obtain ⟨pruned, suffix⟩ := snapshotted.suffix
  have position : next.lastAppliedSequence = engine.lastAppliedSequence := by
    rw [lastAppliedSequence, snapshotted.state]
    rfl
  rw [suffix, ← snapshotted.log] at numbered ends
  have later := (from_append.mp numbered).2
  rw [List.length_append] at ends
  refine ⟨⟨⟨first + pruned.length, by omega, later, by omega⟩, indexed⟩, snapshotted.stored, ?_⟩
  intro _
  rw [position, savedSequence, snapshotted.saved]
  rfl

theorem replaced {nowMs sequence applied : Nat}
    (done : engine.replaceReplicationSuffix nowMs sequence entries = .ok (next, applied)) :
    next.Intact := by
  obtain ⟨replacement, replaced, checked, -, -⟩ := suffixReplaced_of_ok kept.logged.numbered done
  refine ⟨replaced.logged, replaced.stored kept.stored, ?_⟩
  intro empty
  rw [replaced.log, List.append_eq_nil_iff] at empty
  rcases checkPrefix_ok_iff.mp checked.retained with ⟨-, rfl⟩ | ⟨last, final, -⟩
  · rw [replaced.position, empty.2, snapshotBaseline_sequence, savedSequence, replaced.snapshot]
    rfl
  · rw [empty.1] at final
    cases final

theorem applied {applied : Nat}
    (done : engine.applyReplicationEntries entries = .ok (next, applied)) : next.Intact := by
  obtain ⟨replaced, -⟩ := suffixReplaced_of_applied kept.logged done
  refine ⟨replaced.logged, replaced.stored kept.stored, ?_⟩
  intro empty
  rw [replaced.log, List.append_eq_nil_iff, kept.logged.logUpTo_eq_self le_rfl] at empty
  rw [replaced.position, empty.2, savedSequence, replaced.snapshot]
  exact kept.based empty.1

theorem reopen {options : EngineOptions} {nowMs : Nat}
    (opened : fromPathsWithOptions engine.disk options nowMs = .ok next) : next.Intact := by
  obtain ⟨first, stores, last⟩ := kept.stored
  obtain ⟨baseline, loaded, reopened⟩ := reopened_of_stored stores opened
  refine kept.same reopened.log (reopened.position last fun empty =>
    (savedSequence_of_baseline loaded).trans (kept.based empty)) ?_ reopened.indexed
    ⟨first, reopened.stores, last⟩
  rw [savedSequence, reopened.snapshot, savedSequence]

theorem lastTerm {entry : WalEntry} (last : engine.walEntries.getLast? = some entry) :
    engine.walEntryTerm engine.lastAppliedSequence = some entry.term := by
  obtain ⟨first, -, numbered, ends⟩ := kept.logged.numbered
  have named := numbered.getLast?_number last
  rw [show engine.lastAppliedSequence = entry.sequence by omega]
  exact (kept.logged.identity_of_member (List.mem_of_getLast? last)).1

/-- A call that succeeds keeps the four views together. -/
theorem perform {action : EngineAction}
    (completes : if action.snapshots then WalDir.Readable engine.walEntries
      else action.succeeds engine = true ∨ engine.Untouched (action.perform engine)) :
    (action.perform engine).Intact := by
  cases snapshots : action.snapshots with
  | false =>
    rw [snapshots] at completes
    rcases completes with succeeded | same
    · exact kept.append (Appended.perform engine snapshots succeeded)
    · exact kept.untouched same
  | true =>
    rw [snapshots] at completes
    obtain ⟨reading, command, -, snapshotted, indexed⟩ :=
      perform_snapshotted kept.stored completes snapshots
    exact kept.snapshotted snapshotted indexed

end Intact

/-! ### Runs of operations -/

/-- A call, entries or a state of a leader, or the replacement of the end of the log. -/
inductive LogOperation where
  | call (call : EngineCall)
  | replicate (entries : List WalEntry)
  | replace (nowMs sequence : Nat) (entries : List WalEntry)
  | install (nowMs : Nat) (snapshot : ReplicationSnapshot)

/-- An operation that succeeds, leaves entries within the reader's limit, and a position whose
successor is a 64-bit number. -/
def logStep (engine : Engine) (operation : LogOperation) : Option Engine :=
  let next := match operation with
    | .call call =>
      let called := engine.setConsensusTerm call.term
      if call.action.succeeds called then some (call.action.perform called) else none
    | .replicate entries => (engine.applyReplicationEntries entries).toOption.map Prod.fst
    | .replace nowMs sequence entries =>
      (engine.replaceReplicationSuffix nowMs sequence entries).toOption.map Prod.fst
    | .install nowMs snapshot => (engine.applyReplicationSnapshot nowMs snapshot).toOption
  next.filter fun engine => decide (engine.lastAppliedSequence < u64Max) &&
    engine.walEntries.all fun entry => decide (Codec.durableLen entry ≤ maxWalEntrySize)

theorem intact_logStep {engine next : Engine} {operation : LogOperation}
    (kept : engine.Intact ∧ WalDir.Readable engine.walEntries)
    (taken : engine.logStep operation = some next) :
    next.Intact ∧ WalDir.Readable next.walEntries := by
  obtain ⟨done, short⟩ := Option.filter_eq_some_iff.mp taken
  rw [Bool.and_eq_true] at short
  refine ⟨?_, fun entry member => of_decide_eq_true (List.all_eq_true.mp short.2 entry member)⟩
  cases operation with
  | call call =>
    have called : (engine.setConsensusTerm call.term).Intact :=
      kept.1.untouched ⟨⟨rfl, rfl⟩, rfl, rfl, rfl⟩
    dsimp only at done
    split at done <;> cases done
    rename_i succeeded
    refine called.perform ?_
    split
    · exact kept.2
    · exact .inl succeeded
  | replicate entries =>
    obtain ⟨⟨_, applied⟩, result, rfl⟩ := Option.map_eq_some_iff.mp done
    exact kept.1.applied (Except.eq_ok_of_mem_toOption result)
  | replace nowMs sequence entries =>
    obtain ⟨⟨_, applied⟩, result, rfl⟩ := Option.map_eq_some_iff.mp done
    exact kept.1.replaced (Except.eq_ok_of_mem_toOption result)
  | install nowMs snapshot => exact Intact.installed (Except.eq_ok_of_mem_toOption done)

/-- **The views of the log agree after every run of operations** from an empty directory. -/
theorem log_views_agree (options : EngineOptions) (nowMs : Nat) (operations : List LogOperation)
    (opened engine : Engine) (fresh : fromPathsWithOptions .empty options nowMs = .ok opened)
    (reached : run logStep opened operations = some engine) :
    (∃ first, From WalEntry.sequence first engine.walEntries) ∧
      (∀ last, engine.walEntries.getLast? = some last →
        last.sequence = engine.lastAppliedSequence) ∧
      Indexes engine.walEntryIdentities engine.walEntries ∧
      engine.disk.walDir.replay = .ok engine.walEntries := by
  obtain rfl := Except.ok.inj ((fromPathsWithOptions_empty options nowMs).symm.trans fresh)
  obtain ⟨kept, readable⟩ := invariant_of_run
    (fun engine operation next kept taken => intact_logStep kept taken)
    ⟨Intact.create options nowMs, by rintro _ ⟨⟩⟩ reached
  obtain ⟨first, -, numbered, ends⟩ := kept.logged.numbered
  refine ⟨⟨first, numbered⟩, fun last found => ?_, kept.logged.indexed,
    kept.stored.replay_eq readable⟩
  have named := numbered.getLast?_number found
  omega

/-- `next_entry` in 64-bit arithmetic, where the number wraps around. -/
def nextEntryWrapped (engine : Engine) (createdAtMs : Nat) (operations : List WalOperation) :
    WalEntry :=
  { engine.nextEntry createdAtMs operations with
    sequence := (engine.lastAppliedSequence + 1) % (u64Max + 1) }

omit [Codec] in
theorem nextEntryWrapped_eq {engine : Engine} (below : engine.lastAppliedSequence < u64Max)
    (createdAtMs : Nat) (operations : List WalOperation) :
    engine.nextEntryWrapped createdAtMs operations = engine.nextEntry createdAtMs operations := by
  rw [nextEntryWrapped, Nat.mod_eq_of_lt (Nat.succ_lt_succ below)]
  rfl

/-- The log as `apply_replication_snapshot` starts it: the number of its file saturates. -/
def startedAfter (engine : Engine) : Engine :=
  let start := satAdd engine.lastAppliedSequence 1
  let (walDir, writer) := WalWriter.open (WalDir.createActiveSegment [] start) start
  { engine with disk := { engine.disk with walDir := walDir }, writer := writer }

end Engine

section Samples

open Sample Engine

def mixedOperations : List LogOperation :=
  [.replicate [⟨1, 1, 0, [.set "x" [49] 1]⟩], .call ⟨2, .direct (.still 1) (.set "y" [50] {})⟩,
    .call ⟨2, .direct (.still 2) .save⟩, .call ⟨2, .batch 3 [.incr "x", .delete ["y"]]⟩,
    .replace 4 3 [⟨4, 3, 4, []⟩], .call ⟨3, .noop 5⟩,
    .install 6 (Engine.create ⟨0, 0⟩ 0).replicationSnapshot,
    .call ⟨3, .transaction (.still 7) [.set "z" [51] {}]⟩]

theorem log_views_agree_mixed :
    ∃ engine, run logStep (.create ⟨0, 1⟩ 0) mixedOperations = some engine ∧
      engine.disk.walDir.replay = .ok engine.walEntries := by
  obtain ⟨engine, reached⟩ : ∃ engine, run logStep (.create ⟨0, 1⟩ 0) mixedOperations =
      some engine := Option.isSome_iff_exists.mp (by decide +kernel)
  exact ⟨engine, reached, (log_views_agree ⟨0, 1⟩ 0 mixedOperations _ engine rfl reached).2.2.2⟩

/-- **The log is lost behind the last number**: the next entry has number 0 in a file that begins
with the last number. -/
theorem log_lost_behind_last_number :
    ∃ installed ∈ ((Engine.create ⟨0, 0⟩ 0).applyReplicationSnapshot 6
        { (Engine.create ⟨0, 0⟩ 0).replicationSnapshot with
          state.metadata.lastAppliedSequence := u64Max }).toOption,
      let engine := installed.startedAfter
      let next := engine.appended (engine.nextEntryWrapped 7 []) engine.state.store
      next.walEntries = [⟨0, 0, 7, []⟩] ∧ next.lastAppliedSequence = 0 ∧
        next.disk.walDir.replay = .error (.walDeserialize
          "segment start sequence mismatch for 18446744073709551615") := by
  decide +kernel

end Samples

end Vaylix

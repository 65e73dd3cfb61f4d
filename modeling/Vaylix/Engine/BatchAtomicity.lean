import Vaylix.Engine.LogGrowth

/-!
# Batches whose append can fail

`execute_command_batch` runs its commands on the live keyspace and undoes them from a record
when a command or the append fails. From the first `CLEAR` on the record is the whole keyspace
as the `CLEAR` finds it, so a failed batch is undone exactly when nothing before it changed
the keyspace. Where the numbers of entries run out, nothing is undone.
-/

namespace Vaylix

open EngineStore

structure AppendOutcome where
  walDir : WalDir
  writer : WalWriter
  failure : Option EngineError

/-- `saturating_add` numbers the entries of a batch: the last number is given again and again. -/
def WalEntry.capped (entry : WalEntry) : WalEntry :=
  { entry with sequence := min entry.sequence u64Max }

namespace Engine

def CommandBatchResult.capped (result : CommandBatchResult) : CommandBatchResult :=
  { result with lastAppliedSequence := min result.lastAppliedSequence u64Max }

/-- The entries that commands log when they run one after the other, as a batch numbers them. -/
def loggedEntries (store : EngineStore) (nowMs term visible : Nat) : List Command → List WalEntry
  | [] => []
  | command :: rest =>
    let evaluated := evaluateTransactionCommand store nowMs command
    if evaluated.operations.isEmpty then loggedEntries evaluated.store nowMs term visible rest
    else
      ⟨satAdd visible 1, term, nowMs, evaluated.operations⟩ ::
        loggedEntries evaluated.store nowMs term (visible + 1) rest

variable [Codec]

def appendOutcome (engine : Engine) (entries : List WalEntry) : AppendOutcome :=
  ⟨(engine.appendWal entries).disk.walDir, (engine.appendWal entries).writer, none⟩

/-- `execute_command_batch` with an append that can fail and numbers that run out. Entries whose
numbers collide are refused without a rollback. -/
def executeCommandBatchOver (append : List WalEntry → AppendOutcome) (engine : Engine)
    (nowMs : Nat) (commands : List Command) :
    Engine × Except EngineError (List CommandBatchResult) :=
  let state := engine.state.purgeExpired nowMs
  match evaluateBatch state.store ⟨∅, none⟩ nowMs engine.currentConsensusTerm
      state.metadata.lastAppliedSequence commands with
  | (store, record, .error err) =>
    ({ engine with state := { state with store := record.rollback store } }, .error err)
  | (store, record, .ok (entries, results)) =>
    let entries := entries.map WalEntry.capped
    let results := results.map CommandBatchResult.capped
    match entries.getLast? with
    | none => ({ engine with state := { state with store := store } }, .ok results)
    | some last =>
      let written : EngineState := ⟨store, { state.metadata with
        lastAppliedSequence := last.sequence, updatedAtMs := nowMs }⟩
      match buildWalEntryIdentities entries with
      | .error err => ({ engine with state := written }, .error err)
      | .ok identities =>
        let outcome := append entries
        let engine := { engine with
          disk := { engine.disk with walDir := outcome.walDir }, writer := outcome.writer }
        match outcome.failure with
        | some err =>
          ({ engine with state := { state with store := record.rollback store } }, .error err)
        | none =>
          ({ engine with
              state := written
              walEntries := engine.walEntries ++ entries
              walEntryIdentities := engine.walEntryIdentities.extend identities }, .ok results)

section Numbers

variable {nowMs term visible : Nat} {store final : EngineStore} {record kept : BatchRollback}
  {commands : List Command} {entries : List WalEntry} {results : List CommandBatchResult}
  (done : evaluateBatch store record nowMs term visible commands =
    (final, kept, .ok (entries, results)))
include done

omit [Codec] in
theorem evaluateBatch_uncapped (room : visible + commands.length ≤ u64Max) :
    entries.map WalEntry.capped = entries ∧ results.map CommandBatchResult.capped = results := by
  induction commands generalizing store record visible entries results with
  | nil =>
    cases done
    exact ⟨rfl, rfl⟩
  | cons command rest ih =>
    obtain ⟨result, later, answers, -, following, rfl, rfl⟩ := evaluateBatch_cons_ok done
    rw [List.length_cons] at room
    cases silent : (evaluateTransactionCommand store nowMs command).operations.isEmpty with
    | true =>
      rw [silent] at following
      have left : visible + rest.length ≤ u64Max := by omega
      obtain ⟨numbers, positions⟩ := ih following left
      have here : visible ≤ u64Max := by omega
      exact ⟨numbers, by simpa [CommandBatchResult.capped, here] using positions⟩
    | false =>
      rw [silent] at following
      have left : visible + 1 + rest.length ≤ u64Max := by omega
      obtain ⟨numbers, positions⟩ := ih following left
      have here : visible + 1 ≤ u64Max := by omega
      exact ⟨by simpa [WalEntry.capped, here] using numbers,
        by simpa [CommandBatchResult.capped, here] using positions⟩

omit [Codec] in
theorem evaluateBatch_logged :
    entries.map WalEntry.capped = loggedEntries store nowMs term visible commands := by
  induction commands generalizing store record visible entries results with
  | nil =>
    cases done
    rfl
  | cons command rest ih =>
    obtain ⟨_, later, _, -, following, rfl, -⟩ := evaluateBatch_cons_ok done
    have next := ih following
    rw [loggedEntries]
    cases silent : (evaluateTransactionCommand store nowMs command).operations.isEmpty with
    | true =>
      rw [silent] at next
      exact next
    | false =>
      rw [silent] at next
      exact congrArg (_ :: ·) next

end Numbers

/-- As long as the numbers do not run out, this is the batch of the model. -/
theorem executeCommandBatchOver_appendOutcome {engine : Engine} {commands : List Command}
    (room : engine.lastAppliedSequence + commands.length ≤ u64Max) (nowMs : Nat) :
    engine.executeCommandBatchOver engine.appendOutcome nowMs commands =
      engine.executeCommandBatch nowMs commands := by
  unfold executeCommandBatchOver executeCommandBatch
  dsimp only
  rcases loop : evaluateBatch (engine.state.purgeExpired nowMs).store ⟨∅, none⟩ nowMs
      engine.currentConsensusTerm (engine.state.purgeExpired nowMs).metadata.lastAppliedSequence
      commands with ⟨store, record, err | ⟨entries, results⟩⟩
  · rfl
  · obtain ⟨numbers, positions⟩ := evaluateBatch_uncapped loop
      (by rwa [EngineState.purgeExpired_lastAppliedSequence])
    dsimp only
    rw [numbers, positions]
    rfl

/-- Nothing before the first `CLEAR` of the batch changes the keyspace `store`. -/
def ClearsFirst (nowMs : Nat) (store : EngineStore) (commands : List Command) : Prop :=
  Command.clear ∈ commands → ∀ working operations results,
    evaluateTransaction store nowMs (beforeClear commands) = .ok (working, operations, results) →
      working = store

omit [Codec] in
/-- The record brings the start back exactly if `CLEAR` came first. -/
theorem rollback_eq_start_iff {nowMs term visible : Nat} {start final : EngineStore}
    (purged : start.purgeExpired nowMs = start) {commands : List Command}
    {record : BatchRollback}
    {outcome : Except EngineError (List WalEntry × List CommandBatchResult)}
    (loop : evaluateBatch start ⟨∅, none⟩ nowMs term visible commands =
      (final, record, outcome)) :
    record.rollback final = start ↔ ClearsFirst nowMs start commands := by
  rcases evaluateBatch_undone purged [] rfl (BatchRollback.Remembers.nothing start) loop with
    ⟨undone, ⟨cause, refused⟩ | ⟨-, unclear⟩⟩ |
    ⟨after, working, operations, results, split, run, undone⟩
  · refine ⟨fun _ _ working operations results run => ?_, fun _ => undone⟩
    rw [List.nil_append, run] at refused
    cases refused
  · exact ⟨fun _ cleared => absurd cleared unclear, fun _ => undone⟩
  · rw [List.nil_append] at run
    rw [undone]
    constructor
    · rintro rfl _ other _ _ again
      rw [run] at again
      cases again
      rfl
    · intro first
      have cleared : Command.clear ∈ commands := by
        rw [split]
        exact List.mem_append_right _ List.mem_cons_self
      exact first cleared _ _ _ run

def batchEntries (engine : Engine) (nowMs : Nat) (commands : List Command) : List WalEntry :=
  loggedEntries (engine.state.store.purgeExpired nowMs) nowMs engine.currentConsensusTerm
    engine.lastAppliedSequence commands

/-- The commands run through, but two different entries of theirs get one number. -/
def Collides (engine : Engine) (nowMs : Nat) (commands : List Command) : Prop :=
  (evaluateTransaction (engine.state.store.purgeExpired nowMs) nowMs commands).isOk = true ∧
    (buildWalEntryIdentities (engine.batchEntries nowMs commands)).isOk = false

/-- The commands leave the keyspace, the position and the time of the last change as they are. -/
def LeavesState (engine : Engine) (nowMs : Nat) (commands : List Command) : Prop :=
  (∀ working operations results,
    evaluateTransaction (engine.state.store.purgeExpired nowMs) nowMs commands =
      .ok (working, operations, results) → working = engine.state.store.purgeExpired nowMs) ∧
  (engine.batchEntries nowMs commands).getLast?.map WalEntry.sequence =
    some engine.lastAppliedSequence ∧
  (engine.state.purgeExpired nowMs).metadata.updatedAtMs = nowMs

variable {append : List WalEntry → AppendOutcome} {engine : Engine} {nowMs : Nat}
  {commands : List Command}

/-- A failed batch was undone with its record, or its entries have collided. -/
theorem executeCommandBatchOver_error {err : EngineError}
    (failed : (engine.executeCommandBatchOver append nowMs commands).2 = .error err) :
    (engine.executeCommandBatchOver append nowMs commands).1.walEntries = engine.walEntries ∧
    ((¬engine.Collides nowMs commands ∧ ∃ store record outcome,
      evaluateBatch (engine.state.store.purgeExpired nowMs) ⟨∅, none⟩ nowMs
        engine.currentConsensusTerm (engine.state.purgeExpired nowMs).metadata.lastAppliedSequence
        commands = (store, record, outcome) ∧
      (engine.executeCommandBatchOver append nowMs commands).1.state =
        { engine.state.purgeExpired nowMs with store := record.rollback store }) ∨
    (engine.Collides nowMs commands ∧ ∃ store operations results last,
      evaluateTransaction (engine.state.store.purgeExpired nowMs) nowMs commands =
        .ok (store, operations, results) ∧
      (engine.batchEntries nowMs commands).getLast? = some last ∧
      (engine.executeCommandBatchOver append nowMs commands).1.state =
        ⟨store, { (engine.state.purgeExpired nowMs).metadata with
          lastAppliedSequence := last.sequence, updatedAtMs := nowMs }⟩)) := by
  unfold executeCommandBatchOver at failed ⊢
  dsimp only [EngineState.purgeExpired_store] at failed ⊢
  rcases loop : evaluateBatch (engine.state.store.purgeExpired nowMs) ⟨∅, none⟩ nowMs
      engine.currentConsensusTerm (engine.state.purgeExpired nowMs).metadata.lastAppliedSequence
      commands with ⟨store, record, err | ⟨entries, results⟩⟩
  · have refused := evaluateTransaction_of_evaluateBatch_error loop
    refine ⟨rfl, .inl ⟨fun collides => ?_, store, record, _, rfl, rfl⟩⟩
    rw [Collides, refused] at collides
    cases collides.1
  · obtain ⟨evaluated, -⟩ := evaluateTransaction_of_evaluateBatch_ok loop
    have logged : entries.map WalEntry.capped = engine.batchEntries nowMs commands :=
      (evaluateBatch_logged loop).trans
        (by rw [EngineState.purgeExpired_lastAppliedSequence]; rfl)
    rw [loop] at failed
    dsimp only at failed ⊢
    rw [logged] at failed ⊢
    cases ends : (engine.batchEntries nowMs commands).getLast? with
    | none => simp [ends] at failed
    | some last =>
      simp only [ends] at failed ⊢
      cases indexed : buildWalEntryIdentities (engine.batchEntries nowMs commands) with
      | error cause =>
        refine ⟨rfl, .inr ⟨⟨by rw [evaluated]; rfl, by rw [indexed]; rfl⟩, store, _, _, last,
          evaluated, rfl, rfl⟩⟩
      | ok identities =>
        simp only [indexed] at failed ⊢
        have apart : ¬engine.Collides nowMs commands := by
          rintro ⟨-, collided⟩
          rw [indexed] at collided
          cases collided
        cases refused : (append (engine.batchEntries nowMs commands)).failure with
        | none => simp [refused] at failed
        | some cause => exact ⟨rfl, .inl ⟨apart, store, record, _, rfl, rfl⟩⟩

/-- **A failed batch leaves no trace** exactly when nothing before its first `CLEAR` changed the
keyspace, whether a command failed or the append; and, where the numbers have run out, exactly
when its commands change nothing at all. -/
theorem failed_batch_undone_iff (append : List WalEntry → AppendOutcome) (engine : Engine)
    (nowMs : Nat) (commands : List Command) (err : EngineError)
    (failed : (engine.executeCommandBatchOver append nowMs commands).2 = .error err) :
    ((engine.executeCommandBatchOver append nowMs commands).1.state =
        engine.state.purgeExpired nowMs ∧
      (engine.executeCommandBatchOver append nowMs commands).1.walEntries = engine.walEntries) ↔
      (engine.Collides nowMs commands → engine.LeavesState nowMs commands) ∧
      (¬engine.Collides nowMs commands →
        ClearsFirst nowMs (engine.state.store.purgeExpired nowMs) commands) := by
  obtain ⟨log, ⟨apart, store, record, outcome, loop, state⟩ |
    ⟨collides, store, operations, results, last, evaluated, ends, state⟩⟩ :=
      executeCommandBatchOver_error failed
  · rw [state, log, ← rollback_eq_start_iff (purgeExpired_purgeExpired _ _) loop]
    constructor
    · rintro ⟨same, -⟩
      exact ⟨fun collides => absurd collides apart, fun _ =>
        (congrArg EngineState.store same).trans (EngineState.purgeExpired_store _ _)⟩
    · rintro ⟨-, undone⟩
      rw [undone apart]
      exact ⟨rfl, rfl⟩
  · rw [state, log, LeavesState, evaluated, ends, ← EngineState.purgeExpired_store,
      lastAppliedSequence, ← EngineState.purgeExpired_lastAppliedSequence engine.state nowMs]
    simp only [collides, not_true, false_implies, true_implies, and_true, Option.map_some,
      Option.some.injEq]
    generalize engine.state.purgeExpired nowMs = purged
    constructor
    · intro same
      refine ⟨?_, congrArg (·.metadata.lastAppliedSequence) same,
        (congrArg (·.metadata.updatedAtMs) same).symm⟩
      rintro _ _ _ ⟨⟩
      exact congrArg EngineState.store same
    · rintro ⟨same, position, time⟩
      obtain rfl := same store operations results rfl
      rw [position, ← time]

end Engine

section Samples

open Sample Engine

def AppendOutcome.refused (engine : Engine) (err : EngineError) : AppendOutcome :=
  ⟨engine.disk.walDir, engine.writer, some err⟩

/-- A write before a `CLEAR` stays when the append fails, when a command behind the `CLEAR` fails,
and when the numbers run out. -/
theorem failed_batch_keeps_write :
    let engine := create ⟨0, 0⟩ 0
    let err : EngineError := .invalidStorageOperation "No space left on device"
    let full := engine.executeCommandBatchOver (fun _ => .refused engine err) 5
      [.set "a" [1] {}, .clear]
    let text := engine.executeCommandBatchOver engine.appendOutcome 5
      [.set "a" [1] {}, .clear, .set "k" [120] {}, .incr "k"]
    let late := { engine with state.metadata.lastAppliedSequence := u64Max - 1 }
    let numbered := late.executeCommandBatchOver late.appendOutcome 5
      [.set "a" [1] {}, .set "b" [2] {}]
    engine.state.store.get "a" = none ∧
      full.2 = .error err ∧ full.1.state.store.get "a" = some ⟨[1], none, 1⟩ ∧
      text.2 = .error (.invalidIntegerValue "k" [120]) ∧
      text.1.state.store.get "a" = some ⟨[1], none, 1⟩ ∧
      numbered.2 = .error (.invalidStorageOperation
        "conflicting duplicate WAL identity at sequence 18446744073709551615") ∧
      numbered.1.state.store.get "a" = some ⟨[1], none, 1⟩ := by
  decide +kernel

/-- A batch without a `CLEAR` is undone. -/
theorem failed_batch_undone_without_clear :
    let engine := create ⟨0, 0⟩ 0
    let attempt := engine.executeCommandBatchOver engine.appendOutcome 5
      [.set "k" [120] {}, .incr "k"]
    attempt.2 = .error (.invalidIntegerValue "k" [120]) ∧
      attempt.1.state = engine.state.purgeExpired 5 ∧ attempt.1.walEntries = engine.walEntries := by
  have apart : ¬(create ⟨0, 0⟩ 0).Collides 5 [.set "k" [120] {}, .incr "k"] := by
    unfold Collides
    decide +kernel
  refine ⟨by decide +kernel, ?_⟩
  exact (failed_batch_undone_iff _ _ _ _ (.invalidIntegerValue "k" [120])
    (by decide +kernel)).mpr ⟨fun collides => absurd collides apart, fun _ cleared => by
      simp at cleared⟩

end Samples

end Vaylix

import Vaylix.Engine.BatchAtomicity
import Vaylix.Engine.Transactions

/-!
# Batches and transactions

Writes that wait together run as one batch with an entry for each; `EXEC` runs a queue as one
entry. The same commands are answered alike, as long as there are numbers for the entries.
-/

namespace Vaylix

namespace Engine

variable [Codec]

theorem executeCommandBatch_cases (engine : Engine) (nowMs : Nat) (commands : List Command) :
    (∃ next err, engine.executeCommandBatch nowMs commands = (next, .error err) ∧
      evaluateTransaction (engine.state.store.purgeExpired nowMs) nowMs commands = .error err) ∨
    ∃ next results entries, engine.executeCommandBatch nowMs commands = (next, .ok results) ∧
      next.walEntries = engine.walEntries ++ entries ∧ results.length = commands.length ∧
      evaluateTransaction (engine.state.store.purgeExpired nowMs) nowMs commands =
        .ok (next.state.store, entries.flatMap WalEntry.operations,
          results.map CommandBatchResult.result) := by
  unfold executeCommandBatch
  dsimp only
  rcases loop : evaluateBatch (engine.state.purgeExpired nowMs).store ⟨∅, none⟩ nowMs
      engine.currentConsensusTerm (engine.state.purgeExpired nowMs).metadata.lastAppliedSequence
      commands with ⟨final, kept, err | ⟨entries, results⟩⟩
  · exact .inl ⟨_, err, rfl, evaluateTransaction_of_evaluateBatch_error loop⟩
  obtain ⟨evaluated, length⟩ := evaluateTransaction_of_evaluateBatch_ok loop
  refine .inr ?_
  cases last : entries.getLast? with
  | none =>
    obtain rfl := List.getLast?_eq_none_iff.mp last
    exact ⟨_, results, [], rfl, (List.append_nil _).symm, length, evaluated⟩
  | some entry =>
    simp only [last, buildWalEntryIdentities_of_numbered (evaluateBatch_numbered loop).1]
    exact ⟨_, results, entries, rfl, rfl, length, evaluated⟩

/-- **Batches and transactions agree.** At a reading of the clock below the largest 64-bit number,
and while there is a number for each command, they fail with the same error, or give the same
answers and leave the same keyspace with the same operations in the log. -/
theorem batch_agrees_transaction (engine : Engine) (reading : Reading) (commands : List Command)
    (before : reading.now < u64Max)
    (room : engine.lastAppliedSequence + commands.length ≤ u64Max) :
    match engine.executeCommandBatchOver engine.appendOutcome reading.now commands with
    | (_, .error err) => (engine.executeTransaction reading commands).2 = .error err
    | (next, .ok results) => ∃ entries, next.walEntries = engine.walEntries ++ entries ∧
      (engine.executeTransaction reading commands).2 =
          .ok (results.map CommandBatchResult.result) ∧
        engine.Committed (engine.executeTransaction reading commands).1 reading.created
          next.state.store (entries.flatMap WalEntry.operations) := by
  rw [executeCommandBatchOver_appendOutcome room]
  rcases engine.executeCommandBatch_cases reading.now commands with
    ⟨next, err, failed, evaluated⟩ | ⟨next, results, entries, done, log, -, evaluated⟩
  · rw [failed]
    exact congrArg Prod.snd (executeTransaction_of_error evaluated)
  · rw [done]
    exact ⟨entries, log, executeTransaction_of_ok before evaluated⟩

end Engine

open Sample Engine in
/-- A key is counted and all are cleared: two entries of a batch, one of a transaction. -/
theorem batch_agrees_transaction_cleared :
    match holdingEngine.executeCommandBatchOver holdingEngine.appendOutcome 7
        [.incr "k", .clear] with
    | (_, .error err) =>
      (holdingEngine.executeTransaction (.still 7) [.incr "k", .clear]).2 = .error err
    | (next, .ok results) => ∃ entries, next.walEntries = holdingEngine.walEntries ++ entries ∧
      (holdingEngine.executeTransaction (.still 7) [.incr "k", .clear]).2 =
          .ok (results.map CommandBatchResult.result) ∧
        holdingEngine.Committed
          (holdingEngine.executeTransaction (.still 7) [.incr "k", .clear]).1 7
          next.state.store (entries.flatMap WalEntry.operations) :=
  batch_agrees_transaction holdingEngine (.still 7) [.incr "k", .clear] (by decide)
    (by decide +kernel)

end Vaylix

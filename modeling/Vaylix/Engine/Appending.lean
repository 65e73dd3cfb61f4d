import Vaylix.Engine.LogGrowth
import Vaylix.Engine.Reapply

/-!
# What a successful call appends

Every successful call other than a snapshot extends the log, its index and its directory by
consecutive entries of the consensus term. Without expirations they lead from the old keyspace
to the new one.
-/

namespace Vaylix

open EngineStore NumberedLog

def Unexpiring (store : EngineStore) : Prop :=
  ∀ key entry, store.get key = some entry → entry.expiresAtMs = none

namespace Unexpiring

variable {store final : EngineStore}

theorem purgeExpired_eq (unexpiring : Unexpiring store) (nowMs : Nat) :
    store.purgeExpired nowMs = store := by
  ext1 key
  rw [get_purgeExpired]
  cases found : store.get key with
  | none => rfl
  | some entry => simp [Option.filter, StoredValue.expiredAt, unexpiring key entry found]

theorem applyOperation (unexpiring : Unexpiring store) {operation : WalOperation}
    (lasting : operation.concernsExpiration = false)
    (run : Vaylix.applyOperation store operation = .ok final) : Unexpiring final := by
  have insert : ∀ key entry, entry.expiresAtMs = none →
      Unexpiring (store.insertEntry key entry) := by
    intro key entry none other found
    rw [get_insertEntry]
    split
    · rintro ⟨⟩
      exact none
    · exact unexpiring other found
  cases operation with
  | set key value version =>
    cases run
    exact insert key ⟨value, none, version⟩ rfl
  | delete key =>
    cases run
    intro other entry
    rw [get_remove]
    split
    · rintro ⟨⟩
    · exact unexpiring other entry
  | clear =>
    cases run
    intro key entry found
    simp at found
  | checkInteger key delta =>
    obtain ⟨number, sum, -, -, rfl⟩ := applyOperation_checkInteger.mp run
    exact insert key _ rfl
  | expire key expiresAtMs => cases lasting
  | persist key => cases lasting

theorem applyOperations (unexpiring : Unexpiring store) {operations : List WalOperation}
    (lasting : Lasting operations) (run : Vaylix.applyOperations store operations = .ok final) :
    Unexpiring final :=
  applyOperations_preserves _ (fun operation member _ _ holds first =>
    holds.applyOperation (lasting operation member) first) unexpiring run

end Unexpiring

def EngineAction.logged [Codec] (engine : Engine) : EngineAction → List WalEntry
  | .direct reading command =>
    match engine.state.prepareCommand reading command with
    | none => []
    | some prepared => prepared.operations.toList.map fun operations =>
        Engine.nextEntry { engine with state := prepared.state } reading.created operations
  | .transaction reading commands =>
    match Engine.evaluateTransaction (engine.state.store.purgeExpired reading.now) reading.now
        commands with
    | .ok (_, operations, _) =>
      if operations.isEmpty then [] else [engine.nextEntry reading.created operations]
    | .error _ => []
  | .batch nowMs commands =>
    match (Engine.evaluateBatch (engine.state.store.purgeExpired nowMs) ⟨∅, none⟩ nowMs
        engine.currentConsensusTerm engine.lastAppliedSequence commands).2.2 with
    | .ok (entries, _) => entries
    | .error _ => []
  | .noop createdAtMs => [engine.nextEntry createdAtMs []]
  | .sweep _ => []

namespace Engine

section Batch

variable {nowMs term visible : Nat} {store final : EngineStore} {record record' : BatchRollback}
  {commands : List Command} {entries : List WalEntry} {results : List CommandBatchResult}

/-- The entries of a batch lead to the keyspace it leaves. -/
theorem evaluateBatch_run (unexpiring : Unexpiring store)
    (lasting : ∀ entry ∈ entries, Lasting entry.operations)
    (done : evaluateBatch store record nowMs term visible commands =
      (final, record', .ok (entries, results))) : replayStore store entries = .ok final := by
  induction commands generalizing store record visible entries results with
  | nil =>
    cases done
    rfl
  | cons command rest ih =>
    have run := evaluatePurged_run command fun _ => unexpiring.purgeExpired_eq nowMs
    have purged := unexpiring.purgeExpired_eq nowMs
    obtain ⟨-, later, _, -, following, rfl, -⟩ := evaluateBatch_cons_ok done
    rw [evaluateTransactionCommand, purged] at lasting following ⊢
    cases written : (evaluatePurged store nowMs command).operations.isEmpty with
    | true =>
      simp only [written, Bool.not_true, Bool.false_eq_true, if_false] at lasting ⊢
      rw [List.isEmpty_iff.mp written, applyOperations_nil, Except.ok.injEq] at run
      rw [← run] at following
      exact ih unexpiring lasting following
    | false =>
      simp only [written, Bool.not_false, if_true] at lasting ⊢
      have next := unexpiring.applyOperations (lasting _ List.mem_cons_self) run
      rw [replayStore_cons, run]
      exact ih next (List.forall_mem_cons.mp lasting).2 following

theorem evaluateBatch_last
    (done : evaluateBatch store record nowMs term visible commands =
      (final, record', .ok (entries, results))) :
    (results.map CommandBatchResult.lastAppliedSequence).getLastD visible =
      visible + entries.length := by
  induction commands generalizing store record visible entries results with
  | nil =>
    cases done
    rfl
  | cons command rest ih =>
    obtain ⟨result, _, _, -, following, rfl, rfl⟩ := evaluateBatch_cons_ok done
    rw [List.map_cons, List.getLastD_cons, ih following]
    split
    · rw [List.length_cons]
      omega
    · rfl

end Batch

variable [Codec]

variable {nowMs : Nat} {results : List CommandBatchResult}

theorem executeCommandBatch_last (engine : Engine) {commands : List Command}
    (done : (engine.executeCommandBatch nowMs commands).2 = .ok results) :
    (results.map CommandBatchResult.lastAppliedSequence).getLastD engine.lastAppliedSequence =
      (engine.executeCommandBatch nowMs commands).1.lastAppliedSequence := by
  have position := EngineState.purgeExpired_lastAppliedSequence engine.state nowMs
  unfold executeCommandBatch at done ⊢
  dsimp only at done ⊢
  rw [position] at done ⊢
  rcases loop : evaluateBatch (engine.state.purgeExpired nowMs).store ⟨∅, none⟩ nowMs
      engine.currentConsensusTerm engine.lastAppliedSequence commands with
    ⟨final, record, err | ⟨entries, answers⟩⟩
  all_goals rw [lastAppliedSequence] at loop; rw [loop] at done ⊢
  · cases done
  have ends := evaluateBatch_last loop
  obtain ⟨numbered, -⟩ := evaluateBatch_numbered loop
  cases last : entries.getLast? with
  | none =>
    obtain rfl := List.getLast?_eq_none_iff.mp last
    cases done
    rw [lastAppliedSequence, ends]
    exact position.symm
  | some entry =>
    simp only [last, buildWalEntryIdentities_of_numbered numbered] at done ⊢
    cases done
    have final := numbered.getLast?_number last
    rw [lastAppliedSequence]
    change _ = entry.sequence
    omega

theorem executeCommandBatch_single (engine : Engine) {command : Command}
    (done : (engine.executeCommandBatch nowMs [command]).2 = .ok results) :
    ∃ result, results =
      [⟨result, (engine.executeCommandBatch nowMs [command]).1.lastAppliedSequence⟩] := by
  unfold executeCommandBatch evaluateBatch evaluateBatch at done ⊢
  cases answered : (evaluateTransactionCommand (engine.state.purgeExpired nowMs).store nowMs
      command).outcome with
  | error err =>
    simp only [answered] at done
    cases done
  | ok result =>
    simp only [answered] at done ⊢
    cases written : (evaluateTransactionCommand (engine.state.purgeExpired nowMs).store nowMs
        command).operations.isEmpty with
    | true =>
      simp only [written, Bool.not_true, Bool.false_eq_true, if_false, List.getLast?_nil,
        Except.ok.injEq] at done ⊢
      exact ⟨result, done.symm⟩
    | false =>
      simp only [written, Bool.not_false, if_true, List.getLast?_singleton] at done ⊢
      rw [buildWalEntryIdentities_of_pairwise (List.pairwise_singleton _ _)] at done ⊢
      simp only [Except.ok.injEq] at done
      exact ⟨result, done.symm⟩

/-- A call appended `entries` to the log, its index and its directory; without expirations they
lead from the old keyspace to the new one. -/
structure Appended (engine next : Engine) (entries : List WalEntry) : Prop where
  log : next.walEntries = engine.walEntries ++ entries
  numbered : From WalEntry.sequence (engine.lastAppliedSequence + 1) entries
  terms : ∀ entry ∈ entries, entry.term = engine.currentConsensusTerm
  position : next.lastAppliedSequence = engine.lastAppliedSequence + entries.length
  indexed : ∀ first, From WalEntry.sequence first (engine.walEntries ++ entries) →
    Indexes engine.walEntryIdentities engine.walEntries →
      Indexes next.walEntryIdentities (engine.walEntries ++ entries)
  disk : next.disk = { engine.disk with walDir := (WalWriter.appendBatch
    engine.options.walSegmentSizeBytes engine.disk.walDir engine.writer entries).1 }
  writer : next.writer = (WalWriter.appendBatch
    engine.options.walSegmentSizeBytes engine.disk.walDir engine.writer entries).2
  run : Unexpiring engine.state.store → (∀ entry ∈ entries, Lasting entry.operations) →
    replayStore engine.state.store entries = .ok next.state.store

namespace Appended

variable (engine : Engine)

theorem quiet {state : EngineState}
    (position : state.metadata.lastAppliedSequence = engine.lastAppliedSequence)
    (store : Unexpiring engine.state.store → state.store = engine.state.store) :
    engine.Appended { engine with state := state } [] :=
  ⟨by simp, trivial, by simp, position, fun _ _ indexes => by simpa using indexes, rfl, rfl,
    fun unexpiring _ => by rw [replayStore_nil, ← store unexpiring]⟩

omit [Codec] in
theorem nextEntry_withState {state : EngineState} {createdAtMs : Nat}
    {operations : List WalOperation}
    (position : state.metadata.lastAppliedSequence = engine.lastAppliedSequence) :
    Engine.nextEntry { engine with state := state } createdAtMs operations =
      engine.nextEntry createdAtMs operations := by
  simp only [nextEntry, lastAppliedSequence, position]

theorem one {state : EngineState} {createdAtMs : Nat} {operations : List WalOperation}
    (position : state.metadata.lastAppliedSequence = engine.lastAppliedSequence)
    (store : Unexpiring engine.state.store → state.store = engine.state.store)
    (applied : (Engine.appendAndApply { engine with state := state } createdAtMs operations).2 =
      none) :
    engine.Appended (Engine.appendAndApply { engine with state := state } createdAtMs operations).1
      [engine.nextEntry createdAtMs operations] := by
  cases run : applyOperations state.store operations with
  | error err =>
    have failed := (EngineState.applyEntry_error_iff state
      (Engine.nextEntry { engine with state := state } createdAtMs operations) err).mpr run
    unfold appendAndApply at applied
    dsimp only [appendWal_state] at applied
    split at applied
    · cases applied
    · rename_i next accepted
      rw [accepted] at failed
      cases failed
  | ok final =>
    rw [appendAndApply_of_ok { engine with state := state } createdAtMs run]
    rw [nextEntry_withState engine position]
    refine ⟨rfl, ⟨rfl, trivial⟩, by simp [nextEntry], rfl,
      fun _ numbered indexes => indexes.insert numbered, rfl, rfl, ?_⟩
    intro unexpiring _
    rw [replayStore_singleton, ← store unexpiring]
    exact run

theorem direct {reading : Reading} {command : Command}
    (plain : command ≠ .save ∧ command ≠ .snapshot) :
    engine.Appended (engine.executeCommand reading command).1
      ((EngineAction.direct reading command).logged engine) := by
  rw [executeCommand_engine engine reading plain, EngineAction.logged]
  cases found : engine.state.prepareCommand reading command with
  | none => exact quiet engine rfl fun _ => rfl
  | some prepared =>
    obtain ⟨position, decided⟩ := EngineState.prepareCommand_decidedOn _ found
    have store : Unexpiring engine.state.store → prepared.state.store = engine.state.store := by
      intro unexpiring
      rcases decided with same | same | same
      · exact same
      · rw [same, unexpiring.purgeExpired_eq]
      · rw [same, unexpiring.purgeExpired_eq, unexpiring.purgeExpired_eq]
    cases prepared with
    | quiet state answer => exact quiet engine position store
    | failed state err => exact quiet engine position store
    | log state operations answer =>
      have here : state.metadata.lastAppliedSequence = engine.lastAppliedSequence := position
      simp only [engine.finish_log, Prepared.operations, Prepared.state, Option.toList, List.map,
        nextEntry_withState engine here]
      obtain ⟨final, run⟩ := EngineState.prepareCommand_runs found rfl
      exact one engine here store (by
        rw [appendAndApply_of_ok { engine with state := state } reading.created run])

theorem transaction {reading : Reading} {commands : List Command}
    (succeeded : (engine.executeTransaction reading commands).2.isOk = true) :
    engine.Appended (engine.executeTransaction reading commands).1
      ((EngineAction.transaction reading commands).logged engine) := by
  have position := EngineState.purgeExpired_lastAppliedSequence engine.state reading.now
  unfold executeTransaction EngineAction.logged at *
  dsimp only [EngineState.purgeExpired_store] at succeeded ⊢
  split at succeeded
  · cases succeeded
  · rename_i working operations results evaluated
    rw [evaluated]
    dsimp only
    split at succeeded
    · rename_i silent
      rw [if_pos silent, if_pos silent]
      refine quiet engine position fun unexpiring => ?_
      rw [List.isEmpty_iff.mp silent, unexpiring.purgeExpired_eq] at evaluated
      exact evaluateTransaction_quiet (unexpiring.purgeExpired_eq reading.now) evaluated
    · rename_i written
      rw [if_neg written, if_neg written]
      split at succeeded
      · rename_i final tried
        have appended := one engine position
          (fun unexpiring => unexpiring.purgeExpired_eq reading.now) (congrArg Prod.snd tried)
        rw [tried] at appended
        exact appended
      · cases succeeded

theorem batch {nowMs : Nat} {commands : List Command}
    (succeeded : (engine.executeCommandBatch nowMs commands).2.isOk = true) :
    engine.Appended (engine.executeCommandBatch nowMs commands).1
      ((EngineAction.batch nowMs commands).logged engine) := by
  have position := EngineState.purgeExpired_lastAppliedSequence engine.state nowMs
  unfold executeCommandBatch EngineAction.logged at *
  dsimp only [EngineState.purgeExpired_store, lastAppliedSequence] at succeeded ⊢
  rw [position] at succeeded ⊢
  rcases loop : evaluateBatch (engine.state.store.purgeExpired nowMs) ⟨∅, none⟩ nowMs
      engine.currentConsensusTerm engine.state.metadata.lastAppliedSequence commands with
    ⟨final, record, outcome⟩
  rw [loop] at succeeded
  cases outcome with
  | error err => cases succeeded
  | ok result =>
    obtain ⟨entries, results⟩ := result
    obtain ⟨numbered, terms⟩ := evaluateBatch_numbered loop
    dsimp only
    have run : Unexpiring engine.state.store → (∀ entry ∈ entries, Lasting entry.operations) →
        replayStore engine.state.store entries = .ok final := by
      intro unexpiring lasting
      rw [unexpiring.purgeExpired_eq] at loop
      exact evaluateBatch_run unexpiring lasting loop
    cases last : entries.getLast? with
    | none =>
      obtain rfl := List.getLast?_eq_none_iff.mp last
      exact quiet engine position fun unexpiring =>
        (Except.ok.inj (run unexpiring (by simp))).symm
    | some entry =>
      simp only [buildWalEntryIdentities_of_numbered numbered]
      have ends := numbered.getLast?_number last
      refine ⟨rfl, numbered, terms, ?_, fun _ whole indexes => indexes.extend whole, rfl,
        rfl, run⟩
      change entry.sequence = engine.state.metadata.lastAppliedSequence + entries.length
      omega

/-- A successful call appends what it logs. -/
theorem perform {action : EngineAction} (plain : action.snapshots = false)
    (succeeded : action.succeeds engine = true) :
    engine.Appended (action.perform engine) (action.logged engine) := by
  cases action with
  | direct reading command =>
    refine direct engine ⟨?_, ?_⟩
    · rintro rfl
      cases plain
    · rintro rfl
      cases plain
  | transaction reading commands => exact transaction engine succeeded
  | batch nowMs commands => exact batch engine succeeded
  | noop createdAtMs =>
    exact one engine rfl (fun _ => rfl) (Option.isNone_iff_eq_none.mp succeeded)
  | sweep nowMs =>
    exact quiet engine (EngineState.purgeExpired_lastAppliedSequence _ _)
      fun unexpiring => unexpiring.purgeExpired_eq nowMs

end Appended

end Engine

end Vaylix

import Mathlib.Data.List.TakeWhile
import Vaylix.Engine.CommandEffects
import Vaylix.Engine.Core

/-!
# Undoing a failed write batch

A batch remembers, before each command, the entries of the keys the command may change. A
`CLEAR` replaces the record by a copy of the keyspace *at that point of the batch*, so the
undo is exact only when nothing was written before it.
-/

namespace Vaylix

open EngineStore

/-- The key an operation is about; `CLEAR` is about all of them. -/
def WalOperation.key? : WalOperation → Option Key
  | .set key _ _ | .delete key | .expire key _ | .persist key | .checkInteger key _ => some key
  | .clear => none

variable {operation : WalOperation} {key other : Key}

theorem applyOperation_get_other {store next : EngineStore}
    (run : applyOperation store operation = .ok next) (about : operation.key? = some key)
    (distinct : key ≠ other) :
    next.get other = store.get other := by
  cases operation with
  | clear => cases about
  | checkInteger counter delta =>
    cases about
    obtain ⟨number, sum, -, -, rfl⟩ := applyOperation_checkInteger.mp run
    simp [distinct]
  | _ =>
    cases about
    cases run
    simp [distinct]

variable {operations : List WalOperation} {keys : List Key}

theorem applyOperations_get_other {store final : EngineStore}
    (run : applyOperations store operations = .ok final)
    (about : ∀ operation ∈ operations, ∃ key ∈ keys, operation.key? = some key)
    (outside : other ∉ keys) : final.get other = store.get other := by
  refine applyOperations_preserves (·.get other = store.get other) ?_ rfl run
  intro operation inside middle next same first
  obtain ⟨key, member, named⟩ := about operation inside
  have distinct : key ≠ other := fun equal => outside (equal ▸ member)
  exact (applyOperation_get_other first named distinct).trans same

/-- The keys a batch remembers for a command other than `CLEAR`. -/
def Command.rememberedKeys : Command → List Key
  | .set key _ _ | .setNx key _ | .getDel key | .getEx key _ _ | .expire key _ | .persist key
  | .incr key | .decr key => [key]
  | .mSet entries => entries.map Prod.fst
  | .delete keys | .mGet keys => keys
  | .rename source destination | .renameNx source destination => [source, destination]
  | _ => []

def About (keys : List Key) (operations : List WalOperation) : Prop :=
  ∀ operation ∈ operations, ∃ key ∈ keys, operation.key? = some key

theorem about_nil (keys : List Key) : About keys [] := by
  intro operation member
  cases member

theorem about_cons {rest : List WalOperation} (member : key ∈ keys)
    (named : operation.key? = some key) (following : About keys rest) :
    About keys (operation :: rest) := by
  intro other inside
  rcases List.mem_cons.mp inside with rfl | later
  · exact ⟨key, member, named⟩
  · exact following other later

theorem Logs.about {command : Command} {start store final : EngineStore} {nowMs : Nat}
    (logs : Logs command start nowMs store operations final) (plain : command ≠ .clear) :
    About command.touchedKeys operations := by
  induction logs with
  | done => exact about_nil _
  | set touched _ _ _ ih => exact about_cons touched rfl ih
  | delete touched _ ih => exact about_cons touched rfl ih
  | expire touched | persist touched => exact about_cons touched rfl (about_nil _)
  | clear _ cleared => exact absurd cleared plain

theorem evaluatePurged_about {store : EngineStore} {nowMs : Nat} {command : Command}
    (purged : command.unpurged = false → store.purgeExpired nowMs = store)
    (plain : command ≠ .clear) :
    About command.touchedKeys (evaluatePurged store nowMs command).operations := by
  rcases evaluatePurged_logs command purged with logs | ⟨key, delta, counter, logged, -⟩
  · exact logs.about plain
  · have touched : key ∈ command.touchedKeys := by
      cases command <;> cases counter <;> exact List.mem_singleton_self _
    rw [logged]
    exact about_cons touched rfl (about_nil _)

theorem Command.rememberedKeys_of_touchedKeys {command : Command}
    (touched : key ∈ command.touchedKeys) : key ∈ command.rememberedKeys := by
  cases command <;> first | exact touched | cases touched

namespace Engine

variable {start store : EngineStore}

/-- Entries of `start` that are put back give `start` wherever nothing else has changed. -/
theorem putBack_get (remembered : List (Key × Option StoredValue))
    (faithful : ∀ pair ∈ remembered, pair.2 = start.get pair.1) {key : Key}
    (covered : (∃ pair ∈ remembered, pair.1 = key) ∨ store.get key = start.get key) :
    (remembered.foldl (fun store (key, value) =>
      match value with
      | some entry => store.insertEntry key entry
      | none => store.remove key) store).get key = start.get key := by
  induction remembered generalizing store with
  | nil => simpa using covered
  | cons pair rest ih =>
    obtain ⟨name, value⟩ := pair
    have faithfulRest : ∀ pair ∈ rest, pair.2 = start.get pair.1 := fun pair member =>
      faithful pair (List.mem_cons_of_mem _ member)
    have here : value = start.get name := faithful (name, value) List.mem_cons_self
    refine ih faithfulRest ?_
    by_cases same : name = key
    · subst same
      right
      cases value with
      | none => simp [here]
      | some entry => simp [here]
    · rcases covered with ⟨pair, member, named⟩ | unchanged
      · rcases List.mem_cons.mp member with rfl | later
        · exact absurd named same
        · exact .inl ⟨pair, later, named⟩
      · right
        cases value with
        | none => simp [same, unchanged]
        | some entry => simp [same, unchanged]

namespace BatchRollback

/-- Every key that the batch has changed is remembered with its first entry. -/
structure Remembers (start store : EngineStore) (record : BatchRollback) : Prop where
  unclear : record.clearSnapshot = none
  kept : ∀ key value, record.keys[key]? = some value → value = start.get key
  rest : ∀ key, record.keys[key]? = none → store.get key = start.get key

theorem Remembers.nothing (start : EngineStore) : Remembers start start ⟨∅, none⟩ where
  unclear := rfl
  kept key value found := by simp at found
  rest _ _ := rfl

variable {record : BatchRollback}

theorem Remembers.rollback (remembers : Remembers start store record) :
    record.rollback store = start := by
  unfold BatchRollback.rollback
  rw [remembers.unclear]
  ext1 key
  refine putBack_get record.keys.toList ?_ ?_
  · intro pair member
    exact remembers.kept _ _ (Std.ExtTreeMap.mem_toList_iff_getElem?_eq_some.mp member)
  · cases found : record.keys[key]? with
    | none => exact .inr (remembers.rest key found)
    | some value =>
      exact .inl ⟨(key, value), Std.ExtTreeMap.mem_toList_iff_getElem?_eq_some.mpr found, rfl⟩

theorem Remembers.rememberKey (remembers : Remembers start store record) (key : Key) :
    Remembers start store (record.rememberKey store key) := by
  unfold BatchRollback.rememberKey
  by_cases skip : record.clearSnapshot.isSome ∨ record.keys.contains key
  · rw [if_pos skip]
    exact remembers
  · rw [if_neg skip]
    have missing : record.keys[key]? = none := by
      simpa using fun present => skip (.inr present)
    refine ⟨remembers.unclear, ?_, ?_⟩
    · intro other value found
      by_cases same : key = other
      · subst same
        simp only [Std.ExtTreeMap.getElem?_insert_self, Option.some.injEq] at found
        rw [← found]
        exact remembers.rest key missing
      · rw [Std.ExtTreeMap.getElem?_insert, if_neg (by simpa using same)] at found
        exact remembers.kept other value found
    · intro other absent
      refine remembers.rest other ?_
      by_cases same : key = other
      · subst same
        exact missing
      · rwa [Std.ExtTreeMap.getElem?_insert, if_neg (by simpa using same)] at absent

theorem rememberKey_covers (key : Key) (unclear : record.clearSnapshot = none) :
    (record.rememberKey store key).keys[key]? ≠ none := by
  unfold BatchRollback.rememberKey
  by_cases skip : record.clearSnapshot.isSome ∨ record.keys.contains key
  · rw [if_pos skip]
    rcases skip with cleared | present
    · rw [unclear] at cleared
      cases cleared
    · simpa using present
  · rw [if_neg skip]
    simp

theorem rememberKey_mono (key other : Key) (present : record.keys[other]? ≠ none) :
    (record.rememberKey store key).keys[other]? ≠ none := by
  unfold BatchRollback.rememberKey
  split
  · exact present
  · dsimp only
    rw [Std.ExtTreeMap.getElem?_insert]
    split
    · simp
    · exact present

theorem Remembers.foldl (remembers : Remembers start store record) (keys : List Key) :
    Remembers start store (keys.foldl (fun record key => record.rememberKey store key) record) ∧
      ∀ key, key ∈ keys ∨ record.keys[key]? ≠ none →
        (keys.foldl (fun record key => record.rememberKey store key) record).keys[key]? ≠
          none := by
  induction keys generalizing record with
  | nil => exact ⟨remembers, fun key present => by simpa using present⟩
  | cons first rest ih =>
    obtain ⟨final, covers⟩ := ih (remembers.rememberKey first)
    refine ⟨final, ?_⟩
    intro key present
    refine covers key ?_
    rcases present with member | before
    · rcases List.mem_cons.mp member with rfl | later
      · exact .inr (rememberKey_covers key remembers.unclear)
      · exact .inl later
    · exact .inr (rememberKey_mono first key before)

theorem rememberCommand_eq_foldl (record : BatchRollback) (store : EngineStore)
    {command : Command} (plain : command ≠ .clear) :
    record.rememberCommand store command =
      command.rememberedKeys.foldl (fun record key => record.rememberKey store key) record := by
  cases command with
  | clear => exact absurd rfl plain
  | mSet entries =>
    simp only [BatchRollback.rememberCommand, Command.rememberedKeys, List.foldl_map]
  | _ => rfl

theorem rememberCommand_clearSnapshot {previous : EngineStore}
    (cleared : record.clearSnapshot = some previous) (store : EngineStore) (command : Command) :
    (record.rememberCommand store command).clearSnapshot = some previous := by
  have skip : ∀ key, record.rememberKey store key = record := by
    intro key
    unfold BatchRollback.rememberKey
    rw [if_pos (.inl (by simp [cleared]))]
  have fold : ∀ keys : List Key,
      keys.foldl (fun record key => record.rememberKey store key) record = record := by
    intro keys
    induction keys with
    | nil => rfl
    | cons key rest ih => rw [List.foldl_cons, skip, ih]
  by_cases plain : command = .clear
  · subst plain
    simp only [BatchRollback.rememberCommand, BatchRollback.rememberClear, cleared]
  · rw [rememberCommand_eq_foldl _ _ plain, fold, cleared]

end BatchRollback

open BatchRollback

variable {nowMs term visible : Nat} {final : EngineStore} {record record' : BatchRollback}
  {rest : List Command} {outcome : Except EngineError (List WalEntry × List CommandBatchResult)}

theorem evaluateBatch_clearSnapshot {previous : EngineStore} {command : Command}
    (cleared : (record.rememberCommand store command).clearSnapshot = some previous)
    (loop : evaluateBatch store record nowMs term visible (command :: rest) =
      (final, record', outcome)) : record'.clearSnapshot = some previous := by
  induction rest generalizing command store record visible outcome with
  | nil =>
    unfold evaluateBatch at loop
    dsimp only at loop
    split at loop <;> cases loop <;> exact cleared
  | cons next rest ih =>
    unfold evaluateBatch at loop
    dsimp only at loop
    split at loop
    · cases loop
      exact cleared
    · split at loop
      all_goals
        rename_i following
        cases loop
        exact ih (rememberCommand_clearSnapshot cleared _ next) following

variable {before : List Command} {operations : List WalOperation} {results : List TransactionResult}
  {command : Command}

theorem evaluateTransaction_concat {result : TransactionResult}
    (done : evaluateTransaction start nowMs before = .ok (store, operations, results))
    (answered : (evaluateTransactionCommand store nowMs command).outcome = .ok result) :
    evaluateTransaction start nowMs (before ++ [command]) =
      .ok ((evaluateTransactionCommand store nowMs command).store,
        operations ++ (evaluateTransactionCommand store nowMs command).operations,
        results ++ [result]) := by
  induction before generalizing start operations results with
  | nil =>
    simp only [evaluateTransaction, Except.ok.injEq, Prod.mk.injEq] at done
    obtain ⟨rfl, rfl, rfl⟩ := done
    simp [evaluateTransaction, answered]
  | cons first rest ih =>
    obtain ⟨firstResult, later, following, firstAnswered, restDone, rfl, rfl⟩ :=
      evaluateTransaction_cons_ok.mp done
    exact evaluateTransaction_cons_ok.mpr ⟨firstResult, _, _, firstAnswered, ih restDone,
      List.append_assoc _ _ _, rfl⟩

theorem evaluateTransaction_quiet (purged : start.purgeExpired nowMs = start)
    {commands : List Command}
    (done : evaluateTransaction start nowMs commands = .ok (store, [], results)) :
    store = start := by
  induction commands generalizing results with
  | nil =>
    simp only [evaluateTransaction, Except.ok.injEq, Prod.mk.injEq] at done
    exact done.1.symm
  | cons command rest ih =>
    have run := evaluatePurged_run command fun _ => purged
    obtain ⟨result, later, following, -, restDone, silent, -⟩ :=
      evaluateTransaction_cons_ok.mp done
    obtain ⟨quietFirst, rfl⟩ := List.append_eq_nil_iff.mp silent.symm
    unfold evaluateTransactionCommand at quietFirst restDone
    rw [purged] at quietFirst restDone
    rw [quietFirst, applyOperations_nil, Except.ok.injEq] at run
    rw [← run] at restDone
    exact ih restDone

theorem Remembers.remember (purged : start.purgeExpired nowMs = start)
    (remembers : Remembers start store record) (plain : command ≠ .clear) :
    Remembers start (evaluateTransactionCommand store nowMs command).store
      (record.rememberCommand store command) := by
  obtain ⟨remembered, covers⟩ := remembers.foldl command.rememberedKeys
  rw [rememberCommand_eq_foldl _ _ plain]
  refine ⟨remembered.unclear, remembered.kept, ?_⟩
  intro key absent
  have outside : key ∉ command.touchedKeys := fun member =>
    covers key (.inl (Command.rememberedKeys_of_touchedKeys member)) absent
  have unchanged : store.get key = start.get key := remembered.rest key absent
  have again := purgeExpired_purgeExpired store nowMs
  have run := evaluatePurged_run command fun _ => again
  have same := applyOperations_get_other run (evaluatePurged_about (fun _ => again) plain) outside
  unfold evaluateTransactionCommand
  rw [same, get_purgeExpired, unchanged, ← get_purgeExpired, purged]

variable {err : EngineError}

theorem evaluateTransaction_failing (rest : List Command)
    (done : evaluateTransaction start nowMs before = .ok (store, operations, results))
    (failed : (evaluateTransactionCommand store nowMs command).outcome = .error err) :
    evaluateTransaction start nowMs (before ++ command :: rest) = .error err := by
  induction before generalizing start operations results with
  | nil =>
    simp only [evaluateTransaction, Except.ok.injEq, Prod.mk.injEq] at done
    obtain ⟨rfl, rfl, rfl⟩ := done
    simp [evaluateTransaction, failed]
  | cons first later ih =>
    obtain ⟨firstResult, _, _, firstAnswered, restDone, -, -⟩ :=
      evaluateTransaction_cons_ok.mp done
    rw [List.cons_append, evaluateTransaction]
    simp [firstAnswered, ih restDone]

def beforeClear (commands : List Command) : List Command :=
  commands.takeWhile fun command => decide (command ≠ .clear)

theorem clear_not_mem_beforeClear (commands : List Command) :
    Command.clear ∉ beforeClear commands := by
  intro member
  simpa using List.mem_takeWhile_imp member

/-- **What a batch is undone to**: the keyspace it started from, or the one in which it
reached its first `CLEAR`. -/
theorem evaluateBatch_undone (purged : start.purgeExpired nowMs = start) (before : List Command)
    (done : evaluateTransaction start nowMs before = .ok (store, operations, results))
    (remembers : Remembers start store record)
    (loop : evaluateBatch store record nowMs term visible rest = (final, record', outcome)) :
    (record'.rollback final = start ∧
      ((∃ cause, evaluateTransaction start nowMs (before ++ beforeClear rest) = .error cause) ∨
        outcome.isOk = true ∧ Command.clear ∉ rest)) ∨
    ∃ after working operations results, rest = beforeClear rest ++ .clear :: after ∧
      evaluateTransaction start nowMs (before ++ beforeClear rest) =
        .ok (working, operations, results) ∧
      record'.rollback final = working := by
  induction rest generalizing before store operations results record visible outcome with
  | nil =>
    simp only [evaluateBatch, Prod.mk.injEq] at loop
    obtain ⟨rfl, rfl, rfl⟩ := loop
    exact .inl ⟨remembers.rollback, .inr ⟨rfl, List.not_mem_nil⟩⟩
  | cons command rest ih =>
    by_cases plain : command = .clear
    · subst plain
      have cleared : (record.rememberCommand store .clear).clearSnapshot = some store := by
        simp only [BatchRollback.rememberCommand, BatchRollback.rememberClear, remembers.unclear]
      have kept := evaluateBatch_clearSnapshot cleared loop
      refine .inr ⟨rest, store, operations, results, rfl, ?_, ?_⟩
      · simpa [beforeClear] using done
      · simp [BatchRollback.rollback, kept]
    · have next := Remembers.remember purged remembers plain
      have kept : beforeClear (command :: rest) = command :: beforeClear rest := by
        simp [beforeClear, plain]
      rw [kept]
      unfold evaluateBatch at loop
      dsimp only at loop
      split at loop
      · rename_i cause refused
        simp only [Prod.mk.injEq] at loop
        obtain ⟨rfl, rfl, -⟩ := loop
        exact .inl ⟨next.rollback, .inl ⟨cause, evaluateTransaction_failing _ done refused⟩⟩
      · rename_i result answered
        split at loop
        all_goals
          rename_i following
          simp only [Prod.mk.injEq] at loop
          obtain ⟨rfl, rfl, rfl⟩ := loop
          rcases ih _ (evaluateTransaction_concat done answered) next following with
            ⟨undone, cause | ⟨answers, unclear⟩⟩ |
              ⟨after, working, operations, results, split, run, undone⟩
        · exact .inl ⟨undone, .inl (by simpa using cause)⟩
        · cases answers
        · exact .inr ⟨after, working, operations, results, congrArg (command :: ·) split,
            by simpa using run, undone⟩
        · exact .inl ⟨undone, .inl (by simpa using cause)⟩
        · exact .inl ⟨undone, .inr ⟨rfl, by simpa [Ne.symm plain] using unclear⟩⟩
        · exact .inr ⟨after, working, operations, results, congrArg (command :: ·) split,
            by simpa using run, undone⟩

theorem evaluateBatch_undo (purged : start.purgeExpired nowMs = start)
    {commands : List Command}
    (undoable : ∀ first after, commands = first ++ .clear :: after → .clear ∉ first →
      ∀ final operations results,
        evaluateTransaction start nowMs first = .ok (final, operations, results) →
        operations = []) (failed : evaluateBatch start ⟨∅, none⟩ nowMs term visible commands =
      (final, record, .error err)) :
    record.rollback final = start := by
  rcases evaluateBatch_undone purged [] rfl (Remembers.nothing start) failed with
    ⟨undone, -⟩ | ⟨after, working, operations, results, split, run, undone⟩
  · exact undone
  · obtain rfl := undoable _ after split (clear_not_mem_beforeClear commands) _ _ _ run
    rw [undone, evaluateTransaction_quiet purged run]

end Engine

end Vaylix

import Vaylix.Engine.BatchUndo

/-!
# Undoing an entry

The record of an entry turns into a copy of the keyspace at the first `Clear`: an entry that
fails behind a `Clear` is undone to where that found the keyspace, not to where the entry did.
-/

namespace Vaylix

open Engine BatchRollback

def storeAtClear (store : EngineStore) : List WalOperation → Option EngineStore
  | [] => none
  | operation :: rest =>
    if operation = .clear then some store
    else match applyOperation store operation with
      | .ok next => storeAtClear next rest
      | .error _ => none

theorem storeAtClear_of_about {keys : List Key} {operations : List WalOperation}
    (about : About keys operations) (store : EngineStore) :
    storeAtClear store operations = none := by
  induction operations generalizing store with
  | nil => rfl
  | cons operation rest ih =>
    obtain ⟨name, -, named⟩ := about operation List.mem_cons_self
    rw [storeAtClear, if_neg (by rintro rfl; cases named)]
    cases applyOperation store operation with
    | error err => rfl
    | ok next => exact ih (fun other inside => about other (List.mem_cons_of_mem _ inside)) next

namespace EntryRollback

def toBatch (record : EntryRollback) : BatchRollback := ⟨record.keys, record.clearSnapshot⟩

variable {record : EntryRollback} {start store : EngineStore} {operation : WalOperation}

theorem toBatch_remember {name : Key} (named : operation.key? = some name) :
    (record.remember store operation).toBatch = record.toBatch.rememberKey store name := by
  have same : (record.rememberKey store name).toBatch = record.toBatch.rememberKey store name := by
    unfold rememberKey BatchRollback.rememberKey toBatch
    split <;> rfl
  cases operation with
  | clear => cases named
  | _ =>
    cases named
    exact same

/-- An operation is remembered before it runs. -/
theorem remembers_step (remembers : Remembers start store record.toBatch)
    (plain : operation ≠ .clear) :
    Remembers start store (record.remember store operation).toBatch ∧
      ∀ next, applyOperation store operation = .ok next →
        Remembers start next (record.remember store operation).toBatch := by
  obtain ⟨name, named⟩ : ∃ name, operation.key? = some name := by
    cases operation with
    | clear => exact absurd rfl plain
    | _ => exact ⟨_, rfl⟩
  rw [toBatch_remember named]
  have kept := remembers.rememberKey name
  refine ⟨kept, fun next run => ⟨kept.unclear, kept.kept, fun other absent => ?_⟩⟩
  have distinct : name ≠ other := by
    rintro rfl
    exact rememberKey_covers name remembers.unclear absent
  exact (applyOperation_get_other run named distinct).trans (kept.rest other absent)

theorem clearSnapshot_applyOperationsRecorded {previous : EngineStore}
    (cleared : record.clearSnapshot = some previous) (operations : List WalOperation) :
    (applyOperationsRecorded store record operations).2.1.clearSnapshot = some previous := by
  induction operations generalizing store record with
  | nil => exact cleared
  | cons operation rest ih =>
    have kept : (record.remember store operation).clearSnapshot = some previous := by
      cases operation <;> simp [remember, rememberKey, rememberClear, cleared]
    unfold applyOperationsRecorded
    cases applyOperation store operation with
    | error err => exact kept
    | ok next => exact ih kept

theorem rollback_applyOperationsRecorded {operations : List WalOperation} {err : EngineError}
    (remembers : Remembers start store record.toBatch)
    (failed : (applyOperationsRecorded store record operations).2.2 = some err) :
    (applyOperationsRecorded store record operations).2.1.rollback
      (applyOperationsRecorded store record operations).1 =
        (storeAtClear store operations).getD start := by
  induction operations generalizing store record with
  | nil => cases failed
  | cons operation rest ih =>
    by_cases plain : operation = .clear
    · subst plain
      have copied : (record.remember store .clear).clearSnapshot = some store := by
        have unclear : record.clearSnapshot = none := remembers.unclear
        simp [remember, rememberClear, unclear]
      change ((applyOperationsRecorded store.clear _ rest).2.1.rollback _) = store
      rw [rollback, clearSnapshot_applyOperationsRecorded copied rest]
    · obtain ⟨here, further⟩ := remembers_step remembers plain
      rw [storeAtClear, if_neg plain]
      unfold applyOperationsRecorded at failed ⊢
      cases run : applyOperation store operation with
      | error cause => exact here.rollback
      | ok next =>
        rw [run] at failed
        exact ih (further next run) failed

end EntryRollback

namespace EngineState

/-- **What a failed entry leaves**: the keyspace in which its first `Clear` was reached, if it
was. -/
theorem applyEntry_failed {state : EngineState} {entry : WalEntry} {err : EngineError}
    (failed : (state.applyEntry entry).2 = some err) :
    (state.applyEntry entry).1 =
      ⟨(storeAtClear state.store entry.operations).getD state.store, state.metadata⟩ := by
  have start : Remembers state.store state.store EntryRollback.empty.toBatch := .nothing state.store
  unfold applyEntry at failed ⊢
  rcases reached : applyOperationsRecorded state.store .empty entry.operations with
    ⟨store, record, _ | cause⟩
  · rw [reached] at failed
    cases failed
  · rw [← EntryRollback.rollback_applyOperationsRecorded start (by rw [reached]), reached]

/-- **A failed entry changes nothing exactly when its first `Clear` found the keyspace as the
entry did**, or is not reached. -/
theorem failed_entry_undone_iff (state : EngineState) (entry : WalEntry) (err : EngineError)
    (failed : (state.applyEntry entry).2 = some err) :
    (state.applyEntry entry).1 = state ↔
      ∀ store, storeAtClear state.store entry.operations = some store → store = state.store := by
  rw [applyEntry_failed failed]
  cases storeAtClear state.store entry.operations with
  | none => exact ⟨fun _ => by rintro _ ⟨⟩, fun _ => rfl⟩
  | some store =>
    refine ⟨fun same _ found => ?_, fun same => by rw [same store rfl]; rfl⟩
    rw [← Option.some.inj found]
    exact congrArg EngineState.store same

/-- A value and a counter that cannot be counted on are both undone. -/
theorem failed_entry_undone_twice :
    ((EngineState.new 0).applyEntry ⟨1, 1, 0, [.set "a" [120] 1, .checkInteger "a" 1]⟩).1 =
      .new 0 :=
  (failed_entry_undone_iff _ _ (.invalidIntegerValue "a" [120]) (by decide +kernel)).mpr
    (by rintro _ ⟨⟩)

/-- A value written before a `Clear` outlives the failure behind it. -/
theorem failed_entry_keeps_value :
    let entry : WalEntry := ⟨1, 1, 0, [.set "a" [120] 1, .clear, .set "b" [120] 1,
      .checkInteger "b" 1]⟩
    ((EngineState.new 0).applyEntry entry).2 = some (.invalidIntegerValue "b" [120]) ∧
      ((EngineState.new 0).applyEntry entry).1.store.get "a" = some ⟨[120], none, 1⟩ := by
  decide +kernel

end EngineState

end Vaylix

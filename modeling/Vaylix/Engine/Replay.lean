import Vaylix.Engine.Storage

/-!
# Replaying a log

Recovery, truncation and replication all apply entries in order. On the keyspace
this is one fold; the metadata only remembers the last entry. The lemmas here
also say, once, what appending an entry and running a prepared command do to the
engine.
-/

namespace Vaylix

def replayStore (store : EngineStore) (entries : List WalEntry) :
    Except EngineError EngineStore :=
  entries.foldlM (fun store entry => applyOperations store entry.operations) store

@[simp] theorem replayStore_nil (store : EngineStore) : replayStore store [] = .ok store := rfl

theorem replayStore_cons (store : EngineStore) (entry : WalEntry) (rest : List WalEntry) :
    replayStore store (entry :: rest) =
      (applyOperations store entry.operations).bind fun next => replayStore next rest := rfl

theorem replayStore_append (store : EngineStore) (first second : List WalEntry) :
    replayStore store (first ++ second) =
      (replayStore store first).bind fun next => replayStore next second := by
  simp only [replayStore, List.foldlM_append]
  rfl

theorem replayStore_append_ok {store middle : EngineStore} {first second : List WalEntry}
    (run : replayStore store first = .ok middle) :
    replayStore store (first ++ second) = replayStore middle second := by
  rw [replayStore_append, run]
  rfl

theorem replayStore_singleton (store : EngineStore) (entry : WalEntry) :
    replayStore store [entry] = applyOperations store entry.operations := by
  rw [replayStore_cons]
  cases applyOperations store entry.operations <;> rfl

def EngineMetadata.after (metadata : EngineMetadata) (entries : List WalEntry) : EngineMetadata :=
  match entries.getLast? with
  | none => metadata
  | some last =>
    { metadata with lastAppliedSequence := last.sequence, updatedAtMs := last.createdAtMs }

namespace EngineState

theorem after_applied (state : EngineState) (store : EngineStore) (entry : WalEntry)
    (rest : List WalEntry) :
    (state.applied entry store).metadata.after rest = state.metadata.after (entry :: rest) := by
  cases rest with
  | nil => rfl
  | cons next rest =>
    rfl

/-- A replay of entries is one of their operations. -/
theorem replayEntries_ok_iff (state final : EngineState) (entries : List WalEntry) :
    state.replayEntries entries = .ok final ↔
      ∃ store, replayStore state.store entries = .ok store ∧
        final = ⟨store, state.metadata.after entries⟩ := by
  induction entries generalizing state with
  | nil =>
    simp only [replayEntries, replayStore_nil, Except.ok.injEq, exists_eq_left']
    rw [eq_comm]
    rfl
  | cons entry rest ih =>
    rw [replayStore_cons]
    cases run : applyOperations state.store entry.operations with
    | error err =>
      have failed : (state.applyEntry entry).2 = some err :=
        (applyEntry_error_iff _ _ _).mpr run
      unfold replayEntries
      rcases shape : state.applyEntry entry with ⟨next, outcome⟩
      rw [shape] at failed
      obtain rfl : outcome = some err := failed
      simp [Except.bind]
    | ok store =>
      unfold replayEntries
      rw [applyEntry_of_ok _ _ run]
      rw [ih, after_applied]
      rfl

theorem replayEntries_of_ok (state : EngineState) {entries : List WalEntry} {store : EngineStore}
    (run : replayStore state.store entries = .ok store) :
    state.replayEntries entries = .ok ⟨store, state.metadata.after entries⟩ :=
  (replayEntries_ok_iff _ _ _).mpr ⟨store, run, rfl⟩

end EngineState

namespace Engine

variable [Codec]

@[simp] theorem appendWal_state (engine : Engine) (entries : List WalEntry) :
    (engine.appendWal entries).state = engine.state := rfl

def appended (engine : Engine) (entry : WalEntry) (store : EngineStore) : Engine :=
  { engine.appendWal [entry] with
    state := engine.state.applied entry store
    walEntries := engine.walEntries ++ [entry]
    walEntryIdentities :=
      engine.walEntryIdentities.insert entry.sequence (walEntryIdentity entry) }

variable {operations : List WalOperation} {store : EngineStore}

theorem appendAndApply_of_ok (engine : Engine) (createdAtMs : Nat)
    (run : applyOperations engine.state.store operations = .ok store) :
    engine.appendAndApply createdAtMs operations =
      (engine.appended (engine.nextEntry createdAtMs operations) store, none) := by
  have applied := EngineState.applyEntry_of_ok engine.state
    (engine.nextEntry createdAtMs operations) run
  simp only [appendAndApply, appendWal_state, applied]
  rfl

theorem finish_of_none {α : Type} (engine : Engine) (createdAtMs : Nat) (prepared : Prepared α)
    (silent : prepared.operations = none) :
    (engine.finish createdAtMs prepared).1 = { engine with state := prepared.state } := by
  simp only [finish, silent]

theorem finish_log {α : Type} (engine : Engine) (createdAtMs : Nat) (state : EngineState)
    (operations : List WalOperation) (answer : α) :
    engine.finish createdAtMs (.log state operations answer) =
      let tried := Engine.appendAndApply { engine with state := state } createdAtMs operations
      (tried.1, match tried.2 with
        | none => .ok answer
        | some err => .error err) := by
  simp only [finish, Prepared.state, Prepared.operations, Prepared.answer]
  rcases Engine.appendAndApply { engine with state := state } createdAtMs operations with
    ⟨final, outcome⟩
  cases outcome <;> rfl

theorem finish_of_ok {α : Type} (engine : Engine) (createdAtMs : Nat) (prepared : Prepared α)
    (logged : prepared.operations = some operations)
    (run : applyOperations prepared.state.store operations = .ok store) :
    (engine.finish createdAtMs prepared).1 =
      let decided := { engine with state := prepared.state }
      decided.appended (decided.nextEntry createdAtMs operations) store := by
  have taken := appendAndApply_of_ok { engine with state := prepared.state } createdAtMs run
  simp only [finish, logged, taken]

end Engine

end Vaylix

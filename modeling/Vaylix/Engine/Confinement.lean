import Vaylix.Engine.EntryAtomicity
import Vaylix.Engine.VersionChecks

/-!
# Keys a command does not write

Only `CLEAR` and `RESTORE` reach beyond the keys a command is given. Whichever way it runs and
whether or not it fails, every other key keeps its entry, unless that has expired and is
purged on the way.
-/

namespace Vaylix

open EngineStore

/-- The key keeps its entry, or loses one that has expired. -/
def EngineStore.Kept (nowMs : Nat) (key : Key) (before after : EngineStore) : Prop :=
  after.get key = before.get key ∨
    (∃ entry, before.get key = some entry ∧ entry.expiredAt nowMs = true) ∧ after.get key = none

namespace EngineStore.Kept

variable {earlier nowMs : Nat} {key : Key} {before middle after : EngineStore}

theorem refl (store : EngineStore) : Kept nowMs key store store := .inl rfl

theorem trans (order : earlier ≤ nowMs) (first : Kept earlier key before middle)
    (second : Kept nowMs key middle after) : Kept nowMs key before after := by
  rcases first with same | ⟨⟨entry, found, expired⟩, gone⟩
  · rcases second with kept | ⟨⟨entry, found, expired⟩, gone⟩
    · exact .inl (kept.trans same)
    · exact .inr ⟨⟨entry, same ▸ found, expired⟩, gone⟩
  · refine .inr ⟨⟨entry, found, StoredValue.expiredAt_mono order expired⟩, ?_⟩
    rcases second with kept | ⟨⟨entry, present, -⟩, -⟩
    · exact kept.trans gone
    · rw [gone] at present
      cases present

theorem mono (order : earlier ≤ nowMs) (kept : Kept earlier key before after) :
    Kept nowMs key before after :=
  kept.trans order (refl after)

theorem purgeExpired (store : EngineStore) : Kept nowMs key store (store.purgeExpired nowMs) := by
  unfold Kept
  rw [get_purgeExpired]
  cases found : store.get key with
  | none => exact .inl rfl
  | some entry =>
    cases expired : entry.expiredAt nowMs with
    | true => exact .inr ⟨⟨entry, rfl, expired⟩, by simp [expired]⟩
    | false => exact .inl (by simp [expired])

end EngineStore.Kept

/-- The command cannot reach the key. -/
structure Command.Spares (command : Command) (key : Key) : Prop where
  clear : command ≠ .clear
  restore : ∀ dump, command ≠ .restore dump
  outside : key ∉ command.touchedKeys

theorem evaluateTransactionCommand_kept (store : EngineStore) (nowMs : Nat) {command : Command}
    {key : Key} (spared : command.Spares key) :
    Kept nowMs key store (evaluateTransactionCommand store nowMs command).store := by
  have again := purgeExpired_purgeExpired store nowMs
  have run := evaluatePurged_run command fun _ => again
  have same := applyOperations_get_other run (evaluatePurged_about (fun _ => again) spared.clear)
    spared.outside
  exact (Kept.purgeExpired store).trans le_rfl (.inl same)

theorem EngineState.applyEntry_get_other (state : EngineState) (entry : WalEntry) {keys : List Key}
    {key : Key} (about : About keys entry.operations) (outside : key ∉ keys) :
    (state.applyEntry entry).1.store.get key = state.store.get key := by
  cases failed : (state.applyEntry entry).2 with
  | some err => rw [applyEntry_failed failed, storeAtClear_of_about about, Option.getD_none]
  | none =>
    obtain ⟨store, run, next⟩ := (applyEntry_ok_iff state _ entry).mp (Prod.ext rfl failed)
    exact (congrArg (·.store.get key) next).trans (applyOperations_get_other run about outside)

namespace Prepared

variable {α β : Type}

def Concerns (prepared : Prepared α) (keys : List Key) : Prop :=
  ∀ operations, prepared.operations = some operations → About keys operations

end Prepared

namespace EngineState

open Prepared

theorem prepareCommand_concerns [Codec] (state : EngineState) {reading : Reading}
    {command : Command} {prepared : Prepared TransactionResult} (uncleared : command ≠ .clear)
    (unrestored : ∀ dump, command ≠ .restore dump)
    (found : state.prepareCommand reading command = some prepared) :
    prepared.Concerns command.touchedKeys := by
  intro operations logged
  rcases prepareCommand_logs state found logged with ⟨nowMs, purged, rfl⟩ | apart
  · exact evaluatePurged_about purged uncleared
  · cases apart with
    | delete keys =>
      intro operation member
      obtain ⟨key, named, rfl⟩ := List.mem_map.mp member
      exact ⟨key, named, rfl⟩
    | rename present =>
      refine about_cons List.mem_cons_self rfl (about_cons List.mem_cons_self rfl ?_)
      intro operation member
      obtain ⟨expiresAtMs, -, rfl⟩ := List.mem_map.mp member
      exact ⟨_, List.mem_cons_self, rfl⟩
    | restore => exact absurd rfl (unrestored _)

theorem DecidedOn.kept {state decided : EngineState} {reading : Reading}
    (on : state.DecidedOn reading decided) (key : Key) :
    Kept reading.later key state.store decided.store := by
  rcases on.store with same | purged | twice
  · exact .inl (by rw [same])
  · rw [purged]
    exact (Kept.purgeExpired state.store).mono reading.now_le_later
  · rw [twice]
    exact (Kept.purgeExpired state.store).trans reading.now_le_later (.purgeExpired _)

end EngineState

namespace Engine

variable [Codec] (engine : Engine) {key : Key}

variable {operations : List WalOperation} {keys : List Key}

theorem appendAndApply_get_other (createdAtMs : Nat) (about : About keys operations)
    (outside : key ∉ keys) :
    (engine.appendAndApply createdAtMs operations).1.state.store.get key =
      engine.state.store.get key := by
  have same := engine.state.applyEntry_get_other (engine.nextEntry createdAtMs operations) about
    outside
  unfold appendAndApply
  dsimp only
  rw [appendWal_state]
  rcases applied : engine.state.applyEntry (engine.nextEntry createdAtMs operations) with
    ⟨state, _ | err⟩
  all_goals rw [applied] at same
  · exact same
  · exact same

theorem finish_get_other {α : Type} {prepared : Prepared α} (createdAtMs : Nat)
    (concerns : prepared.Concerns keys) (outside : key ∉ keys) :
    (engine.finish createdAtMs prepared).1.state.store.get key = prepared.state.store.get key := by
  cases logged : prepared.operations with
  | none => rw [finish_of_none _ _ _ logged]
  | some operations =>
    have same := appendAndApply_get_other { engine with state := prepared.state } createdAtMs
      (concerns operations logged) outside
    simp only [finish, logged]
    rcases tried : Engine.appendAndApply { engine with state := prepared.state } createdAtMs
      operations with ⟨final, _ | err⟩
    all_goals rw [tried] at same
    · exact same
    · exact same

/-- A direct command keeps the keys it cannot reach. -/
theorem executeCommand_kept (reading : Reading) {command : Command} (spared : command.Spares key) :
    Kept reading.later key engine.state.store
      (engine.executeCommand reading command).1.state.store := by
  have saved : Kept reading.later key engine.state.store
      (engine.snapshot reading).1.state.store := by
    rw [snapshot_store]
    exact (Kept.purgeExpired _).mono reading.now_le_later
  by_cases plain : command ≠ .save ∧ command ≠ .snapshot
  · rw [executeCommand_engine engine reading plain]
    cases found : engine.state.prepareCommand reading command with
    | none => exact .refl _
    | some prepared =>
      have decided := (engine.state.prepareCommand_decidedOn found).kept key
      have same := engine.finish_get_other reading.created
        (engine.state.prepareCommand_concerns spared.clear spared.restore found) spared.outside
      exact decided.trans le_rfl (.inl same)
  · obtain rfl | rfl : command = .save ∨ command = .snapshot := by
      rwa [not_and_or, not_not, not_not] at plain
    all_goals
      unfold executeCommand
      rcases taken : engine.snapshot reading with ⟨next, _ | err⟩
      all_goals rw [taken] at saved
      · exact saved
      · exact saved

variable {nowMs : Nat} {commands : List Command}

omit [Codec] in
theorem evaluateTransaction_kept {store final : EngineStore} {results : List TransactionResult}
    (spared : ∀ command ∈ commands, command.Spares key)
    (done : evaluateTransaction store nowMs commands = .ok (final, operations, results)) :
    Kept nowMs key store final ∧ About (commands.flatMap Command.touchedKeys) operations := by
  induction commands generalizing store operations results with
  | nil =>
    simp only [evaluateTransaction, Except.ok.injEq, Prod.mk.injEq] at done
    obtain ⟨rfl, rfl, -⟩ := done
    exact ⟨.refl _, about_nil _⟩
  | cons command rest ih =>
    obtain ⟨result, later, following, -, restDone, rfl, -⟩ := evaluateTransaction_cons_ok.mp done
    obtain ⟨kept, about⟩ := ih (List.forall_mem_cons.mp spared).2
      restDone
    have first := spared command List.mem_cons_self
    refine ⟨(evaluateTransactionCommand_kept store nowMs first).trans le_rfl kept, ?_⟩
    intro operation member
    rw [List.flatMap_cons]
    rcases List.mem_append.mp member with here | there
    · obtain ⟨name, inside, named⟩ :=
        evaluatePurged_about (fun _ => purgeExpired_purgeExpired _ nowMs) first.clear operation here
      exact ⟨name, List.mem_append_left _ inside, named⟩
    · obtain ⟨name, inside, named⟩ := about operation there
      exact ⟨name, List.mem_append_right _ inside, named⟩

/-- So does a transaction, answered or refused. -/
theorem executeTransaction_kept (reading : Reading)
    (spared : ∀ command ∈ commands, command.Spares key) :
    Kept reading.now key engine.state.store
      (engine.executeTransaction reading commands).1.state.store := by
  have purged : Kept reading.now key engine.state.store
      (engine.state.store.purgeExpired reading.now) := .purgeExpired _
  have outside : key ∉ commands.flatMap Command.touchedKeys := by
    intro member
    obtain ⟨command, inside, written⟩ := List.mem_flatMap.mp member
    exact (spared command inside).outside written
  unfold executeTransaction
  dsimp only
  rw [EngineState.purgeExpired_store]
  cases evaluated : evaluateTransaction (engine.state.store.purgeExpired reading.now) reading.now
      commands with
  | error err => exact purged
  | ok outcome =>
    obtain ⟨working, operations, results⟩ := outcome
    obtain ⟨kept, about⟩ := evaluateTransaction_kept spared evaluated
    dsimp only
    split
    · exact purged.trans le_rfl kept
    · have same := appendAndApply_get_other
        { engine with state := engine.state.purgeExpired reading.now } reading.created about outside
      rcases tried : Engine.appendAndApply
        { engine with state := engine.state.purgeExpired reading.now } reading.created operations
        with ⟨final, _ | err⟩
      all_goals rw [tried] at same
      · exact purged.trans le_rfl (.inl same)
      · exact purged.trans le_rfl (.inl same)

omit [Codec] in
theorem evaluateBatch_kept {term visible : Nat} {store final : EngineStore}
    {record record' : BatchRollback} {outcome : List WalEntry × List CommandBatchResult}
    (spared : ∀ command ∈ commands, command.Spares key)
    (done : evaluateBatch store record nowMs term visible commands =
      (final, record', .ok outcome)) : Kept nowMs key store final := by
  induction commands generalizing store record visible outcome with
  | nil =>
    cases done
    exact .refl _
  | cons command rest ih =>
    have first := evaluateTransactionCommand_kept store nowMs
      (spared command List.mem_cons_self)
    obtain ⟨-, _, _, -, following, -⟩ := evaluateBatch_cons_ok done
    exact first.trans le_rfl
      (ih (List.forall_mem_cons.mp spared).2 following)

/-- So does a batch, undone or not. -/
theorem executeCommandBatch_kept (nowMs : Nat) (spared : ∀ command ∈ commands, command.Spares key) :
    Kept nowMs key engine.state.store
      (engine.executeCommandBatch nowMs commands).1.state.store := by
  have purged : Kept nowMs key engine.state.store (engine.state.store.purgeExpired nowMs) :=
    .purgeExpired _
  unfold executeCommandBatch
  dsimp only
  rw [EngineState.purgeExpired_store]
  rcases evaluated : evaluateBatch (engine.state.store.purgeExpired nowMs) ⟨∅, none⟩ nowMs
    engine.currentConsensusTerm (engine.state.purgeExpired nowMs).metadata.lastAppliedSequence
    commands with ⟨store, record, err | ⟨entries, results⟩⟩
  · -- without a `CLEAR` the batch is undone to the purged keyspace
    have undone := evaluateBatch_undo (purgeExpired_purgeExpired _ nowMs)
      (fun first after split _ => absurd rfl (spared .clear (by rw [split]; simp)).clear) evaluated
    rw [← undone] at purged
    exact purged
  · have kept := purged.trans le_rfl (evaluateBatch_kept spared evaluated)
    dsimp only
    split
    · exact kept
    · split
      · exact kept
      · exact kept

end Engine

end Vaylix

import Vaylix.Engine.Transactions
import Vaylix.Lib.VersionHistory

/-!
# Versions as a guard against lost updates

`SET … IF VERSION v` detects every change as long as a version is never given twice to one
key. A key that is deleted, expires or is renamed away starts again at 1. Versions do not
repeat where a key is written only while it is there, or before it ever was.
-/

namespace Vaylix

open EngineStore

def EngineStore.stamp (store : EngineStore) (key : Key) : Option (Nat × Bytes) :=
  (store.get key).map fun entry => (entry.version, entry.value)

/-- Every key keeps its stamp, is gone, or is one of `written` and has a larger version. -/
def Rewrites (store next : EngineStore) (written : List Key) : Prop :=
  ∀ key, next.stamp key = store.stamp key ∨ next.stamp key = none ∨
    key ∈ written ∧ ∃ version value, next.stamp key = some (version, value) ∧
      ∀ old held, store.stamp key = some (old, held) → old < version

/-- The operation gives a key of `written` a larger version, or none. Integer updates are left
out. -/
def WalOperation.Raises (start : EngineStore) (written : List Key) : WalOperation → Prop
  | .set key _ version =>
    key ∈ written ∧ ∀ old held, start.stamp key = some (old, held) → old < version
  | .checkInteger _ _ => False
  | _ => True

namespace Rewrites

variable {start store next : EngineStore} {written : List Key}

theorem refl (store : EngineStore) (written : List Key) : Rewrites store store written :=
  fun _ => .inl rfl

variable (rewrites : Rewrites start store written)
include rewrites

theorem keep_or_drop (kept : ∀ key, next.stamp key = store.stamp key ∨ next.stamp key = none) :
    Rewrites start next written := by
  intro key
  rcases kept key with same | gone
  · rw [same]
    exact rewrites key
  · exact .inr (.inl gone)

theorem purge (nowMs : Nat) :
    Rewrites start (store.purgeExpired nowMs) written := by
  refine rewrites.keep_or_drop fun key => ?_
  unfold stamp
  rw [get_purgeExpired]
  cases store.get key with
  | none => exact .inl rfl
  | some entry => cases expired : entry.expiredAt nowMs <;> simp [Option.filter, expired]

theorem applyOperation {operation : WalOperation} (raises : operation.Raises start written)
    (run : applyOperation store operation = .ok next) : Rewrites start next written := by
  cases operation with
  | set key value version =>
    cases run
    intro other
    by_cases same : key = other
    · subst same
      exact .inr (.inr ⟨raises.1, version, value, by simp [stamp], raises.2⟩)
    · simpa [stamp, same] using rewrites other
  | delete key =>
    cases run
    refine rewrites.keep_or_drop fun other => ?_
    by_cases same : key = other <;> simp [stamp, same]
  | expire key _ | persist key =>
    cases run
    refine rewrites.keep_or_drop fun other => .inl ?_
    by_cases same : key = other
    · subst same
      cases found : store.get key <;> simp [stamp, found]
    · simp [stamp, same]
  | clear =>
    cases run
    exact rewrites.keep_or_drop fun other => .inr (by simp [stamp])
  | checkInteger key delta => exact raises.elim

theorem applyOperations {operations : List WalOperation}
    (raise : ∀ operation ∈ operations, operation.Raises start written)
    (run : applyOperations store operations = .ok next) : Rewrites start next written :=
  applyOperations_preserves _ (fun operation member _ _ holds first =>
    applyOperation holds (raise operation member) first) rewrites run

end Rewrites

/-- The version of every key of `written` that is there can still be counted up. -/
def Countable (store : EngineStore) (written : List Key) : Prop :=
  ∀ key ∈ written, ∀ entry, store.get key = some entry → entry.version < u64Max

variable {written : List Key} {key : Key}

theorem lt_nextValueVersion {store : EngineStore} (countable : Countable store written)
    (member : key ∈ written) {old : Nat} {held : Bytes}
    (stamped : store.stamp key = some (old, held)) : old < nextValueVersion (store.get key) := by
  obtain ⟨entry, found, same⟩ := Option.map_eq_some_iff.mp stamped
  cases same
  have bound := countable key member entry found
  simp only [nextValueVersion, found, Option.map_some, Option.getD_some, satAdd]
  omega

theorem rewrites_of_counter {store next : EngineStore} {delta : Int}
    (countable : Countable store [key])
    (run : applyOperations store [.checkInteger key delta] = .ok next) :
    Rewrites store next [key] := by
  rw [applyOperations_singleton] at run
  obtain ⟨number, sum, -, -, rfl⟩ := applyOperation_checkInteger.mp run
  intro other
  by_cases same : key = other
  · subst same
    refine .inr (.inr ⟨List.mem_singleton.mpr rfl, nextValueVersion (store.get key),
      renderI64 sum, ?_, fun old held stamped =>
        lt_nextValueVersion countable (List.mem_singleton.mpr rfl) stamped⟩)
    simp [stamp, incrementedEntry, nextValueVersion]
  · exact .inl (by simp [stamp, same])

/-! ### The keys a command writes -/

namespace Command

def restoredKeys [Codec] : Command → List Key
  | .restore dump =>
    match Codec.parseLogicalBackup dump with
    | .ok document => document.entries.map LogicalBackupEntry.key
    | .error _ => []
  | _ => []

/-- The keys that the command, run directly, can give a value. -/
def directlyWritten [Codec] (store : EngineStore) (command : Command) : List Key :=
  command.writtenKeys store ++ command.restoredKeys

end Command

/-! ### Commands of a queue -/

variable {nowMs : Nat} {store : EngineStore}

theorem Logs.rewrites {command : Command} {start final : EngineStore}
    {operations : List WalOperation} (logs : Logs command start nowMs store operations final)
    (countable : Countable start (command.writtenKeys start))
    (moved : ∀ key ∈ command.selfRenamed, start.get key = none)
    (before : Rewrites start store (command.writtenKeys start)) :
    Rewrites start final (command.writtenKeys start) := by
  induction logs with
  | done => exact before
  | @set store _ key value _ _ written kept _ ih =>
    have raises : (WalOperation.set key value (nextValueVersion (store.get key))).Raises start
        (command.writtenKeys start) → Rewrites start _ (command.writtenKeys start) :=
      fun raises => ih (before.applyOperation raises rfl)
    refine raises ⟨written, fun old held stamped => ?_⟩
    obtain ⟨entry, found, same⟩ := Option.map_eq_some_iff.mp stamped
    cases same
    have bound := countable key written entry found
    have there : store.get key ≠ none := by
      refine kept (fun renamed => ?_) (by simp [found])
      simp [moved key renamed] at found
    obtain ⟨current, now⟩ := Option.ne_none_iff_exists'.mp there
    have order : entry.version ≤ current.version := by
      rcases before key with same | gone | ⟨-, version, value, same, above⟩
      · simp only [stamp, now, found, Option.map_some, Option.some.injEq, Prod.mk.injEq] at same
        exact same.1.ge
      · simp [stamp, now] at gone
      · simp only [stamp, now, Option.map_some, Option.some.injEq, Prod.mk.injEq] at same
        exact same.1 ▸ (above _ _ stamped).le
    simp only [nextValueVersion, now, Option.map_some, Option.getD_some, satAdd]
    omega
  | delete _ _ ih =>
    exact ih (before.applyOperation (show (WalOperation.delete _).Raises _ _ from trivial) rfl)
  | expire =>
    exact before.applyOperation (show (WalOperation.expire _ _).Raises _ _ from trivial) rfl
  | persist =>
    exact before.applyOperation (show (WalOperation.persist _).Raises _ _ from trivial) rfl
  | clear => exact before.applyOperation (show WalOperation.clear.Raises _ _ from trivial) rfl

theorem evaluatePurged_rewrites (command : Command)
    (purged : command.unpurged = false → store.purgeExpired nowMs = store)
    (countable : Countable store (command.writtenKeys store))
    (moved : ∀ key ∈ command.selfRenamed, store.get key = none) :
    Rewrites store (evaluatePurged store nowMs command).store (command.writtenKeys store) := by
  rcases evaluatePurged_logs command purged with logs | ⟨key, delta, counter, logged, run⟩
  · exact logs.rewrites countable moved (.refl _ _)
  · have written : command.writtenKeys store = [key] := by
      cases command <;> cases counter <;> rfl
    rw [written] at countable ⊢
    exact rewrites_of_counter countable run

/-! ### Direct commands -/

/-- What a prepared command logs raises the versions of `written` in the keyspace it
decided on. -/
def Prepared.RaisesKeys {α : Type} (prepared : Prepared α) (written : List Key) : Prop :=
  ∀ operations, prepared.operations = some operations →
    ∀ operation ∈ operations, operation.Raises prepared.state.store written

open Prepared

namespace EngineState

variable (state : EngineState) (nowMs : Nat) {written : List Key}
  {operations : List WalOperation}

theorem restoreOperations_raises {store : EngineStore} {entries : List LogicalBackupEntry}
    {restored : Nat} (named : ∀ entry ∈ entries, entry.key ∈ written)
    (absent : ∀ key ∈ written, store.get key = none)
    (parsed : restoreOperations nowMs entries = .ok (operations, restored)) :
    ∀ operation ∈ operations, operation.Raises store written := by
  induction entries generalizing operations restored with
  | nil =>
    cases parsed
    simp
  | cons entry rest ih =>
    have namedRest := (List.forall_mem_cons.mp named).2
    unfold restoreOperations at parsed
    split at parsed
    · exact ih namedRest parsed
    · split at parsed
      · cases parsed
      · split at parsed
        · cases parsed
        · rename_i following
          cases parsed
          have member := named entry List.mem_cons_self
          simp only [List.cons_append, List.mem_cons, List.mem_append, forall_eq_or_imp]
          refine ⟨⟨member, fun old held stamped => ?_⟩, ?_⟩
          · simp [stamp, absent _ member] at stamped
          · rintro operation (expires | later)
            · split at expires
              · obtain rfl := List.mem_singleton.mp expires
                trivial
              · cases expires
            · exact ih namedRest following operation later

variable {reading : Reading} {command : Command} {prepared : Prepared TransactionResult}

theorem prepareCommand_raisesKeys [Codec] (unlike : ¬ command.Alike)
    (found : state.prepareCommand reading command = some prepared)
    (countable : Countable prepared.state.store (command.directlyWritten prepared.state.store))
    (absent : ∀ key ∈ command.restoredKeys, prepared.state.store.get key = none) :
    prepared.RaisesKeys (command.directlyWritten prepared.state.store) := by
  intro operations logged
  cases prepareCommand_apart state unlike found logged with
  | delete keys => simp [WalOperation.Raises]
  | @rename key entry present =>
    have member : key ∈ (Command.rename key key).directlyWritten prepared.state.store := by
      simp [Command.directlyWritten, Command.writtenKeys, containsKey, present]
    simp only [List.mem_cons, forall_eq_or_imp]
    refine ⟨trivial, ⟨member, fun old held stamped => ?_⟩, ?_⟩
    · exact present ▸ lt_nextValueVersion countable member stamped
    · simp [WalOperation.Raises]
  | restore parsed read =>
    simp only [List.mem_cons, forall_eq_or_imp]
    refine ⟨trivial, restoreOperations_raises _ ?_ ?_ read⟩
    · intro entry member
      simp only [Command.directlyWritten, Command.restoredKeys, parsed]
      exact List.mem_append_right _ (List.mem_map_of_mem member)
    · simpa only [Command.directlyWritten, Command.writtenKeys, List.nil_append] using absent

theorem prepareCommand_rewrites [Codec] {next : EngineStore}
    (found : state.prepareCommand reading command = some prepared)
    (logged : prepared.operations = some operations)
    (countable : Countable prepared.state.store (command.directlyWritten prepared.state.store))
    (absent : ∀ key ∈ command.restoredKeys, prepared.state.store.get key = none)
    (run : applyOperations prepared.state.store operations = .ok next) :
    Rewrites prepared.state.store next (command.directlyWritten prepared.state.store) := by
  by_cases alike : command.Alike
  · obtain ⟨decided, nowMs, agrees, purged, -⟩ := prepareCommand_alike state alike found
    have same : command.directlyWritten prepared.state.store =
        command.writtenKeys prepared.state.store := by
      cases command <;> first | exact List.append_nil _ | cases alike
    rw [same, agrees.state] at countable ⊢
    rw [agrees.state, agrees.logged logged] at run
    obtain rfl := Except.ok.inj ((evaluatePurged_run command purged).symm.trans run)
    refine evaluatePurged_rewrites command purged countable fun key moved => ?_
    cases command <;> simp only [Command.selfRenamed, List.not_mem_nil] at moved
    rw [if_neg alike] at moved
    cases moved
  · exact (Rewrites.refl _ _).applyOperations
      (prepareCommand_raisesKeys state alike found countable absent operations logged) run

end EngineState

end Vaylix

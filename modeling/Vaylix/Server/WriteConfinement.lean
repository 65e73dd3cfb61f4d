import Vaylix.Engine.Confinement
import Vaylix.Engine.LogGrowth
import Vaylix.Server.Authorization

/-!
# Writes stay inside the grants

A command that an ordinary identity may send writes no key outside the write grants of
the identity: the keys that `authorize_command` checks cover the keys that the engine
writes. This holds for commands that run alone, in a write batch or in a transaction.
-/

namespace Vaylix

inductive EngineWork where
  | one (term : Nat) (reading : Reading) (command : Command)
  | batch (term nowMs : Nat) (commands : List Command)
  | transaction (term : Nat) (reading : Reading) (commands : List Command)

namespace EngineWork

def commands : EngineWork → List Command
  | .one _ _ command => [command]
  | .batch _ _ commands | .transaction _ _ commands => commands

def clockMs : EngineWork → Nat
  | .one _ reading _ | .transaction _ reading _ => reading.later
  | .batch _ nowMs _ => nowMs

/-- For `BACKUP TO` the engine runs `BACKUP`, which purges before it exports, as `INFO` does. -/
def perform [Codec] (engine : Engine) : EngineWork → Engine
  | .one _ reading .info | .one _ reading .backup | .one _ reading (.backupTo _) =>
    engine.sweepExpired reading.now
  | .one term reading command => (engine.execute term reading command).1
  | .batch term nowMs commands => (engine.processWriteBatch term nowMs commands).1
  | .transaction term reading commands => (engine.executeBatch term reading commands).1

end EngineWork

theorem Command.keys_of_touchedKeys {command : Command} {key : Key}
    (touched : key ∈ command.touchedKeys) :
    command.permission = some .write ∧ command.keys = command.touchedKeys := by
  cases command with
  | set | setNx | getDel | getEx | expire | persist | incr | decr | mSet | delete | rename
  | renameNx => exact ⟨rfl, rfl⟩
  | _ => cases touched

theorem spares_of_authorized {session : SessionState} {identity : Identity} {command : Command}
    {key : Key} (known : session.identity = some identity) (admin : .admin ∉ identity.permissions)
    (clear : .clear ∉ identity.permissions) (restore : .restore ∉ identity.permissions)
    (accepted : authorizeCommand command session = .ok ())
    (unwritable : identity.allowsKey .write key = false) : command.Spares key := by
  refine ⟨?_, ?_, ?_⟩
  · rintro rfl
    simp [authorizeCommand, Command.permission, Command.keys, Command.pattern, known, Identity.has,
      admin, clear] at accepted
  · rintro dump rfl
    simp [authorizeCommand, Command.permission, Command.keys, Command.pattern, known, Identity.has,
      admin, restore] at accepted
  · intro touched
    obtain ⟨writes, checked⟩ := Command.keys_of_touchedKeys touched
    have nonempty : command.touchedKeys.isEmpty = false := by
      simpa using List.ne_nil_of_mem touched
    simp only [authorizeCommand, writes, known, checked, nonempty, Bool.false_eq_true, if_false]
      at accepted
    split_ifs at accepted with allowed
    have granted := List.all_eq_true.mp allowed key touched
    rw [unwritable] at granted
    cases granted

namespace Engine

open EngineStore

variable [Codec] (engine : Engine) {key : Key}

theorem execute_kept (term : Nat) (reading : Reading) {command : Command}
    (spared : command.Spares key) :
    Kept reading.later key engine.state.store
      (engine.execute term reading command).1.state.store := by
  rw [execute_engine]
  split
  · exact ((engine.setConsensusTerm term).executeCommandBatch_kept reading.now
      (List.forall_mem_singleton.mpr spared)).mono reading.now_le_later
  · exact (engine.setConsensusTerm term).executeCommand_kept reading spared

/-- Whatever the work, a key it spares is kept. -/
theorem perform_kept (work : EngineWork) (spared : ∀ command ∈ work.commands, command.Spares key) :
    Kept work.clockMs key engine.state.store (work.perform engine).state.store := by
  cases work with
  | one term reading command =>
    cases command with
    | info | backup | backupTo _ =>
      exact (Kept.purgeExpired engine.state.store).mono reading.now_le_later
    | _ => exact engine.execute_kept term reading (spared _ List.mem_cons_self)
  | batch term nowMs commands =>
    simp only [EngineWork.perform, processWriteBatch_engine]
    exact (engine.setConsensusTerm term).executeCommandBatch_kept nowMs spared
  | transaction term reading commands =>
    simp only [EngineWork.perform, executeBatch_engine]
    exact ((engine.setConsensusTerm term).executeTransaction_kept reading spared).mono
      reading.now_le_later

end Engine

/-- **Write confinement.** Whatever accepted commands an ordinary identity has the engine run, a
key outside its write grants keeps its entry, unless that has expired. -/
theorem writes_confined [Codec] (engine : Engine) {session : SessionState} {identity : Identity}
    (known : session.identity = some identity) (admin : .admin ∉ identity.permissions)
    (clear : .clear ∉ identity.permissions) (restore : .restore ∉ identity.permissions)
    (works : List EngineWork)
    (accepted : ∀ work ∈ works, ∀ command ∈ work.commands,
      authorizeCommand command session = .ok ())
    {nowMs : Nat} (clock : ∀ work ∈ works, work.clockMs ≤ nowMs) {key : Key}
    (unwritable : identity.allowsKey .write key = false) :
    (works.foldl EngineWork.perform engine).state.store.get key = engine.state.store.get key ∨
      (∃ entry, engine.state.store.get key = some entry ∧ entry.expiredAt nowMs = true) ∧
        (works.foldl EngineWork.perform engine).state.store.get key = none := by
  induction works generalizing engine with
  | nil => exact .inl rfl
  | cons work rest ih =>
    have spared : ∀ command ∈ work.commands, command.Spares key := fun command member =>
      spares_of_authorized known admin clear restore
        (accepted work List.mem_cons_self command member) unwritable
    have here := (engine.perform_kept work spared).mono (clock work List.mem_cons_self)
    exact here.trans le_rfl (ih (work.perform engine)
      (List.forall_mem_cons.mp accepted).2
      (List.forall_mem_cons.mp clock).2)

def Identity.appWriter : Identity := ⟨"app", ∅, {⟨.write, "app:*"⟩}⟩

open Sample in
/-- A key is set and then renamed in a transaction, beside one that the identity may not write. -/
theorem writes_confined_renamed :
    let engine := ((Engine.create ⟨4096, 2⟩ 0).execute 0 (.still 1) (.set "other" [50] {})).1
    let works : List EngineWork := [.one 0 (.still 5) (.set "app:a" [49] {}),
      .transaction 0 (.still 6) [.rename "app:a" "app:b"]]
    engine.state.store.get "other" = some ⟨[50], none, 1⟩ ∧
      (works.foldl EngineWork.perform engine).state.store.get "app:b" = some ⟨[49], none, 1⟩ ∧
      EngineStore.Kept 6 "other" engine.state.store
        (works.foldl EngineWork.perform engine).state.store := by
  refine ⟨by decide +kernel, by decide +kernel, ?_⟩
  refine writes_confined _
    (rfl : (⟨some .appWriter, [], none⟩ : SessionState).identity = some .appWriter)
    (by decide) (by decide) (by decide) _ ?_ ?_ (by decide)
  · simp only [List.forall_mem_cons, EngineWork.commands]
    decide
  · simp only [List.forall_mem_cons, EngineWork.clockMs]
    decide

end Vaylix

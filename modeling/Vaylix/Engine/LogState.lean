import Vaylix.Engine.LogGrowth
import Vaylix.Lib.Run

/-!
# The log determines the state

An engine is called at clock readings that never go back. Replaying the entries
it produced from the empty state gives the same live keys as the engine has, at
every time from the last reading on, as long as every call is replayable.
-/

namespace Vaylix

open EngineStore LabelledRun

structure EngineSystem where
  engine : Engine
  clock : Nat

namespace EngineSystem

variable [Codec]

def step (system : EngineSystem) (call : EngineCall) : Option EngineSystem :=
  if system.clock ≤ call.action.startMs ∧ call.action.snapshots = false then
    some ⟨call.action.perform (system.engine.setConsensusTerm call.term), call.action.endMs⟩
  else none

end EngineSystem

/-- The condition of a step: the log so far replays, and the call is replayable on it. -/
def EngineSystem.Replayable (system : EngineSystem) (call : EngineCall) : Prop :=
  ∀ full, replayStore EngineStore.new system.engine.walEntries = .ok full →
    call.action.Replayable system.engine full

/-- The invariant: the log replays, and the live keyspace only lacks expired entries. -/
def EngineSystem.LogDetermines (system : EngineSystem) : Prop :=
  ∃ full, replayStore EngineStore.new system.engine.walEntries = .ok full ∧
    Sheds system.clock full system.engine.state.store

namespace EngineSystem

variable [Codec]

/-- A replayable call keeps the log decisive. -/
theorem logDetermines_step {system next : EngineSystem} {call : EngineCall}
    (determines : system.LogDetermines) (replayable : system.Replayable call)
    (taken : system.step call = some next) : next.LogDetermines := by
  unfold step at taken
  split at taken
  · rename_i enabled
    obtain ⟨order, plain⟩ := enabled
    cases taken
    obtain ⟨full, replayed, sheds⟩ := determines
    obtain ⟨entries, full', log, -, -, run, related⟩ :=
      Grows.perform (system.engine.setConsensusTerm call.term) (sheds.mono order) plain
        (replayable full replayed)
    refine ⟨full', ?_, related⟩
    rw [log]
    exact (replayStore_append_ok replayed).trans run
  · cases taken

/-- **The log determines the state.** After any run of replayable calls from the empty directory,
replaying the entries gives the live entries the engine has, from the last clock reading on. -/
theorem log_determines_state (options : EngineOptions) (startMs freshMs : Nat)
    (calls : List EngineCall) (system : EngineSystem)
    (reached : run step ⟨Engine.create options startMs, startMs⟩ calls = some system)
    (replayable : Meets step Replayable ⟨Engine.create options startMs, startMs⟩ calls) :
    ∃ replayed, (EngineState.new freshMs).replayEntries system.engine.walEntries = .ok replayed ∧
      ∀ t, system.clock ≤ t → ∀ key,
        (replayed.store.get key).filter (fun entry => !entry.expiredAt t) =
          (system.engine.state.store.get key).filter (fun entry => !entry.expiredAt t) := by
  have initially : LogDetermines ⟨Engine.create options startMs, startMs⟩ :=
    ⟨EngineStore.new, rfl, Sheds.refl _ _⟩
  obtain ⟨full, replayed, sheds⟩ := invariant_of_meets
    (fun state event next determines condition taken =>
      logDetermines_step determines condition taken) initially replayable reached
  exact ⟨_, EngineState.replayEntries_of_ok (EngineState.new freshMs) replayed,
    fun t order key => sheds.live_eq order key⟩

end EngineSystem

section Runs

open Sample EngineSystem

def countedCalls : List EngineCall :=
  [⟨1, .direct (.still 0) (.set "k" [53] {})⟩, ⟨1, .transaction (.still 5) [.incr "k"]⟩,
    ⟨1, .sweep 9⟩]

theorem log_determines_counted_state :
    ∃ system, run step ⟨Engine.create ⟨0, 0⟩ 0, 0⟩ countedCalls = some system ∧
      ∃ replayed, (EngineState.new 0).replayEntries system.engine.walEntries = .ok replayed ∧
        ∀ t, system.clock ≤ t → ∀ key,
          (replayed.store.get key).filter (fun entry => !entry.expiredAt t) =
            (system.engine.state.store.get key).filter (fun entry => !entry.expiredAt t) := by
  refine ⟨_, rfl, log_determines_state ⟨0, 0⟩ 0 0 countedCalls _ rfl ?_⟩
  refine ⟨?_, ?_⟩
  · rintro full - key ⟨⟩
  · rintro next ⟨⟩
    refine ⟨?_, ?_⟩
    · intro full replayed
      obtain rfl := Except.ok.inj replayed
      refine ⟨?_, fun _ _ => trivial⟩
      rintro key ⟨⟩ entry found
      obtain rfl := Option.some.inj found
      rfl
    · rintro next ⟨⟩
      exact ⟨fun _ _ => trivial, fun _ _ => trivial⟩

def expiredCounterCalls : List EngineCall :=
  [⟨1, .direct (.still 0) (.set "k" [55] { expiration := some (.milliseconds 10) })⟩,
    ⟨1, .direct (.still 20) (.incr "k")⟩]

/-- The engine holds 1 in version 1, its log rebuilds 8 in version 2. -/
theorem expired_counter_diverges :
    ∃ system, run step ⟨Engine.create ⟨0, 0⟩ 0, 0⟩ expiredCounterCalls = some system ∧
      system.clock ≤ 20 ∧
      ∀ replayed, (EngineState.new 0).replayEntries system.engine.walEntries = .ok replayed →
        (replayed.store.get "k").filter (fun entry => !entry.expiredAt 20) ≠
          (system.engine.state.store.get "k").filter (fun entry => !entry.expiredAt 20) := by
  refine ⟨_, rfl, by decide, ?_⟩
  intro replayed rebuilt
  have eight : replayed.store.get "k" = some ⟨[56], none, 2⟩ := by
    have computed := congrArg
      (fun result => result.toOption.bind fun state : EngineState => state.store.get "k") rebuilt
    exact computed.symm.trans (by decide +kernel)
  rw [eight]
  decide +kernel

end Runs

end Vaylix

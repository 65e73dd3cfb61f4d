import Mathlib.Data.List.Infix

/-!
# Runs of a guarded transition system

A system is a partial step function: an event that is not enabled has no successor. The
invariant rule asks for one preservation lemma; the conditional rule lets it assume a
condition on the state an event is executed in and on the event.
-/

namespace LabelledRun

universe u v

variable {σ : Type u} {ε : Type v} (step : σ → ε → Option σ)

def run : σ → List ε → Option σ
  | state, [] => some state
  | state, event :: rest => (step state event).bind fun next => run next rest

@[simp] theorem run_nil (state : σ) : run step state [] = some state := rfl

theorem run_cons (state : σ) (event : ε) (rest : List ε) :
    run step state (event :: rest) = (step state event).bind fun next => run step next rest := rfl

/-- A run goes on where its first part has ended. -/
theorem run_append (state : σ) (first second : List ε) :
    run step state (first ++ second) =
      (run step state first).bind fun next => run step next second := by
  induction first generalizing state with
  | nil => rfl
  | cons event rest ih =>
    rw [List.cons_append, run_cons, run_cons]
    cases step state event with
    | none => rfl
    | some next => exact ih next

theorem run_cons_eq_some {state final : σ} {event : ε} {rest : List ε} :
    run step state (event :: rest) = some final ↔
      ∃ next, step state event = some next ∧ run step next rest = some final := by
  rw [run_cons, Option.bind_eq_some_iff]

theorem run_concat_eq_some {state final : σ} {events : List ε} {event : ε} :
    run step state (events ++ [event]) = some final ↔
      ∃ middle, run step state events = some middle ∧ step middle event = some final := by
  rw [run_append, Option.bind_eq_some_iff]
  simp [run_cons]

/-- The event of every step taken meets the condition in the state it is taken in. -/
def Meets (condition : σ → ε → Prop) : σ → List ε → Prop
  | _, [] => True
  | state, event :: rest =>
    condition state event ∧ ∀ next, step state event = some next → Meets condition next rest

/-- The rest of a run that meets the condition meets it. -/
theorem meets_append {condition : σ → ε → Prop} {state middle : σ} {first second : List ε}
    (meets : Meets step condition state (first ++ second))
    (reached : run step state first = some middle) : Meets step condition middle second := by
  induction first generalizing state with
  | nil =>
    obtain rfl : state = middle := by simpa using reached
    exact meets
  | cons event rest ih =>
    obtain ⟨next, taken, following⟩ := (run_cons_eq_some step).mp reached
    exact ih (meets.2 next taken) following

theorem meets_left {condition : σ → ε → Prop} {state : σ} {first second : List ε}
    (meets : Meets step condition state (first ++ second)) :
    Meets step condition state first := by
  induction first generalizing state with
  | nil => trivial
  | cons event rest ih =>
    exact ⟨meets.1, fun next taken => ih (meets.2 next taken)⟩

theorem meets_imp {condition weaker : σ → ε → Prop}
    (implies : ∀ state event, condition state event → weaker state event) {state : σ}
    {events : List ε} (meets : Meets step condition state events) :
    Meets step weaker state events := by
  induction events generalizing state with
  | nil => trivial
  | cons event rest ih =>
    exact ⟨implies state event meets.1, fun next taken => ih (meets.2 next taken)⟩

theorem meets_of_forall {condition : ε → Prop} {events : List ε}
    (holds : ∀ event ∈ events, condition event) (state : σ) :
    Meets step (fun _ event => condition event) state events := by
  induction events generalizing state with
  | nil => trivial
  | cons event rest ih =>
    exact ⟨holds event List.mem_cons_self,
      fun next _ => ih (List.forall_mem_cons.mp holds).2 next⟩

/-- A decidable condition can be checked along a run. -/
instance decidableMeets (condition : σ → ε → Prop)
    [decidableCondition : ∀ state event, Decidable (condition state event)] :
    (state : σ) → (events : List ε) → Decidable (Meets step condition state events)
  | _, [] => .isTrue trivial
  | state, event :: rest =>
    match decidableCondition state event, taken : step state event with
    | .isFalse fails, _ => .isFalse fun meets => fails meets.1
    | .isTrue holds, none => .isTrue ⟨holds, fun _ found => by rw [taken] at found; cases found⟩
    | .isTrue holds, some next =>
      match decidableMeets condition next rest with
      | .isTrue later => .isTrue ⟨holds, fun _ found => by
          rw [taken] at found; cases found; exact later⟩
      | .isFalse fails => .isFalse fun meets => fails (meets.2 next taken)

variable {step}

/-- What every step that meets the condition keeps, a run of such steps keeps. -/
theorem invariant_of_meets {condition : σ → ε → Prop} {invariant : σ → Prop}
    (preserved : ∀ state event next, invariant state → condition state event →
      step state event = some next → invariant next)
    {state final : σ} {events : List ε} (initially : invariant state)
    (meets : Meets step condition state events) (reached : run step state events = some final) :
    invariant final := by
  induction events generalizing state with
  | nil =>
    obtain rfl : state = final := by simpa using reached
    exact initially
  | cons event rest ih =>
    obtain ⟨next, taken, following⟩ := (run_cons_eq_some step).mp reached
    exact ih (preserved state event next initially meets.1 taken) (meets.2 next taken) following

/-- What every step keeps, a run keeps. -/
theorem invariant_of_run {invariant : σ → Prop}
    (preserved : ∀ state event next, invariant state →
      step state event = some next → invariant next)
    {state final : σ} {events : List ε} (initially : invariant state)
    (reached : run step state events = some final) : invariant final :=
  invariant_of_meets (fun state event next kept _ => preserved state event next kept) initially
    (meets_of_forall step (fun _ _ => True.intro) state) reached

end LabelledRun

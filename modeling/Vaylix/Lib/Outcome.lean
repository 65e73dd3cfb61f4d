import Mathlib.Data.List.Basic

/-!
# Outcomes of fallible computations

A computation that is made of parts succeeds when its parts do.
-/

namespace Except

universe u v

variable {ε : Type u} {α β : Type v}

/-- A sequence succeeds if both parts do. -/
theorem bind_eq_ok_iff {first : Except ε α} {second : α → Except ε β} {result : β} :
    (first >>= second) = .ok result ↔ ∃ value, first = .ok value ∧ second value = .ok result := by
  cases first with
  | error err => simp [bind, Except.bind]
  | ok value => simp [bind, Except.bind]

theorem pure_eq_ok_iff {value found : α} :
    (pure value : Except ε α) = .ok found ↔ value = found :=
  ⟨Except.ok.inj, congrArg Except.ok⟩

theorem guard_eq_ok_iff {refused : Prop} [Decidable refused] {err : ε} {later : Except ε α}
    {value : α} : (if refused then .error err else later) = .ok value ↔
      ¬refused ∧ later = .ok value := by
  by_cases holds : refused <;> simp [holds]

theorem map_eq_ok_iff {result : Except ε α} {f : α → β} {value : β} :
    result.map f = .ok value ↔ ∃ found, result = .ok found ∧ f found = value := by
  cases result <;> simp [Except.map]

theorem mapError_eq_ok_iff {ε' : Type u} {result : Except ε α} {f : ε → ε'} {value : α} :
    result.mapError f = .ok value ↔ result = .ok value := by
  cases result <;> simp [Except.mapError]

theorem eq_ok_of_mem_toOption {result : Except ε α} {value : α}
    (member : value ∈ result.toOption) : result = .ok value := by
  cases result with
  | error err => cases member
  | ok found =>
    cases member
    rfl

end Except

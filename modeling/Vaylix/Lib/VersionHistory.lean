import Mathlib.Data.List.Basic
import Mathlib.Order.Lattice

/-!
# Histories of a versioned cell

A cell holds nothing, or a value under a version. Its history is *advancing* when every moment
repeats the last one, empties the cell, or fills it under a version that exceeds all before.
Then between two moments that show the same version nothing has changed.
-/

namespace VersionHistory

universe u v

variable {ν : Type u} [LinearOrder ν] {α : Type v}

/-- What may follow the moments of `past`. -/
def Advances (past : List (Option (ν × α))) (next : Option (ν × α)) : Prop :=
  past.getLast? = some next ∨ next = none ∨
    ∃ version value, next = some (version, value) ∧
      ∀ old held, some (old, held) ∈ past → old < version

/-- Every moment after the first advances on those before it. -/
def Advancing (history : List (Option (ν × α))) : Prop :=
  ∀ past next rest, history = past ++ next :: rest → past ≠ [] → Advances past next

theorem advancing_singleton (first : Option (ν × α)) : Advancing [first] := by
  intro past next rest split occupied
  cases past with
  | nil => exact absurd rfl occupied
  | cons head tail => simp at split

theorem Advancing.concat {history : List (Option (ν × α))} {next : Option (ν × α)}
    (advancing : Advancing history) (advances : Advances history next) :
    Advancing (history ++ [next]) := by
  intro past moment rest split occupied
  rcases List.eq_nil_or_concat rest with rfl | ⟨front, last, rfl⟩
  · obtain ⟨rfl, rfl⟩ := List.append_inj' split rfl |>.imp id List.singleton_inj.mp
    exact advances
  · have inside : history = past ++ moment :: front := by
      have same : history ++ [next] = (past ++ moment :: front) ++ [last] := by simpa using split
      exact (List.append_inj' same rfl).1
    exact advancing past moment front inside occupied

variable {history : List (Option (ν × α))}

theorem Advancing.at_succ (advancing : Advancing history) {position : Nat}
    {next : Option (ν × α)} (found : history[position + 1]? = some next) :
    history[position]? = some next ∨ next = none ∨
      ∃ version value, next = some (version, value) ∧
        ∀ earlier old held, earlier ≤ position → history[earlier]? = some (some (old, held)) →
          old < version := by
  have bound : position + 1 < history.length := (List.getElem?_eq_some_iff.mp found).1
  have split : history = history.take (position + 1) ++ next :: history.drop (position + 2) := by
    have here : history[position + 1] = next := (List.getElem?_eq_some_iff.mp found).2
    rw [← here, List.getElem_cons_drop, List.take_append_drop]
  have occupied : history.take (position + 1) ≠ [] := by
    simp only [ne_eq, List.take_eq_nil_iff, not_or]
    exact ⟨Nat.succ_ne_zero _, List.ne_nil_of_length_pos (by omega)⟩
  rcases advancing _ _ _ split occupied with last | empty | ⟨version, value, filled, above⟩
  · left
    rw [List.getLast?_eq_getElem?, List.length_take, Nat.min_eq_left (by omega)] at last
    rwa [List.getElem?_take_of_lt (by omega)] at last
  · exact .inr (.inl empty)
  · refine .inr (.inr ⟨version, value, filled, ?_⟩)
    intro earlier old held order shown
    refine above old held (List.mem_of_getElem? (i := earlier) ?_)
    rwa [List.getElem?_take_of_lt (by omega)]

theorem Advancing.version_le (advancing : Advancing history) {first last : Nat} {old version : ν}
    {held value : α} (order : first ≤ last)
    (shown : history[first]? = some (some (old, held)))
    (found : history[last]? = some (some (version, value))) : old ≤ version := by
  induction last, order using Nat.le_induction generalizing version value with
  | base =>
    rw [shown] at found
    cases found
    exact le_rfl
  | succ last order ih =>
    rcases advancing.at_succ found with same | empty | ⟨_, _, filled, above⟩
    · exact ih same
    · cases empty
    · cases filled
      exact (above first old held order shown).le

/-- **Between two moments with one version nothing has changed.** -/
theorem Advancing.unchanged (advancing : Advancing history) {first middle last : Nat} {version : ν}
    {held value : α} (shown : history[first]? = some (some (version, held)))
    (found : history[last]? = some (some (version, value))) (after : first ≤ middle)
    (before : middle ≤ last) : history[middle]? = some (some (version, held)) := by
  have order := after.trans before
  induction last, order using Nat.le_induction generalizing value middle with
  | base =>
    obtain rfl : first = middle := by omega
    exact shown
  | succ last order ih =>
    rcases advancing.at_succ found with same | empty | ⟨_, _, filled, above⟩
    · rcases Nat.eq_or_lt_of_le before with rfl | inside
      · -- the last moment repeats the one before it, which still shows the first value
        rw [found, ← same]
        exact ih same order le_rfl
      · exact ih same after (by omega)
    · cases empty
    · cases filled
      exact absurd (above first version held order shown) (lt_irrefl _)

end VersionHistory

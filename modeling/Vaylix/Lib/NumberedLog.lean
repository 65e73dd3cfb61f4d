import Mathlib.Data.List.Basic

/-!
# Consecutively numbered lists

A log is a list whose elements carry consecutive numbers. Selecting elements by
their number is then the same as cutting the list at a position.
-/

namespace NumberedLog

universe u

variable {α : Type u} (number : α → Nat)

def From (first : Nat) : List α → Prop
  | [] => True
  | entry :: rest => number entry = first ∧ From (first + 1) rest

instance decidableFrom : ∀ (first : Nat) (log : List α), Decidable (From number first log)
  | _, [] => .isTrue trivial
  | first, entry :: rest =>
    have := decidableFrom (first + 1) rest
    inferInstanceAs (Decidable (number entry = first ∧ From number (first + 1) rest))

variable {number} {first : Nat} {log : List α} {entry : α}

theorem From.number_eq (numbered : From number first log) {i : Nat} (found : log[i]? = some entry) :
    number entry = first + i := by
  induction log generalizing first i with
  | nil => cases found
  | cons head rest ih =>
    cases i with
    | zero =>
      cases found
      exact numbered.1
    | succ i =>
      have := ih numbered.2 found
      omega

/-- Numbers go on from one list to the next. -/
theorem from_append {front back : List α} :
    From number first (front ++ back) ↔
      From number first front ∧ From number (first + front.length) back := by
  induction front generalizing first with
  | nil => simp [From]
  | cons head rest ih =>
    simp only [List.cons_append, From, ih, List.length_cons, and_assoc]
    rw [Nat.add_right_comm, Nat.add_assoc]

variable (numbered : From number first log)
include numbered

theorem From.take (n : Nat) :
    From number first (log.take n) := by
  rw [← List.take_append_drop n log] at numbered
  exact (from_append.mp numbered).1

theorem From.mem_bounds (member : entry ∈ log) :
    first ≤ number entry ∧ number entry < first + log.length := by
  obtain ⟨i, bound, rfl⟩ := List.mem_iff_getElem.mp member
  have := numbered.number_eq (List.getElem?_eq_getElem bound)
  omega

theorem From.eq_of_number_eq {a b : α} (aMem : a ∈ log) (bMem : b ∈ log)
    (same : number a = number b) : a = b := by
  obtain ⟨i, iBound, rfl⟩ := List.mem_iff_getElem.mp aMem
  obtain ⟨j, jBound, rfl⟩ := List.mem_iff_getElem.mp bMem
  have atI := numbered.number_eq (List.getElem?_eq_getElem iBound)
  have atJ := numbered.number_eq (List.getElem?_eq_getElem jBound)
  obtain rfl : i = j := by omega
  rfl

theorem From.pairwise :
    log.Pairwise fun a b => number a < number b := by
  induction log generalizing first with
  | nil => exact .nil
  | cons head rest ih =>
    refine .cons ?_ (ih numbered.2)
    intro later member
    have := numbered.2.mem_bounds member
    have := numbered.1
    omega

omit numbered

theorem From.isPrefix_of_subset {front : List α} (frontNumbered : From number first front)
    (numbered : From number first log) (members : ∀ entry ∈ front, entry ∈ log) :
    front <+: log := by
  induction front generalizing first log with
  | nil => exact List.nil_prefix
  | cons head rest ih =>
    cases log with
    | nil => exact absurd (members head List.mem_cons_self) List.not_mem_nil
    | cons other later =>
      obtain rfl : head = other := numbered.eq_of_number_eq (members head List.mem_cons_self)
        List.mem_cons_self (frontNumbered.1.trans numbered.1.symm)
      refine List.cons_prefix_cons.mpr ⟨rfl, ih frontNumbered.2 numbered.2 ?_⟩
      intro entry member
      rcases List.mem_cons.mp (members entry (List.mem_cons_of_mem _ member)) with rfl | inside
      · have bounds := frontNumbered.2.mem_bounds member
        rw [numbered.1] at bounds
        omega
      · exact inside

include numbered

theorem From.mem_of_isPrefix {front : List α} (isPrefix : front <+: log) (member : entry ∈ log)
    (within : number entry < first + front.length) : entry ∈ front := by
  obtain ⟨back, rfl⟩ := isPrefix
  rcases List.mem_append.mp member with inside | behind
  · exact inside
  · have := (from_append.mp numbered).2.mem_bounds behind
    omega

theorem From.getLast?_number {last : α} (final : log.getLast? = some last) :
    number last + 1 = first + log.length := by
  rw [List.getLast?_eq_getElem?] at final
  have := numbered.number_eq final
  have := (List.getElem?_eq_some_iff.mp final).1
  omega

theorem from_drop {k : Nat} (inside : k ≤ log.length) :
    From number (first + k) (log.drop k) := by
  rw [← List.take_append_drop k log, from_append, List.length_take, Nat.min_eq_left inside]
    at numbered
  exact numbered.2

theorem From.cut (bound : Nat) :
    (∀ entry ∈ log.take (bound - first), number entry < bound) ∧
      ∀ entry ∈ log.drop (bound - first), bound ≤ number entry := by
  refine ⟨fun entry member => ?_, fun entry member => ?_⟩
  · have := (numbered.take _).mem_bounds member
    rw [List.length_take] at this
    omega
  · rcases Nat.le_total (bound - first) log.length with inside | beyond
    · have := (from_drop numbered inside).mem_bounds member
      omega
    · rw [List.drop_eq_nil_of_le beyond] at member
      cases member

theorem From.filter_le (bound : Nat) :
    log.filter (fun entry => decide (number entry ≤ bound)) = log.take (bound + 1 - first) := by
  obtain ⟨front, back⟩ := numbered.cut (bound + 1)
  conv_lhs => rw [← List.take_append_drop (bound + 1 - first) log, List.filter_append]
  rw [List.filter_eq_self.mpr fun entry member =>
      decide_eq_true (Nat.le_of_lt_succ (front entry member)),
    List.filter_eq_nil_iff.mpr fun entry member => by
      simpa using Nat.lt_of_succ_le (back entry member), List.append_nil]

theorem From.filter_gt (bound : Nat) :
    log.filter (fun entry => decide (bound < number entry)) = log.drop (bound + 1 - first) := by
  obtain ⟨front, back⟩ := numbered.cut (bound + 1)
  conv_lhs => rw [← List.take_append_drop (bound + 1 - first) log, List.filter_append]
  rw [List.filter_eq_nil_iff.mpr fun entry member => by
      simpa using Nat.le_of_lt_succ (front entry member),
    List.filter_eq_self.mpr fun entry member =>
      decide_eq_true (Nat.lt_of_succ_le (back entry member)), List.nil_append]

theorem From.dropWhile_lt (bound : Nat) :
    log.dropWhile (fun entry => decide (number entry < bound)) = log.drop (bound - first) := by
  obtain ⟨front, back⟩ := numbered.cut bound
  conv_lhs => rw [← List.take_append_drop (bound - first) log]
  rw [List.dropWhile_append_of_pos fun entry member => by simpa using front entry member]
  cases rest : log.drop (bound - first) with
  | nil => rfl
  | cons head rest =>
    rw [List.dropWhile_cons_of_neg]
    simpa using back head (rest ▸ List.mem_cons_self)

omit numbered

theorem takeWhile_eq_filter {selects : α → Bool}
    (downward : log.Pairwise fun a b => selects b = true → selects a = true) :
    log.takeWhile selects = log.filter selects := by
  induction log with
  | nil => rfl
  | cons head rest ih =>
    obtain ⟨before, following⟩ := List.pairwise_cons.mp downward
    cases here : selects head with
    | true => rw [List.takeWhile_cons_of_pos here, List.filter_cons_of_pos here, ih following]
    | false =>
      have none : rest.filter selects = [] :=
        List.filter_eq_nil_iff.mpr fun later member holds => by
        rw [before later member holds] at here
        cases here
      rw [List.takeWhile_cons_of_neg (by simp [here]), List.filter_cons_of_neg (by simp [here]),
        none]

include numbered

theorem From.selects_iff {selects : α → Bool}
    (downward : log.Pairwise fun a b => selects b = true → selects a = true)
    (member : entry ∈ log) :
    selects entry = true ↔ number entry < first + (log.filter selects).length := by
  have front : log.filter selects <+: log :=
    takeWhile_eq_filter downward ▸ List.takeWhile_prefix selects
  constructor
  · intro holds
    obtain ⟨back, split⟩ := front
    rw [← split] at numbered
    exact ((from_append.mp numbered).1.mem_bounds (List.mem_filter.mpr ⟨member, holds⟩)).2
  · intro below
    exact (List.mem_filter.mp (numbered.mem_of_isPrefix front member below)).2

theorem From.drop (k : Nat) :
    ∃ start, first ≤ start ∧ From number start (log.drop k) := by
  rcases Nat.le_total k log.length with inside | beyond
  · exact ⟨first + k, Nat.le_add_right first k, from_drop numbered inside⟩
  · rw [List.drop_eq_nil_of_le beyond]
    exact ⟨first, Nat.le_refl first, trivial⟩

theorem From.find?_number {n : Nat} (bound : first ≤ n) :
    log.find? (fun entry => decide (number entry = n)) = log[n - first]? := by
  induction log generalizing first with
  | nil => simp
  | cons head rest ih =>
    have here := numbered.1
    by_cases same : number head = n
    · have zero : n - first = 0 := by omega
      simp [List.find?_cons_of_pos, same, zero]
    · obtain ⟨m, eq⟩ : ∃ m, n - first = m + 1 := ⟨n - first - 1, by omega⟩
      have shifted : n - (first + 1) = m := by omega
      rw [List.find?_cons_of_neg (by simpa using same), ih numbered.2 (by omega), shifted, eq,
        List.getElem?_cons_succ]

theorem From.filter_le_succ {bound : Nat} (member : entry ∈ log) (next : number entry = bound + 1) :
    log.filter (fun entry => decide (number entry ≤ bound)) ++ [entry] =
      log.filter (fun entry => decide (number entry ≤ bound + 1)) := by
  obtain ⟨i, inside, rfl⟩ := List.mem_iff_getElem.mp member
  have position := numbered.number_eq (List.getElem?_eq_getElem inside)
  have here : bound + 1 - first = i := by omega
  have after : bound + 1 + 1 - first = i + 1 := by omega
  rw [numbered.filter_le, numbered.filter_le, here, after]
  simp

theorem From.filter_le_append {bound : Nat} {added : List α}
    (continues : From number (bound + 1) added) (members : ∀ entry ∈ added, entry ∈ log) :
    log.filter (fun entry => decide (number entry ≤ bound)) ++ added =
      log.filter (fun entry => decide (number entry ≤ bound + added.length)) := by
  induction added generalizing bound with
  | nil => simp
  | cons entry rest ih =>
    have moved := numbered.filter_le_succ (members entry List.mem_cons_self) continues.1
    have following := ih continues.2 (List.forall_mem_cons.mp members).2
    rw [List.append_cons, moved, following, List.length_cons, Nat.add_assoc, Nat.add_comm 1]

end NumberedLog

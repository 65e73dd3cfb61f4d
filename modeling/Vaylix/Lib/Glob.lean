import Mathlib.Data.List.Forall2
import Mathlib.Data.List.Infix

/-!
# Glob patterns

A pattern is a word of letters and of marks for one letter or a run of letters. Matching is
decided row by row over a table whose cell belongs to a front part of the pattern and one of
the text.
-/

namespace Glob

universe u

variable {α : Type u}

inductive Glyph (α : Type u) where
  | literal (letter : α)
  | one
  | run

inductive Matches : List (Glyph α) → List α → Prop
  | nil : Matches [] []
  | literal (letter : α) {pattern : List (Glyph α)} {text : List α} (rest : Matches pattern text) :
      Matches (.literal letter :: pattern) (letter :: text)
  | one (letter : α) {pattern : List (Glyph α)} {text : List α} (rest : Matches pattern text) :
      Matches (.one :: pattern) (letter :: text)
  | run (front : List α) {pattern : List (Glyph α)} {text : List α} (rest : Matches pattern text) :
      Matches (.run :: pattern) (front ++ text)

variable {pattern : List (Glyph α)} {text : List α}

def Glyph.Takes : Glyph α → List α → Prop
  | .literal letter, part => part = [letter]
  | .one, part => part.length = 1
  | .run, _ => True

theorem matches_iff_split : Matches pattern text ↔
    ∃ parts, List.Forall₂ Glyph.Takes pattern parts ∧ parts.flatten = text := by
  constructor
  · intro matched
    induction matched with
    | nil => exact ⟨[], .nil, rfl⟩
    | literal letter _ ih | one letter _ ih =>
      obtain ⟨parts, takes, rfl⟩ := ih
      exact ⟨[letter] :: parts, .cons rfl takes, rfl⟩
    | run front _ ih =>
      obtain ⟨parts, takes, rfl⟩ := ih
      exact ⟨front :: parts, .cons trivial takes, rfl⟩
  · rintro ⟨parts, takes, rfl⟩
    induction takes with
    | nil => exact .nil
    | @cons glyph part _ _ here _ ih =>
      cases glyph with
      | literal letter =>
        obtain rfl : part = [letter] := here
        exact .literal letter ih
      | one =>
        obtain ⟨letter, rfl⟩ := List.length_eq_one_iff.mp here
        exact .one letter ih
      | run => exact .run part ih

/-- A match of two patterns splits the text. -/
theorem matches_append {front back : List (Glyph α)} :
    Matches (front ++ back) text ↔
      ∃ first second, text = first ++ second ∧ Matches front first ∧ Matches back second := by
  constructor
  · intro matched
    induction front generalizing text with
    | nil => exact ⟨[], text, rfl, .nil, matched⟩
    | cons glyph front ih =>
      cases matched with
      | literal letter rest =>
        obtain ⟨first, second, rfl, here, later⟩ := ih rest
        exact ⟨letter :: first, second, rfl, .literal letter here, later⟩
      | one letter rest =>
        obtain ⟨first, second, rfl, here, later⟩ := ih rest
        exact ⟨letter :: first, second, rfl, .one letter here, later⟩
      | run some rest =>
        obtain ⟨first, second, rfl, here, later⟩ := ih rest
        exact ⟨some ++ first, second, (List.append_assoc ..).symm, .run some here, later⟩
  · rintro ⟨first, second, rfl, here, later⟩
    induction here with
    | nil => exact later
    | literal letter _ ih => exact .literal letter ih
    | one letter _ ih => exact .one letter ih
    | run some _ ih =>
      rw [List.append_assoc]
      exact .run some ih

theorem matches_literals {letters : List α} :
    Matches (letters.map .literal) text ↔ text = letters := by
  constructor
  · intro matched
    induction letters generalizing text with
    | nil =>
      cases matched
      rfl
    | cons letter letters ih =>
      cases matched with
      | literal _ rest => rw [ih rest]
  · rintro rfl
    induction text with
    | nil => exact .nil
    | cons letter letters ih => exact .literal letter ih

theorem matches_run :
    Matches (.run :: pattern) text ↔ ∃ rest, rest <:+ text ∧ Matches pattern rest := by
  constructor
  · intro matched
    cases matched with
    | run front rest => exact ⟨_, List.suffix_append _ _, rest⟩
  · rintro ⟨rest, ⟨front, rfl⟩, matched⟩
    exact .run front matched

theorem matches_around {front back : List α} :
    Matches (front.map .literal ++ .run :: back.map .literal) text ↔
      ∃ middle, text = front ++ middle ++ back := by
  simp only [matches_append, matches_literals, matches_run]
  constructor
  · rintro ⟨first, second, rfl, rfl, rest, ⟨middle, rfl⟩, rfl⟩
    exact ⟨middle, (List.append_assoc ..).symm⟩
  · rintro ⟨middle, rfl⟩
    exact ⟨front, middle ++ back, List.append_assoc .., rfl, back, ⟨middle, rfl⟩, rfl⟩

/-- The shortest text that matches, with one letter for the single marks. -/
def shortest (filler : α) (pattern : List (Glyph α)) : List α :=
  pattern.flatMap fun
    | .literal letter => [letter]
    | .one => [filler]
    | .run => []

theorem matches_shortest (filler : α) (pattern : List (Glyph α)) :
    Matches pattern (shortest filler pattern) := by
  induction pattern with
  | nil => exact .nil
  | cons glyph pattern ih =>
    cases glyph with
    | literal letter => exact .literal letter ih
    | one => exact .one filler ih
    | run => exact .run [] ih

/-! ### The table -/

variable {glyph : Glyph α} {letter : α}

theorem matches_concat_of_letter {accepts : α → Prop}
    (takes : ∀ rest, Matches [glyph] rest ↔ ∃ letter, rest = [letter] ∧ accepts letter) :
    Matches (pattern ++ [glyph]) (text ++ [letter]) ↔ Matches pattern text ∧ accepts letter := by
  rw [matches_append]
  constructor
  · rintro ⟨first, second, split, matched, last⟩
    obtain ⟨other, rfl, accepted⟩ := (takes second).mp last
    obtain ⟨rfl, same⟩ := List.append_inj' split rfl
    cases same
    exact ⟨matched, accepted⟩
  · rintro ⟨matched, accepted⟩
    exact ⟨text, [letter], rfl, matched, (takes [letter]).mpr ⟨letter, rfl, accepted⟩⟩

theorem matches_concat_literal {expected : α} :
    Matches (pattern ++ [.literal expected]) (text ++ [letter]) ↔
      Matches pattern text ∧ expected = letter := by
  refine matches_concat_of_letter fun rest => ?_
  constructor
  · intro matched
    cases matched with
    | literal _ rest =>
      cases rest
      exact ⟨expected, rfl, rfl⟩
  · rintro ⟨_, rfl, rfl⟩
    exact .literal _ .nil

theorem matches_concat_one :
    Matches (pattern ++ [.one]) (text ++ [letter]) ↔ Matches pattern text := by
  have takes : ∀ rest, Matches [Glyph.one] rest ↔ ∃ letter : α, rest = [letter] ∧ True := by
    intro rest
    constructor
    · intro matched
      cases matched with
      | one letter rest =>
        cases rest
        exact ⟨letter, rfl, trivial⟩
    · rintro ⟨letter, rfl, -⟩
      exact .one letter .nil
  rw [matches_concat_of_letter takes, and_iff_left trivial]

theorem matches_concat_run :
    Matches (pattern ++ [.run]) text ↔ ∃ first, first <+: text ∧ Matches pattern first := by
  rw [matches_append]
  constructor
  · rintro ⟨first, second, rfl, matched, -⟩
    exact ⟨first, List.prefix_append _ _, matched⟩
  · rintro ⟨first, ⟨second, rfl⟩, matched⟩
    exact ⟨first, second, rfl, matched, by simpa using Matches.run second .nil⟩

theorem matches_concat_run_step :
    Matches (pattern ++ [.run]) (text ++ [letter]) ↔
      Matches pattern (text ++ [letter]) ∨ Matches (pattern ++ [.run]) text := by
  simp only [matches_concat_run, List.prefix_concat_iff]
  constructor
  · rintro ⟨first, rfl | front, matched⟩
    · exact .inl matched
    · exact .inr ⟨first, front, matched⟩
  · rintro (matched | ⟨first, front, matched⟩)
    · exact ⟨_, .inl rfl, matched⟩
    · exact ⟨first, .inr front, matched⟩

theorem not_matches_concat_nil_of_letter (letter : glyph ≠ .run) :
    ¬ Matches (pattern ++ [glyph]) [] := by
  rw [matches_append]
  rintro ⟨first, second, split, -, last⟩
  obtain ⟨-, rfl⟩ := List.append_eq_nil_iff.mp split.symm
  cases glyph with
  | run => exact letter rfl
  | literal _ => cases last
  | one => cases last

/-- Each cell tells whether the text up to its letter is accepted. -/
def Cells (accepts : List α → Prop) (seen : List α) : List α → List Bool → Prop
  | [], row => row = []
  | letter :: rest, row => ∃ cell later, row = cell :: later ∧
      (cell = true ↔ accepts (seen ++ [letter])) ∧ Cells accepts (seen ++ [letter]) rest later

theorem Cells.getLastD {accepts : List α → Prop} {seen rest : List α} {row : List Bool}
    (cells : Cells accepts seen rest row) {first : Bool} (begins : first = true ↔ accepts seen) :
    (first :: row).getLastD false = true ↔ accepts (seen ++ rest) := by
  induction rest generalizing seen first row with
  | nil =>
    obtain rfl : row = [] := cells
    simpa using begins
  | cons letter rest ih =>
    obtain ⟨cell, later, rfl, here, cells⟩ := cells
    have last := ih cells here
    rw [List.append_assoc] at last
    exact last

end Glob

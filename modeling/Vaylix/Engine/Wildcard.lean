import Vaylix.Engine.Command
import Vaylix.Lib.Glob

/-!
# The pattern of a scan

The table of `wildcard_matches` decides whether a key is the pattern with every `*`
replaced by characters and every `?` by one character.
-/

namespace Vaylix

open Glob

def glyph (char : Char) : Glyph Char :=
  if char = '*' then .run else if char = '?' then .one else .literal char

def glyphs (pattern : String) : List (Glyph Char) := pattern.toList.map glyph

@[simp] theorem glyph_star : glyph '*' = .run := rfl

@[simp] theorem glyph_question : glyph '?' = .one := rfl

theorem glyph_of_ne {char : Char} (star : char ≠ '*') (question : char ≠ '?') :
    glyph char = .literal char := by
  rw [glyph, if_neg star, if_neg question]

theorem map_glyph_eq {chars : List Char} (star : '*' ∉ chars) (question : '?' ∉ chars) :
    chars.map glyph = chars.map .literal := by
  refine List.map_congr_left fun char member => glyph_of_ne ?_ ?_
  · rintro rfl
    exact star member
  · rintro rfl
    exact question member

variable {pattern : List (Glyph Char)} {row : List Bool}

theorem cells_wildcardRow {char : Char} {seen : List Char} {left diag : Bool} {chars : List Char}
    (before : left = true ↔ Matches (pattern ++ [glyph char]) seen)
    (above : diag = true ↔ Matches pattern seen) (cells : Cells (Matches pattern) seen chars row) :
    Cells (Matches (pattern ++ [glyph char])) seen chars
      (wildcardRow char left diag chars row) := by
  induction chars generalizing seen left diag row with
  | nil =>
    rfl
  | cons letter chars ih =>
    obtain ⟨cell, later, rfl, here, cells⟩ := cells
    have next : (if char = '*' then cell || left
        else if char = '?' then diag else diag && decide (char = letter)) = true ↔
        Matches (pattern ++ [glyph char]) (seen ++ [letter]) := by
      by_cases star : char = '*'
      · subst star
        rw [if_pos rfl, Bool.or_eq_true, here, before, glyph_star, matches_concat_run_step]
      · by_cases question : char = '?'
        · subst question
          rw [if_neg star, if_pos rfl, above, glyph_question, matches_concat_one]
        · rw [if_neg star, if_neg question, Bool.and_eq_true, decide_eq_true_iff, above,
            glyph_of_ne star question, matches_concat_literal]
    exact ⟨_, _, rfl, next, ih next here cells⟩

theorem corner_iff {char : Char} {corner : Bool} (begins : corner = true ↔ Matches pattern []) :
    (decide (char = '*') && corner) = true ↔ Matches (pattern ++ [glyph char]) [] := by
  by_cases star : char = '*'
  · subst star
    simp [begins, matches_concat_run]
  · have letter : glyph char ≠ .run := by
      rw [glyph, if_neg star]
      split <;> exact nofun
    simp [star, not_matches_concat_nil_of_letter letter]

/-- A row starts with the cell of the empty text. -/
def RowOf (pattern : List (Glyph Char)) (chars : List Char) (row : List Bool) : Prop :=
  ∃ corner later, row = corner :: later ∧ (corner = true ↔ Matches pattern []) ∧
    Cells (Matches pattern) [] chars later

theorem rowOf_first (chars : List Char) :
    RowOf [] chars (true :: List.replicate chars.length false) := by
  refine ⟨true, _, rfl, iff_of_true rfl .nil, ?_⟩
  suffices ∀ seen, Cells (Matches []) seen chars (List.replicate chars.length false) from this []
  induction chars with
  | nil => exact fun _ => rfl
  | cons letter chars ih =>
    refine fun seen => ⟨false, _, rfl, iff_of_false (by decide) fun matched => ?_, ih _⟩
    generalize text : seen ++ [letter] = word at matched
    cases matched
    simp at text

theorem rowOf_foldl (chars rest : List Char) (rowOf : RowOf pattern chars row) :
    RowOf (pattern ++ rest.map glyph) chars (rest.foldl (fun row char =>
      let corner := row.headD false
      let start := decide (char = '*') && corner
      start :: wildcardRow char start corner chars row.tail) row) := by
  induction rest generalizing pattern row with
  | nil => simpa using rowOf
  | cons char rest ih =>
    obtain ⟨corner, later, rfl, begins, cells⟩ := rowOf
    have start : (decide (char = '*') && corner) = true ↔ Matches (pattern ++ [glyph char]) [] :=
      corner_iff begins
    have next := ih ⟨_, _, rfl, start, cells_wildcardRow start begins cells⟩
    rwa [List.append_assoc] at next

/-- **The table decides the pattern.** -/
theorem wildcardMatches_iff (pattern text : String) :
    wildcardMatches pattern text = true ↔ Matches (glyphs pattern) text.toList := by
  obtain ⟨corner, later, row, begins, cells⟩ :=
    rowOf_foldl text.toList pattern.toList (rowOf_first text.toList)
  unfold wildcardMatches
  dsimp only
  rw [row]
  exact cells.getLastD begins

def StandsFor (char : Char) (part : List Char) : Prop :=
  if char = '*' then True else if char = '?' then part.length = 1 else part = [char]

theorem takes_glyph (char : Char) (part : List Char) :
    (glyph char).Takes part ↔ StandsFor char part := by
  unfold glyph StandsFor
  split
  · rfl
  · split <;> rfl

/-- **The table decides whether the text can be split along the pattern.** -/
theorem wildcardMatches_iff_split (pattern text : String) :
    wildcardMatches pattern text = true ↔ ∃ parts : List (List Char),
      List.Forall₂ StandsFor pattern.toList parts ∧ parts.flatten = text.toList := by
  rw [wildcardMatches_iff, matches_iff_split, glyphs]
  simp only [List.forall₂_map_left_iff, takes_glyph]

example : wildcardMatches "a*b?" "axxbc" = true := by decide

end Vaylix

import Mathlib.Data.List.DropRight
import Vaylix.Engine.Wildcard

/-!
# The patterns of grants

Authorization reads a pattern as a beginning and an end around its first `*`. That is
the meaning a scan gives to it as long as there is no second `*` and no `?`, and the
beginning and the end cannot overlap in a short key.
-/

namespace Vaylix

open Glob

namespace Auth

def wildcardMatches (pattern value : String) : Bool :=
  if pattern = "*" then true
  else
    match pattern.toList.dropWhile fun char => decide (char ≠ '*') with
    | [] => decide (pattern = value)
    | _ :: suffix =>
      let front := pattern.toList.takeWhile fun char => decide (char ≠ '*')
      front.isPrefixOf value.toList && suffix.isSuffixOf value.toList

def patternCovers (grantPattern requestedPattern : String) : Bool :=
  grantPattern = "*" || grantPattern = requestedPattern ||
    (requestedPattern ≠ "*" && grantPattern.toList.getLast? = some '*' &&
      (grantPattern.toList.rdropWhile fun char => decide (char = '*')).isPrefixOf
        requestedPattern.toList)

theorem split_at_star (chars : List Char) :
    '*' ∉ chars ∨ ∃ front back, chars = front ++ '*' :: back ∧ '*' ∉ front := by
  by_cases star : '*' ∈ chars
  · exact .inr (List.eq_append_cons_of_mem star)
  · exact .inl star

variable {pattern : String}

theorem wildcardMatches_of_plain (plain : '*' ∉ pattern.toList) (value : String) :
    wildcardMatches pattern value = true ↔ value = pattern := by
  have none : pattern.toList.dropWhile (fun char => decide (char ≠ '*')) = [] := by
    rw [List.dropWhile_eq_nil_iff]
    intro char member
    refine decide_eq_true ?_
    rintro rfl
    exact plain member
  have named : pattern ≠ "*" := by
    rintro rfl
    exact plain (by decide)
  simp only [wildcardMatches, if_neg named, none, decide_eq_true_iff]
  exact eq_comm

theorem wildcardMatches_of_star {front back : List Char}
    (split : pattern.toList = front ++ '*' :: back) (first : '*' ∉ front) (value : String) :
    wildcardMatches pattern value = true ↔ front <+: value.toList ∧ back <:+ value.toList := by
  have before : ∀ char ∈ front, decide (char ≠ '*') = true := by
    intro char member
    refine decide_eq_true ?_
    rintro rfl
    exact first member
  unfold wildcardMatches
  split
  · rename_i named
    subst named
    obtain ⟨rfl, rfl⟩ : front = [] ∧ back = [] := by
      cases front with
      | nil => exact ⟨rfl, (List.cons.inj split).2.symm⟩
      | cons char front => cases front <;> simp at split
    simp
  · rw [split, List.dropWhile_append_of_pos before, List.takeWhile_append_of_pos before]
    simp

/-- No second star, and no overlap of the part before the star with the part after it. -/
def Unambiguous (pattern : String) : Prop :=
  ∀ front back, pattern.toList = front ++ '*' :: back → '*' ∉ back ∧
    ∀ overlap, overlap <:+ front → overlap <+: back → overlap = []

theorem unambiguous_iff_forall_lt :
    Unambiguous pattern ↔ ∀ i < pattern.toList.length, pattern.toList[i]? = some '*' →
      '*' ∉ pattern.toList.drop (i + 1) ∧ ∀ overlap ∈ (pattern.toList.take i).tails,
        overlap <+: pattern.toList.drop (i + 1) → overlap = [] := by
  constructor
  · intro clear i inside star
    have split : pattern.toList = pattern.toList.take i ++ '*' :: pattern.toList.drop (i + 1) := by
      obtain ⟨_, found⟩ := List.getElem?_eq_some_iff.mp star
      rw [← found, List.getElem_cons_drop, List.take_append_drop]
    obtain ⟨last, apart⟩ := clear _ _ split
    exact ⟨last, fun overlap member => apart overlap ((List.mem_tails _ _).mp member)⟩
  · intro places front back split
    have found : pattern.toList[front.length]? = some '*' := by simp [split]
    have inside : front.length < pattern.toList.length := by simp [split]
    obtain ⟨last, apart⟩ := places front.length inside found
    simp only [split, List.take_left', List.drop_append] at last apart
    simp only [Nat.add_sub_cancel_left, List.drop_succ_cons, List.drop_zero,
      List.drop_of_length_le (Nat.le_succ front.length), List.nil_append, List.mem_tails]
      at last apart
    exact ⟨last, apart⟩

instance (pattern : String) : Decidable (Unambiguous pattern) :=
  decidable_of_iff' _ unambiguous_iff_forall_lt

theorem notMem_shortest {wild : Char} (special : wild = '*' ∨ wild = '?') (chars : List Char) :
    wild ∉ shortest 'x' (chars.map glyph) := by
  simp only [shortest, List.mem_flatMap, List.mem_map, not_exists, not_and]
  rintro _ ⟨char, -, rfl⟩
  by_cases star : char = '*'
  · subst star
    simp
  by_cases question : char = '?'
  · subst question
    rcases special with rfl | rfl <;> simp
  rw [glyph_of_ne star question]
  rcases special with rfl | rfl
  · simpa using Ne.symm star
  · simpa using Ne.symm question

theorem matches_of_one_star {front back : List Char} (first : '*' ∉ front) (last : '*' ∉ back)
    (plain : '?' ∉ front ++ '*' :: back) (text : List Char) :
    Matches ((front ++ '*' :: back).map glyph) text ↔ ∃ middle, text = front ++ middle ++ back := by
  have frontPlain : '?' ∉ front := fun member => plain (List.mem_append_left _ member)
  have backPlain : '?' ∉ back :=
    fun member => plain (List.mem_append_right _ (List.mem_cons_of_mem _ member))
  rw [List.map_append, List.map_cons, glyph_star, map_glyph_eq first frontPlain,
    map_glyph_eq last backPlain]
  exact matches_around

theorem exists_middle {front back text : List Char}
    (apart : ∀ overlap, overlap <:+ front → overlap <+: back → overlap = [])
    (begins : front <+: text) (ends : back <:+ text) :
    ∃ middle, text = front ++ middle ++ back := by
  obtain ⟨after, rfl⟩ := begins
  obtain ⟨before, same⟩ := ends
  rcases List.append_eq_append_iff.mp same with ⟨overlap, frontEq, backEq⟩ | ⟨middle, -, afterEq⟩
  · obtain rfl := apart overlap ⟨before, frontEq.symm⟩ ⟨after, backEq.symm⟩
    refine ⟨[], ?_⟩
    rw [backEq]
    simp
  · exact ⟨middle, by rw [afterEq, List.append_assoc]⟩

/-- An unambiguous pattern means the same to both sides. -/
theorem agrees_of_unambiguous (plain : '?' ∉ pattern.toList) (clear : Unambiguous pattern)
    (key : String) :
    wildcardMatches pattern key = true ↔ Matches (glyphs pattern) key.toList := by
  rcases split_at_star pattern.toList with star | ⟨front, back, split, first⟩
  · rw [wildcardMatches_of_plain star, glyphs, map_glyph_eq star plain, matches_literals,
      String.toList_inj]
  · obtain ⟨last, apart⟩ := clear front back split
    rw [split] at plain
    rw [wildcardMatches_of_star split first, glyphs, split, matches_of_one_star first last plain]
    constructor
    · rintro ⟨begins, ends⟩
      exact exists_middle apart begins ends
    · rintro ⟨middle, whole⟩
      rw [whole]
      exact ⟨⟨middle ++ back, (List.append_assoc ..).symm⟩, List.suffix_append _ _⟩

/-- Overlaps and second stars give keys on which the two differ. -/
theorem unambiguous_of_agrees (plain : '?' ∉ pattern.toList)
    (agrees : ∀ key, wildcardMatches pattern key = true ↔ Matches (glyphs pattern) key.toList) :
    Unambiguous pattern := by
  rcases split_at_star pattern.toList with star | ⟨front, back, split, first⟩
  · intro front back split
    exact absurd (by rw [split]; simp) star
  -- The text without any run has no star, so there is none in what has to end it.
  have last : '*' ∉ back := by
    intro second
    have shortestMatches := matches_shortest 'x' (glyphs pattern)
    have found := (agrees (String.ofList (shortest 'x' (glyphs pattern)))).mpr
      (by rwa [String.toList_ofList])
    obtain ⟨-, ends⟩ := (wildcardMatches_of_star split first _).mp found
    rw [String.toList_ofList] at ends
    exact notMem_shortest (.inl rfl) pattern.toList (ends.subset second)
  have apart : ∀ overlap, overlap <:+ front → overlap <+: back → overlap = [] := by
    rintro overlap ⟨before, rfl⟩ ⟨after, rfl⟩
    have found := (wildcardMatches_of_star split first
      (String.ofList (before ++ overlap ++ after))).mpr (by
        rw [String.toList_ofList]
        exact ⟨List.prefix_append _ _, ⟨before, (List.append_assoc ..).symm⟩⟩)
    have matched := (agrees _).mp found
    rw [String.toList_ofList, glyphs, split,
      matches_of_one_star first last (by rwa [split] at plain)] at matched
    obtain ⟨middle, whole⟩ := matched
    have lengths := congrArg List.length whole
    simp only [List.length_append] at lengths
    exact List.eq_nil_of_length_eq_zero (by omega)
  intro otherFront otherBack other
  -- There is only one star to split at.
  obtain ⟨rfl, rfl⟩ : otherFront = front ∧ otherBack = back := by
    rw [split] at other
    rcases List.append_eq_append_iff.mp other with ⟨between, rfl, rest⟩ | ⟨between, rfl, rest⟩
    · cases between with
      | nil => exact ⟨(List.append_nil _), (List.cons.inj rest).2.symm⟩
      | cons char between =>
        obtain ⟨rfl, rfl⟩ := List.cons.inj rest
        exact absurd (by simp) last
    · cases between with
      | nil => exact ⟨(List.append_nil _).symm, (List.cons.inj rest).2⟩
      | cons char between =>
        obtain ⟨rfl, -⟩ := List.cons.inj rest
        exact absurd (by simp) first
  exact ⟨last, apart⟩

/-- **One meaning for a pattern.** Authorization takes a pattern for the glob it is, as a scan
does, exactly when the pattern is unambiguous. -/
theorem grant_pattern_is_glob_iff (pattern : String) (plain : '?' ∉ pattern.toList) :
    (∀ key, Vaylix.wildcardMatches pattern key = true ↔ Matches (glyphs pattern) key.toList) ∧
      ((∀ key, wildcardMatches pattern key = true ↔ Matches (glyphs pattern) key.toList) ↔
        Unambiguous pattern) :=
  ⟨Vaylix.wildcardMatches_iff pattern, unambiguous_of_agrees plain, agrees_of_unambiguous plain⟩

theorem grant_pattern_is_glob_one_star :
    '?' ∉ "app:*".toList ∧ ∀ key, wildcardMatches "app:*" key = true ↔
      Vaylix.wildcardMatches "app:*" key = true := by
  have plain : '?' ∉ "app:*".toList := by decide
  obtain ⟨scan, grant⟩ := grant_pattern_is_glob_iff "app:*" plain
  have same := grant.mpr (by decide)
  exact ⟨plain, fun key => (same key).trans (scan key).symm⟩

/-- A beginning and an end may overlap, and a second star is a character of the key. -/
theorem grant_pattern_is_no_glob :
    (wildcardMatches "app:*:prod" "app:prod" = true ∧
      Vaylix.wildcardMatches "app:*:prod" "app:prod" = false) ∧
      wildcardMatches "a*b*" "axbc" = false ∧ Vaylix.wildcardMatches "a*b*" "axbc" = true := by
  decide

end Auth

end Vaylix

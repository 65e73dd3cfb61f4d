import Mathlib.Data.List.Infix
import Mathlib.Data.Set.Basic

/-!
# Logs that branch

A log is extended by new entries, cut back, or continues along another one. The logs that
there ever were form a tree as long as no entry is put in a second time behind something else.
Then two logs that share an entry have the same entries before it.
-/

namespace LogTree

universe u

variable {E : Type u}

/-- A set of logs with their front parts, in which an entry always comes behind the same
ones. -/
structure Branching (paths : Set (List E)) : Prop where
  front : ∀ path ∈ paths, ∀ shorter, shorter <+: path → shorter ∈ paths
  history : ∀ one two entry, one ++ [entry] ∈ paths → two ++ [entry] ∈ paths → one = two

def grow (paths : Set (List E)) (whole : List E) : Set (List E) :=
  {path | path ∈ paths ∨ path <+: whole}

theorem take_succ_eq {log : List E} {i : Nat} {entry : E} (found : log[i]? = some entry) :
    log.take (i + 1) = log.take i ++ [entry] := by
  rw [List.take_add_one, found, Option.toList_some]

theorem eq_of_isPrefix_of_nodup {whole one two : List E} {entry : E} (nodup : whole.Nodup)
    (oneFront : one ++ [entry] <+: whole) (twoFront : two ++ [entry] <+: whole) : one = two := by
  have place : ∀ {part : List E}, part ++ [entry] <+: whole →
      part = whole.take part.length ∧ whole[part.length]? = some entry := by
    rintro part ⟨rest, rfl⟩
    simp
  obtain ⟨oneEq, oneAt⟩ := place oneFront
  obtain ⟨twoEq, twoAt⟩ := place twoFront
  obtain ⟨inside, -⟩ := List.getElem?_eq_some_iff.mp oneAt
  rw [oneEq, twoEq, (List.getElem?_inj inside nodup).mp (oneAt.trans twoAt.symm)]

namespace Branching

variable {paths : Set (List E)} {one two : List E} {i j : Nat} {entry : E}

theorem take_mem (tree : Branching paths) {path : List E} (known : path ∈ paths) (k : Nat) :
    path.take k ∈ paths :=
  tree.front path known _ (List.take_prefix k path)

/-- **Two logs that share an entry agree up to it.** -/
theorem take_eq (tree : Branching paths) (oneKnown : one ∈ paths) (twoKnown : two ∈ paths)
    (oneAt : one[i]? = some entry) (twoAt : two[j]? = some entry) :
    one.take (i + 1) = two.take (j + 1) := by
  have oneFront := tree.take_mem oneKnown (i + 1)
  have twoFront := tree.take_mem twoKnown (j + 1)
  rw [take_succ_eq oneAt] at oneFront ⊢
  rw [take_succ_eq twoAt] at twoFront ⊢
  rw [tree.history _ _ entry oneFront twoFront]

theorem isPrefix_of_last_mem (tree : Branching paths) (oneKnown : one ∈ paths)
    (twoKnown : two ∈ paths) (anchored : ∀ last, one.getLast? = some last → last ∈ two) :
    one <+: two := by
  cases final : one.getLast? with
  | none =>
    rw [List.getLast?_eq_none_iff.mp final]
    exact List.nil_prefix
  | some last =>
    obtain ⟨j, bound, here⟩ := List.mem_iff_getElem.mp (anchored last final)
    have twoAt : two[j]? = some last := by rw [List.getElem?_eq_getElem bound, here]
    rw [List.getLast?_eq_getElem?] at final
    have whole := tree.take_eq oneKnown twoKnown final twoAt
    have length := (List.getElem?_eq_some_iff.mp final).1
    rw [Nat.sub_add_cancel (by omega), List.take_length] at whole
    rw [whole]
    exact List.take_prefix _ _

/-- **A log is extended by entries that were in no log before.** -/
theorem grow (tree : Branching paths) {path whole : List E} (known : path ∈ paths)
    (grown : path <+: whole) (nodup : whole.Nodup)
    (anew : ∀ entry ∈ whole, entry ∈ path ∨ ∀ other ∈ paths, entry ∉ other) :
    Branching (grow paths whole) := by
  -- Behind an entry of the old log there is nothing new.
  have old : ∀ {part : List E} {entry : E}, part ++ [entry] <+: whole → entry ∈ path →
      part ++ [entry] ∈ paths := by
    intro part entry isFront inside
    obtain ⟨before, after, split⟩ := List.append_of_mem inside
    have there : before ++ [entry] <+: path := ⟨after, by simp [split]⟩
    rw [eq_of_isPrefix_of_nodup nodup isFront (there.trans grown)]
    exact tree.front path known _ there
  have mixed : ∀ {one two : List E} {entry : E}, one ++ [entry] ∈ paths →
      two ++ [entry] <+: whole → one = two := by
    intro one two entry oneKnown twoFront
    have inside : entry ∈ path := by
      refine (anew entry (twoFront.subset (by simp))).resolve_right ?_
      intro fresh
      exact fresh _ oneKnown (by simp)
    exact tree.history one two entry oneKnown (old twoFront inside)
  refine ⟨?_, ?_⟩
  · intro longer known shorter isFront
    exact known.imp (fun old => tree.front longer old shorter isFront) isFront.trans
  · rintro one two entry (oneKnown | oneFront) (twoKnown | twoFront)
    · exact tree.history one two entry oneKnown twoKnown
    · exact mixed oneKnown twoFront
    · exact (mixed twoKnown oneFront).symm
    · exact eq_of_isPrefix_of_nodup nodup oneFront twoFront

end Branching

end LogTree

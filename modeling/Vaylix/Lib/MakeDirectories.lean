import Vaylix.Lib.FileTree

/-!
# Making directories

Making a directory with all that are missing above it adds exactly the part of its path
behind the place where the path leaves the tree. If the path is there already or something
else stands in its way, nothing is added.
-/

namespace FileTree

namespace Tree

universe u

variable {ν : Type u} {validName : ν → Bool} [DecidableEq ν]

section Creating

variable {tree : Tree validName}

/-- A first part of the names ends in a directory that does not hold the next one. -/
structure Leaves (tree : Tree validName) (names place : List ν) (name : ν) (rest : List ν) :
    Prop where
  left : ∃ front links, names = front ++ name :: rest ∧
    tree.walk maxLinks [] (front.map .name) = .ok (place, links)
  directory : tree.entry place = some .directory
  missing : tree.entry (place ++ [name]) = none

variable {names place rest : List ν} {name : ν}

theorem Leaves.walk (leaves : tree.Leaves names place name rest) :
    tree.walk maxLinks [] (names.map .name) = .error .notFound := by
  obtain ⟨front, links, rfl, walked⟩ := leaves.left
  rw [List.map_append, walk_append, walked, Except.bind, List.map_cons, walk_cons,
    if_neg (not_not.mpr leaves.directory)]
  simp only [leaves.missing]

theorem Leaves.concat (leaves : tree.Leaves names place name rest) (last : ν) :
    tree.Leaves (names ++ [last]) place name (rest ++ [last]) := by
  obtain ⟨front, links, rfl, walked⟩ := leaves.left
  exact ⟨⟨front, links, by simp, walked⟩, leaves.directory, leaves.missing⟩

/-- The tree has grown by the directories at and above `place ++ missing`. -/
structure Made (tree made : Tree validName) (place missing : List ν) : Prop where
  grows : tree.Grows made
  directories : ∀ part, part ≠ [] → part <+: missing →
    made.entry (place ++ part) = some .directory
  only : ∀ other, made.entry other ≠ tree.entry other →
    ∃ part, part ≠ [] ∧ part <+: missing ∧ other = place ++ part

theorem entry_insertDirectory (directory : tree.entry place = some .directory)
    (valid : validName name = true) (other : List ν) :
    (tree.insertDirectory place name).entry other =
      if other = place ++ [name] then some .directory else tree.entry other := by
  rw [insertDirectory, dif_pos ⟨directory, valid⟩]

theorem grows_insertDirectory (missing : tree.entry (place ++ [name]) = none) :
    tree.Grows (tree.insertDirectory place name) := by
  intro other found held
  unfold insertDirectory
  split
  · dsimp only
    rw [if_neg, held]
    rintro rfl
    rw [missing] at held
    cases held
  · exact held

variable {made : Tree validName}

theorem Made.concat {missing : List ν} (before : tree.Made made place missing)
    (nonempty : missing ≠ []) (valid : validName name = true)
    (absent : tree.entry (place ++ missing ++ [name]) = none) :
    made.entry (place ++ missing ++ [name]) = none ∧
      tree.Made (made.insertDirectory (place ++ missing) name) place (missing ++ [name]) := by
  have free : made.entry (place ++ missing ++ [name]) = none := by
    by_contra present
    obtain ⟨part, -, beginning, same⟩ := before.only (place ++ missing ++ [name]) (by
      rw [absent]
      exact present)
    rw [List.append_assoc] at same
    have longer := beginning.length_le
    rw [← List.append_cancel_left same, List.length_append, List.length_singleton] at longer
    omega
  have inserted := entry_insertDirectory
    (before.directories missing nonempty List.prefix_rfl) valid
  refine ⟨free, fun place found held => ?_, ?_, ?_⟩
  · exact grows_insertDirectory free place found (before.grows place found held)
  · intro part holds beginning
    rw [inserted]
    split
    · rfl
    · rename_i other
      refine before.directories part holds ?_
      rcases List.prefix_concat_iff.mp beginning with whole | within
      · rw [whole, ← List.append_assoc] at other
        exact absurd rfl other
      · exact within
  · intro other changed
    rw [inserted] at changed
    split at changed
    · rename_i same
      exact ⟨missing ++ [name], by simp, List.prefix_rfl, by rw [same, List.append_assoc]⟩
    · obtain ⟨part, holds, beginning, same⟩ := before.only other changed
      exact ⟨part, holds, beginning.trans (List.prefix_append _ _), same⟩

variable {path : Path ν}

theorem Made.walk {grown : Tree validName} (made : tree.Made grown place (name :: rest))
    (leaves : tree.Leaves names place name rest) :
    ∃ links, grown.walk maxLinks [] (names.map .name) = .ok (place ++ name :: rest, links) := by
  obtain ⟨front, links, rfl, walked⟩ := leaves.left
  have bottom : grown.entry (place ++ name :: rest) = some .directory :=
    made.directories _ (List.cons_ne_nil _ _) List.prefix_rfl
  refine ⟨links, ?_⟩
  rw [List.map_append, walk_append, made.grows.walk walked]
  exact grown.walk_names links bottom

end Creating

end Tree

end FileTree

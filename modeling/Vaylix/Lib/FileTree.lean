import Mathlib.Data.List.Infix
import Mathlib.Data.List.Induction
import Vaylix.Lib.Outcome

/-!
# Directory trees with symbolic links

A tree says what stands at every place, the list of names from the root. A link puts its
target in front of what is left of a path, and only so many are followed. What a walk finds
does not depend on what is added.
-/

namespace FileTree

universe u

variable {ν : Type u}

inductive Component (ν : Type u) where
  | current
  | parent
  | name (name : ν)
deriving DecidableEq, Repr

/-- How a path ends: a slash or a dot asks for a directory. -/
inductive Ending where
  | plain
  | slash
  | dot
deriving DecidableEq, Repr

structure Path (ν : Type u) where
  absolute : Bool
  components : List (Component ν)
  ending : Ending
deriving DecidableEq, Repr

namespace Path

def steps (path : Path ν) : List (Component ν) :=
  match path.ending with
  | .plain => path.components
  | .slash | .dot => path.components ++ [.current]

def isEmpty (path : Path ν) : Bool := !path.absolute && path.components.isEmpty

def parent? (path : Path ν) : Option (Path ν) :=
  if path.components.isEmpty then none
  else some ⟨path.absolute, path.components.dropLast, .plain⟩

/-- Where a lookup starts that is made at a place. -/
def start (path : Path ν) (place : List ν) : List ν := if path.absolute then [] else place

def valid (validName : ν → Bool) (path : Path ν) : Bool :=
  path.components.all fun
    | .name name => validName name
    | .current | .parent => true

end Path

inductive Entry (ν : Type u) where
  | directory
  | file
  | link (target : Path ν)
deriving DecidableEq, Repr

inductive IoError where
  | notFound
  | alreadyExists
  | notADirectory
  | filesystemLoop
  | invalidInput
  | other
deriving DecidableEq, Repr

/-- A tree whose entries stand in directories and have valid names. -/
structure Tree (validName : ν → Bool) where
  entry : List ν → Option (Entry ν)
  workingDirectory : List ν
  root : entry [] = some .directory
  inDirectory : ∀ place name found,
    entry (place ++ [name]) = some found → entry place = some .directory
  names : ∀ place found, entry place = some found → ∀ name ∈ place, validName name = true
  working : entry workingDirectory = some .directory

namespace Tree

variable {validName : ν → Bool} [DecidableEq ν]

/-- The number of links one lookup follows. -/
def maxLinks : Nat := 40

section Lookup

variable (tree : Tree validName)

/-- Walks components from a place; `follow` goes on behind a link. -/
def walkWith (links : Nat)
    (follow : List ν → List (Component ν) → Except IoError (List ν × Nat)) :
    List ν → List (Component ν) → Except IoError (List ν × Nat)
  | place, [] => .ok (place, links)
  | place, component :: rest =>
    if tree.entry place ≠ some .directory then .error .notADirectory
    else
      match component with
      | .current => walkWith links follow place rest
      | .parent => walkWith links follow place.dropLast rest
      | .name name =>
        match tree.entry (place ++ [name]) with
        | none => .error .notFound
        | some (.link target) =>
          if target.isEmpty then .error .notFound
          else follow (target.start place) (target.steps ++ rest)
        | some _ => walkWith links follow (place ++ [name]) rest

/-- The place a walk ends at, and how many links it could still have followed. -/
def walk : Nat → List ν → List (Component ν) → Except IoError (List ν × Nat)
  | 0 => tree.walkWith 0 fun _ _ => .error .filesystemLoop
  | links + 1 => tree.walkWith (links + 1) (walk links)

def resolve (path : Path ν) : Except IoError (List ν) :=
  if !path.valid validName then .error .invalidInput
  else if path.isEmpty then .error .notFound
  else (tree.walk maxLinks (path.start tree.workingDirectory) path.steps).map Prod.fst

def isDirectory (path : Path ν) : Bool :=
  match tree.resolve path with
  | .ok place => tree.entry place = some .directory
  | .error _ => false

def entryAt (path : Path ν) : Except IoError (Entry ν) :=
  if !path.valid validName then .error .invalidInput
  else if path.isEmpty then .error .notFound
  else
    match path.ending, path.components.getLast? with
    | .plain, some (.name name) =>
      match tree.walk maxLinks (path.start tree.workingDirectory) path.components.dropLast with
      | .error err => .error err
      | .ok (place, _) =>
        if tree.entry place ≠ some .directory then .error .notADirectory
        else (tree.entry (place ++ [name])).elim (.error .notFound) .ok
    | _, _ =>
      match tree.resolve path with
      | .error err => .error err
      | .ok place => (tree.entry place).elim (.error .notFound) .ok

end Lookup

def insertDirectory (tree : Tree validName) (place : List ν) (name : ν) : Tree validName :=
  if sound : tree.entry place = some .directory ∧ validName name = true then
    { entry := fun other =>
        if other = place ++ [name] then some .directory else tree.entry other
      workingDirectory := tree.workingDirectory
      root := by simp [tree.root]
      inDirectory := by
        intro other last found held
        have upper : tree.entry other = some .directory := by
          split at held
          · rename_i same
            rw [(List.append_inj' same rfl).1]
            exact sound.1
          · exact tree.inDirectory other last found held
        simp [upper]
      names := by
        intro other found held inner member
        split at held
        · subst other
          rcases List.mem_append.mp member with upper | last
          · exact tree.names place _ sound.1 inner upper
          · rw [List.mem_singleton.mp last]
            exact sound.2
        · exact tree.names other found held inner member
      working := by simp [tree.working] }
  else tree

/-- Makes a directory where a walk has ended. -/
def makeNamed (tree : Tree validName) (name : ν) :
    Except IoError (List ν × Nat) → Except IoError (Tree validName)
  | .error err => .error err
  | .ok (place, _) =>
    if tree.entry place ≠ some .directory then .error .notADirectory
    else if (tree.entry (place ++ [name])).isSome then .error .alreadyExists
    else .ok (tree.insertDirectory place name)

/-- Makes the directory at a path; all above it has to be there. -/
def makeDirectory (tree : Tree validName) (path : Path ν) : Except IoError (Tree validName) :=
  if !path.valid validName then .error .invalidInput
  else if path.isEmpty then .error .notFound
  else
    match path.ending, path.components.getLast? with
    | .plain, some (.name name) | .slash, some (.name name) =>
      tree.makeNamed name
        (tree.walk maxLinks (path.start tree.workingDirectory) path.components.dropLast)
    | _, _ =>
      match tree.resolve path with
      | .error err => .error err
      | .ok _ => .error .alreadyExists

def createLast (path : Path ν) :
    Except IoError Unit × Tree validName → Except IoError Unit × Tree validName
  | (.error err, made) => (.error err, made)
  | (.ok (), made) =>
    match made.makeDirectory path with
    | .ok final => (.ok (), final)
    | .error err => if made.isDirectory path then (.ok (), made) else (.error err, made)

/-- Makes the directory at a path, given by its components from the last one on, and those
above it. -/
def createFrom (tree : Tree validName) (absolute : Bool) :
    List (Component ν) → Ending → Except IoError Unit × Tree validName
  | reversed, ending =>
    let path : Path ν := ⟨absolute, reversed.reverse, ending⟩
    if path.isEmpty then (.ok (), tree)
    else
      match tree.makeDirectory path with
      | .ok made => (.ok (), made)
      | .error .notFound =>
        match reversed with
        | [] => (.error .other, tree)
        | _ :: above => createLast path (createFrom tree absolute above .plain)
      | .error err => if tree.isDirectory path then (.ok (), tree) else (.error err, tree)

/-- Makes a directory and all that are missing above it. What was made before an error stays. -/
def createDirAll (tree : Tree validName) (path : Path ν) : Except IoError Unit × Tree validName :=
  tree.createFrom path.absolute path.components.reverse path.ending

section Above

variable (tree : Tree validName)

omit [DecidableEq ν] in
theorem directory_of_append {place rest : List ν} {found : Entry ν} (nonempty : rest ≠ [])
    (held : tree.entry (place ++ rest) = some found) : tree.entry place = some .directory := by
  induction rest using List.reverseRecOn generalizing found with
  | nil => exact absurd rfl nonempty
  | append_singleton rest name ih =>
    rw [← List.append_assoc] at held
    have upper := tree.inDirectory _ name found held
    by_cases empty : rest = []
    · rwa [empty, List.append_nil] at upper
    · exact ih empty upper

omit [DecidableEq ν] in
theorem directory_above {place below : List ν} (above : place <+: below)
    (held : tree.entry below = some .directory) : tree.entry place = some .directory := by
  obtain ⟨rest, rfl⟩ := above
  by_cases empty : rest = []
  · rwa [empty, List.append_nil] at held
  · exact tree.directory_of_append empty held

end Above

section Walks

variable (tree : Tree validName)

/-- The walk that allows so many links is the one that `walkWith` makes with the rest. -/
def followWith : Nat → List ν → List (Component ν) → Except IoError (List ν × Nat)
  | 0 => fun _ _ => .error .filesystemLoop
  | links + 1 => tree.walk links

theorem walk_eq (links : Nat) : tree.walk links = tree.walkWith links (tree.followWith links) := by
  cases links <;> rfl

theorem walk_nil (links : Nat) (place : List ν) :
    tree.walk links place [] = .ok (place, links) := by
  rw [walk_eq]
  rfl

theorem walk_cons (links : Nat) (place : List ν) (component : Component ν)
    (rest : List (Component ν)) :
    tree.walk links place (component :: rest) =
      if tree.entry place ≠ some .directory then .error .notADirectory
      else
        match component with
        | .current => tree.walk links place rest
        | .parent => tree.walk links place.dropLast rest
        | .name name =>
          match tree.entry (place ++ [name]) with
          | none => .error .notFound
          | some (.link target) =>
            if target.isEmpty then .error .notFound
            else tree.followWith links (target.start place) (target.steps ++ rest)
          | some _ => tree.walk links (place ++ [name]) rest := by
  rw [walk_eq]
  rfl

omit [DecidableEq ν] in
/-- Behind a link a walk has fewer links left, otherwise fewer components. -/
theorem walk_induction {motive : Nat → List ν → List (Component ν) → Prop}
    (nil : ∀ links place, motive links place [])
    (cons : ∀ links place component rest, (∀ next, motive links next rest) →
      (∀ fewer < links, ∀ start steps, motive fewer start steps) →
      motive links place (component :: rest)) (links : Nat) (place : List ν)
    (components : List (Component ν)) : motive links place components := by
  induction links using Nat.strongRecOn generalizing place components with
  | ind links outer =>
    induction components generalizing place with
    | nil => exact nil links place
    | cons component rest ih => exact cons links place component rest ih outer

/-- A walk goes on where its first part has ended. -/
theorem walk_append (links : Nat) (place : List ν) (front back : List (Component ν)) :
    tree.walk links place (front ++ back) =
      (tree.walk links place front).bind fun reached => tree.walk reached.2 reached.1 back := by
  induction links, place, front using walk_induction with
  | nil links place =>
    rw [walk_nil]
    rfl
  | cons links place component rest ih outer =>
    rw [List.cons_append, walk_cons, walk_cons]
    split
    · rfl
    · cases component with
      | current => exact ih place
      | parent => exact ih place.dropLast
      | name name =>
        dsimp only
        split
        · rfl
        · split
          · rfl
          · rw [← List.append_assoc]
            cases links with
            | zero => rfl
            | succ links => exact outer links (Nat.lt_succ_self links) _ _
        · exact ih (place ++ [name])

variable {place : List ν}

theorem walk_names {names : List ν} (links : Nat)
    (directory : tree.entry (place ++ names) = some .directory) :
    tree.walk links place (names.map .name) = .ok (place ++ names, links) := by
  induction names generalizing place with
  | nil => rw [List.map_nil, walk_nil, List.append_nil]
  | cons name rest ih =>
    have here : tree.entry place = some .directory :=
      tree.directory_above (List.prefix_append _ _) directory
    rw [List.append_cons] at directory ⊢
    have next := tree.directory_above (List.prefix_append _ _) directory
    rw [List.map_cons, walk_cons, if_neg (not_not.mpr here)]
    simp only [next]
    exact ih directory

variable {tree}

variable {links : Nat} {components : List (Component ν)} {reached : List ν × Nat}

/-- Everything that is there stays. -/
def Grows (tree grown : Tree validName) : Prop :=
  ∀ place found, tree.entry place = some found → grown.entry place = some found

theorem Grows.walk {grown : Tree validName} (grows : tree.Grows grown)
    (walked : tree.walk links place components = .ok reached) :
    grown.walk links place components = .ok reached := by
  induction links, place, components using walk_induction with
  | nil links place => rwa [walk_nil] at walked ⊢
  | cons links place component rest ih outer =>
    rw [walk_cons] at walked ⊢
    obtain ⟨directory, walked⟩ := Except.guard_eq_ok_iff.mp walked
    rw [if_neg (not_not.mpr (grows _ _ (not_not.mp directory)))]
    cases component with
    | current | parent => exact ih _ walked
    | name name =>
      cases held : tree.entry (place ++ [name]) with
      | none => simp only [held, reduceCtorEq] at walked
      | some found =>
        simp only [held, grows _ _ held] at walked ⊢
        cases found with
        | directory | file => exact ih _ walked
        | link target =>
          obtain ⟨nonempty, walked⟩ := Except.guard_eq_ok_iff.mp walked
          refine (if_neg nonempty).trans ?_
          cases links with
          | zero => cases walked
          | succ links => exact outer links (Nat.lt_succ_self links) _ _ walked

end Walks

end Tree

end FileTree

import Mathlib.Data.List.Induction

/-!
# Lines of a byte stream

A stream is cut at every newline. The last line may lack its newline; whatever is
appended to such a stream first continues that line.
-/

namespace Lines

universe u

variable {α : Type u} [DecidableEq α]

structure Line (α : Type u) where
  text : List α
  terminated : Bool
deriving DecidableEq, Repr

variable (newline : α)

/-- The lines of a stream behind the beginning `pending` of a line. -/
def linesFrom (pending : List α) : List α → List (Line α)
  | [] => if pending.isEmpty then [] else [⟨pending, false⟩]
  | byte :: rest =>
    if byte = newline then ⟨pending, true⟩ :: linesFrom [] rest
    else linesFrom (pending ++ [byte]) rest

def lines (stream : List α) : List (Line α) := linesFrom newline [] stream

/-- The stream is empty or ends with a newline. -/
def Terminated (stream : List α) : Prop := ∀ last, stream.getLast? = some last → last = newline

instance (stream : List α) : Decidable (Terminated newline stream) :=
  match found : stream.getLast? with
  | none => .isTrue fun last named => by rw [found] at named; cases named
  | some last =>
    if same : last = newline then
      .isTrue fun other named => by rw [found] at named; cases named; exact same
    else .isFalse fun terminated => same (terminated last found)

variable {newline}

omit [DecidableEq α] in
theorem terminated_nil : Terminated newline ([] : List α) := fun _ named => by cases named

omit [DecidableEq α] in
theorem terminated_concat (stream : List α) : Terminated newline (stream ++ [newline]) := by
  intro last named
  rw [List.getLast?_concat] at named
  exact (Option.some.inj named).symm

theorem linesFrom_append {text : List α} (plain : newline ∉ text) (pending rest : List α) :
    linesFrom newline pending (text ++ rest) = linesFrom newline (pending ++ text) rest := by
  induction text generalizing pending with
  | nil => rw [List.nil_append, List.append_nil]
  | cons byte text ih =>
    have other : byte ≠ newline := fun same => plain (same ▸ List.mem_cons_self)
    rw [List.cons_append, linesFrom, if_neg other,
      ih fun member => plain (List.mem_cons_of_mem _ member), List.append_assoc]
    rfl

theorem linesFrom_terminated {stream : List α} (terminated : Terminated newline stream)
    (nonempty : stream ≠ []) (pending rest : List α) :
    linesFrom newline pending (stream ++ rest) =
      linesFrom newline pending stream ++ lines newline rest := by
  induction stream generalizing pending with
  | nil => exact absurd rfl nonempty
  | cons byte stream ih =>
    by_cases ends : byte = newline
    · rw [List.cons_append, linesFrom, if_pos ends, linesFrom, if_pos ends, List.cons_append]
      by_cases empty : stream = []
      · subst empty
        rfl
      · rw [ih (fun last named => terminated last (by
          rw [List.getLast?_cons_of_ne_nil empty]; exact named)) empty]
    · have more : stream ≠ [] := by
        rintro rfl
        exact ends (terminated byte rfl)
      rw [List.cons_append, linesFrom, if_neg ends, linesFrom, if_neg ends]
      exact ih (fun last named => terminated last (by
        rw [List.getLast?_cons_of_ne_nil more]; exact named)) more _

/-- A stream behind a newline is read by itself. -/
theorem lines_append {stream : List α} (terminated : Terminated newline stream)
    (rest : List α) :
    lines newline (stream ++ rest) = lines newline stream ++ lines newline rest := by
  by_cases empty : stream = []
  · subst empty
    rfl
  · exact linesFrom_terminated terminated empty [] rest

theorem lines_line {text : List α} (plain : newline ∉ text) :
    lines newline (text ++ [newline]) = [⟨text, true⟩] := by
  rw [lines, linesFrom_append plain, linesFrom, if_pos rfl]
  rfl

theorem lines_text {text : List α} (plain : newline ∉ text) (nonempty : text ≠ []) :
    lines newline text = [⟨text, false⟩] := by
  have whole := linesFrom_append plain [] []
  rw [List.append_nil, List.nil_append] at whole
  rw [lines, whole, linesFrom, if_neg (by simpa using nonempty)]

theorem exists_split (stream : List α) :
    ∃ whole text, stream = whole ++ text ∧ Terminated newline whole ∧ newline ∉ text := by
  induction stream using List.reverseRecOn with
  | nil => exact ⟨[], [], rfl, terminated_nil, List.not_mem_nil⟩
  | append_singleton stream byte ih =>
    obtain ⟨whole, text, rfl, terminated, plain⟩ := ih
    by_cases ends : byte = newline
    · subst ends
      exact ⟨whole ++ text ++ [byte], [], by simp, terminated_concat _, List.not_mem_nil⟩
    · refine ⟨whole, text ++ [byte], by simp, terminated, ?_⟩
      simpa [plain] using fun same => ends same.symm

end Lines

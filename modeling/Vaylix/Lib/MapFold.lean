import Mathlib.Data.List.Basic

/-!
# Maps built by inserting items

Inserting items that all agree with a target map makes the keys among them answer as
the target does.
-/

namespace MapFold

universe u v w

variable {α : Type u} {β : Type v} {γ : Type w} {cmp : α → α → Ordering} [Std.TransCmp cmp]
  [Std.LawfulEqCmp cmp] [DecidableEq α]

theorem getElem?_foldl_insert {key : γ → α} {value : γ → β} {target : Std.ExtTreeMap α β cmp}
    {items : List γ} (faithful : ∀ item ∈ items, target[key item]? = some (value item))
    (map : Std.ExtTreeMap α β cmp) (k : α) :
    (items.foldl (fun map item => map.insert (key item) (value item)) map)[k]? =
      if k ∈ items.map key then target[k]? else map[k]? := by
  induction items generalizing map with
  | nil => simp
  | cons item rest ih =>
    have here := faithful item List.mem_cons_self
    rw [List.foldl_cons, ih (List.forall_mem_cons.mp faithful).2]
    by_cases later : k ∈ rest.map key
    · rw [if_pos later, if_pos (List.map_cons ▸ List.mem_cons_of_mem _ later)]
    · rw [if_neg later]
      by_cases same : key item = k
      · subst same
        simp [here]
      · have absent : k ∉ (item :: rest).map key := by
          rw [List.map_cons, List.mem_cons, not_or]
          exact ⟨fun named => same named.symm, later⟩
        rw [Std.ExtTreeMap.getElem?_insert, if_neg (by simpa using same), if_neg absent]

end MapFold

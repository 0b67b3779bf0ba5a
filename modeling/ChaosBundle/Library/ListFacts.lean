import Mathlib.Data.List.Nodup

/-! Lists without repetition: tables by their keys, and the order of two elements. -/
namespace ChaosBundle.ListFacts
variable {α β : Type}

theorem lookup_of_mem [DecidableEq α] {l : List (α × β)} {k : α} {b : β}
    (hnodup : (l.map Prod.fst).Nodup) (h : (k,b) ∈ l) : l.lookup k = some b := by
  obtain ⟨l₁,l₂,rfl⟩ := List.append_of_mem h
  refine List.lookup_eq_some_iff.mpr ⟨l₁,l₂,rfl,fun q hq => ?_⟩
  rw [List.map_append, List.map_cons] at hnodup
  have hne := (List.nodup_append.mp hnodup).2.2 q.1 (List.mem_map_of_mem hq) k List.mem_cons_self
  simpa using hne.symm

theorem not_sublist_swap {l : List α} {x y : α} (hnodup : l.Nodup) (h : [x,y].Sublist l) :
    ¬ [y,x].Sublist l := by
  induction l with
  | nil => cases h
  | cons a l ih =>
    obtain ⟨hnot,hnodup⟩ := List.nodup_cons.mp hnodup
    intro hswap
    cases h with
    | cons _ h =>
      cases hswap with
      | cons _ hswap => exact ih hnodup h hswap
      | cons_cons _ _ => exact hnot (h.subset (List.mem_cons_of_mem _ List.mem_cons_self))
    | cons_cons _ h =>
      cases hswap with
      | cons _ hswap => exact hnot (hswap.subset (List.mem_cons_of_mem _ List.mem_cons_self))
      | cons_cons _ hswap => exact hnot (List.singleton_sublist.mp h)

end ChaosBundle.ListFacts

import Mathlib.Data.List.Basic

/-! Trees whose nodes are visited from the root down, each in the scope that the nodes above
it have left: a scope is inherited, and what a node does to it its siblings do not see. -/
namespace ChaosBundle.ScopedTree

inductive RoseTree (α : Type) where
  | node (a : α) (subs : List (RoseTree α))

variable {α σ : Type}

section Definitions
variable (leave : σ → α → σ)

mutual

/-- Each node with the scope in which it is visited. -/
def visit (s : σ) : RoseTree α → List (σ × α)
  | .node a subs => (s,a) :: visitAll (leave s a) subs

def visitAll (s : σ) : List (RoseTree α) → List (σ × α)
  | [] => []
  | t :: ts => visit s t ++ visitAll s ts

end

mutual

/-- Each node with the nodes above it, the root first. -/
def paths (above : List α) : RoseTree α → List (List α × α)
  | .node a subs => (above,a) :: pathsAll (above ++ [a]) subs

def pathsAll (above : List α) : List (RoseTree α) → List (List α × α)
  | [] => []
  | t :: ts => paths above t ++ pathsAll above ts

end

end Definitions

variable {leave : σ → α → σ}

mutual

/-- The scope of a node depends on the nodes above it only. -/
theorem visit_eq (s : σ) (above : List α) : ∀ t : RoseTree α, visit leave (above.foldl leave s) t =
    (paths above t).map fun p => (p.1.foldl leave s,p.2)
  | .node a subs => by
    have hsubs := visitAll_eq s (above ++ [a]) subs
    rw [List.foldl_append] at hsubs
    rw [visit, paths, List.map_cons]
    exact congrArg _ hsubs

theorem visitAll_eq (s : σ) (above : List α) : ∀ ts : List (RoseTree α),
    visitAll leave (above.foldl leave s) ts = (pathsAll above ts).map fun p => (p.1.foldl leave s,p.2)
  | [] => rfl
  | t :: ts => by
    rw [visitAll, pathsAll, List.map_append, visit_eq s above t, visitAll_eq s above ts]

end

theorem getLast?_filterMap_concat {β : Type} (f : α → Option β) (above : List α) (a : α) :
    ((above ++ [a]).filterMap f).getLast? = (f a).or (above.filterMap f).getLast? := by
  rw [List.filterMap_append, List.getLast?_append]
  cases ha : f a <;> simp [ha]

end ChaosBundle.ScopedTree

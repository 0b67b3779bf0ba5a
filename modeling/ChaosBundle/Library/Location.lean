import Mathlib.Data.List.Basic

/-! The place that a path leads to, in a tree of directories without links. -/
namespace ChaosBundle.Location

def Proper (name : List Char) : Prop := name ≠ [] ∧ name ≠ ['.'] ∧ name ≠ ['.','.'] ∧ '/' ∉ name

instance (name : List Char) : Decidable (Proper name) := inferInstanceAs (Decidable (_ ∧ _))

/-- One component of a path, taken from the place that those before it lead to. -/
def enter (place : List (List Char)) (component : List Char) : List (List Char) :=
  if component = [] ∨ component = ['.'] then place
  else if component = ['.','.'] then place.dropLast
  else place ++ [component]

/-- The place as the names on the way down from the root. -/
def location (path : List Char) : List (List Char) := (path.splitOn '/').foldl enter []

theorem enter_proper {name : List Char} (h : Proper name) (place : List (List Char)) :
    enter place name = place ++ [name] := by
  obtain ⟨hnil,hdot,hdots,-⟩ := h
  simp [enter, hnil, hdot, hdots]

theorem location_append (path rest : List Char) :
    location (path ++ '/' :: rest) = (rest.splitOn '/').foldl enter (location path) := by
  rw [location, List.splitOn_append_cons_self, List.foldl_append, ← location]

theorem location_proper {name : List Char} (h : Proper name) (path : List Char) :
    location (path ++ '/' :: name) = location path ++ [name] := by
  rw [location_append, List.splitOn_eq_singleton h.2.2.2, List.foldl_cons, List.foldl_nil, enter_proper h]

end ChaosBundle.Location

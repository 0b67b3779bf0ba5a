import Mathlib.Data.List.Basic

/-! Lines of a text, each with its newline; what follows the last newline is a line too.
Fields of a line, with a separator between them. -/
namespace ChaosBundle.TextLines

def lines : List Char → List (List Char)
  | [] => []
  | c :: cs =>
    if c = '\n' then [] :: lines cs
    else match lines cs with
      | [] => [[c]]
      | l :: ls => (c :: l) :: ls

def unlines (ls : List (List Char)) : List Char := ls.flatMap (· ++ ['\n'])

theorem lines_cons {l : List Char} (h : '\n' ∉ l) (rest : List Char) :
    lines (l ++ '\n' :: rest) = l :: lines rest := by
  induction l with
  | nil => simp [lines]
  | cons c l ih =>
    rw [List.mem_cons, not_or] at h
    rw [List.cons_append, lines, if_neg (Ne.symm h.1), ih h.2]

theorem lines_unlines {ls : List (List Char)} (h : ∀ l ∈ ls, '\n' ∉ l) : lines (unlines ls) = ls := by
  induction ls with
  | nil => rfl
  | cons l ls ih =>
    obtain ⟨hl,hls⟩ := List.forall_mem_cons.mp h
    rw [unlines, List.flatMap_cons, List.append_assoc, List.singleton_append, lines_cons hl]
    exact congrArg (l :: ·) (ih hls)

theorem count_unlines {ls : List (List Char)} (h : ∀ l ∈ ls, '\n' ∉ l) :
    (unlines ls).count '\n' = ls.length := by
  induction ls with
  | nil => rfl
  | cons l ls ih =>
    obtain ⟨hl,hls⟩ := List.forall_mem_cons.mp h
    rw [unlines, List.flatMap_cons, ← unlines, List.count_append, List.count_append, ih hls,
      List.count_eq_zero_of_not_mem hl]
    simp [Nat.add_comm]

theorem mem_unlines {c : Char} (hc : c ≠ '\n') {ls : List (List Char)} :
    c ∈ unlines ls ↔ ∃ l ∈ ls, c ∈ l := by
  simp [unlines, hc]

theorem mem_intercalate {c sep : Char} (hc : c ≠ sep) {fields : List (List Char)} :
    c ∈ [sep].intercalate fields ↔ ∃ field ∈ fields, c ∈ field := by
  induction fields with
  | nil => simp
  | cons field fields ih =>
    cases fields with
    | nil => simp
    | cons next fields =>
      rw [List.intercalate_cons_cons, List.mem_append, List.mem_append, ih]
      simp [hc]

end ChaosBundle.TextLines

import Mathlib.Data.List.Infix

/-! Replacement of all occurrences of a text, from the left and without overlaps. -/
namespace ChaosBundle.Replace
variable {α : Type}

section Replace
variable [DecidableEq α]

/-- The number skips what the occurrence before has taken. -/
def replaceFrom (pat rep : List α) : ℕ → List α → List α
  | _, [] => []
  | n+1, _ :: cs => replaceFrom pat rep n cs
  | 0, c :: cs =>
    if pat <+: c :: cs then rep ++ replaceFrom pat rep (pat.length - 1) cs
    else c :: replaceFrom pat rep 0 cs

def replaceAll (pat rep s : List α) : List α := replaceFrom pat rep 0 s

private theorem replaceFrom_length (pat rep s t : List α) :
    replaceFrom pat rep s.length (s ++ t) = replaceFrom pat rep 0 t := by
  induction s with
  | nil => rfl
  | cons c s ih => exact ih

end Replace

section Pattern
variable {c : α} {p : List α}

/-- A text that does not repeat its first letter cannot overlap itself. -/
theorem not_prefix_append (hc : c ∉ p) {stem : List α} (hne : stem ≠ []) (h : ¬ (c :: p) <:+: stem)
    (rest : List α) : ¬ (c :: p) <+: stem ++ c :: rest := by
  intro hpat
  rcases List.prefix_or_prefix_of_prefix hpat (List.prefix_append stem _) with hin | ⟨r,hr⟩
  · exact h hin.isInfix
  · rw [← hr, List.prefix_append_right_inj] at hpat
    cases r with
    | nil => exact h (by rw [← hr, List.append_nil])
    | cons d r =>
      obtain ⟨rfl,-⟩ := List.cons_prefix_cons.mp hpat
      obtain ⟨e,stem,rfl⟩ := List.exists_cons_of_ne_nil hne
      exact hc ((List.cons.inj hr).2 ▸ by simp)

variable [DecidableEq α]

theorem replaceAll_append (hc : c ∉ p) {stem : List α} (h : ¬ (c :: p) <:+: stem) (rep : List α) :
    replaceAll (c :: p) rep (stem ++ c :: p) = stem ++ rep := by
  induction stem with
  | nil =>
    have hskip := replaceFrom_length (c :: p) rep p []
    rw [List.append_nil] at hskip
    simp [replaceAll, replaceFrom, hskip]
  | cons d stem ih =>
    have hfirst : ¬ (c :: p) <+: d :: (stem ++ c :: p) :=
      not_prefix_append hc (List.cons_ne_nil d stem) h p
    have htail : ¬ (c :: p) <:+: stem := fun hin => h (List.infix_cons hin)
    rw [replaceAll, List.cons_append, replaceFrom, if_neg hfirst]
    exact congrArg (d :: ·) (ih htail)

end Pattern

end ChaosBundle.Replace

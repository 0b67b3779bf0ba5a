import Mathlib.Data.Option.Basic
import Mathlib.Data.List.Basic

/-! Finite runs of a partial, labelled step function. A label carries every
choice that the system leaves open, so that one run is one evaluation. -/
namespace ChaosBundle.Runs
variable {State Label : Type}

/-- Take the labels in order; the run is undefined where a step is not enabled. -/
def run (step : State → Label → Option State) : State → List Label → Option State
  | s, [] => some s
  | s, a :: as => (step s a).bind fun t => run step t as

/-- Every step that the run takes starts in a state where its label is allowed. -/
def Meets (step : State → Label → Option State) (allowed : State → Label → Prop) :
    State → List Label → Prop
  | _, [] => True
  | s, a :: as => allowed s a ∧ ∀ t, step s a = some t → Meets step allowed t as

variable {step : State → Label → Option State} {allowed : State → Label → Prop}

@[simp] theorem run_nil (s : State) : run step s [] = some s := rfl

@[simp] theorem run_cons (s : State) (a : Label) (as : List Label) :
    run step s (a :: as) = (step s a).bind fun t => run step t as := rfl

theorem run_cons_eq_some {s t : State} {a : Label} {as : List Label} :
    run step s (a :: as) = some t ↔ ∃ u, step s a = some u ∧ run step u as = some t := by
  simp [Option.bind_eq_some_iff]

theorem run_append (s : State) (as bs : List Label) :
    run step s (as ++ bs) = (run step s as).bind fun t => run step t bs := by
  induction as generalizing s with
  | nil => rfl
  | cons a as ih =>
    simp only [List.cons_append, run_cons, Option.bind_assoc]
    congr 1
    funext t
    exact ih t

theorem run_snoc_eq_some {s t : State} {a : Label} {as : List Label} :
    run step s (as ++ [a]) = some t ↔ ∃ u, run step s as = some u ∧ step u a = some t := by
  simp [run_append, Option.bind_eq_some_iff]

/-- What every step preserves, every run preserves. -/
theorem run_invariant {I : State → Prop}
    (hstep : ∀ s a t, I s → step s a = some t → I t)
    {s t : State} {as : List Label} (hrun : run step s as = some t) (hs : I s) : I t := by
  induction as generalizing s with
  | nil => exact Option.some.inj hrun ▸ hs
  | cons a as ih =>
    obtain ⟨u,hu,htail⟩ := run_cons_eq_some.mp hrun
    exact ih htail (hstep s a u hs hu)

theorem run_invariant_of_meets {I : State → Prop}
    (hstep : ∀ s a t, I s → allowed s a → step s a = some t → I t)
    {s t : State} {as : List Label} (hrun : run step s as = some t)
    (hmeets : Meets step allowed s as) (hs : I s) : I t := by
  induction as generalizing s with
  | nil => exact Option.some.inj hrun ▸ hs
  | cons a as ih =>
    obtain ⟨u,hu,htail⟩ := run_cons_eq_some.mp hrun
    exact ih htail (hmeets.2 u hu) (hstep s a u hs hmeets.1 hu)

theorem meets_snoc {s t : State} {a : Label} {as : List Label} (hrun : run step s as = some t)
    (hmeets : Meets step allowed s (as ++ [a])) : Meets step allowed s as ∧ allowed t a := by
  induction as generalizing s with
  | nil =>
    cases hrun
    exact ⟨trivial,hmeets.1⟩
  | cons b as ih =>
    obtain ⟨u,hu,htail⟩ := run_cons_eq_some.mp hrun
    refine ⟨⟨hmeets.1,fun v hv => ?_⟩,(ih htail (hmeets.2 u hu)).2⟩
    cases hu.symm.trans hv
    exact (ih htail (hmeets.2 u hu)).1

/-- Under an invariant, two ways to say which steps are allowed say the same of a run. -/
theorem meets_congr {I : State → Prop} {allowed' : State → Label → Prop}
    (hstep : ∀ s a t, I s → step s a = some t → I t)
    (hiff : ∀ s a, I s → (allowed s a ↔ allowed' s a)) {s : State} (hs : I s) (as : List Label) :
    Meets step allowed s as ↔ Meets step allowed' s as := by
  induction as generalizing s with
  | nil => exact Iff.rfl
  | cons a as ih =>
    refine and_congr (hiff s a hs) (forall_congr' fun t => ?_)
    exact forall_congr' fun ht => ih (hstep s a t hs ht)

theorem run_isSome_of_meets {I : State → Prop}
    (hstep : ∀ s a t, I s → step s a = some t → I t)
    (hdefined : ∀ s a, I s → allowed s a → (step s a).isSome) {s : State} {as : List Label}
    (hs : I s) (hmeets : Meets step allowed s as) : (run step s as).isSome := by
  induction as generalizing s with
  | nil => rfl
  | cons a as ih =>
    obtain ⟨t,ht⟩ := Option.isSome_iff_exists.mp (hdefined s a hs hmeets.1)
    rw [run_cons, ht]
    exact ih (hstep s a t hs ht) (hmeets.2 t ht)

end ChaosBundle.Runs

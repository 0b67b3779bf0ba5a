import ChaosBundle.Library.Runs

/-! A system whose steps are the steps that its parts take together, each with its own view
of the label. -/
namespace ChaosBundle.Runs
variable {State Label Index : Type} {Part View : Index → Type}

def guarded (step : State → Label → Option State) (check : State → Label → Bool) (s : State) (a : Label) :
    Option State :=
  if check s a then step s a else none

variable {step : State → Label → Option State} {check : State → Label → Bool}
  {partStep : ∀ i, Part i → View i → Option (Part i)} {I : State → Prop}

theorem guarded_eq_some {s t : State} {a : Label} :
    guarded step check s a = some t ↔ check s a ∧ step s a = some t := by
  rw [guarded]
  split_ifs with hcheck <;> simp [hcheck]

section Parts
variable (part : ∀ i, State → Part i) (view : ∀ i, Label → View i)
  (hkeep : ∀ s a t, I s → step s a = some t → I t)
  (hcheck : ∀ s a t, I s → step s a = some t →
    (check s a ↔ ∀ i, partStep i (part i s) (view i a) = some (part i t)))
  (hdefined : ∀ s a t, I s → step s a = some t → (∀ i, (partStep i (part i s) (view i a)).isSome) →
    check s a)
  {s t : State} {as : List Label} (hs : I s)
include hkeep hcheck hdefined hs

/-- If a step passes the check exactly when every part can follow it, then the runs that pass
the check are those in which every part follows its own views, to its part of the end. -/
theorem run_guarded_iff :
    run (guarded step check) s as = some t ↔ run step s as = some t ∧
      ∀ i, run (partStep i) (part i s) (as.map (view i)) = some (part i t) := by
  induction as generalizing s with
  | nil =>
    simp only [run_nil, List.map_nil, Option.some.injEq]
    constructor
    · rintro rfl
      exact ⟨rfl,fun _ => rfl⟩
    · exact fun h => h.1
  | cons a as ih =>
    simp only [List.map_cons, run_cons_eq_some, guarded_eq_some]
    constructor
    · rintro ⟨u,⟨hpass,hu⟩,htail⟩
      obtain ⟨hrun,hparts⟩ := (ih (hkeep s a u hs hu)).mp htail
      exact ⟨⟨u,hu,hrun⟩,fun i => ⟨part i u,(hcheck s a u hs hu).mp hpass i,hparts i⟩⟩
    · rintro ⟨⟨u,hu,htail⟩,hparts⟩
      have hpass : check s a := hdefined s a u hs hu fun i => by
        obtain ⟨v,hv,-⟩ := hparts i
        simp [hv]
      refine ⟨u,⟨hpass,hu⟩,(ih (hkeep s a u hs hu)).mpr ⟨htail,fun i => ?_⟩⟩
      obtain ⟨v,hv,hrest⟩ := hparts i
      rwa [← Option.some.inj (((hcheck s a u hs hu).mp hpass i).symm.trans hv)] at hrest

theorem run_guarded_of_isSome (hrun : run step s as = some t)
    (hparts : ∀ i, (run (partStep i) (part i s) (as.map (view i))).isSome) :
    run (guarded step check) s as = some t := by
  induction as generalizing s with
  | nil => exact hrun
  | cons a as ih =>
    obtain ⟨u,hu,htail⟩ := run_cons_eq_some.mp hrun
    have hnext : ∀ i, ∃ v, partStep i (part i s) (view i a) = some v ∧
        (run (partStep i) v (as.map (view i))).isSome := fun i => by
      obtain ⟨v,hv⟩ := Option.isSome_iff_exists.mp (hparts i)
      rw [List.map_cons] at hv
      obtain ⟨v',hv',hrest⟩ := run_cons_eq_some.mp hv
      exact ⟨v',hv',Option.isSome_iff_exists.mpr ⟨v,hrest⟩⟩
    have hpass : check s a := hdefined s a u hs hu fun i => by
      obtain ⟨v,hv,-⟩ := hnext i
      simp [hv]
    refine run_cons_eq_some.mpr ⟨u,guarded_eq_some.mpr ⟨hpass,hu⟩,ih (hkeep s a u hs hu) htail fun i => ?_⟩
    obtain ⟨v,hv,hrest⟩ := hnext i
    rwa [← Option.some.inj (((hcheck s a u hs hu).mp hpass i).symm.trans hv)] at hrest

end Parts

end ChaosBundle.Runs

import ChaosBundle.Library.Runs

/-! Runs that get somewhere: a rank bounds the steps that count, and a simulation carries
a run over to another system. -/
namespace ChaosBundle.Runs
variable {State Label : Type} {step : State → Label → Option State}

theorem meets_of_forall {allowed : Label → Prop} {labels : List Label}
    (h : ∀ a ∈ labels, allowed a) (s : State) : Meets step (fun _ a => allowed a) s labels := by
  induction labels generalizing s with
  | nil => trivial
  | cons a as ih =>
    obtain ⟨ha,has⟩ := List.forall_mem_cons.mp h
    exact ⟨ha,fun t _ => ih has t⟩

theorem meets_and_forall {allowed : State → Label → Prop} {P : Label → Prop} {labels : List Label}
    (h : ∀ a ∈ labels, P a) {s : State} (hmeets : Meets step allowed s labels) :
    Meets step (fun s a => allowed s a ∧ P a) s labels := by
  induction labels generalizing s with
  | nil => trivial
  | cons a as ih =>
    obtain ⟨ha,has⟩ := List.forall_mem_cons.mp h
    exact ⟨⟨hmeets.1,ha⟩,fun t ht => ih has (hmeets.2 t ht)⟩

/-- A rank that never rises, and falls in each step that counts, bounds those steps. -/
theorem countP_add_rank_le {I : State → Prop} {rank : State → Nat} {counts : Label → Bool}
    (hstep : ∀ s a t, I s → step s a = some t → I t)
    (hrank : ∀ s a t, I s → step s a = some t → (if counts a then 1 else 0) + rank t ≤ rank s)
    {s t : State} {labels : List Label} (hrun : run step s labels = some t) (hs : I s) :
    labels.countP counts + rank t ≤ rank s := by
  induction labels generalizing s with
  | nil =>
    cases hrun
    simp
  | cons a as ih =>
    obtain ⟨u,hu,htail⟩ := run_cons_eq_some.mp hrun
    have hhead := hrank s a u hs hu
    have htail := ih htail (hstep s a u hs hu)
    rw [List.countP_cons]
    omega

/-- Simulation with delayed outputs: a step is answered by a run of the other system, which
may owe some of the outputs until later. -/
theorem run_simulates {State' Label' Out : Type} {step' : State' → Label' → Option State'}
    {allowed : State → Label → Prop} {out : Label → List Out} {out' : Label' → List Out}
    {R : State → State' → List Out → Prop}
    (hstep : ∀ s s' owed a t, R s s' owed → allowed s a → step s a = some t → ∃ as' t' owed',
      run step' s' as' = some t' ∧ R t t' owed' ∧ owed ++ out a = as'.flatMap out' ++ owed')
    {s t : State} {s' : State'} {owed : List Out} {as : List Label} (hrun : run step s as = some t)
    (hmeets : Meets step allowed s as) (hs : R s s' owed) : ∃ as' t' owed',
      run step' s' as' = some t' ∧ R t t' owed' ∧ owed ++ as.flatMap out = as'.flatMap out' ++ owed' := by
  induction as generalizing s s' owed with
  | nil =>
    cases hrun
    exact ⟨[],s',owed,rfl,hs,by simp⟩
  | cons a as ih =>
    obtain ⟨u,hu,htail⟩ := run_cons_eq_some.mp hrun
    obtain ⟨as₁,u',owed₁,hrun₁,hR₁,hout₁⟩ := hstep s s' owed a u hs hmeets.1 hu
    obtain ⟨as₂,t',owed₂,hrun₂,hR₂,hout₂⟩ := ih htail (hmeets.2 u hu) hR₁
    refine ⟨as₁ ++ as₂,t',owed₂,?_,hR₂,?_⟩
    · rw [run_append, hrun₁]
      exact hrun₂
    · rw [List.flatMap_cons, ← List.append_assoc, hout₁, List.append_assoc, hout₂, List.flatMap_append,
        List.append_assoc]

end ChaosBundle.Runs

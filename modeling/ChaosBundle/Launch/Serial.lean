import ChaosBundle.Launch.Overlap

/-! Launches that do not overlap: command by command they do what whole runs of the script
do, in the same order. -/
namespace ChaosBundle.Launch.Overlap
open Function Runs

section Serial
variable {D : Type} [DecidableEq D] {m : Machine D} {c c' : State D} {s : Sys D} {u : UnitId} {i : Nat}

def Quiet (c : State D) : Prop := ∀ j t, c.scripts j = some t → t.pc = .done

/-- While a script is under way nothing else happens. -/
def Serial (c : State D) : Label → Prop
  | .script _ _ => True
  | .begin _ _ | .exit _ | .spawn _ => Quiet c

/-- An event without the number that the host chooses. -/
def anonymous : Event → List Event
  | .launch u _ => [.launch u 0]
  | a => [a]

def outward : Label → List Event
  | .begin _ u => [.launch u 0]
  | .script _ _ => []
  | .exit pid => [.exit pid]
  | .spawn pid => [.spawn pid]

/-- What a script has done by its place to the host that it found. -/
def Under (m : Machine D) (s : Sys D) (u : UnitId) (now : Sys D) : Pc → Prop
  | .test => now = s
  | .cat => Accepted m u ∧ hasPidfile m s u ∧ now = s
  | .rm ks => Accepted m u ∧ hasPidfile m s u ∧ ks = ptokill m s u ∧ now = s
  | .kill ks => Accepted m u ∧ ks = ptokill m s u ∧ now = ⟨eraseAll (reached m s u) s.pidfiles,s.procs⟩
  | .start => Accepted m u ∧ now = stopPrevious m s u
  | .echo ppid => Accepted m u ∧ ppid ∉ (stopPrevious m s u).procs ∧
      now = ⟨(stopPrevious m s u).pidfiles,(stopPrevious m s u).procs.insert ppid (some u)⟩
  | .done => False

/-- Between two scripts the hosts are the same; while one is under way its launch is owed. -/
def Refines (m : Machine D) (c : State D) (s : Sys D) (owed : List Event) : Prop :=
  (Quiet c ∧ c.sys = s ∧ owed = []) ∨
  ∃ i u pc, c.scripts i = some ⟨u,pc⟩ ∧ (∀ j t, j ≠ i → c.scripts j = some t → t.pc = .done) ∧
    Under m s u c.sys pc ∧ owed = [.launch u 0]

private theorem reached_eq (h : hasPidfile m s u) : reached m s u = expand m s (pidfile u) := if_pos h

private theorem stopPrevious_eq (h : ¬ hasPidfile m s u) : stopPrevious m s u = s := by
  have hreached : reached m s u = [] := if_neg h
  simp [stopPrevious, ptokill, hreached, eraseAll]

/-- A command brings the script one place further, and the last one completes the launch. -/
theorem scriptStep_under {now now' : Sys D} {ppid : Nat} {pc pc' : Pc} (hs : Under m s u now pc)
    (h : scriptStep m now u ppid pc = some (now',pc')) :
    Under m s u now' pc' ∨ (pc' = .done ∧ ∃ p, launchUnit m s u p = some now') := by
  cases pc with
  | test =>
    obtain rfl : now = s := hs
    simp only [scriptStep] at h
    split_ifs at h with haccepted hfile
    all_goals cases h
    · exact .inl ⟨haccepted,hfile,rfl⟩
    · exact .inl ⟨haccepted,(stopPrevious_eq hfile).symm⟩
    · exact .inr ⟨rfl,0,if_neg haccepted⟩
  | cat =>
    obtain ⟨haccepted,hfile,rfl⟩ := hs
    cases h
    refine .inl ⟨haccepted,hfile,?_,rfl⟩
    rw [ptokill, reached_eq hfile]
  | rm ks =>
    obtain ⟨haccepted,hfile,rfl,rfl⟩ := hs
    cases h
    refine .inl ⟨haccepted,rfl,?_⟩
    rw [reached_eq hfile]
  | kill ks =>
    obtain ⟨haccepted,rfl,rfl⟩ := hs
    cases h
    exact .inl ⟨haccepted,rfl⟩
  | start =>
    obtain ⟨haccepted,rfl⟩ := hs
    simp only [scriptStep] at h
    split_ifs at h with hlive
    cases h
    exact .inl ⟨haccepted,hlive,rfl⟩
  | echo p =>
    obtain ⟨haccepted,hlive,rfl⟩ := hs
    cases h
    refine .inr ⟨rfl,p,?_⟩
    simp only [launchUnit, if_pos haccepted, if_neg hlive]
    rfl
  | done => exact hs.elim

private theorem step_refines {owed : List Event} (a : Label) (hs : Refines m c s owed) (ha : Serial c a)
    (h : step m c a = some c') : ∃ events s' owed', run (Launch.step m) s events = some s' ∧
      Refines m c' s' owed' ∧ owed ++ outward a = events.flatMap anonymous ++ owed' := by
  cases a with
  | begin i u =>
    simp only [step] at h
    split_ifs at h with hi
    cases h
    obtain ⟨-,rfl,rfl⟩ | ⟨j,v,pc,hj,-,hunder,-⟩ := hs
    · refine ⟨[],_,_,rfl,.inr ⟨i,u,.test,update_self _ _ _,fun j t hji hj => ha j t ?_,rfl,rfl⟩,rfl⟩
      exact (update_of_ne hji _ _).symm.trans hj
    · obtain rfl : pc = .done := ha j _ hj
      exact hunder.elim
  | script i ppid =>
    obtain ⟨u,pc,pc',hi,hstep,hscripts⟩ := step_script h
    have hpc : pc ≠ .done := by
      rintro rfl
      cases hstep
    obtain ⟨hquiet,-,-⟩ | ⟨j,v,pc₀,hj,hothers,hunder,rfl⟩ := hs
    · exact absurd (hquiet i _ hi) hpc
    have hji : i = j := by
      by_contra hne
      exact hpc (hothers i _ hne hi)
    subst hji
    obtain ⟨rfl,rfl⟩ : u = v ∧ pc = pc₀ := by simpa [hi] using hj
    have hrest : ∀ j t, j ≠ i → c'.scripts j = some t → t.pc = .done := fun j t hne hj => by
      rw [hscripts, update_of_ne hne] at hj
      exact hothers j t hne hj
    have hself : c'.scripts i = some ⟨u,pc'⟩ := by rw [hscripts, update_self]
    obtain hunder | ⟨rfl,p,hlaunch⟩ := scriptStep_under hunder hstep
    · exact ⟨[],s,_,rfl,.inr ⟨i,u,pc',hself,hrest,hunder,rfl⟩,rfl⟩
    · have hquiet : Quiet c' := fun k t hk => by
        by_cases hki : k = i
        · rw [hki, hself] at hk
          cases hk
          rfl
        · exact hrest k t hki hk
      exact ⟨[.launch u p],_,[],run_cons_eq_some.mpr ⟨_,hlaunch,rfl⟩,.inl ⟨hquiet,rfl,rfl⟩,rfl⟩
  | exit pid =>
    cases h
    obtain ⟨hquiet,rfl,rfl⟩ | ⟨j,v,pc,hj,-,hunder,-⟩ := hs
    · exact ⟨[.exit pid],_,[],rfl,.inl ⟨hquiet,rfl,rfl⟩,rfl⟩
    · obtain rfl : pc = .done := ha j _ hj
      exact hunder.elim
  | spawn pid =>
    obtain ⟨t,ht,rfl⟩ := Option.map_eq_some_iff.mp h
    obtain ⟨hquiet,rfl,rfl⟩ | ⟨j,v,pc,hj,-,hunder,-⟩ := hs
    · exact ⟨[.spawn pid],t,[],run_cons_eq_some.mpr ⟨_,ht,rfl⟩,.inl ⟨hquiet,rfl,rfl⟩,rfl⟩
    · obtain rfl : pc = .done := ha j _ hj
      exact hunder.elim

/-- Scripts that run one after the other leave the host that whole launches leave, made in
the same order among the same events. -/
theorem serial_refines {labels : List Label} (hrun : run (step m) initial labels = some c)
    (hmeets : Meets (step m) Serial initial labels) (hquiet : Quiet c) :
    ∃ events, run (Launch.step m) Launch.initial events = some c.sys ∧
      events.flatMap anonymous = labels.flatMap outward := by
  have hinitial : Refines m initial Launch.initial [] :=
    .inl ⟨forall_none,rfl,rfl⟩
  obtain ⟨events,s,owed,hevents,hrefines,hout⟩ :=
    run_simulates (R := Refines m) (fun _ _ _ a _ hs ha h => step_refines a hs ha h) hrun hmeets hinitial
  obtain ⟨-,rfl,rfl⟩ | ⟨i,u,pc,hi,-,hunder,-⟩ := hrefines
  · exact ⟨events,hevents,by simpa using hout.symm⟩
  · obtain rfl : pc = .done := hquiet i _ hi
    exact hunder.elim

end Serial

def relaunch : List Label :=
  [.begin 0 (unitServer "MAG"),.script 0 0,.script 0 7,.script 0 0,.spawn 3,.begin 1 (unitServer "MAG"),
    .script 1 0,.script 1 0,.script 1 0,.script 1 0,.script 1 8,.script 1 0]

theorem relaunch_refines : ∃ c events, run (step tmpOnly) initial relaunch = some c ∧
    c.sys.procs.lookup 8 = some (some (unitServer "MAG")) ∧
    run (Launch.step tmpOnly) Launch.initial events = some c.sys ∧ events.flatMap anonymous =
      [.launch (unitServer "MAG") 0,.spawn 3,.launch (unitServer "MAG") 0] := by
  have hmeets : Meets (step tmpOnly) Serial initial relaunch := by
    refine ⟨forall_none,?_⟩
    rintro _ ⟨⟩
    refine ⟨trivial,?_⟩
    rintro _ ⟨⟩
    refine ⟨trivial,?_⟩
    rintro _ ⟨⟩
    refine ⟨trivial,?_⟩
    rintro _ ⟨⟩
    refine ⟨fun j t hj => ?_,?_⟩
    · match j with
      | 0 =>
        cases hj
        rfl
      | j+1 => cases hj
    rintro _ ⟨⟩
    refine ⟨fun j t hj => ?_,?_⟩
    · match j with
      | 0 =>
        cases hj
        rfl
      | j+1 => cases hj
    rintro _ ⟨⟩
    exact ⟨trivial,fun _ _ => ⟨trivial,fun _ _ => ⟨trivial,fun _ _ => ⟨trivial,fun _ _ =>
      ⟨trivial,fun _ _ => ⟨trivial,fun _ _ => trivial⟩⟩⟩⟩⟩⟩
  obtain ⟨events,hevents,hout⟩ := serial_refines rfl hmeets fun j t hj => by
    match j with
    | 0 =>
      cases hj
      rfl
    | 1 =>
      cases hj
      rfl
    | j+2 => cases hj
  exact ⟨_,events,rfl,by decide,hevents,hout⟩

end ChaosBundle.Launch.Overlap

import ChaosBundle.Launch.ForeignProcesses
import ChaosBundle.Library.Progress
import Mathlib.Logic.Function.Basic

/-! Runs of `chaos_launch_unit.sh` that overlap: each command that reads or changes the
pid files or the processes is a step of its own, and the steps of the scripts that are
under way mix in any order. -/
namespace ChaosBundle.Launch.Overlap
open Function Glob Runs ShellWords

/-- The next command of a script, with the variable that it holds. -/
inductive Pc where
  | test | cat | rm (ptokill : List Nat) | kill (ptokill : List Nat)
  | start | echo (ppid : Nat) | done
  deriving DecidableEq

def Pc.numbers : Pc → List Nat
  | .rm ptokill | .kill ptokill => ptokill
  | .echo ppid => [ppid]
  | .test | .cat | .start | .done => []

structure Script where
  unit : UnitId
  pc : Pc
  deriving DecidableEq

structure State (D : Type) where
  sys : Sys D
  scripts : Nat → Option Script

inductive Label where
  | begin (i : Nat) (u : UnitId) | script (i ppid : Nat) | exit (pid : Nat) | spawn (pid : Nat)
  deriving DecidableEq

def initial {D : Type} : State D := ⟨Launch.initial,fun _ => none⟩

def begunUnits (labels : List Label) : List UnitId :=
  labels.filterMap fun | .begin _ u => some u | _ => none

section Script
variable {D : Type} [DecidableEq D] (m : Machine D)

/-- One command. `rm` and `cat` expand the word anew, and complain where nothing is left. -/
def scriptStep (s : Sys D) (u : UnitId) (ppid : Nat) : Pc → Option (Sys D × Pc)
  | .test =>
    if Accepted m u then some (s,if hasPidfile m s u then .cat else .start) else some (s,.done)
  | .cat => some (s,.rm ((expand m s (pidfile u)).filterMap s.pidfiles.lookup))
  | .rm ptokill => some (⟨eraseAll (expand m s (pidfile u)) s.pidfiles,s.procs⟩,.kill ptokill)
  | .kill ptokill => some (⟨s.pidfiles,eraseAll ptokill s.procs⟩,.start)
  | .start => if ppid ∈ s.procs then none else some (⟨s.pidfiles,s.procs.insert ppid (some u)⟩,.echo ppid)
  | .echo ppid => some ({s with pidfiles := match fileAt m (pidfile u) with
      | some k => s.pidfiles.insert k ppid
      | none => s.pidfiles},.done)
  | .done => none

def step (c : State D) : Label → Option (State D)
  | .begin i u =>
    if c.scripts i = none then some {c with scripts := update c.scripts i (some ⟨u,.test⟩)} else none
  | .script i ppid => match c.scripts i with
    | some ⟨u,pc⟩ => (scriptStep m c.sys u ppid pc).map fun (s,pc') =>
        ⟨s,update c.scripts i (some ⟨u,pc'⟩)⟩
    | none => none
  | .exit pid => (Launch.step m c.sys (.exit pid)).map fun s => {c with sys := s}
  | .spawn pid => (Launch.step m c.sys (.spawn pid)).map fun s => {c with sys := s}

end Script

section Kills
variable {D : Type} [DecidableEq D] {m : Machine D} {units : List UnitId} {c c' : State D} {u : UnitId}
  {i : Nat}

theorem step_script {ppid : Nat} (h : step m c (.script i ppid) = some c') :
    ∃ u pc pc', c.scripts i = some ⟨u,pc⟩ ∧ scriptStep m c.sys u ppid pc = some (c'.sys,pc') ∧
      c'.scripts = update c.scripts i (some ⟨u,pc'⟩) := by
  simp only [step] at h
  split at h
  · rename_i u pc hpc
    obtain ⟨⟨s,pc'⟩,hstep,rfl⟩ := Option.map_eq_some_iff.mp h
    exact ⟨u,pc,pc',hpc,hstep,rfl⟩
  · cases h

theorem mayReach_of_expand {s : Sys D} {k : D × Word} (hk : k ∈ expand m s (pidfile u)) :
    MayReach m (pidfile u) k := by
  obtain ⟨field,hfield,hk⟩ := List.mem_flatMap.mp hk
  refine ⟨field,hfield,?_⟩
  simp only [expandField] at hk
  split_ifs at hk with hpat
  · exact .inr ⟨hpat.1,by simpa using (List.mem_filter.mp hk).2⟩
  · exact .inl (by simpa using (List.mem_filter.mp hk).1)

/-- A number that a script holds is that of a process of its unit, or of none. -/
def Holds (s : Sys D) (u : UnitId) (pc : Pc) : Prop :=
  ∀ n ∈ pc.numbers, ∀ o, s.procs.lookup n = some o → o = some u

/-- The same for the numbers that the pid files and all the scripts keep. -/
structure Sound (m : Machine D) (units : List UnitId) (c : State D) : Prop where
  files : Owned m units c.sys
  scripts : ∀ i u pc, c.scripts i = some ⟨u,pc⟩ → u ∈ units ∧ Holds c.sys u pc

/-- A new process is given no number that a pid file or a script keeps, except for the
file and the scripts of its own unit. -/
def FreshNumber (m : Machine D) (c : State D) : Label → Prop
  | .script i ppid => ∀ u, c.scripts i = some ⟨u,.start⟩ →
      (∀ k, c.sys.pidfiles.lookup k = some ppid → fileAt m (pidfile u) = some k) ∧
      ∀ j v pc, c.scripts j = some ⟨v,pc⟩ → ppid ∈ pc.numbers → v = u
  | .spawn pid => (∀ k, c.sys.pidfiles.lookup k ≠ some pid) ∧
      ∀ j v pc, c.scripts j = some ⟨v,pc⟩ → pid ∉ pc.numbers
  | .begin _ _ | .exit _ => True

omit [DecidableEq D] in
theorem Holds.mono {s t : Sys D} {pc : Pc} (h : Holds s u pc)
    (hprocs : ∀ n o, t.procs.lookup n = some o → s.procs.lookup n = some o) : Holds t u pc :=
  fun n hn o ho => h n hn o (hprocs n o ho)

theorem Owned.mono {s t : Sys D} (h : Owned m units s)
    (hfiles : ∀ k n, t.pidfiles.lookup k = some n → s.pidfiles.lookup k = some n)
    (hprocs : ∀ n o, t.procs.lookup n = some o → s.procs.lookup n = some o) : Owned m units t :=
  fun k n o hk hn => h k n o (hfiles k n hk) (hprocs n o hn)

/-- One command of a script keeps the numbers right: its own, those of the other scripts
and those in the files. -/
theorem scriptStep_sound {s t : Sys D} {ppid : Nat} {pc pc' : Pc} (hsep : Separated m units)
    (hu : u ∈ units) (hfiles : Owned m units s) (hholds : Holds s u pc)
    (hfresh : pc = .start → ∀ k, s.pidfiles.lookup k = some ppid → fileAt m (pidfile u) = some k)
    (h : scriptStep m s u ppid pc = some (t,pc')) :
    Owned m units t ∧ Holds t u pc' ∧ ∀ v pc'', Holds s v pc'' →
      (pc = .start → ppid ∈ pc''.numbers → v = u) → Holds t v pc'' := by
  cases pc with
  | test =>
    simp only [scriptStep] at h
    split_ifs at h
    all_goals
      cases h
      refine ⟨hfiles,fun n hn => ?_,fun v pc'' hv _ => hv⟩
      simp [Pc.numbers] at hn
  | cat =>
    cases h
    refine ⟨hfiles,fun n hn o ho => ?_,fun v pc'' hv _ => hv⟩
    obtain ⟨k,hk,hn⟩ := List.mem_filterMap.mp hn
    obtain ⟨v,hv,rfl,hkv⟩ := hfiles k n o hn ho
    by_contra hne
    exact hsep u hu v hv (fun h => hne (h ▸ rfl)) k hkv (mayReach_of_expand hk)
  | rm ptokill =>
    cases h
    refine ⟨Owned.mono hfiles (fun k n hk => (lookup_eraseAll_some.mp hk).2) fun _ _ ho => ho,hholds,?_⟩
    exact fun v pc'' hv _ => hv
  | kill ptokill =>
    cases h
    have hprocs : ∀ n o, (eraseAll ptokill s.procs).lookup n = some o → s.procs.lookup n = some o :=
      fun n o ho => (lookup_eraseAll_some.mp ho).2
    refine ⟨Owned.mono hfiles (fun _ _ hk => hk) hprocs,fun n hn => ?_,fun v pc'' hv _ => hv.mono hprocs⟩
    simp [Pc.numbers] at hn
  | start =>
    simp only [scriptStep] at h
    split_ifs at h
    cases h
    refine ⟨?_,?_,?_⟩
    · intro k n o hk ho
      rw [lookup_insert_some] at ho
      split_ifs at ho with hn
      · exact ⟨u,hu,ho,hfresh rfl k (hn ▸ hk)⟩
      · exact hfiles k n o hk ho
    · intro n hn o ho
      obtain rfl := List.mem_singleton.mp hn
      rwa [lookup_insert_some, if_pos rfl] at ho
    · intro v pc'' hv hown n hn o ho
      rw [lookup_insert_some] at ho
      split_ifs at ho with hp
      · rw [hown rfl (hp ▸ hn)]
        exact ho
      · exact hv n hn o ho
  | echo p =>
    cases h
    refine ⟨?_,fun n hn => ?_,fun v pc'' hv _ => hv⟩
    · intro k n o hk ho
      cases hfile : fileAt m (pidfile u) with
      | none => exact hfiles k n o (by simpa [hfile] using hk) ho
      | some k' =>
        simp only [hfile, lookup_insert_some] at hk
        split_ifs at hk with hkk
        · subst hk
          exact ⟨u,hu,hholds n (List.mem_singleton_self n) o ho,hkk ▸ hfile⟩
        · exact hfiles k n o hk ho
    · simp [Pc.numbers] at hn
  | done => cases h

private theorem step_sound (hsep : Separated m units) {a : Label} (hs : Sound m units c)
    (hunits : ∀ i u, a = .begin i u → u ∈ units) (ha : FreshNumber m c a) (h : step m c a = some c') :
    Sound m units c' := by
  cases a with
  | begin i u =>
    simp only [step] at h
    split_ifs at h
    cases h
    refine ⟨hs.files,fun j v pc hj => ?_⟩
    by_cases hji : j = i
    · simp only [hji, update_self, Option.some.injEq, Script.mk.injEq] at hj
      obtain ⟨rfl,rfl⟩ := hj
      exact ⟨hunits i u rfl,fun n hn => by simp [Pc.numbers] at hn⟩
    · simp only [update_of_ne hji] at hj
      exact hs.scripts j v pc hj
  | script i ppid =>
    obtain ⟨u,pc,pc',hpc,hstep,hscripts⟩ := step_script h
    obtain ⟨hu,hholds⟩ := hs.scripts i u pc hpc
    obtain ⟨hfiles,hown,hothers⟩ := scriptStep_sound hsep hu hs.files hholds
      (fun hstart => (ha u (hstart ▸ hpc)).1) hstep
    refine ⟨hfiles,fun j v pc'' hj => ?_⟩
    rw [hscripts] at hj
    by_cases hji : j = i
    · simp only [hji, update_self, Option.some.injEq, Script.mk.injEq] at hj
      obtain ⟨rfl,rfl⟩ := hj
      exact ⟨hu,hown⟩
    · rw [update_of_ne hji] at hj
      obtain ⟨hv,hholds⟩ := hs.scripts j v pc'' hj
      exact ⟨hv,hothers v pc'' hholds fun hstart => (ha u (hstart ▸ hpc)).2 j v pc'' hj⟩
  | exit pid =>
    cases h
    have hprocs : ∀ n o, (c.sys.procs.erase pid).lookup n = some o → c.sys.procs.lookup n = some o :=
      fun n o ho => (lookup_erase_eq_some.mp ho).2
    exact ⟨Owned.mono hs.files (fun _ _ hk => hk) hprocs,
      fun j v pc hj => ⟨(hs.scripts j v pc hj).1,(hs.scripts j v pc hj).2.mono hprocs⟩⟩
  | spawn pid =>
    simp only [step, Launch.step] at h
    split_ifs at h
    · cases h
    simp only [Option.map_some, Option.some.injEq] at h
    subst h
    constructor
    · intro k n o hk ho
      change (c.sys.procs.insert pid none).lookup n = some o at ho
      rw [lookup_insert_some] at ho
      split_ifs at ho with hn
      · exact absurd (hn ▸ hk) (ha.1 k)
      · exact hs.files k n o hk ho
    · intro j v pc hj
      obtain ⟨hv,hholds⟩ := hs.scripts j v pc hj
      refine ⟨hv,fun n hn o ho => ?_⟩
      change (c.sys.procs.insert pid none).lookup n = some o at ho
      rw [lookup_insert_some] at ho
      split_ifs at ho with hp
      · exact absurd (hp ▸ hn) (ha.2 j v pc hj)
      · exact hholds n hn o ho

theorem mem_begunUnits {labels : List Label} : u ∈ begunUnits labels ↔ ∃ i, .begin i u ∈ labels := by
  simp only [begunUnits, List.mem_filterMap]
  constructor
  · rintro ⟨a,ha,hu⟩
    cases a <;> cases hu
    exact ⟨_,ha⟩
  · rintro ⟨i,hi⟩
    exact ⟨_,hi,rfl⟩

private theorem initial_sound : Sound m units (initial : State D) := by
  constructor
  · intro k n o hk
    simp [initial, Launch.initial] at hk
  · intro i u pc hi
    cases hi

private theorem run_sound {labels : List Label} (hrun : run (step m) initial labels = some c)
    (hmeets : Meets (step m) (FreshNumber m) initial labels)
    (hsep : Separated m (begunUnits labels)) : Sound m (begunUnits labels) c := by
  have hunits : ∀ a ∈ labels, ∀ i u, a = .begin i u → u ∈ begunUnits labels := by
    rintro a ha i u rfl
    exact mem_begunUnits.mpr ⟨i,ha⟩
  exact run_invariant_of_meets (I := Sound m (begunUnits labels))
    (fun s a t hs ha hstep => step_sound hsep hs ha.2 ha.1 hstep) hrun (meets_and_forall hunits hmeets)
    initial_sound

private theorem scriptStep_spares {s t : Sys D} {ppid : Nat} {pc pc' : Pc} (hholds : Holds s u pc)
    (h : scriptStep m s u ppid pc = some (t,pc')) {n : Nat} {o : Option UnitId}
    (hlive : s.procs.lookup n = some o) (ho : o ≠ some u) : t.procs.lookup n = some o := by
  cases pc with
  | test =>
    simp only [scriptStep] at h
    split_ifs at h
    all_goals
      cases h
      exact hlive
  | kill ptokill =>
    cases h
    exact lookup_eraseAll_some.mpr ⟨fun hn => ho (hholds n hn o hlive),hlive⟩
  | start =>
    simp only [scriptStep] at h
    split_ifs at h with hp
    cases h
    have hn : n ≠ ppid := by
      rintro rfl
      exact hp (AList.lookup_isSome.mp (by simp [hlive]))
    exact lookup_insert_some.mpr (by rwa [if_neg hn])
  | done => cases h
  | _ =>
    cases h
    exact hlive

/-- However the commands of overlapping launches mix, a script sends its signal to processes
of its own unit only, and every other process survives each of its commands. -/
theorem overlapping_launches_spare {labels : List Label} (hrun : run (step m) initial labels = some c)
    (hmeets : Meets (step m) (FreshNumber m) initial labels) (hsep : Separated m (begunUnits labels))
    {pc : Pc} (hi : c.scripts i = some ⟨u,pc⟩) :
    (∀ ptokill, pc = .kill ptokill → ∀ n ∈ ptokill, ∀ o, c.sys.procs.lookup n = some o → o = some u) ∧
    ∀ ppid c', step m c (.script i ppid) = some c' → ∀ n o, c.sys.procs.lookup n = some o →
      o ≠ some u → c'.sys.procs.lookup n = some o := by
  obtain ⟨-,hholds⟩ := (run_sound hrun hmeets hsep).scripts i u pc hi
  constructor
  · rintro ptokill rfl
    exact hholds
  · intro ppid c' h n o hlive ho
    obtain ⟨v,pc₀,pc',hpc,hstep,-⟩ := step_script h
    obtain ⟨rfl,rfl⟩ : u = v ∧ pc = pc₀ := by simpa [hi] using hpc
    exact scriptStep_spares hholds hstep hlive ho

end Kills

/-- The relaunch of one unit mixes with the launch of another. -/
def mixed : List Label :=
  [.begin 0 (unitServer "MAG"),.script 0 0,.script 0 7,.script 0 0,.begin 1 (unitServer "MAG"),
    .begin 2 (unitServer "DIA-1"),.script 1 0,.script 2 0,.script 1 0,.script 2 8,.script 1 0]

section Witness
variable {D : Type} [DecidableEq D] {m : Machine D} {c : State D} {i ppid : Nat}

private theorem fresh_of_pc (h : (c.scripts i).map Script.pc ≠ some .start) :
    FreshNumber m c (.script i ppid) := fun u hu => by simp [hu] at h

private theorem fresh_of_unused (hfiles : ppid ∉ c.sys.pidfiles.entries.map (·.2))
    (hscripts : ∀ j s, c.scripts j = some s → ppid ∉ s.pc.numbers) : FreshNumber m c (.script i ppid) := by
  refine fun u _ => ⟨fun k hk => absurd ?_ hfiles,fun j v pc hj hp => absurd hp (hscripts j _ hj)⟩
  exact List.mem_map.mpr ⟨⟨k,ppid⟩,AList.mem_lookup_iff.mp hk,rfl⟩

theorem forall_update {scripts : Nat → Option Script} {P : Script → Prop} {s : Script} (hs : P s)
    (h : ∀ j t, scripts j = some t → P t) (j : Nat) (t : Script)
    (hj : update scripts i (some s) j = some t) : P t := by
  by_cases hji : j = i
  · subst hji
    simp only [update_self, Option.some.injEq] at hj
    exact hj ▸ hs
  · rw [update_of_ne hji] at hj
    exact h j t hj

theorem forall_none {P : Script → Prop} (j : Nat) (t : Script)
    (hj : (fun _ => none : Nat → Option Script) j = some t) : P t := by cases hj

theorem mixed_unambiguous : ∀ u ∈ begunUnits mixed, u.Unambiguous := by
  intro u hu
  have hu : u = unitServer "MAG" ∨ u = unitServer "DIA-1" := by
    revert u
    decide
  rcases hu with rfl | rfl
  all_goals exact ⟨by decide,by decide,by decide⟩

end Witness

theorem mixed_spared : ∃ c, run (step tmpOnly) initial mixed = some c ∧
    c.scripts 1 = some ⟨unitServer "MAG",.kill [7]⟩ ∧ c.sys.procs.lookup 7 = some (some (unitServer "MAG")) ∧
    ∀ c', step tmpOnly c (.script 1 0) = some c' →
      c'.sys.procs.lookup 8 = some (some (unitServer "DIA-1")) := by
  have hmeets : Meets (step tmpOnly) (FreshNumber tmpOnly) initial mixed := by
    refine ⟨trivial,?_⟩
    rintro _ ⟨⟩
    refine ⟨fresh_of_pc (by decide),?_⟩
    rintro _ ⟨⟩
    refine ⟨fresh_of_unused (by decide) ?_,?_⟩
    · exact forall_update (by decide) (forall_update (by decide) forall_none)
    rintro _ ⟨⟩
    refine ⟨fresh_of_pc (by decide),?_⟩
    rintro _ ⟨⟩
    refine ⟨trivial,?_⟩
    rintro _ ⟨⟩
    refine ⟨trivial,?_⟩
    rintro _ ⟨⟩
    refine ⟨fresh_of_pc (by decide),?_⟩
    rintro _ ⟨⟩
    refine ⟨fresh_of_pc (by decide),?_⟩
    rintro _ ⟨⟩
    refine ⟨fresh_of_pc (by decide),?_⟩
    rintro _ ⟨⟩
    refine ⟨fresh_of_unused (by decide) ?_,?_⟩
    · repeat' apply forall_update
      all_goals first
        | exact forall_none
        | decide
    rintro _ ⟨⟩
    exact ⟨fresh_of_pc (by decide),fun _ _ => trivial⟩
  refine ⟨_,rfl,rfl,by decide,fun c' h => ?_⟩
  exact (overlapping_launches_spare rfl hmeets (separated_of_unambiguous rfl mixed_unambiguous) rfl).2 0 c' h 8 _
    (by decide) (by decide)

end ChaosBundle.Launch.Overlap

import ChaosBundle.Launch.Overlap
import ChaosBundle.Launch.SingleInstance

/-! One live process for each unit while launches overlap, as long as no unit is launched
twice at the same time. -/
namespace ChaosBundle.Launch.Overlap
open Function Glob Runs ShellWords

/-- The script has not touched its pid file, or has finished. -/
def Pc.idle : Pc → Bool
  | .test | .cat | .done => true
  | .rm _ | .kill _ | .start | .echo _ => false

section Instances
variable {D : Type} [DecidableEq D] {m : Machine D} {tmp : D} {units : List UnitId} {c c' : State D}
  {u : UnitId} {i : Nat}

/-- A launch begins when no other launch of its unit is under way. -/
def Uncontended (c : State D) : Label → Prop
  | .begin _ u => ∀ j pc, c.scripts j = some ⟨u,pc⟩ → pc = .done
  | _ => True

def Live (s : Sys D) (u : UnitId) (n : Nat) : Prop := s.procs.lookup n = some (some u)

/-- The script holds the number, or the pid file still does. -/
def Tracks (tmp : D) (s : Sys D) (u : UnitId) (pc : Pc) (n : Nat) : Prop :=
  n ∈ pc.numbers ∨ (s.pidfiles.lookup (tmp,pidname u) = some n ∧ pc.idle)

structure OneEach (tmp : D) (units : List UnitId) (c : State D) : Prop where
  scripts : ∀ i s, c.scripts i = some s → s.unit ∈ units
  owners : ∀ n u, Live c.sys u n → u ∈ units
  alone : ∀ i j s t, c.scripts i = some s → c.scripts j = some t → s.unit = t.unit →
    s.pc ≠ .done → t.pc ≠ .done → i = j
  tracked : ∀ n u, Live c.sys u n → (∃ i pc, c.scripts i = some ⟨u,pc⟩ ∧ n ∈ pc.numbers) ∨
    (c.sys.pidfiles.lookup (tmp,pidname u) = some n ∧ ∀ i pc, c.scripts i = some ⟨u,pc⟩ → pc.idle)
  single : SingleInstance c.sys

private theorem initial_oneEach : OneEach tmp units (initial : State D) := by
  constructor <;> simp [initial, Launch.initial, Live, SingleInstance]

private theorem OneEach.tracks (hs : OneEach tmp units c) {pc : Pc} (hi : c.scripts i = some ⟨u,pc⟩)
    (hpc : pc ≠ .done) {n : Nat} (hn : Live c.sys u n) : Tracks tmp c.sys u pc n := by
  rcases hs.tracked n u hn with ⟨j,pc',hj,hnumber⟩ | ⟨hfile,hidle⟩
  · have hpc' : pc' ≠ .done := by
      rintro rfl
      simp [Pc.numbers] at hnumber
    obtain rfl := hs.alone i j _ _ hi hj rfl hpc hpc'
    obtain rfl : pc = pc' := by simpa [hi] using hj
    exact .inl hnumber
  · exact .inr ⟨hfile,hidle i pc hi⟩

section Step
variable {s t : Sys D} {ppid : Nat} {pc pc' : Pc} (htmp : m.directory tmpDir = some tmp)
include htmp

/-- A command hands the number on: from the file to the script, and back to the file. -/
theorem scriptStep_tracks (hu : u.Plain) (h : scriptStep m s u ppid pc = some (t,pc'))
    (hs : ∀ n, Live s u n → Tracks tmp s u pc n) {n : Nat} (hn : Live t u n) : Tracks tmp t u pc' n := by
  cases pc with
  | test =>
    simp only [scriptStep] at h
    split_ifs at h with haccepted hfile
    all_goals
      cases h
      rcases hs n hn with hnumber | ⟨hlookup,-⟩
      · simp [Pc.numbers] at hnumber
    · exact .inr ⟨hlookup,rfl⟩
    · have hmem : (tmp,pidname u) ∈ s.pidfiles := AList.lookup_isSome.mp (by simp [hlookup])
      exact absurd (by simpa [hasPidfile, fileAt_pidfile hu htmp] using hmem) hfile
    · exact .inr ⟨hlookup,rfl⟩
  | cat =>
    cases h
    rcases hs n hn with hnumber | ⟨hlookup,-⟩
    · simp [Pc.numbers] at hnumber
    · have hmem : (tmp,pidname u) ∈ s.pidfiles := AList.lookup_isSome.mp (by simp [hlookup])
      exact .inl (List.mem_filterMap.mpr ⟨_,expand_pidfile hu htmp hmem,hlookup⟩)
  | rm ptokill =>
    cases h
    rcases hs n hn with hnumber | ⟨-,hidle⟩
    · exact .inl hnumber
    · simp [Pc.idle] at hidle
  | kill ptokill =>
    cases h
    obtain ⟨hkilled,hlive⟩ := lookup_eraseAll_some.mp hn
    rcases hs n hlive with hnumber | ⟨-,hidle⟩
    · exact absurd hnumber hkilled
    · simp [Pc.idle] at hidle
  | start =>
    simp only [scriptStep] at h
    split_ifs at h
    cases h
    rw [Live, lookup_insert_some] at hn
    split_ifs at hn with hp
    · exact .inl (List.mem_singleton.mpr hp)
    · rcases hs n hn with hnumber | ⟨-,hidle⟩
      · simp [Pc.numbers] at hnumber
      · simp [Pc.idle] at hidle
  | echo p =>
    cases h
    rcases hs n hn with hnumber | ⟨-,hidle⟩
    · refine .inr ⟨?_,rfl⟩
      simp only [fileAt_pidfile hu htmp]
      exact lookup_insert_some.mpr ((if_pos rfl).mpr (List.mem_singleton.mp hnumber))
    · simp [Pc.idle] at hidle
  | done => cases h

private theorem scriptStep_file (hunits : ∀ u ∈ units, u.Unambiguous) (hu : u ∈ units) {v : UnitId}
    (hv : v ∈ units) (hne : v ≠ u) (h : scriptStep m s u ppid pc = some (t,pc')) :
    t.pidfiles.lookup (tmp,pidname v) = s.pidfiles.lookup (tmp,pidname v) := by
  cases pc with
  | test =>
    simp only [scriptStep] at h
    split_ifs at h
    all_goals
      cases h
      rfl
  | rm ptokill =>
    cases h
    rw [lookup_eraseAll, if_neg]
    intro hk
    exact separated_of_unambiguous htmp hunits u hu v hv hne.symm _
      (fileAt_pidfile (hunits v hv).plain htmp) (mayReach_of_expand hk)
  | start =>
    simp only [scriptStep] at h
    split_ifs at h
    cases h
    rfl
  | echo p =>
    cases h
    simp only [fileAt_pidfile (hunits u hu).plain htmp]
    refine AList.lookup_insert_ne fun heq => hne ?_
    exact pidname_injective (hunits v hv) (hunits u hu) (Prod.mk.inj heq).2
  | done => cases h
  | _ =>
    cases h
    rfl

omit htmp in
private theorem live_of_scriptStep (h : scriptStep m s u ppid pc = some (t,pc')) {v : UnitId} {n : Nat}
    (hn : Live t v n) : Live s v n ∨ (v = u ∧ pc = .start ∧ n = ppid) := by
  cases pc with
  | test =>
    simp only [scriptStep] at h
    split_ifs at h
    all_goals
      cases h
      exact .inl hn
  | kill ptokill =>
    cases h
    exact .inl (lookup_eraseAll_some.mp hn).2
  | start =>
    simp only [scriptStep] at h
    split_ifs at h
    cases h
    rw [Live, lookup_insert_some] at hn
    split_ifs at hn with hp
    · exact .inr ⟨Option.some.inj hn,rfl,hp⟩
    · exact .inl hn
  | done => cases h
  | _ =>
    cases h
    exact .inl hn

end Step

private theorem OneEach.script (hs : OneEach tmp units c) (htmp : m.directory tmpDir = some tmp)
    (hunits : ∀ u ∈ units, u.Unambiguous) {ppid : Nat} (h : step m c (.script i ppid) = some c') :
    OneEach tmp units c' := by
  obtain ⟨u,pc,pc',hi,hstep,hscripts⟩ := step_script h
  have hu : u ∈ units := hs.scripts i _ hi
  have hpc : pc ≠ .done := by
    rintro rfl
    cases hstep
  have hlive : ∀ {v n}, Live c'.sys v n → Live c.sys v n ∨ (v = u ∧ pc = .start ∧ n = ppid) :=
    live_of_scriptStep hstep
  have hstarting : pc = .start → ∀ n, ¬ Live c.sys u n := fun hstart n hn => by
    rcases hs.tracks hi hpc hn with hnumber | ⟨-,hidle⟩
    · simp [hstart, Pc.numbers] at hnumber
    · simp [hstart, Pc.idle] at hidle
  refine ⟨?_,?_,?_,?_,?_⟩
  · rw [hscripts]
    exact forall_update hu hs.scripts
  · intro n v hn
    rcases hlive hn with hn | ⟨rfl,-,-⟩
    · exact hs.owners n v hn
    · exact hu
  · -- The script stays the only one of its unit.
    have hsame : ∀ j t, c'.scripts j = some t → t.pc ≠ .done →
        ∃ t', c.scripts j = some t' ∧ t'.unit = t.unit ∧ t'.pc ≠ .done := by
      intro j t hj ht
      rw [hscripts] at hj
      by_cases hji : j = i
      · simp only [hji, update_self, Option.some.injEq] at hj
        subst hj
        exact ⟨⟨u,pc⟩,hji ▸ hi,rfl,hpc⟩
      · rw [update_of_ne hji] at hj
        exact ⟨t,hj,rfl,ht⟩
    intro j k t t' hj hk hunit ht ht'
    obtain ⟨r,hr,hru,hrpc⟩ := hsame j t hj ht
    obtain ⟨r',hr',hru',hrpc'⟩ := hsame k t' hk ht'
    exact hs.alone j k r r' hr hr' (by rw [hru, hru', hunit]) hrpc hrpc'
  · intro n v hn
    by_cases hv : v = u
    · subst hv
      rcases scriptStep_tracks htmp (hunits v hu).plain hstep (fun n hn => hs.tracks hi hpc hn) hn with
        hnumber | ⟨hfile,hidle⟩
      · exact .inl ⟨i,pc',by rw [hscripts, update_self],hnumber⟩
      · refine .inr ⟨hfile,fun j pc'' hj => ?_⟩
        rw [hscripts] at hj
        by_cases hji : j = i
        · simp only [hji, update_self, Option.some.injEq, Script.mk.injEq, true_and] at hj
          exact hj ▸ hidle
        · rw [update_of_ne hji] at hj
          by_contra hbusy
          refine hji (hs.alone j i _ _ hj hi rfl ?_ hpc)
          rintro rfl
          exact hbusy rfl
    · have hn : Live c.sys v n := (hlive hn).resolve_right fun h => hv h.1
      have hother : ∀ j pc'', c'.scripts j = some ⟨v,pc''⟩ ↔ c.scripts j = some ⟨v,pc''⟩ := by
        intro j pc''
        rw [hscripts]
        by_cases hji : j = i
        · simp [hji, hi, Ne.symm hv]
        · rw [update_of_ne hji]
      simp only [hother, scriptStep_file htmp hunits hu (hs.owners n v hn) hv hstep]
      exact hs.tracked n v hn
  · intro v n n' hn hn'
    rcases hlive hn with hn | ⟨rfl,hstart,rfl⟩ <;> rcases hlive hn' with hn' | ⟨hv,hstart',hp⟩
    · exact hs.single v n n' hn hn'
    · exact absurd (hv ▸ hn) (hstarting hstart' n)
    · exact absurd hn' (hstarting hstart n')
    · exact hp.symm

private theorem step_oneEach (htmp : m.directory tmpDir = some tmp) (hunits : ∀ u ∈ units, u.Unambiguous)
    {a : Label} (hs : OneEach tmp units c) (hbegin : ∀ i u, a = .begin i u → u ∈ units)
    (ha : Uncontended c a) (h : step m c a = some c') : OneEach tmp units c' := by
  cases a with
  | begin i u =>
    simp only [step] at h
    split_ifs at h with hi
    cases h
    refine ⟨forall_update (hbegin i u rfl) hs.scripts,hs.owners,?_,?_,hs.single⟩
    · have hold : ∀ j t, update c.scripts i (some ⟨u,.test⟩) j = some t → t.pc ≠ .done →
          (j = i ∧ t = ⟨u,.test⟩) ∨ (t.unit ≠ u ∧ c.scripts j = some t) := by
        intro j t hj ht
        by_cases hji : j = i
        · simp only [hji, update_self, Option.some.injEq] at hj
          exact .inl ⟨hji,hj.symm⟩
        · rw [update_of_ne hji] at hj
          refine .inr ⟨?_,hj⟩
          rintro rfl
          exact ht (ha j t.pc hj)
      intro j k t t' hj hk hunit ht ht'
      rcases hold j t hj ht with ⟨rfl,rfl⟩ | ⟨hne,hj⟩ <;> rcases hold k t' hk ht' with ⟨rfl,rfl⟩ | ⟨hne',hk⟩
      · rfl
      · exact absurd hunit.symm hne'
      · exact absurd hunit hne
      · exact hs.alone j k t t' hj hk hunit ht ht'
    · intro n v hn
      rcases hs.tracked n v hn with ⟨j,pc,hj,hnumber⟩ | ⟨hfile,hidle⟩
      · have hji : j ≠ i := by
          rintro rfl
          simp [hi] at hj
        exact .inl ⟨j,pc,(update_of_ne hji _ _).trans hj,hnumber⟩
      · refine .inr ⟨hfile,fun j pc hj => ?_⟩
        by_cases hji : j = i
        · simp only [hji, update_self, Option.some.injEq, Script.mk.injEq] at hj
          rw [← hj.2]
          rfl
        · exact hidle j pc ((update_of_ne hji _ _).symm.trans hj)
  | script i ppid => exact hs.script htmp hunits h
  | exit pid =>
    cases h
    have hlive : ∀ {u n}, Live {c.sys with procs := c.sys.procs.erase pid} u n → Live c.sys u n :=
      fun hn => (lookup_erase_eq_some.mp hn).2
    exact ⟨hs.scripts,fun n u hn => hs.owners n u (hlive hn),hs.alone,
      fun n u hn => hs.tracked n u (hlive hn),fun u n n' hn hn' => hs.single u n n' (hlive hn) (hlive hn')⟩
  | spawn pid =>
    simp only [step, Launch.step] at h
    split_ifs at h
    · cases h
    simp only [Option.map_some, Option.some.injEq] at h
    subst h
    have hlive : ∀ {u n}, Live {c.sys with procs := c.sys.procs.insert pid none} u n → Live c.sys u n := by
      intro u n hn
      rw [Live, lookup_insert_some] at hn
      split_ifs at hn
      exact hn
    exact ⟨hs.scripts,fun n u hn => hs.owners n u (hlive hn),hs.alone,
      fun n u hn => hs.tracked n u (hlive hn),fun u n n' hn hn' => hs.single u n n' (hlive hn) (hlive hn')⟩

/-- Launches of different units may overlap in any way: as long as no unit is launched twice
at the same time, each has at most one live process. -/
theorem overlapping_single_instance (htmp : m.directory tmpDir = some tmp) {labels : List Label}
    (hrun : run (step m) initial labels = some c)
    (hmeets : Meets (step m) Uncontended initial labels)
    (hunits : ∀ u ∈ begunUnits labels, u.Unambiguous) : SingleInstance c.sys := by
  have hbegin : ∀ a ∈ labels, ∀ i u, a = .begin i u → u ∈ begunUnits labels := by
    rintro a ha i u rfl
    exact mem_begunUnits.mpr ⟨i,ha⟩
  have hone := run_invariant_of_meets (I := OneEach tmp (begunUnits labels))
    (fun s a t hs ha hstep => step_oneEach htmp hunits hs ha.2 ha.1 hstep) hrun
    (meets_and_forall hbegin hmeets) initial_oneEach
  exact hone.single

omit [DecidableEq D] in
private theorem uncontended_of_done (h : ∀ j s, c.scripts j = some s → s.unit = u → s.pc = .done) :
    Uncontended c (.begin i u) := fun j pc hj => h j ⟨u,pc⟩ hj rfl

end Instances

theorem mixed_single_instance : ∃ c, run (step tmpOnly) initial mixed = some c ∧ SingleInstance c.sys ∧
    c.sys.procs.lookup 8 = some (some (unitServer "DIA-1")) := by
  have hmeets : Meets (step tmpOnly) Uncontended initial mixed := by
    refine ⟨uncontended_of_done forall_none,?_⟩
    rintro _ ⟨⟩
    refine ⟨trivial,?_⟩
    rintro _ ⟨⟩
    refine ⟨trivial,?_⟩
    rintro _ ⟨⟩
    refine ⟨trivial,?_⟩
    rintro _ ⟨⟩
    refine ⟨uncontended_of_done fun j s hj => ?_,?_⟩
    · match j with
      | 0 =>
        cases hj
        decide
      | j+1 => cases hj
    rintro _ ⟨⟩
    refine ⟨uncontended_of_done fun j s hj => ?_,?_⟩
    · match j with
      | 0 =>
        cases hj
        decide
      | 1 =>
        cases hj
        decide
      | j+2 => cases hj
    rintro _ ⟨⟩
    exact ⟨trivial,fun _ _ => ⟨trivial,fun _ _ => ⟨trivial,fun _ _ => ⟨trivial,fun _ _ =>
      ⟨trivial,fun _ _ => trivial⟩⟩⟩⟩⟩
  exact ⟨_,rfl,overlapping_single_instance rfl rfl hmeets mixed_unambiguous,by decide⟩

-- Two launches of one unit that overlap leave two processes, one of them unrecorded.
example : (run (step tmpOnly) initial
    [.begin 0 (unitServer "MAG"),.begin 1 (unitServer "MAG"),.script 0 0,.script 1 0,.script 0 7,
      .script 1 8,.script 0 0,.script 1 0]).map (fun c => (c.sys.procs.lookup 7,c.sys.procs.lookup 8)) =
    some (some (some (unitServer "MAG")),some (some (unitServer "MAG"))) := by decide

end ChaosBundle.Launch.Overlap

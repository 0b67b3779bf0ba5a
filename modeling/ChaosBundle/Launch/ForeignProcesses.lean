import ChaosBundle.Library.DecimalFields
import ChaosBundle.Launch.PlainNames

/-! Whom a launch kills. A recorded number is still the process of its unit as long as no
new process is given a recorded number, and is read only for its unit as long as the words
of different units reach different files. -/
namespace ChaosBundle.Launch
open DecimalFields Glob Runs ShellWords

section Run
variable {D : Type} [DecidableEq D] {m : Machine D}

def launchedUnits (events : List Event) : List UnitId :=
  events.filterMap fun | .launch u _ => some u | _ => none

/-- The word reaches the file, by its name or as a pattern, if the file is there. -/
def MayReach (m : Machine D) (word : Word) (k : D × Word) : Prop :=
  ∃ field ∈ fields word, fileAt m field = some k ∨ (hasPattern field ∧ Matches m field k)

/-- The word of a unit reaches the pid file of no other unit. -/
def Separated (m : Machine D) (units : List UnitId) : Prop :=
  ∀ u ∈ units, ∀ v ∈ units, u ≠ v → ∀ k, fileAt m (pidfile v) = some k → ¬ MayReach m (pidfile u) k

/-- A new process is not given a number that a pid file keeps. -/
def FreshNumber (m : Machine D) (s : Sys D) : Event → Prop
  | .launch u ppid => Accepted m u → ∀ k, (stopPrevious m s u).pidfiles.lookup k = some ppid →
      fileAt m (pidfile u) = some k
  | .exit _ => True
  | .spawn pid => ∀ k, s.pidfiles.lookup k ≠ some pid

/-- A recorded process that is still alive is one of the unit whose pid file this is. -/
def Owned (m : Machine D) (units : List UnitId) (s : Sys D) : Prop :=
  ∀ k n o, s.pidfiles.lookup k = some n → s.procs.lookup n = some o →
    ∃ u ∈ units, o = some u ∧ fileAt m (pidfile u) = some k

/-- The launch sends its signal to processes of its own unit only. -/
def KillsOwn (m : Machine D) (s : Sys D) (u : UnitId) : Prop :=
  ∀ n ∈ ptokill m s u, ∀ o, s.procs.lookup n = some o → o = some u

private theorem launchedUnits_append (events later : List Event) :
    launchedUnits (events ++ later) = launchedUnits events ++ launchedUnits later :=
  List.filterMap_append

private theorem mayReach_of_reached {s : Sys D} {u : UnitId} {k : D × Word} (hk : k ∈ reached m s u) :
    MayReach m (pidfile u) k := by
  unfold reached at hk
  split_ifs at hk with hfile
  · obtain ⟨field,hfield,hk⟩ := List.mem_flatMap.mp hk
    refine ⟨field,hfield,?_⟩
    unfold expandField at hk
    simp only at hk
    split_ifs at hk with hpat
    · exact .inr ⟨hpat.1,by simpa using (List.mem_filter.mp hk).2⟩
    · exact .inl (by simpa using (List.mem_filter.mp hk).1)
  · cases hk

private theorem Owned.killsOwn {units : List UnitId} {s : Sys D} (hs : Owned m units s)
    (hsep : Separated m units) {u : UnitId} (hu : u ∈ units) : KillsOwn m s u := by
  intro n hn o hlive
  obtain ⟨k,hk,hfile⟩ := mem_ptokill.mp hn
  obtain ⟨v,hv,rfl,hkv⟩ := hs k n o hfile hlive
  by_contra hne
  have huv : u ≠ v := fun h => hne (h ▸ rfl)
  exact hsep u hu v hv huv k hkv (mayReach_of_reached hk)

private theorem Owned.stopPrevious {units : List UnitId} {s : Sys D} (hs : Owned m units s)
    (u : UnitId) : Owned m units (stopPrevious m s u) := by
  intro k n o hfile hlive
  exact hs k n o (stopPrevious_pidfiles.mp hfile).2 (stopPrevious_procs.mp hlive).2

private theorem Owned.startUnit {units : List UnitId} {s : Sys D} (hs : Owned m units s) {u : UnitId}
    (hu : u ∈ units) {ppid : Nat} (hnew : s.procs.lookup ppid = none)
    (hfresh : ∀ k, s.pidfiles.lookup k = some ppid → fileAt m (pidfile u) = some k) :
    Owned m units (startUnit m s u ppid) := by
  intro k n o hfile hlive
  rw [startUnit_pidfiles] at hfile
  rw [startUnit_procs] at hlive
  by_cases hk : fileAt m (pidfile u) = some k
  · rw [if_pos hk] at hfile
    exact ⟨u,hu,by rwa [if_pos hfile] at hlive,hk⟩
  rw [if_neg hk] at hfile
  have hn : n ≠ ppid := by
    rintro rfl
    exact hk (hfresh k hfile)
  exact hs k n o hfile (by rwa [if_neg hn] at hlive)

private theorem step_owned {units : List UnitId} {s t : Sys D} {a : Event} (hs : Owned m units s)
    (hunits : ∀ u ppid, a = .launch u ppid → u ∈ units) (ha : FreshNumber m s a)
    (hstep : step m s a = some t) : Owned m units t := by
  cases a with
  | launch u ppid =>
    rcases launchUnit_cases hstep with ⟨-,rfl⟩ | ⟨haccepted,hnew,rfl⟩
    · exact hs
    · exact (hs.stopPrevious u).startUnit (hunits u ppid rfl) hnew (ha haccepted)
  | exit pid =>
    cases hstep
    intro k n o hfile hlive
    exact hs k n o hfile (lookup_erase_eq_some.mp hlive).2
  | spawn pid =>
    simp only [step] at hstep
    split_ifs at hstep with hused
    cases hstep
    intro k n o hfile hlive
    by_cases hn : n = pid
    · subst hn
      exact absurd hfile (ha k)
    · exact hs k n o hfile (by rwa [AList.lookup_insert_ne hn] at hlive)

private theorem run_owned {units : List UnitId} {events : List Event} {s t : Sys D}
    (hrun : run (step m) s events = some t) (hmeets : Meets (step m) (FreshNumber m) s events)
    (hunits : ∀ u ∈ launchedUnits events, u ∈ units) (hs : Owned m units s) : Owned m units t := by
  induction events generalizing s with
  | nil => exact Option.some.inj hrun ▸ hs
  | cons a events ih =>
    obtain ⟨r,hr,htail⟩ := run_cons_eq_some.mp hrun
    have hhead : ∀ u ppid, a = .launch u ppid → u ∈ units := by
      rintro u ppid rfl
      exact hunits u (by simp [launchedUnits])
    have hrest : ∀ u ∈ launchedUnits events, u ∈ units := fun u hu => by
      apply hunits u
      simp only [launchedUnits, List.filterMap_cons] at hu ⊢
      split <;> simp [hu]
    exact ih htail (hmeets.2 r hr) hrest (step_owned hs hhead hmeets.1 hr)

private theorem launch_spares {s t : Sys D} {u : UnitId} {ppid : Nat} (hown : KillsOwn m s u)
    (hstep : step m s (.launch u ppid) = some t) {n : Nat} {o : Option UnitId}
    (hlive : s.procs.lookup n = some o) (ho : o ≠ some u) : t.procs.lookup n = some o := by
  rcases launchUnit_cases hstep with ⟨-,rfl⟩ | ⟨-,hnew,rfl⟩
  · exact hlive
  · have hkept : (stopPrevious m s u).procs.lookup n = some o :=
      stopPrevious_procs.mpr ⟨fun hn => ho (hown n hn o hlive),hlive⟩
    have hn : n ≠ ppid := by
      rintro rfl
      simp [hnew] at hkept
    rwa [startUnit_procs, if_neg hn]

/-- In every run in which no new process is given a recorded number, and in which the
words of different units reach different pid files, a launch kills only processes of its
own unit and every other process survives it. -/
theorem launch_kills_own_unit {events : List Event} {s : Sys D} {u : UnitId} {ppid : Nat}
    (hrun : run (step m) initial events = some s)
    (hmeets : Meets (step m) (FreshNumber m) initial events)
    (hsep : Separated m (launchedUnits (events ++ [.launch u ppid]))) :
    KillsOwn m s u ∧ ∀ t, step m s (.launch u ppid) = some t →
      ∀ n o, s.procs.lookup n = some o → o ≠ some u → t.procs.lookup n = some o := by
  have hempty : Owned m (launchedUnits (events ++ [.launch u ppid])) initial := by
    intro k n o hfile
    simp [initial] at hfile
  rw [launchedUnits_append] at hsep hempty
  have hs := run_owned hrun hmeets (fun v hv => List.mem_append_left _ hv) hempty
  have hown := hs.killsOwn hsep (u := u) (by simp [launchedUnits])
  exact ⟨hown,fun t hstep n o => launch_spares hown hstep⟩

/-- A unit whose pid file is read back in one way only. -/
structure UnitId.Unambiguous (u : UnitId) : Prop where
  plain : u.Plain
  no_pattern : hasPattern (u.unitexec ++ u.unitname) = false
  no_dash : '-' ∉ u.unitexec

theorem pidname_injective {u v : UnitId} (hu : u.Unambiguous) (hv : v.Unambiguous)
    (h : pidname u = pidname v) : u = v := by
  have hjoin : u.unitexec ++ '-' :: u.unitname = v.unitexec ++ '-' :: v.unitname :=
    List.append_cancel_right h
  obtain ⟨hexec,hname⟩ := (field_inj hu.no_dash hv.no_dash).mp hjoin
  cases u
  cases v
  exact congrArg₂ UnitId.mk hexec hname

-- With a dash in the name of the program two pairs make one pid file.
example : pidname ⟨"US-A".toList,"B".toList⟩ = pidname ⟨"US".toList,"A-B".toList⟩ := by decide

private theorem hasPattern_pidfile {u : UnitId} (hu : u.Unambiguous) :
    hasPattern (pidfile u) = false := by
  have hnames := hu.no_pattern
  simp only [hasPattern, List.any_append, Bool.or_eq_false_iff] at hnames
  simp [hasPattern, pidfile, pidname, tmpDir, hnames]

omit [DecidableEq D] in
theorem separated_of_unambiguous {tmp : D} (htmp : m.directory tmpDir = some tmp)
    {units : List UnitId} (h : ∀ u ∈ units, u.Unambiguous) : Separated m units := by
  intro u hu v hv hne k hkv hreach
  obtain ⟨field,hfield,hk⟩ := hreach
  rw [fields_pidfile (h u hu).plain, List.mem_singleton] at hfield
  subst hfield
  rw [hasPattern_pidfile (h u hu), fileAt_pidfile (h u hu).plain htmp] at hk
  rw [fileAt_pidfile (h v hv).plain htmp] at hkv
  obtain hk | ⟨hpat,-⟩ := hk
  · have hsame : pidname u = pidname v := congrArg Prod.snd (Option.some.inj (hk.trans hkv.symm))
    exact hne (pidname_injective (h u hu) (h v hv) hsame)
  · cases hpat

end Run

/-- Two units are launched side by side, one is relaunched and leaves, and its number goes
to no one else. -/
def sideBySide : List Event :=
  [.spawn 1,.launch (unitServer "MAG") 7,.launch (unitServer "DIA-1") 8,
    .launch (unitServer "MAG") 9,.exit 9]

private theorem lookup_ne_of_unrecorded {D : Type} [DecidableEq D] {s : Sys D} {n : Nat}
    (h : n ∉ s.pidfiles.entries.map (·.2)) (k : D × Word) : s.pidfiles.lookup k ≠ some n := by
  intro hk
  exact h (List.mem_map.mpr ⟨⟨k,n⟩,AList.mem_lookup_iff.mp hk,rfl⟩)

theorem side_by_side_spared : ∃ s, run (step tmpOnly) initial sideBySide = some s ∧
    KillsOwn tmpOnly s (unitServer "DIA-1") ∧ ptokill tmpOnly s (unitServer "DIA-1") = [8] := by
  have hunits : ∀ u ∈ launchedUnits (sideBySide ++ [.launch (unitServer "DIA-1") 10]),
      u.Unambiguous := by
    intro u hu
    have hu : u = unitServer "MAG" ∨ u = unitServer "DIA-1" := by
      revert u
      decide
    rcases hu with rfl | rfl
    all_goals exact ⟨by decide,by decide,by decide⟩
  have hmeets : Meets (step tmpOnly) (FreshNumber tmpOnly) initial sideBySide := by
    refine ⟨lookup_ne_of_unrecorded (by decide),?_⟩
    rintro _ ⟨⟩
    refine ⟨fun _ k hk => absurd hk (lookup_ne_of_unrecorded (by decide) k),?_⟩
    rintro _ ⟨⟩
    refine ⟨fun _ k hk => absurd hk (lookup_ne_of_unrecorded (by decide) k),?_⟩
    rintro _ ⟨⟩
    refine ⟨fun _ k hk => absurd hk (lookup_ne_of_unrecorded (by decide) k),?_⟩
    rintro _ ⟨⟩
    exact ⟨trivial,fun _ _ => trivial⟩
  refine ⟨_,rfl,?_,by decide⟩
  exact (launch_kills_own_unit rfl hmeets (separated_of_unambiguous rfl hunits)).1

/-- The number of a unit that has left is read from its file after it went to another
process. -/
theorem launch_kills_stranger :
    ¬ ∀ (events : List Event) (s t : Sys Unit) (u : UnitId) (ppid : Nat),
      Accepted tmpOnly u → (∀ c ∈ u.unitname, ¬ isIfs c) →
      run (step tmpOnly) initial events = some s → step tmpOnly s (.launch u ppid) = some t →
      KillsOwn tmpOnly s u ∧
        ∀ n o, s.procs.lookup n = some o → o ≠ some u → t.procs.lookup n = some o := by
  intro hall
  have hspared := (hall [.launch (unitServer "MAG") 7,.exit 7,.spawn 7] _ _ (unitServer "MAG") 8
    (by decide) (List.all_iff_forall_prop.mp rfl) rfl rfl).2 7 none (by decide) (by decide)
  exact absurd hspared (by decide)

end ChaosBundle.Launch

import ChaosBundle.Launch.PlainNames

/-! One live process for each unit. The pid file of a unit names its live process as long
as every launch can write the file and, where it exists, reaches it. -/
namespace ChaosBundle.Launch
open Runs ShellWords

section Run
variable {D : Type} [DecidableEq D] {m : Machine D}

def SingleInstance (s : Sys D) : Prop :=
  ∀ u n n', s.procs.lookup n = some (some u) → s.procs.lookup n' = some (some u) → n = n'

/-- The directory of the pid file exists, and the unquoted word reaches the file if it
is there. -/
def PidfileReached (m : Machine D) (s : Sys D) : Event → Prop
  | .launch u _ => Accepted m u → ∃ k, fileAt m (pidfile u) = some k ∧
      (k ∈ s.pidfiles → k ∈ expand m s (pidfile u))
  | _ => True

/-- The pid file of a unit names its live process. -/
def Recorded (m : Machine D) (s : Sys D) : Prop :=
  ∀ n u, s.procs.lookup n = some (some u) →
    ∃ k, fileAt m (pidfile u) = some k ∧ s.pidfiles.lookup k = some n

private theorem Recorded.singleInstance {s : Sys D} (hs : Recorded m s) : SingleInstance s := by
  intro u n n' hn hn'
  obtain ⟨k,hk,hfile⟩ := hs n u hn
  obtain ⟨k',hk',hfile'⟩ := hs n' u hn'
  obtain rfl : k = k' := Option.some.inj (hk.symm.trans hk')
  exact Option.some.inj (hfile.symm.trans hfile')

/-- The stop kills what it removes the file of, so that the survivors keep theirs. -/
theorem Recorded.stopPrevious {s : Sys D} (hs : Recorded m s) (u : UnitId) :
    Recorded m (stopPrevious m s u) := by
  intro n v hn
  obtain ⟨hkilled,hlive⟩ := stopPrevious_procs.mp hn
  obtain ⟨k,hk,hfile⟩ := hs n v hlive
  have hkept : k ∉ reached m s u := fun hr => hkilled (mem_ptokill.mpr ⟨k,hr,hfile⟩)
  exact ⟨k,hk,stopPrevious_pidfiles.mpr ⟨hkept,hfile⟩⟩

private theorem pidfile_stopped {s : Sys D} {u : UnitId} {k : D × Word}
    (hk : fileAt m (pidfile u) = some k) (hreach : k ∈ s.pidfiles → k ∈ expand m s (pidfile u))
    (n : Nat) : (stopPrevious m s u).pidfiles.lookup k ≠ some n := by
  intro hleft
  obtain ⟨hkept,hfile⟩ := stopPrevious_pidfiles.mp hleft
  have hmem : k ∈ s.pidfiles := AList.lookup_isSome.mp (by simp [hfile])
  apply hkept
  simpa [reached, hasPidfile, hk, hmem] using hreach hmem

private theorem Recorded.startUnit {s : Sys D} (hs : Recorded m s) {u : UnitId} {k : D × Word}
    (hk : fileAt m (pidfile u) = some k) (hclear : ∀ n, s.pidfiles.lookup k ≠ some n)
    (ppid : Nat) : Recorded m (startUnit m s u ppid) := by
  intro n v hn
  rw [startUnit_procs] at hn
  split_ifs at hn with hp
  · cases hn
    exact ⟨k,hk,startUnit_pidfiles.mpr (by rw [if_pos hk]; exact hp)⟩
  · obtain ⟨k',hk',hfile⟩ := hs n v hn
    have hother : fileAt m (pidfile u) ≠ some k' := by
      rw [hk]
      rintro ⟨⟩
      exact hclear n hfile
    exact ⟨k',hk',startUnit_pidfiles.mpr (by rwa [if_neg hother])⟩

private theorem step_recorded {s t : Sys D} {a : Event} (hs : Recorded m s) (ha : PidfileReached m s a)
    (hstep : step m s a = some t) : Recorded m t := by
  cases a with
  | launch u ppid =>
    rcases launchUnit_cases hstep with ⟨-,rfl⟩ | ⟨haccepted,-,rfl⟩
    · exact hs
    · obtain ⟨k,hk,hreach⟩ := ha haccepted
      exact (hs.stopPrevious u).startUnit hk (pidfile_stopped hk hreach) ppid
  | exit pid =>
    cases hstep
    intro n u hn
    exact hs n u (lookup_erase_eq_some.mp hn).2
  | spawn pid =>
    simp only [step] at hstep
    split_ifs at hstep with hlive
    cases hstep
    intro n u hn
    apply hs n u
    by_cases hp : n = pid
    · subst hp
      simp at hn
    · rwa [AList.lookup_insert_ne hp] at hn

private theorem initial_recorded : Recorded m (initial : Sys D) := by
  intro n u hn
  simp [initial] at hn

/-- Along every run whose launches can write and reach their pid files, a unit has at
most one live process. -/
theorem run_single_instance {events : List Event} {s : Sys D}
    (hrun : run (step m) initial events = some s)
    (hmeets : Meets (step m) (PidfileReached m) initial events) : SingleInstance s :=
  Recorded.singleInstance (run_invariant_of_meets (I := Recorded m)
    (fun _ _ _ => step_recorded) hrun hmeets initial_recorded)

private theorem pidfileReached_of_plain {tmp : D} (htmp : m.directory tmpDir = some tmp)
    {u : UnitId} (hu : u.Plain) (ppid : Nat) (s : Sys D) :
    PidfileReached m s (.launch u ppid) :=
  fun _ => ⟨_,fileAt_pidfile hu htmp,expand_pidfile hu htmp⟩

end Run

def relaunches : List Event :=
  [.launch (unitServer "BTF*") 7,.exit 7,.launch (unitServer "BTF*") 8,
    .launch (unitServer "BTF*") 9]

/-- A unit is launched, leaves by itself, is launched again and then relaunched. -/
theorem relaunch_single_instance : ∃ s, run (step tmpOnly) initial relaunches = some s ∧
    SingleInstance s ∧ s.procs.lookup 9 = some (some (unitServer "BTF*")) := by
  have hplain : ∀ s ppid, PidfileReached tmpOnly s (.launch (unitServer "BTF*") ppid) :=
    fun s ppid => pidfileReached_of_plain rfl (by decide) ppid s
  have hmeets : Meets (step tmpOnly) (PidfileReached tmpOnly) initial relaunches :=
    ⟨hplain _ _,fun _ _ => ⟨trivial,fun _ _ => ⟨hplain _ _,fun _ _ => ⟨hplain _ _,
      fun _ _ => trivial⟩⟩⟩⟩
  refine ⟨_,rfl,?_,by decide⟩
  exact run_single_instance rfl hmeets

/-- The slash of `DAFNE/IMPORT` leads into a directory that nobody makes. -/
theorem slash_runs_twice :
    ¬ ∀ (events : List Event) (s : Sys Unit),
      (∀ u ppid, .launch u ppid ∈ events → Accepted tmpOnly u ∧ ∀ c ∈ u.unitname, ¬ isIfs c) →
      run (step tmpOnly) initial events = some s → SingleInstance s := by
  intro hall
  have hlaunched : ∀ u ppid, Event.launch u ppid ∈
      [Event.launch (unitServer "DAFNE/IMPORT") 7,Event.launch (unitServer "DAFNE/IMPORT") 8] →
      Accepted tmpOnly u ∧ ∀ c ∈ u.unitname, ¬ isIfs c := by
    intro u ppid hu
    obtain rfl : u = unitServer "DAFNE/IMPORT" := by simp at hu; grind
    exact ⟨by decide,List.all_iff_forall_prop.mp rfl⟩
  have htwo := hall _ _ hlaunched rfl (unitServer "DAFNE/IMPORT") 7 8 (by decide) (by decide)
  exact absurd htwo (by decide)

end ChaosBundle.Launch

import ChaosBundle.Library.Directory
import ChaosBundle.Library.Runs
import ChaosBundle.Library.ShellWords
import Mathlib.Data.List.DropRight

/-! The pid files that `chaos_launch_unit.sh` writes and reads, and the processes that
they are taken to stand for. No other file of the host has a name that ends in `.pid`. -/
namespace ChaosBundle.Launch
open Glob ShellWords

abbrev Word := List Char

/-- The two arguments that name an instance. -/
structure UnitId where
  unitexec : Word
  unitname : Word
  deriving DecidableEq

/-- What the script finds on the host: the programs below `$CHAOS_BUNDLE/usr/local/bin`,
and the directories, as the text of a path up to its last slash leads to or matches them. -/
structure Machine (D : Type) where
  executable : Word → Bool
  directory : Word → Option D
  directories : Word → List D
  directories_plain : ∀ w, hasPattern w = false → directories w = (directory w).toList

/-- Pid files with the number each holds, and live processes with the unit that each was
launched for; `none` is a process that the script did not launch. -/
structure Sys (D : Type) where
  pidfiles : AList fun _ : D × Word => Nat
  procs : AList fun _ : Nat => Option UnitId

def initial {D : Type} : Sys D := ⟨∅,∅⟩

def tmpDir : Word := ['/','t','m','p','/']

/-- The pid file below `/tmp/`. -/
def pidname (u : UnitId) : Word := u.unitexec ++ '-' :: u.unitname ++ ['.','p','i','d']

def pidfile (u : UnitId) : Word := tmpDir ++ pidname u

def dirname (path : Word) : Word := path.rdropWhile (· != '/')

def basename (path : Word) : Word := path.rtakeWhile (· != '/')

section Script
variable {D : Type} [DecidableEq D] (m : Machine D)

/-- The file that a path names; a path through a missing directory names none. -/
def fileAt (path : Word) : Option (D × Word) := (m.directory (dirname path)).map (·,basename path)

def Matches (field : Word) (k : D × Word) : Prop :=
  k.1 ∈ m.directories (dirname field) ∧ fnMatch (basename field) k.2

instance (field : Word) (k : D × Word) : Decidable (Matches m field k) :=
  inferInstanceAs (Decidable (_ ∧ _))

/-- The pid files that a field stands for after pathname expansion. A pattern that
matches nothing is left as it is. -/
def expandField (s : Sys D) (field : Word) : List (D × Word) :=
  let found := s.pidfiles.keys.filter (Matches m field ·)
  if hasPattern field ∧ found ≠ [] then found
  else (fileAt m field).toList.filter (· ∈ s.pidfiles)

/-- The pid files that an unquoted word stands for. -/
def expand (s : Sys D) (word : Word) : List (D × Word) := (fields word).flatMap (expandField m s)

/-- `[ -f "$pidfile" ]` -/
def hasPidfile (s : Sys D) (u : UnitId) : Bool := (fileAt m (pidfile u)).any (· ∈ s.pidfiles)

/-- The files that `cat $pidfile` and `rm $pidfile` reach. -/
def reached (s : Sys D) (u : UnitId) : List (D × Word) :=
  if hasPidfile m s u then expand m s (pidfile u) else []

/-- The arguments of `kill -9 $ptokill`. -/
def ptokill (s : Sys D) (u : UnitId) : List Nat := (reached m s u).filterMap s.pidfiles.lookup

def stopPrevious (s : Sys D) (u : UnitId) : Sys D :=
  ⟨eraseAll (reached m s u) s.pidfiles,eraseAll (ptokill m s u) s.procs⟩

/-- The redirection takes the name as it is, and is lost where its directory is missing. -/
def startUnit (s : Sys D) (u : UnitId) (ppid : Nat) : Sys D where
  pidfiles := match fileAt m (pidfile u) with
    | some k => s.pidfiles.insert k ppid
    | none => s.pidfiles
  procs := s.procs.insert ppid (some u)

/-- The three tests that end the script before it launches anything. -/
def Accepted (u : UnitId) : Prop := m.executable u.unitexec ∧ u.unitname ≠ [] ∧ u.unitexec ≠ []

instance (u : UnitId) : Decidable (Accepted m u) := inferInstanceAs (Decidable (_ ∧ _ ∧ _))

/-- A whole run of the script whose process is given the number `ppid`. -/
def launchUnit (s : Sys D) (u : UnitId) (ppid : Nat) : Option (Sys D) :=
  if Accepted m u then
    let stopped := stopPrevious m s u
    if ppid ∈ stopped.procs then none else some (startUnit m stopped u ppid)
  else some s

end Script

inductive Event where
  | launch (u : UnitId) (ppid : Nat) | exit (pid : Nat) | spawn (pid : Nat)
  deriving DecidableEq

/-- A new process is never given the number of a live one. -/
def step {D : Type} [DecidableEq D] (m : Machine D) (s : Sys D) : Event → Option (Sys D)
  | .launch u ppid => launchUnit m s u ppid
  | .exit pid => some {s with procs := s.procs.erase pid}
  | .spawn pid => if pid ∈ s.procs then none else some {s with procs := s.procs.insert pid none}

section Lemmas
variable {D : Type} [DecidableEq D] {m : Machine D} {s t : Sys D} {u : UnitId}

theorem mem_ptokill {n : Nat} :
    n ∈ ptokill m s u ↔ ∃ k ∈ reached m s u, s.pidfiles.lookup k = some n := by
  simp [ptokill]

/-- A pid file survives the stop exactly when it is not reached. -/
theorem stopPrevious_pidfiles {k : D × Word} {n : Nat} :
    (stopPrevious m s u).pidfiles.lookup k = some n ↔
      k ∉ reached m s u ∧ s.pidfiles.lookup k = some n := by
  rw [stopPrevious, lookup_eraseAll]
  split_ifs with hk <;> simp [hk]

theorem stopPrevious_procs {n : Nat} {o : Option UnitId} :
    (stopPrevious m s u).procs.lookup n = some o ↔
      n ∉ ptokill m s u ∧ s.procs.lookup n = some o := by
  rw [stopPrevious, lookup_eraseAll]
  split_ifs with hn <;> simp [hn]

theorem startUnit_pidfiles {ppid : Nat} {k : D × Word} {n : Nat} :
    (startUnit m s u ppid).pidfiles.lookup k = some n ↔
      if fileAt m (pidfile u) = some k then n = ppid else s.pidfiles.lookup k = some n := by
  unfold startUnit
  cases hfile : fileAt m (pidfile u) with
  | none => simp
  | some k' =>
    by_cases hk : k = k'
    · subst hk
      simp [eq_comm]
    · simp [AList.lookup_insert_ne hk, Ne.symm hk]

theorem startUnit_procs {ppid n : Nat} {o : Option UnitId} :
    (startUnit m s u ppid).procs.lookup n = some o ↔
      if n = ppid then o = some u else s.procs.lookup n = some o := by
  by_cases hn : n = ppid
  · subst hn
    simp [startUnit, eq_comm]
  · simp [startUnit, AList.lookup_insert_ne hn, hn]

/-- What a run of the script can do. -/
theorem launchUnit_cases {ppid : Nat} (h : launchUnit m s u ppid = some t) :
    (¬ Accepted m u ∧ t = s) ∨
    (Accepted m u ∧ (stopPrevious m s u).procs.lookup ppid = none ∧
      t = startUnit m (stopPrevious m s u) u ppid) := by
  simp only [launchUnit] at h
  split_ifs at h with ha hp
  · exact .inr ⟨ha,AList.lookup_eq_none.mpr hp,(Option.some.inj h).symm⟩
  · exact .inl ⟨ha,(Option.some.inj h).symm⟩

omit [DecidableEq D] in
theorem lookup_erase_eq_some {n pid : Nat} {o : Option UnitId} :
    (s.procs.erase pid).lookup n = some o ↔ n ≠ pid ∧ s.procs.lookup n = some o := by
  by_cases hn : n = pid
  · subst hn
    simp
  · simp [AList.lookup_erase_ne hn, hn]

end Lemmas

end ChaosBundle.Launch

import ChaosBundle.Launch.PidFiles
import Mathlib.Data.Bool.AllAny

/-! Names without slashes, separators, brackets and backslashes: their pid files lie in
`/tmp` itself, and the unquoted word still reaches the file it was written for. -/
namespace ChaosBundle.Launch
open Glob ShellWords

def UnitId.Plain (u : UnitId) : Prop :=
  ∀ c ∈ u.unitexec ++ u.unitname, c ≠ '/' ∧ isIfs c = false ∧ c ≠ '[' ∧ c ≠ '\\'

instance (u : UnitId) : Decidable u.Plain := List.decidableBAll _ (u.unitexec ++ u.unitname)

private theorem basename_append (dir : Word) {name : Word} (h : ∀ c ∈ name, c ≠ '/') :
    basename (dir ++ '/' :: name) = name := by
  have hrev : ∀ c ∈ name.reverse, c != '/' := by simpa using h
  simp [basename, List.rtakeWhile, List.takeWhile_append_of_pos hrev]

private theorem dirname_append (dir : Word) {name : Word} (h : ∀ c ∈ name, c ≠ '/') :
    dirname (dir ++ '/' :: name) = dir ++ ['/'] := by
  have hrev : ∀ c ∈ name.reverse, c != '/' := by simpa using h
  simp [dirname, List.rdropWhile, List.dropWhile_append_of_pos hrev]

section Plain
variable {u : UnitId} (hu : u.Plain)
include hu

theorem pidname_plain {c : Char} (hc : c ∈ pidname u) :
    c ≠ '/' ∧ isIfs c = false ∧ c ≠ '[' ∧ c ≠ '\\' := by
  have hsuffix : ∀ c ∈ ['.','p','i','d'], c ≠ '/' ∧ isIfs c = false ∧ c ≠ '[' ∧ c ≠ '\\' :=
    List.all_iff_forall_prop.mp rfl
  rcases List.mem_append.mp hc with hc | hc
  · rcases List.mem_append.mp hc with hc | hc
    · exact hu c (List.mem_append_left _ hc)
    rcases List.mem_cons.mp hc with rfl | hc
    · decide
    · exact hu c (List.mem_append_right _ hc)
  · exact hsuffix c hc

theorem basename_pidfile : basename (pidfile u) = pidname u :=
  basename_append ['/','t','m','p'] fun _ hc => (pidname_plain hu hc).1

theorem dirname_pidfile : dirname (pidfile u) = tmpDir :=
  dirname_append ['/','t','m','p'] fun _ hc => (pidname_plain hu hc).1

theorem fields_pidfile : fields (pidfile u) = [pidfile u] := by
  have htmp : ∀ c ∈ tmpDir, isIfs c = false := List.all_iff_forall_prop.mp rfl
  apply fields_eq (by simp [pidfile, tmpDir])
  intro c hc
  rcases List.mem_append.mp hc with hc | hc
  · exact htmp c hc
  · exact (pidname_plain hu hc).2.1

variable {D : Type} {m : Machine D} {tmp : D}
  (htmp : m.directory tmpDir = some tmp)
include htmp

theorem fileAt_pidfile : fileAt m (pidfile u) = some (tmp,pidname u) := by
  simp [fileAt, dirname_pidfile hu, basename_pidfile hu, htmp]

private theorem matches_pidfile {k : D × Word} :
    Matches m (pidfile u) k ↔ k.1 = tmp ∧ fnMatch (pidname u) k.2 := by
  rw [Matches, dirname_pidfile hu, basename_pidfile hu, m.directories_plain _ (by decide), htmp]
  simp

theorem expand_pidfile [DecidableEq D] {s : Sys D} (hk : (tmp,pidname u) ∈ s.pidfiles) :
    (tmp,pidname u) ∈ expand m s (pidfile u) := by
  rw [expand, fields_pidfile hu, List.flatMap_singleton, expandField]
  split_ifs with h
  · rw [List.mem_filter]
    refine ⟨AList.mem_keys.mp hk,?_⟩
    have hself : fnMatch (pidname u) (pidname u) := fnMatch_self fun c hc =>
      (pidname_plain hu hc).2.2
    simpa using (matches_pidfile hu htmp).mpr ⟨rfl,hself⟩
  · simpa [fileAt_pidfile hu htmp] using hk

end Plain

def tmpOnly : Machine Unit where
  executable e := e = "UnitServer".toList
  directory w := if w = tmpDir then some () else none
  directories w := if w = tmpDir then [()] else []
  directories_plain w _ := by split_ifs <;> rfl

def unitServer (name : String) : UnitId := ⟨"UnitServer".toList,name.toList⟩

end ChaosBundle.Launch

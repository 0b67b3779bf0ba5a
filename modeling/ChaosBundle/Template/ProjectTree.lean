import ChaosBundle.Library.ScopedTree
import ChaosBundle.Template.InstallHeaders
import Mathlib.Data.List.Forall2

/-! Directories that are added to one another and include `CMakeChaos.txt` each: a variable
that a directory or the file has set is inherited by the directories below. -/
namespace ChaosBundle.Template
open ScopedTree

namespace ProjectTree

/-- What a directory sets before it includes the file; its subdirectories are added after. -/
structure Listing where
  source : SourceDir
  CHAOS_CUS : Option (List Text)
  CHAOS_INSTALL_DIRS : Option (List Text)
  tree : SourceTree

/-- The variables that the file reads. -/
structure Scope where
  CHAOS_CUS : Option (List Text)
  CHAOS_INSTALL_DIRS : Option (List Text)
  CU_H : Option (List Text)

/-- Nothing is set at the top. -/
def Scope.top : Scope := ⟨none,none,none⟩

def project (s : Scope) (l : Listing) : Project where
  source := l.source
  CHAOS_CUS := (l.CHAOS_CUS.or s.CHAOS_CUS).getD []
  CHAOS_INSTALL_DIRS := l.CHAOS_INSTALL_DIRS.or s.CHAOS_INSTALL_DIRS
  CU_H := s.CU_H
  tree := l.tree

/-- `CU_H` after the loop over the control units. -/
def collectUnits (CU_H : Option (List Text)) (cus : List Text) : Option (List Text) :=
  cus.foldl (fun CU_H cu => some (CU_H.getD [] ++ [toHeader cu])) CU_H

/-- The scope after the file; `IF (NOT DEFINED CHAOS_INSTALL_DIRS)` has set the default. -/
def leave (s : Scope) (l : Listing) : Scope where
  CHAOS_CUS := l.CHAOS_CUS.or s.CHAOS_CUS
  CHAOS_INSTALL_DIRS := some (project s l).dirs
  CU_H := collectUnits s.CU_H (project s l).CHAOS_CUS

def projects (t : RoseTree Listing) : List Project := (visit leave Scope.top t).map fun (s,l) => project s l

section Inherited

/-- The units that are in force at the end of a path: those that were set last. -/
def unitsInForce (path : List Listing) : List Text :=
  (path.filterMap Listing.CHAOS_CUS).getLast?.getD []

def dirsInForce (path : List Listing) : List Text :=
  (path.filterMap Listing.CHAOS_INSTALL_DIRS).getLast?.getD [['c','o','r','e'],['m','o','d','e','l','s']]

theorem mem_collectUnits {CU_H : Option (List Text)} {cus : List Text} {f : Text} :
    f ∈ (collectUnits CU_H cus).getD [] ↔ f ∈ CU_H.getD [] ∨ ∃ cu ∈ cus, f = toHeader cu := by
  induction cus generalizing CU_H with
  | nil => simp [collectUnits]
  | cons cu cus ih =>
    rw [collectUnits, List.foldl_cons, ← collectUnits, ih]
    simp [or_assoc]

/-- What the directories of a path leave to one below. -/
structure Inherits (path : List Listing) (s : Scope) : Prop where
  units : s.CHAOS_CUS = (path.filterMap Listing.CHAOS_CUS).getLast?
  dirs : s.CHAOS_INSTALL_DIRS.getD [['c','o','r','e'],['m','o','d','e','l','s']] = dirsInForce path
  headers : ∀ f, f ∈ s.CU_H.getD [] ↔ ∃ q, q <+: path ∧ ∃ cu ∈ unitsInForce q, f = toHeader cu

private theorem inherits_top : Inherits [] Scope.top := by
  refine ⟨rfl,rfl,fun f => ?_⟩
  simp [Scope.top, unitsInForce]

variable {path : List Listing} {s : Scope}

theorem Inherits.project_units (h : Inherits path s) (l : Listing) :
    (project s l).CHAOS_CUS = unitsInForce (path ++ [l]) := by
  rw [project, unitsInForce, getLast?_filterMap_concat, h.units]

theorem Inherits.project_dirs (h : Inherits path s) (l : Listing) :
    (project s l).dirs = dirsInForce (path ++ [l]) := by
  have hdirs := h.dirs
  rw [dirsInForce] at hdirs
  rw [Project.dirs, project, dirsInForce, getLast?_filterMap_concat]
  cases l.CHAOS_INSTALL_DIRS with
  | none => exact hdirs
  | some dirs => rfl

theorem Inherits.step (h : Inherits path s) (l : Listing) : Inherits (path ++ [l]) (leave s l) := by
  refine ⟨?_,h.project_dirs l,fun f => ?_⟩
  · rw [leave, getLast?_filterMap_concat, h.units]
  · rw [leave, mem_collectUnits, h.headers, h.project_units]
    constructor
    · rintro (⟨q,hq,hcu⟩ | hcu)
      · exact ⟨q,hq.trans (List.prefix_append path [l]),hcu⟩
      · exact ⟨_,List.prefix_rfl,hcu⟩
    · rintro ⟨q,hq,hcu⟩
      rcases List.prefix_concat_iff.mp hq with rfl | hq
      · exact .inr hcu
      · exact .inl ⟨q,hq,hcu⟩

private theorem inherits (path : List Listing) : Inherits path (path.foldl leave Scope.top) := by
  induction path using List.reverseRecOn with
  | nil => exact inherits_top
  | append_singleton path l ih =>
    rw [List.foldl_append]
    exact ih.step l

end Inherited

section Installed
variable {installPrefix : Text} {p : Project}

/-- A rule for the directory of the project's own path names the header. -/
def NamesHeader (installPrefix : Text) (p : Project) (f : Text) : Prop :=
  ∃ r ∈ installs installPrefix p, r.destination = includeDir installPrefix (projectOutH p.source.path) ∧
    f ∈ r.files

private theorem namesHeader_iff {f : Text} :
    NamesHeader installPrefix p f ↔ p.CHAOS_CUS ≠ [] ∧ f ∈ p.headerNames := by
  constructor
  · rintro ⟨r,hr,hdest,hf⟩
    rcases List.mem_append.mp hr with hr | hr
    · refine ⟨fun hnil => ?_,(mem_installUnits hr).2 f hf⟩
      rw [hnil] at hr
      cases hr
    · obtain ⟨dir,-,-,rfl⟩ := mem_installDirs.mp hr
      simp at hdest
  · rintro ⟨hcus,hf⟩
    obtain ⟨r,hr,hfiles⟩ := exists_installUnits hcus
    exact ⟨r,List.mem_append_left _ hr,(mem_installUnits hr).1,hfiles ▸ hf⟩

/-- A directory is configured with what was set last on the way to it. If it has units, its
rules name the headers of all units that were in force on that way, and the installation stops
unless the directory itself has them all. -/
structure Configured (p : Project) (q : List Listing × Listing) : Prop where
  source : p.source = q.2.source
  units : p.CHAOS_CUS = unitsInForce (q.1 ++ [q.2])
  dirs : p.dirs = dirsInForce (q.1 ++ [q.2])
  names : ∀ installPrefix f, NamesHeader installPrefix p f ↔ unitsInForce (q.1 ++ [q.2]) ≠ [] ∧
    ∃ path, path <+: q.1 ++ [q.2] ∧ ∃ cu ∈ unitsInForce path, f = toHeader cu
  complete : ∀ installPrefix, copies installPrefix p = requested installPrefix p ↔
    (unitsInForce (q.1 ++ [q.2]) ≠ [] → ∀ path, path <+: q.1 ++ [q.2] → ∀ cu ∈ unitsInForce path,
      q.2.tree.isFile (q.2.source.lookUp (toHeader cu)))

private theorem Inherits.mem_headerNames {path : List Listing} {s : Scope} (h : Inherits path s)
    (l : Listing) {f : Text} : f ∈ (project s l).headerNames ↔
      ∃ q, q <+: path ++ [l] ∧ ∃ cu ∈ unitsInForce q, f = toHeader cu := by
  rw [← (h.step l).headers, leave, mem_collectUnits, Project.headerNames, List.mem_append, List.mem_map]
  simp only [@eq_comm _ f]
  rfl

private theorem configured_project (above : List Listing) (l : Listing) :
    Configured (project (above.foldl leave Scope.top) l) (above,l) := by
  have hinherits := inherits above
  refine ⟨rfl,hinherits.project_units l,hinherits.project_dirs l,fun installPrefix f => ?_,
    fun installPrefix => ?_⟩
  · rw [namesHeader_iff, hinherits.project_units, hinherits.mem_headerNames]
  · rw [copies_eq_requested_iff, hinherits.project_units]
    simp only [hinherits.mem_headerNames]
    constructor
    · exact fun h hne path hpath cu hcu => h hne _ ⟨path,hpath,cu,hcu,rfl⟩
    · rintro h hne f ⟨path,hpath,cu,hcu,rfl⟩
      exact h hne path hpath cu hcu

end Installed

def unitListing (source : SourceDir) (name : Text) : Listing where
  source := source
  CHAOS_CUS := some [name ++ cpp]
  CHAOS_INSTALL_DIRS := none
  tree := {
    isFile := fun f => f = daq.lookUp (['a'] ++ header) ∨ f = misc.lookUp (['b'] ++ header)
    exists_ := fun _ => false
    headers := fun _ => []
    headers_full := fun _ _ hf => absurd hf List.not_mem_nil
    headers_isFile := fun _ _ hf => absurd hf List.not_mem_nil }

end ProjectTree
end ChaosBundle.Template

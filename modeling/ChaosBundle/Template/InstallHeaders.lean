import ChaosBundle.Library.DecimalFields
import ChaosBundle.Library.Ere
import ChaosBundle.Library.Location
import ChaosBundle.Library.Replace
import Mathlib.Data.Bool.AllAny
import Mathlib.Data.List.TakeWhile

/-! `CMakeChaos.txt`: the directory below `include` that a project installs its headers to. -/
namespace ChaosBundle.Template
open DecimalFields Ere Location Replace

abbrev Text := List Char

/-- `[a-zA-Z_\\.]`; between brackets a backslash stands for itself. -/
def isOutChar (c : Char) : Bool := c.isAlpha || c == '_' || c == '\\' || c == '.'

/-- `[a-zA-Z_\\.]+/[a-zA-Z_\\.]+` -/
def outPattern : List Item := [.plus isOutChar,.lit '/',.plus isOutChar]

/-- `string (REGEX MATCH "...$" PROJECT_OUT_H ${CMAKE_CURRENT_SOURCE_DIR})` -/
def projectOutH (sourceDir : Text) : Text := (matchToEnd outPattern sourceDir).getD []

def isNameChar (c : Char) : Bool := c.isAlphanum || c == '_' || c == '-' || c == '.'

/-- `~` starts a full path, too. -/
def isFullPath (f : Text) : Bool := f.head? == some '/' || f.head? == some '~'

/-- A source directory with its last two components; CMake has resolved `.` and `..` in it. -/
structure SourceDir where
  parent : Text
  group : Text
  name : Text
  group_proper : Proper group
  name_proper : Proper name
  group_chars : ∀ c ∈ group, isNameChar c
  name_chars : ∀ c ∈ name, isNameChar c

namespace SourceDir

def lastTwo (d : SourceDir) : Text := d.group ++ '/' :: d.name

def path (d : SourceDir) : Text := d.parent ++ '/' :: d.lastTwo

/-- The two components have only letters, `_` and `.` in them. -/
def Matchable (d : SourceDir) : Prop := ∀ c ∈ d.group ++ d.name, isOutChar c

instance (d : SourceDir) : Decidable d.Matchable := List.decidableBAll _ (d.group ++ d.name)

/-- A name that is no full path is looked up in the source directory. -/
def lookUp (d : SourceDir) (f : Text) : Text := if isFullPath f then f else d.path ++ '/' :: f

end SourceDir

/-- `INSTALL(FILES files DESTINATION destination)` -/
structure Install where
  files : List Text
  destination : Text
  deriving DecidableEq

def cpp : Text := ['.','c','p','p']

def header : Text := ['.','h']

/-- `string (REPLACE ".cpp" ".h" cuh ${cu})` -/
def toHeader (cu : Text) : Text := replaceAll cpp header cu

/-- The loop over the control units: `CU_H` grows, and what it holds is installed each time. -/
def installUnits (destination : Text) : List Text → Option (List Text) → List Install
  | [], _ => []
  | cu :: cus, CU_H =>
    let CU_H := CU_H.getD [] ++ [toHeader cu]
    ⟨CU_H,destination⟩ :: installUnits destination cus (some CU_H)

/-- The files of the host, and what `EXISTS` and `FILE(GLOB ...)` find below the source
directory: the matches are full paths of files. -/
structure SourceTree where
  isFile : Text → Bool
  exists_ : Text → Bool
  headers : Text → List Text
  headers_full : ∀ dir, ∀ f ∈ headers dir, isFullPath f
  headers_isFile : ∀ dir, ∀ f ∈ headers dir, isFile f

def installDirs (tree : SourceTree) (destination : Text) (dirs : List Text) : List Install :=
  (dirs.filter tree.exists_).map fun dir => ⟨tree.headers dir,destination ++ '/' :: dir⟩

/-- A directory that includes `CMakeChaos.txt`; `CU_H` may be inherited from its parent. -/
structure Project where
  source : SourceDir
  CHAOS_CUS : List Text
  CHAOS_INSTALL_DIRS : Option (List Text)
  CU_H : Option (List Text)
  tree : SourceTree

def Project.dirs (p : Project) : List Text :=
  p.CHAOS_INSTALL_DIRS.getD [['c','o','r','e'],['m','o','d','e','l','s']]

/-- The destinations of the second loop are relative to the install prefix. -/
def includeDir (installPrefix out : Text) : Text :=
  installPrefix ++ ['/','i','n','c','l','u','d','e','/'] ++ out

def installs (installPrefix : Text) (p : Project) : List Install :=
  let destination := includeDir installPrefix (projectOutH p.source.path)
  installUnits destination p.CHAOS_CUS p.CU_H ++ installDirs p.tree destination p.dirs

/-- A file, by its full path, and the directory that it is copied to. -/
structure Copy where
  file : Text
  destination : Text
  deriving DecidableEq

/-- The copies that the rules ask for, in the order of the installation. -/
def requested (installPrefix : Text) (p : Project) : List Copy :=
  (installs installPrefix p).flatMap fun r => r.files.map fun f => ⟨p.source.lookUp f,r.destination⟩

/-- The installation stops at the first file that is missing. -/
def copies (installPrefix : Text) (p : Project) : List Copy :=
  (requested installPrefix p).takeWhile fun c => p.tree.isFile c.file

section ProjectOutH

theorem slash_notMem {name : Text} (h : ∀ c ∈ name, isNameChar c) : '/' ∉ name :=
  fun hmem => absurd (h _ hmem) (by decide)

theorem whole_out_iff {s : Text} : whole outPattern s ↔
    ∃ x y, x ≠ [] ∧ y ≠ [] ∧ (∀ c ∈ x, isOutChar c) ∧ (∀ c ∈ y, isOutChar c) ∧ s = x ++ '/' :: y := by
  rw [whole_iff]
  constructor
  · rintro ⟨pieces,hfits,rfl⟩
    rcases hfits with _ | ⟨hx,_ | ⟨hslash,_ | ⟨hy,_ | _⟩⟩⟩
    obtain ⟨hxne,hx⟩ := Item.fits_plus.mp hx
    obtain ⟨hyne,hy⟩ := Item.fits_plus.mp hy
    refine ⟨_,_,hxne,hyne,hx,hy,?_⟩
    rw [Item.fits_lit.mp hslash]
    simp
  · rintro ⟨x,y,hxne,hyne,hx,hy,rfl⟩
    refine ⟨[x,['/'],y],?_,by simp⟩
    exact .cons (Item.fits_plus.mpr ⟨hxne,hx⟩) (.cons (Item.fits_lit.mpr rfl)
      (.cons (Item.fits_plus.mpr ⟨hyne,hy⟩) .nil))

theorem slash_notMem_out {s : Text} (h : ∀ c ∈ s, isOutChar c) : '/' ∉ s :=
  fun hmem => absurd (h _ hmem) (by decide)

variable (d : SourceDir)

private theorem whole_lastTwo : whole outPattern d.lastTwo ↔ d.Matchable := by
  rw [whole_out_iff]
  constructor
  · rintro ⟨x,y,-,-,hx,hy,heq⟩
    obtain ⟨hgroup,hname⟩ := (field_inj (slash_notMem d.group_chars) (slash_notMem_out hx)).mp heq
    intro c hc
    rcases List.mem_append.mp hc with hc | hc
    · exact hx c (hgroup ▸ hc)
    · exact hy c (hname ▸ hc)
  · intro h
    exact ⟨d.group,d.name,d.group_proper.1,d.name_proper.1,
      fun c hc => h c (List.mem_append_left _ hc),fun c hc => h c (List.mem_append_right _ hc),rfl⟩

private theorem not_whole_append (pre : Text) :
    ¬ whole outPattern (pre ++ '/' :: d.lastTwo) := by
  rw [whole_out_iff]
  rintro ⟨x,y,-,-,hx,hy,heq⟩
  have hassoc : pre ++ '/' :: d.lastTwo = (pre ++ '/' :: d.group) ++ '/' :: d.name := by
    simp [SourceDir.lastTwo]
  rw [hassoc, last_field_inj (slash_notMem d.name_chars) (slash_notMem_out hy)] at heq
  exact slash_notMem_out hx (heq.1 ▸ by simp)

private theorem matchToEnd_path :
    matchToEnd outPattern d.path =
      matchToEnd outPattern d.lastTwo := by
  rw [SourceDir.path]
  induction d.parent with
  | nil => exact (matchToEnd_cons _ _ _).trans (if_neg (not_whole_append d []))
  | cons c pre ih =>
    exact (matchToEnd_cons _ _ _).trans ((if_neg (not_whole_append d (c :: pre))).trans ih)

/-- `PROJECT_OUT_H` is the end of the path just where the two components match. -/
theorem projectOutH_iff : projectOutH d.path = d.lastTwo ↔ d.Matchable := by
  rw [projectOutH, matchToEnd_path, ← whole_lastTwo]
  have hne : d.lastTwo ≠ [] := by simp [SourceDir.lastTwo]
  constructor
  · intro h
    cases hmatch : matchToEnd outPattern d.lastTwo with
    | none => exact absurd (by rw [← h, hmatch]; rfl) hne
    | some t =>
      have hwhole := List.find?_some hmatch
      rw [hmatch] at h
      exact h ▸ hwhole
  · intro h
    obtain ⟨c,s,hcs⟩ := List.exists_cons_of_ne_nil hne
    rw [hcs] at h ⊢
    rw [matchToEnd_cons, if_pos h]
    rfl

end ProjectOutH

section Installed

/-- The headers go below the last two components of the source directory, and none is missing. -/
structure UnderOwnPath (installPrefix : Text) (p : Project) : Prop where
  out : projectOutH p.source.path = p.source.lastTwo
  complete : copies installPrefix p = requested installPrefix p
  units : ∀ stem, stem ++ cpp ∈ p.CHAOS_CUS →
    ⟨p.source.lookUp (stem ++ header),includeDir installPrefix p.source.lastTwo⟩ ∈ copies installPrefix p
  dirs : ∀ dir ∈ p.dirs, p.tree.exists_ dir → ∀ f ∈ p.tree.headers dir,
    ⟨f,includeDir installPrefix p.source.lastTwo ++ '/' :: dir⟩ ∈ copies installPrefix p
  below : ∀ c ∈ copies installPrefix p,
    location (includeDir installPrefix p.source.lastTwo) <+: location c.destination

/-- What `CU_H` holds at the last turn of the loop over the units. -/
def Project.headerNames (p : Project) : List Text := p.CU_H.getD [] ++ p.CHAOS_CUS.map toHeader

/-- The path matches, a control unit with another `.cpp` in its name has its header among the
others, no header is missing, and `..` leads no header out of the directory. -/
structure FindsHeaders (installPrefix : Text) (p : Project) : Prop where
  matchable : p.source.Matchable
  suffix : ∀ stem, stem ++ cpp ∈ p.CHAOS_CUS → cpp <:+: stem →
    ∃ f ∈ p.headerNames, p.source.lookUp f = p.source.lookUp (stem ++ header)
  found : p.CHAOS_CUS ≠ [] → ∀ f ∈ p.headerNames, p.tree.isFile (p.source.lookUp f)
  below : ∀ dir ∈ p.dirs, p.tree.exists_ dir → p.tree.headers dir ≠ [] →
    location (includeDir installPrefix p.source.lastTwo) <+:
      location (includeDir installPrefix p.source.lastTwo ++ '/' :: dir)

private theorem toHeader_cpp {stem : Text} (h : ¬ cpp <:+: stem) :
    toHeader (stem ++ cpp) = stem ++ header :=
  replaceAll_append (by decide) h header

variable {destination : Text} {cus : List Text} {CU_H : Option (List Text)} {r : Install}

theorem mem_installUnits (h : r ∈ installUnits destination cus CU_H) :
    r.destination = destination ∧ ∀ f ∈ r.files, f ∈ CU_H.getD [] ++ cus.map toHeader := by
  induction cus generalizing CU_H with
  | nil => cases h
  | cons cu cus ih =>
    rcases List.mem_cons.mp h with rfl | h
    · refine ⟨rfl,fun f hf => ?_⟩
      rw [List.map_cons, List.append_cons]
      exact List.mem_append_left _ hf
    · rw [List.map_cons, List.append_cons]
      exact ih h

theorem exists_installUnits (hcus : cus ≠ []) :
    ∃ r ∈ installUnits destination cus CU_H, r.files = CU_H.getD [] ++ cus.map toHeader := by
  induction cus generalizing CU_H with
  | nil => exact absurd rfl hcus
  | cons cu cus ih =>
    have hnames : CU_H.getD [] ++ (cu :: cus).map toHeader =
      (CU_H.getD [] ++ [toHeader cu]) ++ cus.map toHeader := List.append_cons _ _ _
    rw [hnames]
    cases cus with
    | nil => exact ⟨_,List.mem_cons_self,(List.append_nil _).symm⟩
    | cons cu' cus =>
      obtain ⟨r,hr,hfiles⟩ := @ih (some (CU_H.getD [] ++ [toHeader cu])) (List.cons_ne_nil _ _)
      exact ⟨r,List.mem_cons_of_mem _ hr,hfiles⟩

theorem mem_installDirs {tree : SourceTree} {dirs : List Text} :
    r ∈ installDirs tree destination dirs ↔ ∃ dir ∈ dirs, tree.exists_ dir ∧
      r = ⟨tree.headers dir,destination ++ '/' :: dir⟩ := by
  simp only [installDirs, List.mem_map, List.mem_filter, and_assoc, @eq_comm _ r]

private theorem lookUp_headers (p : Project) {dir f : Text} (h : f ∈ p.tree.headers dir) :
    p.source.lookUp f = f := if_pos (p.tree.headers_full dir f h)

variable {installPrefix : Text} {p q : Project} {c : Copy}

theorem mem_requested : c ∈ requested installPrefix p ↔
    (p.CHAOS_CUS ≠ [] ∧ ∃ f ∈ p.headerNames,
      c = ⟨p.source.lookUp f,includeDir installPrefix (projectOutH p.source.path)⟩) ∨
    ∃ dir ∈ p.dirs, p.tree.exists_ dir ∧ ∃ f ∈ p.tree.headers dir,
      c = ⟨f,includeDir installPrefix (projectOutH p.source.path) ++ '/' :: dir⟩ := by
  simp only [requested, List.mem_flatMap, List.mem_map]
  constructor
  · rintro ⟨r,hr,f,hf,rfl⟩
    rcases List.mem_append.mp hr with hr | hr
    · obtain ⟨hdest,hfiles⟩ := mem_installUnits hr
      have hcus : p.CHAOS_CUS ≠ [] := fun hnil => by
        rw [hnil] at hr
        cases hr
      exact .inl ⟨hcus,f,hfiles f hf,by rw [hdest]⟩
    · obtain ⟨dir,hdir,hexists,rfl⟩ := mem_installDirs.mp hr
      exact .inr ⟨dir,hdir,hexists,f,hf,by rw [lookUp_headers p hf]⟩
  · rintro (⟨hcus,f,hf,rfl⟩ | ⟨dir,hdir,hexists,f,hf,rfl⟩)
    · obtain ⟨r,hr,hfiles⟩ := exists_installUnits hcus
      exact ⟨r,List.mem_append_left _ hr,f,hfiles ▸ hf,by rw [(mem_installUnits hr).1]⟩
    · exact ⟨_,List.mem_append_right _ (mem_installDirs.mpr ⟨dir,hdir,hexists,rfl⟩),f,hf,
        by rw [lookUp_headers p hf]⟩

/-- The installation gets to its end just where no name of the first loop is missing. -/
theorem copies_eq_requested_iff : copies installPrefix p = requested installPrefix p ↔
    (p.CHAOS_CUS ≠ [] → ∀ f ∈ p.headerNames, p.tree.isFile (p.source.lookUp f)) := by
  rw [copies, List.takeWhile_eq_self_iff]
  constructor
  · exact fun h hcus f hf => h _ (mem_requested.mpr (.inl ⟨hcus,f,hf,rfl⟩))
  · intro h c hc
    rcases mem_requested.mp hc with ⟨hcus,f,hf,rfl⟩ | ⟨dir,-,-,f,hf,rfl⟩
    · exact h hcus f hf
    · exact p.tree.headers_isFile dir f hf

theorem findsHeaders_of_underOwnPath (h : UnderOwnPath installPrefix p) :
    FindsHeaders installPrefix p := by
  refine ⟨(projectOutH_iff p.source).mp h.out,fun stem hstem _ => ?_,copies_eq_requested_iff.mp h.complete,?_⟩
  · have hcopy := h.units stem hstem
    rw [h.complete, mem_requested] at hcopy
    rcases hcopy with ⟨-,f,hf,heq⟩ | ⟨dir,-,-,f,-,heq⟩
    · exact ⟨f,hf,(Copy.mk.inj heq).1.symm⟩
    · have hdest := (Copy.mk.inj heq).2
      rw [h.out] at hdest
      simp at hdest
  · intro dir hdir hexists hne
    obtain ⟨f,hf⟩ := List.exists_mem_of_ne_nil _ hne
    exact h.below _ (h.dirs dir hdir hexists f hf)

theorem underOwnPath_of_findsHeaders (h : FindsHeaders installPrefix p) :
    UnderOwnPath installPrefix p := by
  have hout : projectOutH p.source.path = p.source.lastTwo := (projectOutH_iff p.source).mpr h.matchable
  have hcomplete : copies installPrefix p = requested installPrefix p := copies_eq_requested_iff.mpr h.found
  refine ⟨hout,hcomplete,fun stem hstem => ?_,fun dir hdir hexists f hf => ?_,fun c hc => ?_⟩
  · have hname : ∃ f ∈ p.headerNames, p.source.lookUp f = p.source.lookUp (stem ++ header) := by
      by_cases hcpp : cpp <:+: stem
      · exact h.suffix stem hstem hcpp
      · exact ⟨_,List.mem_append_right _ (List.mem_map_of_mem hstem),by rw [toHeader_cpp hcpp]⟩
    obtain ⟨f,hf,hlook⟩ := hname
    rw [hcomplete, mem_requested, hout]
    exact .inl ⟨List.ne_nil_of_mem hstem,f,hf,by rw [hlook]⟩
  · rw [hcomplete, mem_requested, hout]
    exact .inr ⟨dir,hdir,hexists,f,hf,rfl⟩
  · rw [hcomplete, mem_requested, hout] at hc
    rcases hc with ⟨-,f,-,rfl⟩ | ⟨dir,hdir,hexists,f,hf,rfl⟩
    · exact List.prefix_rfl
    · exact h.below dir hdir hexists (List.ne_nil_of_mem hf)

private theorem location_includeDir (d : SourceDir) : location (includeDir installPrefix d.lastTwo) =
    location (installPrefix ++ ['/','i','n','c','l','u','d','e']) ++ [d.group,d.name] := by
  have hpath : includeDir installPrefix d.lastTwo =
      (installPrefix ++ ['/','i','n','c','l','u','d','e'] ++ '/' :: d.group) ++ '/' :: d.name := by
    simp [includeDir, SourceDir.lastTwo]
  rw [hpath, location_proper d.name_proper, location_proper d.group_proper, List.append_assoc]
  rfl

private theorem lastTwo_eq_of_location (hp : FindsHeaders installPrefix p)
    (hq : FindsHeaders installPrefix q)
    {d : Copy} (hc : c ∈ copies installPrefix p) (hd : d ∈ copies installPrefix q)
    (h : location c.destination = location d.destination) : p.source.lastTwo = q.source.lastTwo := by
  have hpc := (underOwnPath_of_findsHeaders hp).below c hc
  have hqd := (underOwnPath_of_findsHeaders hq).below d hd
  rw [location_includeDir] at hpc hqd
  rw [h] at hpc
  have heq := List.append_cancel_left
    ((List.prefix_of_prefix_length_le hpc hqd (by simp)).eq_of_length (by simp))
  rw [SourceDir.lastTwo, SourceDir.lastTwo, (List.cons.inj heq).1,
    (List.cons.inj (List.cons.inj heq).2).1]

end Installed

def driverDir (name : Text) (hproper : Proper name) (hchars : ∀ c ∈ name, isNameChar c) : SourceDir where
  parent := ['/','s','r','c']
  group := ['d','r','i','v','e','r']
  name := name
  group_proper := by decide
  name_proper := hproper
  group_chars := List.all_iff_forall_prop.mp rfl
  name_chars := hchars

/-- A project with one control unit and the directory `core`, on a host with the header of
each and no other file. -/
def driverProject (d : SourceDir) (h : isFullPath d.path) : Project where
  source := d
  CHAOS_CUS := [['c','u'] ++ cpp]
  CHAOS_INSTALL_DIRS := none
  CU_H := none
  tree := {
    isFile := fun f => f = d.path ++ '/' :: (['c','u'] ++ header) ∨
      f = d.path ++ '/' :: (['c','o','r','e','/','a'] ++ header)
    exists_ := fun dir => dir = ['c','o','r','e']
    headers := fun _ => [d.path ++ '/' :: (['c','o','r','e','/','a'] ++ header)]
    headers_full := fun _ f hf => by
      obtain ⟨c,s,hpath⟩ : ∃ c s, d.path = c :: s := List.exists_cons_of_ne_nil (by simp [SourceDir.path])
      rw [hpath] at h
      rw [List.mem_singleton.mp hf, hpath]
      exact h
    headers_isFile := fun _ f hf => by simpa using .inr (List.mem_singleton.mp hf) }

def daq : SourceDir := driverDir ['d','a','q'] (by decide) (List.all_iff_forall_prop.mp rfl)

def misc : SourceDir := driverDir ['m','i','s','c'] (by decide) (List.all_iff_forall_prop.mp rfl)

def dataImport : SourceDir :=
  driverDir ['d','a','t','a','-','i','m','p','o','r','t'] (by decide) (List.all_iff_forall_prop.mp rfl)

private theorem findsHeaders_driverProject {d : SourceDir} (hfull : isFullPath d.path) (h : d.Matchable)
    (installPrefix : Text) : FindsHeaders installPrefix (driverProject d hfull) := by
  refine ⟨h,fun stem hstem hcpp => ?_,fun _ f hf => ?_,fun dir hdir hexists _ => ?_⟩
  · have hcu : stem = ['c','u'] := List.append_cancel_right (List.mem_singleton.mp hstem)
    rw [hcu] at hcpp
    exact absurd hcpp (by decide)
  · have hcu : f = ['c','u'] ++ header := List.mem_singleton.mp hf
    rw [hcu]
    exact decide_eq_true (.inl rfl)
  · have hcore : dir = ['c','o','r','e'] := of_decide_eq_true hexists
    rw [hcore, location_proper (by decide)]
    exact List.prefix_append _ _

end ChaosBundle.Template

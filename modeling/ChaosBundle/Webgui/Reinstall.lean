import ChaosBundle.Library.Directory
import ChaosBundle.Library.Runs
import ChaosBundle.Webgui.Prompts

/-! What runs of `webgui_install.sh` leave behind on a host, one after the other: the site
below the Apache directory, and the servers. -/
namespace ChaosBundle.Webgui
open ReadLine Runs Sed ShellWords

namespace Reinstall

structure Proc where
  pid : ℕ
  name : Word
  args : List Word
  deriving DecidableEq

/-- The files by their paths, and the processes. -/
structure Machine where
  files : AList fun _ : Word => Word
  procs : List Proc

def jsName : Word := "webChaos/chaos.js".toList

/-- What a run finds: the files that `$webdir/*` stands for, by their names, and what `cp` writes
where it fails or has several directories to copy to. -/
structure Visit where
  host : Host
  stdin : Word
  source : AList fun _ : Word => Word
  cpOther : List (Word × Word)
  chaosJs_source : source.lookup jsName = some host.chaosJs

namespace Visit
variable (v : Visit)

def outcome : Outcome := webguiInstall v.host v.stdin

def apache : Word := apacheDir (readVar v.stdin).1

def path (name : Word) : Word := v.apache ++ '/' :: name

/-- `cp -r $webdir/* $apache` -/
def written : List (Word × Word) :=
  match v.host.pathnames.expand v.apache with
  | [dir] =>
    if v.host.cpStatus v.apache = 0 then v.source.entries.map fun e => (dir ++ '/' :: e.1,e.2) else v.cpOther
  | _ => v.cpOther

end Visit

def writeAll (files : AList fun _ : Word => Word) (ws : List (Word × Word)) : AList fun _ : Word => Word :=
  ws.foldl (fun files w => files.insert w.1 w.2) files

/-- The name that `killall -9` is given. -/
def CUiserver : Word := "CUiserver".toList

/-- The name of the program that is started. -/
def CUIserver : Word := "CUIserver".toList

/-- One run; `pid` is that of the server, if it is started. -/
def Visit.leave (v : Visit) (pid : ℕ) (m : Machine) : Machine where
  files :=
    let files := if v.outcome.copied then writeAll m.files v.written else m.files
    match v.outcome.chaosJs with
    | some (path,text) => files.insert path text
    | none => files
  procs :=
    let procs := if v.outcome.killed then m.procs.filter fun p => p.name ≠ CUiserver else m.procs
    match v.outcome.server with
    | some args => procs ++ [⟨pid,CUIserver,args⟩]
    | none => procs

/-- Between the runs anyone may edit files, and processes start and end. -/
inductive Label where
  | install (v : Visit) (pid : ℕ)
  | edit (path text : Word)
  | starts (p : Proc)
  | exits (p : Proc)

def step (m : Machine) : Label → Option Machine
  | .install v pid => some (v.leave pid m)
  | .edit path text => some {m with files := m.files.insert path text}
  | .starts p => some {m with procs := m.procs ++ [p]}
  | .exits p => if p ∈ m.procs then some {m with procs := m.procs.filter (· ≠ p)} else none

section Servers

def servers (m : Machine) : List Proc := m.procs.filter fun p => p.name = CUIserver

/-- The server that a run starts. -/
def Label.server : Label → List Proc
  | .install v pid => v.outcome.server.toList.map fun args => ⟨pid,CUIserver,args⟩
  | _ => []

/-- The label is no server's start or end without the script. -/
def Label.LeavesServers : Label → Prop
  | .starts p | .exits p => p.name ≠ CUIserver
  | _ => True

variable {m t : Machine} {a : Label} {labels : List Label}

/-- `killall` takes the names as they are spelt, and the server's has another letter. -/
theorem servers_killall (procs : List Proc) : (procs.filter fun p => p.name ≠ CUiserver).filter
    (fun p => p.name = CUIserver) = procs.filter fun p => p.name = CUIserver := by
  rw [List.filter_filter]
  refine List.filter_congr fun p _ => ?_
  by_cases hname : p.name = CUIserver
  · rw [hname]
    decide
  · simp [hname]

private theorem servers_leave (v : Visit) (pid : ℕ) (m : Machine) :
    servers (v.leave pid m) = servers m ++ (Label.install v pid).server := by
  have hkill : (if v.outcome.killed then m.procs.filter fun p => p.name ≠ CUiserver else m.procs).filter
      (fun p => p.name = CUIserver) = servers m := by
    split_ifs
    · exact servers_killall m.procs
    · rfl
  simp only [servers, Visit.leave, Label.server]
  cases v.outcome.server with
  | none =>
    rw [hkill]
    simp [servers]
  | some args =>
    rw [List.filter_append, hkill]
    simp [servers]

private theorem step_servers (ha : a.LeavesServers) (hstep : step m a = some t) :
    servers t = servers m ++ a.server := by
  cases a with
  | install v pid =>
    cases hstep
    exact servers_leave v pid m
  | edit path text =>
    cases hstep
    simp [servers, Label.server]
  | starts p =>
    cases hstep
    have hp : p.name ≠ CUIserver := ha
    simp [servers, Label.server, hp]
  | exits p =>
    simp only [step, Option.ite_none_right_eq_some, Option.some.injEq] at hstep
    obtain ⟨-,rfl⟩ := hstep
    have hp : p.name ≠ CUIserver := ha
    change (m.procs.filter (· ≠ p)).filter (fun p => p.name = CUIserver) = servers m ++ []
    rw [servers, List.filter_filter, List.append_nil]
    refine List.filter_congr fun q _ => ?_
    by_cases hq : q = p
    · simp [hq, hp]
    · simp [hq]

/-- What the script can come to: it stops and leaves everything alone, or it has copied. -/
theorem webguiInstall_cases (h : Host) (stdin : Word) :
    (∃ status, status ≠ 0 ∧ webguiInstall h stdin = stopped status) ∨
    ∃ url metadata split,
      webguiInstall h stdin = install h (apacheDir (readVar stdin).1) url metadata split := by
  unfold webguiInstall
  by_cases hwebdir : h.webdirExists
  · by_cases hdirectory : h.isDirectory (apacheDir (readVar stdin).1)
    · simp only [hwebdir, hdirectory, not_true, if_false]
      split
      · exact .inl ⟨2,by decide,rfl⟩
      · exact .inr ⟨_,_,_,rfl⟩
    · exact .inl ⟨1,by decide,by simp [hwebdir, hdirectory]⟩
  · exact .inl ⟨2,by decide,by simp [hwebdir]⟩

private theorem status_zero_iff (h : Host) (stdin : Word) :
    (webguiInstall h stdin).status = 0 ↔ (webguiInstall h stdin).server.isSome := by
  rcases webguiInstall_cases h stdin with ⟨status,hstatus,hstop⟩ | ⟨url,metadata,split,hinstall⟩
  · rw [hstop]
    simpa [stopped] using hstatus
  · rw [hinstall, install]
    split_ifs
    · simp [stopped]
    · split
      · split <;> simp [stopped]
      · simp [stopped]

def Label.completed : Label → Bool
  | .install v _ => v.outcome.status = 0
  | _ => false

private theorem length_server (a : Label) : a.server.length = if a.completed then 1 else 0 := by
  cases a with
  | install v pid =>
    have hstatus := status_zero_iff v.host v.stdin
    cases hserver : (webguiInstall v.host v.stdin).server with
    | none => simp_all [Label.server, Label.completed, Visit.outcome]
    | some args => simp_all [Label.server, Label.completed, Visit.outcome]
  | _ => rfl

end Servers

section Site
variable {files : AList fun _ : Word => Word} {ws : List (Word × Word)} {v : Visit} {m t : Machine}

private theorem lookup_writeAll (hnodup : (ws.map Prod.fst).Nodup) :
    (∀ w ∈ ws, (writeAll files ws).lookup w.1 = some w.2) ∧
    ∀ path, path ∉ ws.map Prod.fst → (writeAll files ws).lookup path = files.lookup path := by
  induction ws generalizing files with
  | nil => exact ⟨nofun,fun _ _ => rfl⟩
  | cons w ws ih =>
    rw [List.map_cons, List.nodup_cons] at hnodup
    obtain ⟨hwritten,hother⟩ := @ih (files.insert w.1 w.2) hnodup.2
    constructor
    · intro x hx
      rcases List.mem_cons.mp hx with rfl | hx
      · exact (hother _ hnodup.1).trans (AList.lookup_insert _)
      · exact hwritten x hx
    · intro path hpath
      obtain ⟨hne,hpath⟩ := not_or.mp (mt List.mem_cons.mpr hpath)
      exact (hother path hpath).trans (AList.lookup_insert_ne hne)

theorem path_injective (v : Visit) : Function.Injective v.path := fun x y h => by
  simpa [Visit.path] using h

private theorem lookup_written (hdir : v.host.pathnames.expand v.apache = [v.apache])
    (hcopies : v.host.cpStatus v.apache = 0) :
    (∀ name text, v.source.lookup name = some text →
      (writeAll files v.written).lookup (v.path name) = some text) ∧
    ∀ path, (∀ name ∈ v.source, path ≠ v.path name) →
      (writeAll files v.written).lookup path = files.lookup path := by
  have hwritten : v.written = v.source.entries.map fun e => (v.path e.1,e.2) := by
    simp [Visit.written, hdir, hcopies, Visit.path]
  have hnames : v.written.map Prod.fst = v.source.keys.map v.path := by
    rw [hwritten, List.map_map, AList.keys, List.keys, List.map_map]
    rfl
  have hnodup : (v.written.map Prod.fst).Nodup := by
    rw [hnames]
    exact v.source.keys_nodup.map (path_injective v)
  obtain ⟨hlookup,hother⟩ := @lookup_writeAll files _ hnodup
  constructor
  · intro name text htext
    have hentry : Sigma.mk name text ∈ v.source.entries := AList.mem_lookup_iff.mp htext
    have hmem : (v.path name,text) ∈ v.written := by
      rw [hwritten]
      exact List.mem_map.mpr ⟨_,hentry,rfl⟩
    exact hlookup _ hmem
  · intro path hpath
    refine hother path fun hmem => ?_
    rw [hnames] at hmem
    obtain ⟨name,hname,rfl⟩ := List.mem_map.mp hmem
    exact hpath name (AList.mem_keys.mpr hname) rfl

/-- The site that an address makes of the source directory. -/
structure IsSite (v : Visit) (url : Word) (files : AList fun _ : Word => Word) : Prop where
  copies : ∀ name text, name ≠ jsName → v.source.lookup name = some text →
    files.lookup (v.path name) = some text
  chaosJs : files.lookup (v.path jsName) = some (substitute localhost url v.host.chaosJs)

/-- The label is a run that stops before it copies, or an edit elsewhere. -/
def Label.LeavesSite (v : Visit) : Label → Prop
  | .install w _ => w.outcome.copied = false
  | .edit path _ => ∀ name ∈ v.source, path ≠ v.path name
  | _ => True

private theorem files_of_not_copied {w : Visit} (h : w.outcome.copied = false) (pid : ℕ) (m : Machine) :
    (w.leave pid m).files = m.files := by
  have hjs : w.outcome.chaosJs = none := by
    rcases webguiInstall_cases w.host w.stdin with ⟨status,-,hstop⟩ | ⟨url,metadata,split,hinstall⟩
    · rw [Visit.outcome, hstop, stopped]
    · have hcopied := install_copied w.host w.apache url metadata split
      rw [Visit.outcome, hinstall] at h
      exact absurd (h.symm.trans hcopied) Bool.false_ne_true
  simp [Visit.leave, h, hjs]

private theorem step_isSite {a : Label} {url : Word} (ha : a.LeavesSite v) (hstep : step m a = some t)
    (h : IsSite v url m.files) : IsSite v url t.files := by
  have hsame : ∀ name ∈ v.source, t.files.lookup (v.path name) = m.files.lookup (v.path name) := by
    intro name hname
    cases a with
    | install w pid =>
      cases hstep
      rw [files_of_not_copied ha]
    | edit path text =>
      cases hstep
      exact AList.lookup_insert_ne (Ne.symm (ha name hname))
    | starts p =>
      cases hstep
      rfl
    | exits p =>
      simp only [step, Option.ite_none_right_eq_some, Option.some.injEq] at hstep
      rw [← hstep.2]
  have hmem : ∀ {name text}, v.source.lookup name = some text → name ∈ v.source := fun hlookup =>
    AList.lookup_isSome.mp (Option.isSome_of_eq_some hlookup)
  refine ⟨fun name text hne hlookup => ?_,?_⟩
  · rw [hsame name (hmem hlookup), h.copies name text hne hlookup]
  · rw [hsame jsName (hmem v.chaosJs_source), h.chaosJs]

private theorem run_isSite {labels : List Label} {url : Word} (hrun : run step m labels = some t)
    (hleaves : ∀ a ∈ labels, a.LeavesSite v) (h : IsSite v url m.files) : IsSite v url t.files := by
  induction labels generalizing m with
  | nil =>
    cases hrun
    exact h
  | cons a labels ih =>
    obtain ⟨u,hu,htail⟩ := run_cons_eq_some.mp hrun
    obtain ⟨ha,hlabels⟩ := List.forall_mem_cons.mp hleaves
    exact ih htail hlabels (step_isSite ha hu h)

variable {line₁ line₂ rest : Word}

/-- A run on two proper lines makes the site, and changes no other file. -/
theorem leave_isSite (hready : Prompted v.host v.stdin line₁ line₂ rest) (h₁ : Proper line₁)
    (h₂ : Proper line₂) (hdir : v.host.pathnames.expand v.apache = [v.apache])
    (hpath : v.host.pathnames.expand (v.path jsName) = [v.path jsName]) (pid : ℕ) (m : Machine) :
    IsSite v (inForce line₁ defip) (v.leave pid m).files ∧
      ∀ path, (∀ name ∈ v.source, path ≠ v.path name) →
        (v.leave pid m).files.lookup path = m.files.lookup path := by
  obtain ⟨a,b,ha,-,hinstall⟩ := webguiInstall_proper hready h₁ h₂
  have houtcome : v.outcome = _ := hinstall.trans (install_text hready.copies a b hpath)
  have hfiles : (v.leave pid m).files = (writeAll m.files v.written).insert (v.path jsName)
      (substitute localhost a.text v.host.chaosJs) := by
    simp [Visit.leave, houtcome]
  obtain ⟨hcopied,hother⟩ := @lookup_written m.files v hdir hready.copies
  have hjs : jsName ∈ v.source := AList.lookup_isSome.mp (Option.isSome_of_eq_some v.chaosJs_source)
  rw [hfiles, ha]
  refine ⟨⟨fun name text hne hlookup => ?_,AList.lookup_insert _⟩,fun path hpath => ?_⟩
  · rw [AList.lookup_insert_ne fun h => hne (path_injective v h), hcopied name text hlookup]
  · rw [AList.lookup_insert_ne (hpath jsName hjs), hother path hpath]

end Site

def jsVisit (line : Word) : Visit where
  host := apacheHost
  stdin := '\n' :: (line ++ '\n' :: ([] ++ '\n' :: []))
  source := AList.insert jsName localhost ∅
  cpOther := []
  chaosJs_source := AList.lookup_insert _

private theorem jsVisit_apache (line : Word) : (jsVisit line).apache = apacheDir [] := by
  rw [Visit.apache, jsVisit, readVar, readChars_newline]
  rfl

theorem jsVisit_plain (line : Word) :
    (jsVisit line).host.pathnames.expand (jsVisit line).apache = [(jsVisit line).apache] ∧
    (jsVisit line).host.pathnames.expand ((jsVisit line).path jsName) = [(jsVisit line).path jsName] := by
  rw [Visit.path, jsVisit_apache]
  constructor
  · exact Pathnames.empty.expand_plain ⟨List.cons_ne_nil _ _,List.all_iff_forall_prop.mp rfl⟩
  · exact Pathnames.empty.expand_plain ⟨List.cons_ne_nil _ _,List.all_iff_forall_prop.mp rfl⟩

private theorem jsVisit_completes {line : Word} (h : Proper line) :
    (jsVisit line).outcome.status = 0 := by
  have hready := prompted_apacheHost line []
  obtain ⟨a,b,-,-,hinstall⟩ := webguiInstall_proper hready h (.inl rfl)
  exact congrArg Outcome.status (hinstall.trans (install_text hready.copies a b (jsVisit_plain line).2))

end Reinstall
end ChaosBundle.Webgui

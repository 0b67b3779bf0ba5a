import ChaosBundle.Library.Runs
import ChaosBundle.Package.ScriptEffects

/-! The steps of dpkg, each with the debconf answers that its scripts read. -/
namespace ChaosBundle.Package
open Host FileSystem Runs

def unpack (p : Payload) (h : Host) : Host :=
  { h with fs := h.fs.extract p.files }

/-- Delete the files for which dpkg holds the package responsible. -/
def deleteFiles (gone : Path → Bool) (h : Host) : Host := { h with fs := h.fs.removeAll gone }

def setAnswers (a : Answers) (h : Host) : Host := { h with answers := a }

def setInstalled (p : Option Payload) (h : Host) : Host := { h with installed := p }

/-- preinst and unpack. -/
def unpackInstall (p : Payload) (a : Answers) (h : Host) : Host :=
  setInstalled (some p) (unpack p (preinst (setAnswers a h)))

/-- Old prerm, new preinst, unpack, old postrm, deletion of the files that only the old
version had: the order of Debian Policy. -/
def unpackUpgrade (old p : Payload) (a : Answers) (h : Host) : Host :=
  setInstalled (some p) (deleteFiles (fun q => q ∈ old.paths ∧ q ∉ p.paths)
    (postrm (unpack p (preinst (prerm (setAnswers a h))))))

def install (b : Build) (p : Payload) (a : Answers) (ok : Service → Bool) (h : Host) : Host :=
  (postinst b ok (unpackInstall p a h)).1

def upgrade (b : Build) (old p : Payload) (a : Answers) (ok : Service → Bool) (h : Host) : Host :=
  (postinst b ok (unpackUpgrade old p a h)).1

/-- New answers and another run of postinst. -/
def reconfigure (b : Build) (a : Answers) (ok : Service → Bool) (h : Host) : Host :=
  (postinst b ok (setAnswers a h)).1

/-- Removal: prerm, deletion of the package's files, postrm. -/
def removePackage (old : Payload) (a : Answers) (h : Host) : Host :=
  setInstalled none (postrm (deleteFiles (· ∈ old.paths) (prerm (setAnswers a h))))

/-- `ok` says which of the starts in the step's postinst the host lets succeed. -/
inductive Action where
  | install (p : Payload) (a : Answers) (ok : Service → Bool)
  | upgrade (p : Payload) (a : Answers) (ok : Service → Bool)
  | reconfigure (a : Answers) (ok : Service → Bool)
  | remove (a : Answers)

def Action.answers : Action → Answers
  | .install _ a _ | .upgrade _ a _ | .reconfigure a _ | .remove a => a

/-- dpkg installs what is not installed, and upgrades, configures and removes what is. -/
def step (b : Build) (h : Host) : Action → Option Host
  | .install p a ok => if h.installed.isNone then some (install b p a ok h) else none
  | .upgrade p a ok => h.installed.map fun old => upgrade b old p a ok h
  | .reconfigure a ok => if h.installed.isSome then some (reconfigure b a ok h) else none
  | .remove a => h.installed.map fun old => removePackage old a h

structure Pristine (h : Host) : Prop where
  notInstalled : h.installed = none
  nothingRuns : ∀ s, h.running s = false
  noConf : ∀ job, h.hasConf job = false
  apart : LinksApart h.fs

/-! A Debian host and a package with every file of `etc/init` and one program a node. -/

/-- Apache's default site is enabled by a link, as Debian installs it. -/
def debianHost (site : String) : Host where
  fs
    | .sitesAvailable .defaultConf => some (.file site)
    | .sitesEnabled .defaultConf => some (.link (.sitesAvailable .defaultConf))
    | _ => none
  running _ := false
  answers _ := false
  installed := none

theorem debianHost_pristine (site : String) : Pristine (debianHost site) where
  notInstalled := rfl
  nothingRuns _ := rfl
  noConf _ := rfl
  apart p q hp hq := by
    cases p with
    | sitesEnabled site => cases site <;> simp [debianHost] at hq; subst hq; rfl
    | sitesAvailable site => cases site <;> simp [debianHost] at hq
    | _ => simp [debianHost] at hq

def templatePayload : Payload where
  files := [(.initConf (.node .mds), .file ""), (.initConf (.node .cds), .file ""),
    (.initConf (.node .webui), .file ""), (.initConf (.node .wan), .file ""),
    (.initConf (.node .cu), .file ""), (.initConf .service, .file ""),
    (.instdir "bin/mds", .file ""), (.instdir "bin/cds", .file ""),
    (.instdir "bin/webui", .file ""), (.instdir "bin/wan", .file ""), (.instdir "bin/cu", .file "")]
  packaged := by decide
  shipsService := by decide

def localBuild : Build := ⟨"/usr/local/chaos/chaos-distrib","localhost"⟩

def only (s : Service) : Answers := fun t => decide (t = s)

section Unpack
variable (p : Payload) (h : Host)

@[simp] theorem unpack_running : (unpack p h).running = h.running := rfl
@[simp] theorem unpack_answers : (unpack p h).answers = h.answers := rfl

theorem unpack_fs {q : Path} (hq : q ∉ p.paths) : (unpack p h).fs q = h.fs q :=
  extract_of_notMem h.fs p.files hq

theorem unpack_hasConf (job : Job) :
    (unpack p h).hasConf job = (h.hasConf job || decide (.initConf job ∈ p.paths)) :=
  extract_isSome h.fs p.files _

variable {h} in
theorem unpack_apart (ha : LinksApart h.fs) : LinksApart (unpack p h).fs := by
  apply ha.of_links
  intro q r hq hr
  rwa [unpack_fs p h fun hmem => ?_] at hr
  simp [p.packaged_of_mem hmem] at hq

end Unpack

section Frame
variable (gone : Path → Bool) (a : Answers) (p : Option Payload) (h : Host)

@[simp] theorem deleteFiles_running : (deleteFiles gone h).running = h.running := rfl
@[simp] theorem deleteFiles_answers : (deleteFiles gone h).answers = h.answers := rfl
@[simp] theorem deleteFiles_hasConf (job : Job) :
    (deleteFiles gone h).hasConf job = (h.hasConf job && !gone (.initConf job)) := by
  simp only [hasConf, deleteFiles, removeAll_apply]
  cases gone (.initConf job) <;> simp

@[simp] theorem setAnswers_running : (setAnswers a h).running = h.running := rfl
@[simp] theorem setAnswers_answers : (setAnswers a h).answers = a := rfl
@[simp] theorem setAnswers_installed : (setAnswers a h).installed = h.installed := rfl
@[simp] theorem setAnswers_hasConf (job : Job) : (setAnswers a h).hasConf job = h.hasConf job := rfl
@[simp] theorem setInstalled_fs : (setInstalled p h).fs = h.fs := rfl
@[simp] theorem setInstalled_running : (setInstalled p h).running = h.running := rfl
@[simp] theorem setInstalled_answers : (setInstalled p h).answers = h.answers := rfl
@[simp] theorem setInstalled_installed : (setInstalled p h).installed = p := rfl
@[simp] theorem setInstalled_hasConf (job : Job) :
    (setInstalled p h).hasConf job = h.hasConf job := rfl

@[simp] theorem unpackInstall_answers (p : Payload) : (unpackInstall p a h).answers = a := by
  simp [unpackInstall]

@[simp] theorem unpackUpgrade_answers (old p : Payload) :
    (unpackUpgrade old p a h).answers = a := by
  simp [unpackUpgrade]

end Frame

/-- Everything one step can do, with the condition under which dpkg takes it. -/
theorem step_eq_some {b : Build} {h h' : Host} {x : Action} :
    step b h x = some h' ↔
      (∃ p a ok, x = .install p a ok ∧ h.installed = none ∧ h' = install b p a ok h) ∨
      (∃ old p a ok, x = .upgrade p a ok ∧ h.installed = some old ∧
        h' = upgrade b old p a ok h) ∨
      (∃ old a ok, x = .reconfigure a ok ∧ h.installed = some old ∧
        h' = reconfigure b a ok h) ∨
      (∃ old a, x = .remove a ∧ h.installed = some old ∧ h' = removePackage old a h) := by
  cases x with
  | install p a ok => cases hi : h.installed <;> simp [step, hi, eq_comm]
  | upgrade p a ok => cases hi : h.installed <;> simp [step, hi, eq_comm]
  | reconfigure a ok => cases hi : h.installed <;> simp [step, hi, eq_comm]
  | remove a => cases hi : h.installed <;> simp [step, hi, eq_comm]

/-! Along a run no file outside the package becomes a link into it. -/

section Apart
variable (b : Build) (old p : Payload) (a : Answers) (ok : Service → Bool) {h : Host}

theorem deleteFiles_apart (gone : Path → Bool) (ha : LinksApart h.fs) :
    LinksApart (deleteFiles gone h).fs :=
  Closed.removeAll ha gone

theorem unpackInstall_apart (ha : LinksApart h.fs) : LinksApart (unpackInstall p a h).fs :=
  unpack_apart p (preinst_apart (h := setAnswers a h) ha)

theorem unpackUpgrade_apart (ha : LinksApart h.fs) : LinksApart (unpackUpgrade old p a h).fs :=
  deleteFiles_apart _ (postrm_apart (unpack_apart p (preinst_apart
    (prerm_apart (h := setAnswers a h) ha))))

private theorem removePackage_apart (ha : LinksApart h.fs) : LinksApart (removePackage old a h).fs :=
  postrm_apart (deleteFiles_apart _ (prerm_apart (h := setAnswers a h) ha))

theorem step_apart {h' : Host} {x : Action} (ha : LinksApart h.fs)
    (hstep : step b h x = some h') : LinksApart h'.fs := by
  rcases step_eq_some.mp hstep with ⟨p,a,ok,-,-,rfl⟩ | ⟨old,p,a,ok,-,-,rfl⟩ | ⟨old,a,ok,-,-,rfl⟩ |
    ⟨old,a,-,-,rfl⟩
  · exact postinst_apart b ok (unpackInstall_apart p a ha)
  · exact postinst_apart b ok (unpackUpgrade_apart old p a ha)
  · exact postinst_apart b ok (h := setAnswers a h) ha
  · exact removePackage_apart old a ha

theorem run_apart {h₀ : Host} {xs : List Action} (hp : Pristine h₀)
    (hrun : run (step b) h₀ xs = some h) : LinksApart h.fs :=
  run_invariant (I := fun h => LinksApart h.fs) (fun _ _ _ ha hs => step_apart b ha hs) hrun hp.apart

end Apart

end ChaosBundle.Package

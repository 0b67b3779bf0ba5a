import ChaosBundle.Library.FileSystem

/-! The host that the package scripts work on: the files they name, the upstart
jobs that run, and the answers in the debconf database. -/
namespace ChaosBundle.Package

/-- The nodes of an installation. The debconf question of `cu` is `ask_us`. -/
inductive Service where
  | mds | cds | webui | wan | cu
  deriving DecidableEq, Repr

/-- The upstart jobs of `etc/init`: one for each node and the shared `chaos-service`. -/
inductive Job where
  | node (service : Service)
  | service
  deriving DecidableEq, Repr

/-- The two names of the Apache default site in a directory of sites. -/
inductive Site where
  | defaultConf | defaultSaved
  deriving DecidableEq, Repr

inductive Path where
  /-- `/etc/init/chaos-<job>.conf` -/
  | initConf (job : Job)
  /-- a file below `$INSTDIR` -/
  | instdir (file : String)
  /-- `$INSTDIR_ALIAS` -/
  | instdirAlias
  | varLogChaos
  /-- `/etc/apache2/sites-available/000-default.*` -/
  | sitesAvailable (site : Site)
  /-- `/etc/apache2/sites-enabled/000-default.*` -/
  | sitesEnabled (site : Site)
  deriving DecidableEq, Repr

namespace Path

/-- The names that a package of this template ships. -/
def Packaged : Path → Bool
  | initConf _ | instdir _ | instdirAlias => true
  | _ => false

def underInstdir : Path → Bool
  | instdir _ => true
  | _ => false

end Path

/-- The files of one package version. Every version ships `chaos-service.conf`, and
none ships a file of the Apache directories. -/
structure Payload where
  files : List (Path × Node Path)
  packaged : ∀ f ∈ files, f.1.Packaged
  shipsService : Path.initConf .service ∈ files.map Prod.fst

namespace Payload

def paths (p : Payload) : List Path := p.files.map Prod.fst

theorem packaged_of_mem {p : Payload} {q : Path} (h : q ∈ p.paths) : q.Packaged := by
  obtain ⟨f,hf,rfl⟩ := List.mem_map.mp h
  exact p.packaged f hf

end Payload

/-- What the packaging tool puts into the scripts. -/
structure Build where
  instdir : String
  template : String

abbrev Answers := Service → Bool

structure Host where
  fs : FileSystem Path
  running : Service → Bool
  /-- the debconf answers `ask_mds`, `ask_cds`, `ask_webui`, `ask_wan`, `ask_us` -/
  answers : Answers
  /-- the version that dpkg has unpacked -/
  installed : Option Payload

/-- No name outside the package is a link to a name that the package ships. -/
def LinksApart (fs : FileSystem Path) : Prop := fs.Closed fun p => p.Packaged = false

namespace Host

/-- `[ -e /etc/init/chaos-<job>.conf ]` -/
def hasConf (h : Host) (job : Job) : Bool := (h.fs (.initConf job)).isSome

/-- `rm -f /etc/init/chaos-<job>.conf` -/
def rmConf (job : Job) (h : Host) : Host := { h with fs := h.fs.remove (.initConf job) }

/-- `service chaos-<s> start` can start a stopped job that has a configuration file;
`ok` is what the rest of the host makes of the attempt. -/
def canStart (ok : Service → Bool) (s : Service) (h : Host) : Bool :=
  h.hasConf (.node s) && !h.running s && ok s

/-- Starting a job that already runs fails. -/
def serviceStart (ok : Service → Bool) (s : Service) (h : Host) : Option Host :=
  if h.canStart ok s then some { h with running := Function.update h.running s true } else none

/-- `service chaos-<s> stop` knows the job by its configuration file. -/
def serviceStop (s : Service) (h : Host) : Host :=
  if h.hasConf (.node s) then { h with running := Function.update h.running s false } else h

variable (h : Host) (s t : Service) (job : Job)

@[simp] theorem rmConf_running : (h.rmConf job).running = h.running := rfl
@[simp] theorem rmConf_answers : (h.rmConf job).answers = h.answers := rfl
theorem rmConf_of_not_hasConf {h : Host} {job : Job} (hj : ¬ h.hasConf job) : h.rmConf job = h := by
  rw [rmConf, FileSystem.remove_of_none]
  simpa [hasConf] using hj

theorem rmConf_fs_of_ne {q : Path} (hq : q ≠ .initConf job) : (h.rmConf job).fs q = h.fs q := by
  simp [rmConf, hq]

@[simp] theorem rmConf_hasConf (j : Job) :
    (h.rmConf job).hasConf j = (h.hasConf j && decide (j ≠ job)) := by
  by_cases hj : j = job <;> simp [rmConf, hasConf, hj]

@[simp] theorem serviceStop_fs : (h.serviceStop s).fs = h.fs := by
  unfold serviceStop; split <;> rfl

@[simp] theorem serviceStop_answers : (h.serviceStop s).answers = h.answers := by
  unfold serviceStop; split <;> rfl

@[simp] theorem serviceStop_hasConf (j : Job) : (h.serviceStop s).hasConf j = h.hasConf j := by
  simp [hasConf]

@[simp] theorem serviceStop_running :
    (h.serviceStop s).running t = (h.running t && !(decide (t = s) && h.hasConf (.node s))) := by
  unfold serviceStop
  split <;> by_cases ht : t = s <;> simp_all

end Host
end ChaosBundle.Package

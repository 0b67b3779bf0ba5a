import ChaosBundle.Library.Products
import ChaosBundle.Package.Retry

/-! Each service of the installation on its own. In a run whose scripts all end with status
zero the services do not see each other: their jobs and files go through the steps of five
separate machines. -/
namespace ChaosBundle.Package
open Host FileSystem Runs

/-- One service: whether its job runs, whether its file is in `/etc/init`, and whether the
installed version ships that file. -/
structure ServiceState where
  running : Bool
  conf : Bool
  shipped : Bool
  deriving DecidableEq, Repr

/-- What a step of dpkg means for one service. -/
inductive ServiceAction where
  | install (ships enabled ok : Bool)
  | upgrade (ships enabled ok : Bool)
  | reconfigure (enabled ok : Bool)
  | remove (enabled : Bool)
  deriving DecidableEq, Repr

namespace ServiceState

def absent : ServiceState := ⟨false,false,false⟩

/-- The block of `prerm`. -/
def stop (enabled : Bool) (s : ServiceState) : ServiceState :=
  {s with running := s.running && !(enabled && s.conf), conf := s.conf && !enabled}

/-- The block of `preinst` or `postrm`, for a service that these list. -/
def drop (listed enable : Bool) (s : ServiceState) : ServiceState :=
  {s with running := s.running && !(listed && s.conf && enable), conf := s.conf && !listed}

def unpack (ships : Bool) (s : ServiceState) : ServiceState := {s with conf := s.conf || ships}

/-- Delete the file if only the version before has it. -/
def retire (ships : Bool) (s : ServiceState) : ServiceState :=
  {s with conf := s.conf && !(s.shipped && !ships), shipped := ships}

/-- The start block of `postinst`; it fails if an enabled service cannot be started. -/
def start (enabled ok : Bool) (s : ServiceState) : Option ServiceState :=
  if enabled then
    if s.conf && !s.running && ok then some {s with running := true} else none
  else some s

def step (listed : Bool) (s : ServiceState) : ServiceAction → Option ServiceState
  | .install ships enabled ok =>
    start enabled ok {(s.drop listed enabled).unpack ships with shipped := ships}
  | .upgrade ships enabled ok =>
    start enabled ok (((((s.stop enabled).drop listed enabled).unpack ships).drop listed false).retire ships)
  | .reconfigure enabled ok => start enabled ok s
  | .remove enabled => some (((s.stop enabled).retire false).drop listed false)

end ServiceState

/-- The services that `preinst` and `postrm` list. -/
def Service.listed (t : Service) : Bool := decide (t ≠ .wan)

namespace Host

def ships (h : Host) (t : Service) : Bool :=
  h.installed.any fun p => decide (.initConf (.node t) ∈ p.paths)

def service (t : Service) (h : Host) : ServiceState := ⟨h.running t,h.hasConf (.node t),h.ships t⟩

end Host

def Action.service (t : Service) : Action → ServiceAction
  | .install p a ok => .install (decide (.initConf (.node t) ∈ p.paths)) (a t) (ok t)
  | .upgrade p a ok => .upgrade (decide (.initConf (.node t) ∈ p.paths)) (a t) (ok t)
  | .reconfigure a ok => .reconfigure (a t) (ok t)
  | .remove a => .remove (a t)

/-- No script of the step ends with a status other than zero. -/
def clean (b : Build) (h : Host) : Action → Bool
  | .install p a ok => (postinst b ok (unpackInstall p a h)).2 = 0
  | .upgrade p a ok => h.installed.all fun old => (postinst b ok (unpackUpgrade old p a h)).2 = 0
  | .reconfigure a ok => (postinst b ok (setAnswers a h)).2 = 0
  | .remove _ => true

section Parts
variable {b : Build} {old p : Payload} {a : Answers} {h : Host} (t : Service)

@[simp] theorem setAnswers_service : (setAnswers a h).service t = h.service t := rfl

private theorem unpackInstall_service : (unpackInstall p a h).service t =
    {((h.service t).drop t.listed (a t)).unpack (decide (.initConf (.node t) ∈ p.paths)) with
      shipped := decide (.initConf (.node t) ∈ p.paths)} := by
  simp only [Host.service, ServiceState.unpack, ServiceState.drop, Service.listed, ServiceState.mk.injEq]
  refine ⟨?_,?_,?_⟩
  · simp [unpackInstall, preinst_running]
  · cases t <;> simp [unpackInstall, unpack_hasConf, preinst_hasConf]
  · simp [unpackInstall, Host.ships]

private theorem unpackUpgrade_service (ha : LinksApart h.fs) (hi : h.installed = some old) :
    (unpackUpgrade old p a h).service t =
      (((((h.service t).stop (a t)).drop t.listed (a t)).unpack
        (decide (.initConf (.node t) ∈ p.paths))).drop t.listed false).retire
          (decide (.initConf (.node t) ∈ p.paths)) := by
  have ha' : LinksApart (setAnswers a h).fs := ha
  simp only [Host.service, ServiceState.unpack, ServiceState.drop, ServiceState.stop, ServiceState.retire,
    Service.listed, ServiceState.mk.injEq]
  refine ⟨?_,?_,?_⟩
  · simp [unpackUpgrade, preinst_running, prerm_running ha', prerm_hasConf_node ha']
  · cases t <;> simp [unpackUpgrade, unpack_hasConf, preinst_hasConf, postrm_hasConf,
      prerm_hasConf_node ha', Host.ships, hi]
  · simp [unpackUpgrade, Host.ships]

private theorem removePackage_service (ha : LinksApart h.fs) (hi : h.installed = some old) :
    (removePackage old a h).service t = (((h.service t).stop (a t)).retire false).drop t.listed false := by
  have ha' : LinksApart (setAnswers a h).fs := ha
  simp only [Host.service, ServiceState.drop, ServiceState.stop, ServiceState.retire,
    Service.listed, ServiceState.mk.injEq]
  refine ⟨?_,?_,?_⟩
  · simp [removePackage, prerm_running ha']
  · cases t <;> simp [removePackage, postrm_hasConf, prerm_hasConf_node ha', Host.ships, hi]
  · simp [removePackage, Host.ships]

end Parts

section Postinst
variable {b : Build} (ht : b.template ≠ "docker") (ok : Service → Bool) {h : Host} (ha : LinksApart h.fs)
include ht ha

theorem postinst_clean_iff :
    (postinst b ok h).2 = 0 ↔ ∀ t, ((h.service t).start (h.answers t) (ok t)).isSome := by
  rw [postinst_eq ok h ht, startEnabled_status ok startOrder _ (by decide)]
  apply forall_congr'
  intro t
  rw [imp_iff_right (mem_startOrder t), canStart, configure_hasConf b ha]
  simp only [configure_answers, configure_running, ServiceState.start, Host.service]
  split_ifs <;> simp_all

private theorem postinst_service (h0 : (postinst b ok h).2 = 0) (t : Service) :
    (h.service t).start (h.answers t) (ok t) = some ((postinst b ok h).1.service t) := by
  obtain ⟨s,hs⟩ := Option.isSome_iff_exists.mp ((postinst_clean_iff ht ok ha).mp h0 t)
  have hconf : (postinst b ok h).1.hasConf (.node t) = h.hasConf (.node t) := postinst_hasConf b ok ha _
  have hships : (postinst b ok h).1.ships t = h.ships t := by simp [Host.ships]
  have hrunning : (postinst b ok h).1.running t = (h.running t || h.answers t) := by
    rw [Bool.eq_iff_iff, Bool.or_eq_true]
    constructor
    · intro hr
      exact (postinst_running b ok ha hr).imp id And.left
    · rintro (hr | he)
      · exact postinst_running_mono b ok h hr
      · rw [postinst_eq ok h ht] at h0 ⊢
        exact startEnabled_all_running ok startOrder _ h0 (mem_startOrder t) (by simpa using he)
  simp only [ServiceState.start, Host.service, hconf, hships, hrunning] at hs ⊢
  split_ifs at hs ⊢ <;> simp_all

end Postinst

section Clean
variable {b : Build} (ht : b.template ≠ "docker") {h h' : Host} {x : Action} (ha : LinksApart h.fs)
  (hstep : step b h x = some h')
include ht ha hstep

/-- A step is clean exactly if every service can take its part of it, to where it is then. -/
theorem clean_iff_services :
    (clean b h x ↔ ∀ t, (h.service t).step t.listed (x.service t) = some (h'.service t)) ∧
    ((∀ t, ((h.service t).step t.listed (x.service t)).isSome) → clean b h x) := by
  rcases step_eq_some.mp hstep with ⟨p,a,ok,rfl,-,rfl⟩ | ⟨old,p,a,ok,rfl,hi,rfl⟩ | ⟨old,a,ok,rfl,-,rfl⟩ |
    ⟨old,a,rfl,hi,rfl⟩
  · have hap := unpackInstall_apart p a ha
    have hiff := postinst_clean_iff ht ok hap
    have hservice := postinst_service ht ok hap
    simp only [unpackInstall_service, unpackInstall_answers] at hiff hservice
    simp only [clean, decide_eq_true_eq, ServiceState.step, Action.service]
    exact ⟨⟨fun h0 t => hservice h0 t,fun hall => hiff.mpr fun t => by simp [hall t]⟩,hiff.mpr⟩
  · have hap := unpackUpgrade_apart old p a ha
    have hiff := postinst_clean_iff ht ok hap
    have hservice := postinst_service ht ok hap
    simp only [unpackUpgrade_service _ ha hi, unpackUpgrade_answers] at hiff hservice
    simp only [clean, hi, Option.all_some, decide_eq_true_eq, ServiceState.step, Action.service]
    exact ⟨⟨fun h0 t => hservice h0 t,fun hall => hiff.mpr fun t => by simp [hall t]⟩,hiff.mpr⟩
  · have hiff := postinst_clean_iff ht ok (h := setAnswers a h) ha
    have hservice := postinst_service ht ok (h := setAnswers a h) ha
    simp only [setAnswers_service, setAnswers_answers] at hiff hservice
    simp only [clean, decide_eq_true_eq, ServiceState.step, Action.service]
    exact ⟨⟨fun h0 t => hservice h0 t,fun hall => hiff.mpr fun t => by simp [hall t]⟩,hiff.mpr⟩
  · simp [clean, ServiceState.step, Action.service, removePackage_service _ ha hi]

end Clean

/-- A run in which every script ends with zero is five runs, one for each service: it is
clean exactly if each service can follow its own part, and leaves it where that part ends. -/
theorem clean_runs_apart {b : Build} (ht : b.template ≠ "docker") {h₀ h : Host} (hp : Pristine h₀)
    {xs : List Action} :
    (run (guarded (step b) (clean b)) h₀ xs = some h ↔ run (step b) h₀ xs = some h ∧
      ∀ t : Service, run (ServiceState.step t.listed) .absent (xs.map (Action.service t)) =
        some (h.service t)) ∧
    (run (step b) h₀ xs = some h →
      (∀ t : Service, (run (ServiceState.step t.listed) .absent (xs.map (Action.service t))).isSome) →
      run (guarded (step b) (clean b)) h₀ xs = some h) := by
  have habsent : ∀ t, h₀.service t = .absent := fun t => by
    simp [Host.service, ServiceState.absent, Host.ships, hp.nothingRuns, hp.noConf, hp.notInstalled]
  have hkeep : ∀ h x h', LinksApart h.fs → step b h x = some h' → LinksApart h'.fs := fun _ _ _ ha hs =>
    step_apart b ha hs
  have hcheck : ∀ h x h', LinksApart h.fs → step b h x = some h' → (clean b h x ↔
      ∀ t : Service, (h.service t).step t.listed (x.service t) = some (h'.service t)) := fun _ _ _ ha hs =>
    (clean_iff_services ht ha hs).1
  have hdefined : ∀ h x h', LinksApart h.fs → step b h x = some h' →
      (∀ t : Service, ((h.service t).step t.listed (x.service t)).isSome) → clean b h x := fun _ _ _ ha hs =>
    (clean_iff_services ht ha hs).2
  constructor
  · simpa only [habsent] using run_guarded_iff (fun t : Service => Host.service t)
      (fun t => Action.service t) hkeep hcheck hdefined hp.apart
  · intro hrun hparts
    refine run_guarded_of_isSome (fun t : Service => Host.service t) (fun t => Action.service t) hkeep hcheck
      hdefined hp.apart hrun ?_
    simpa only [habsent] using hparts

/-- The metadata server is installed, forgotten in an upgrade, and enabled again for the removal. -/
def forgotten : List Action :=
  [.install templatePayload (only .mds) fun _ => true,.upgrade templatePayload (fun _ => false) fun _ => true,
    .remove (only .mds)]

/-- It goes on without its file, as its own part of the run says. -/
theorem forgotten_runs_on : ∃ h,
    run (guarded (step localBuild) (clean localBuild)) (debianHost "") forgotten = some h ∧
    h.service .mds = ⟨true,false,false⟩ ∧ h.service .cds = .absent := by
  obtain ⟨h,hrun⟩ : ∃ h, run (guarded (step localBuild) (clean localBuild)) (debianHost "") forgotten = some h :=
    Option.isSome_iff_exists.mp (by decide)
  obtain ⟨-,hparts⟩ := (clean_runs_apart (by decide) (debianHost_pristine "")).1.mp hrun
  exact ⟨h,hrun,(Option.some.inj (hparts .mds)).symm,(Option.some.inj (hparts .cds)).symm⟩

end ChaosBundle.Package

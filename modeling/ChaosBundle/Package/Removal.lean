import ChaosBundle.Package.Dpkg

/-! Removals. Only `prerm` can stop a service, and it goes by the answers of the moment. -/
namespace ChaosBundle.Package
open Host FileSystem Runs

structure NothingLeft (h : Host) : Prop where
  stopped : ∀ s, h.running s = false
  noConf : ∀ job, h.hasConf job = false

/-- Every file of `/etc/init` belongs to the installed version. -/
structure ConfsOwned (h : Host) : Prop where
  apart : LinksApart h.fs
  owned : ∀ job, h.hasConf job → ∃ p, h.installed = some p ∧ .initConf job ∈ p.paths

/-- A running job has its file, so that `service` knows it. -/
def RunningHasConf (h : Host) : Prop := ∀ s, h.running s → h.hasConf (.node s)

/-- No running service has its answer off while a step is taken. -/
def AnswersCoverRunning (h : Host) (x : Action) : Prop := ∀ s, h.running s → x.answers s

section Steps
variable (b : Build) (old p : Payload) (a : Answers) (ok : Service → Bool) {h : Host}

theorem ConfsOwned.noConf (ho : ConfsOwned h) (hi : h.installed = none) (job : Job) :
    h.hasConf job = false := by
  cases hc : h.hasConf job with
  | false => rfl
  | true =>
    obtain ⟨q,hq,-⟩ := ho.owned job hc
    simp [hi] at hq

variable {old} in
theorem ConfsOwned.mem_paths (ho : ConfsOwned h) (hi : h.installed = some old) {job : Job}
    (hc : h.hasConf job) : .initConf job ∈ old.paths := by
  obtain ⟨q,hq,hmem⟩ := ho.owned job hc
  cases hi.symm.trans hq
  exact hmem

private theorem install_owned (hi : h.installed = none) (ho : ConfsOwned h) :
    ConfsOwned (install b p a ok h) where
  apart := postinst_apart b ok (unpackInstall_apart p a ho.apart)
  owned job hj := by
    rw [install, postinst_hasConf b ok (unpackInstall_apart p a ho.apart)] at hj
    simp only [unpackInstall, setInstalled_hasConf, unpack_hasConf, preinst_hasConf,
      setAnswers_hasConf, ho.noConf hi job, Bool.false_and, Bool.false_or, decide_eq_true_eq] at hj
    exact ⟨p,by simp [install,unpackInstall],hj⟩

private theorem upgrade_owned (hi : h.installed = some old) (ho : ConfsOwned h) :
    ConfsOwned (upgrade b old p a ok h) where
  apart := postinst_apart b ok (unpackUpgrade_apart old p a ho.apart)
  owned job hj := by
    refine ⟨p,by simp [upgrade,unpackUpgrade],?_⟩
    rw [upgrade, postinst_hasConf b ok (unpackUpgrade_apart old p a ho.apart)] at hj
    simp only [unpackUpgrade, setInstalled_hasConf, deleteFiles_hasConf, postrm_hasConf,
      unpack_hasConf, preinst_hasConf, Bool.and_eq_true, Bool.or_eq_true, decide_eq_true_eq,
      Bool.not_eq_true', decide_eq_false_iff_not, not_and, not_not] at hj
    obtain ⟨⟨hold | hnew,-⟩,hgone⟩ := hj
    · have hbefore : h.hasConf job := prerm_hasConf_of (h := setAnswers a h) ho.apart hold.1
      exact hgone (ho.mem_paths hi hbefore)
    · exact hnew

theorem removePackage_hasConf (hi : h.installed = some old) (ho : ConfsOwned h) (job : Job) :
    (removePackage old a h).hasConf job = false := by
  by_contra hj
  simp only [removePackage, setInstalled_hasConf, postrm_hasConf, deleteFiles_hasConf,
    Bool.not_eq_false, Bool.and_eq_true, Bool.not_eq_true', decide_eq_false_iff_not] at hj
  have hbefore : h.hasConf job := prerm_hasConf_of (h := setAnswers a h) ho.apart hj.1.1
  exact hj.1.2 (ho.mem_paths hi hbefore)

private theorem removePackage_running (ha : LinksApart h.fs) (s : Service) :
    (removePackage old a h).running s = (h.running s && !(a s && h.hasConf (.node s))) := by
  simp [removePackage, prerm_running (h := setAnswers a h) ha]

theorem removePackage_nothingLeft (hi : h.installed = some old) (ho : ConfsOwned h) :
    NothingLeft (removePackage old a h) ↔
      ∀ s, h.running s → a s ∧ h.hasConf (.node s) := by
  constructor
  · intro hclean s hs
    have hstop := hclean.stopped s
    rw [removePackage_running old a ho.apart, hs] at hstop
    simpa using hstop
  · intro hcover
    refine ⟨fun s => ?_,removePackage_hasConf old a hi ho⟩
    rw [removePackage_running old a ho.apart]
    cases hs : h.running s with
    | false => rfl
    | true => simp [hcover s hs]

private theorem install_runningHasConf (hi : h.installed = none) (ho : ConfsOwned h)
    (hr : RunningHasConf h) : RunningHasConf (install b p a ok h) := by
  intro s hs
  have hstopped : h.running s = false := by
    cases hc : h.running s with
    | false => rfl
    | true => exact ((ho.noConf hi _).symm.trans (hr s hc)).symm
  have hafter := postinst_hasConf b ok (unpackInstall_apart p a ho.apart) (.node s)
  rcases postinst_running b ok (unpackInstall_apart p a ho.apart) hs with hran | ⟨-,hconf⟩
  · simp [unpackInstall, preinst_running, hstopped] at hran
  · exact hafter.trans hconf

private theorem upgrade_runningHasConf (ho : ConfsOwned h) (hr : RunningHasConf h)
    (hcover : ∀ s, h.running s → a s) : RunningHasConf (upgrade b old p a ok h) := by
  intro s hs
  have hafter := postinst_hasConf b ok (unpackUpgrade_apart old p a ho.apart) (.node s)
  rcases postinst_running b ok (unpackUpgrade_apart old p a ho.apart) hs with hran | ⟨-,hconf⟩
  · simp only [unpackUpgrade, setInstalled_running, deleteFiles_running, postrm_running,
      unpack_running, preinst_running, prerm_running (h := setAnswers a h) ho.apart,
      setAnswers_running, setAnswers_answers, setAnswers_hasConf, Bool.and_eq_true] at hran
    simp [hcover s hran.1.1, hr s hran.1.1] at hran
  · exact hafter.trans hconf

private theorem reconfigure_runningHasConf (ha : LinksApart h.fs) (hr : RunningHasConf h) :
    RunningHasConf (reconfigure b a ok h) := by
  intro s hs
  have hafter : (reconfigure b a ok h).hasConf (.node s) = h.hasConf (.node s) :=
    postinst_hasConf b ok (h := setAnswers a h) ha (.node s)
  rcases postinst_running b ok (h := setAnswers a h) ha hs with hran | ⟨-,hconf⟩
  · exact hafter.trans (hr s hran)
  · exact hafter.trans hconf

end Steps

private theorem pristine_owned {h : Host} (hp : Pristine h) : ConfsOwned h where
  apart := hp.apart
  owned job hj := by simp [hp.noConf job] at hj

theorem step_owned (b : Build) {h h' : Host} {x : Action} (ho : ConfsOwned h)
    (hstep : step b h x = some h') : ConfsOwned h' := by
  have hap := step_apart b ho.apart hstep
  rcases step_eq_some.mp hstep with ⟨p,a,ok,-,hi,rfl⟩ | ⟨old,p,a,ok,-,hi,rfl⟩ |
    ⟨old,a,ok,-,hi,rfl⟩ | ⟨old,a,-,hi,rfl⟩
  · exact install_owned b p a ok hi ho
  · exact upgrade_owned b old p a ok hi ho
  · refine ⟨hap,fun job hj => ?_⟩
    rw [reconfigure, postinst_hasConf b ok (h := setAnswers a h) ho.apart] at hj
    simpa [reconfigure] using ho.owned job hj
  · refine ⟨hap,fun job hj => ?_⟩
    simp [removePackage_hasConf old a hi ho] at hj

/-- The step lemma: while the answers cover what runs, what runs can be stopped. -/
theorem step_runningHasConf (b : Build) {h h' : Host} {x : Action}
    (hinv : ConfsOwned h ∧ RunningHasConf h) (hcover : AnswersCoverRunning h x)
    (hstep : step b h x = some h') : ConfsOwned h' ∧ RunningHasConf h' := by
  obtain ⟨ho,hr⟩ := hinv
  refine ⟨step_owned b ho hstep,?_⟩
  rcases step_eq_some.mp hstep with ⟨p,a,ok,-,hi,rfl⟩ | ⟨old,p,a,ok,rfl,-,rfl⟩ |
    ⟨old,a,ok,-,-,rfl⟩ | ⟨old,a,rfl,hi,rfl⟩
  · exact install_runningHasConf b p a ok hi ho hr
  · exact upgrade_runningHasConf b old p a ok ho hr hcover
  · exact reconfigure_runningHasConf b a ok ho.apart hr
  · intro s hs
    have hclean := (removePackage_nothingLeft old a hi ho).mpr fun s hs => ⟨hcover s hs,hr s hs⟩
    simp [hclean.stopped s] at hs

/-- After a removal nothing is left exactly when every job that ran before it was
enabled and had its file; and that holds along every run whose steps are taken with
the answers of all running services on. -/
theorem removal_leaves_nothing_iff {b : Build} {h₀ h h' : Host} {xs : List Action} {a : Answers}
    (hp : Pristine h₀) (hrun : run (step b) h₀ xs = some h)
    (hremove : step b h (.remove a) = some h') :
    (NothingLeft h' ↔ ∀ s, h.running s → a s ∧ h.hasConf (.node s)) ∧
      (Meets (step b) AnswersCoverRunning h₀ (xs ++ [.remove a]) → NothingLeft h') := by
  obtain ⟨old,hi,rfl⟩ := Option.map_eq_some_iff.mp hremove
  have ho : ConfsOwned h :=
    run_invariant (I := ConfsOwned) (fun _ _ _ ho hs => step_owned b ho hs) hrun (pristine_owned hp)
  have hiff := removePackage_nothingLeft old a hi ho
  refine ⟨hiff,fun hmeets => hiff.mpr ?_⟩
  have hstart : RunningHasConf h₀ := fun s hs => by simp [hp.nothingRuns s] at hs
  obtain ⟨hxs,hcover⟩ := meets_snoc hrun hmeets
  have hinv := run_invariant_of_meets (I := fun h => ConfsOwned h ∧ RunningHasConf h)
    (fun _ _ _ hi hc hs => step_runningHasConf b hi hc hs) hrun hxs ⟨pristine_owned hp,hstart⟩
  exact fun s hs => ⟨hcover s hs,hinv.2 s hs⟩

theorem removal_leaves_nothing_after_install :
    ∃ h h', run (step localBuild) (debianHost "")
        [.install templatePayload (only .mds) (only .mds)] = some h ∧
      step localBuild h (.remove (only .mds)) = some h' ∧ NothingLeft h' := by
  have hrun : run (step localBuild) (debianHost "")
      [.install templatePayload (only .mds) (only .mds)] = some _ := rfl
  refine ⟨_,_,hrun,rfl,(removal_leaves_nothing_iff (debianHost_pristine "") hrun rfl).1.mpr ?_⟩
  intro s
  cases s <;> decide

/-- A metadata server that is disabled before the removal outlives the package. -/
theorem removal_leaves_disabled_service :
    ¬ ∀ h, run (step localBuild) (debianHost "") [.install templatePayload (only .mds) (only .mds),
        .reconfigure (only .cds) (only .cds), .remove (only .cds)] = some h → NothingLeft h := by
  intro hall
  have hclean := hall _ rfl
  exact absurd (hclean.stopped .mds) (by decide)

end ChaosBundle.Package

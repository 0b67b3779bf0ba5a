import ChaosBundle.Package.Dpkg

/-! Upgrades. The old `postrm` runs after the new files are unpacked and deletes them. -/
namespace ChaosBundle.Package
open Host FileSystem Runs

/-- What an upgrade owes to its version: the files it unpacked are there and what the
answers enable is running. -/
structure KeepsInstallation (p : Payload) (a : Answers) (h : Host) : Prop where
  files : ∀ q ∈ p.paths, q.underInstdir → (h.fs q).isSome
  confs : ∀ job, .initConf job ∈ p.paths → h.hasConf job
  services : ∀ s, a s → h.running s

section Upgrade
variable (b : Build) (old p : Payload) (a : Answers) (ok : Service → Bool) {h : Host}
  (ha : LinksApart h.fs)
include ha

private theorem upgrade_hasConf {job : Job} (hj : (upgrade b old p a ok h).hasConf job) :
    job = .node .wan := by
  rw [upgrade, postinst_hasConf b ok (unpackUpgrade_apart old p a ha)] at hj
  simp only [unpackUpgrade, setInstalled_hasConf, deleteFiles_hasConf, postrm_hasConf,
    Bool.and_eq_true, decide_eq_true_eq] at hj
  exact hj.1.2

/-- Below `$INSTDIR` an upgrade leaves at most the two directories that `postinst` makes. -/
theorem upgrade_underInstdir {q : Path} (hq : q.underInstdir) (hetc : q ≠ .instdir "etc")
    (hlog : q ≠ .instdir "log") : (upgrade b old p a ok h).fs q = none := by
  have hpack : q.Packaged := by cases q <;> first | rfl | cases hq
  rw [upgrade, postinst_fs, configure_fs b (unpackUpgrade_apart old p a ha) hpack hetc hlog]
  simp [unpackUpgrade, deleteFiles, postrm_underInstdir _ hq]

/-- An enabled service other than the WAN proxy runs after an upgrade only if it ran
before it without a file, where no script could stop it. -/
theorem upgrade_running {s : Service} (hs : a s) (hwan : s ≠ .wan)
    (hr : (upgrade b old p a ok h).running s) : h.running s ∧ ¬ h.hasConf (.node s) := by
  rcases postinst_running b ok (unpackUpgrade_apart old p a ha) hr with hran | ⟨-,hconf⟩
  · simp only [unpackUpgrade, setInstalled_running, deleteFiles_running, postrm_running,
      unpack_running, preinst_running, prerm_running (h := setAnswers a h) ha] at hran
    simp_all
  · simp [unpackUpgrade, postrm_hasConf, hwan] at hconf

end Upgrade

/-- No upgrade of any reachable host keeps its version installed. -/
theorem upgrade_never_keeps {b : Build} {h₀ h : Host} {xs : List Action} {p : Payload}
    {a : Answers} {ok : Service → Bool} (hp : Pristine h₀)
    (hrun : run (step b) h₀ (xs ++ [.upgrade p a ok]) = some h) : ¬ KeepsInstallation p a h := by
  obtain ⟨u,hu,hlast⟩ := run_snoc_eq_some.mp hrun
  obtain ⟨old,-,rfl⟩ := Option.map_eq_some_iff.mp hlast
  intro hkeep
  have hservice := hkeep.confs .service p.shipsService
  cases upgrade_hasConf b old p a ok (run_apart b hp hu) hservice

theorem upgrade_never_keeps_after_install :
    ∃ h, run (step localBuild) (debianHost "") ([.install templatePayload (only .mds) (only .mds)] ++
        [.upgrade templatePayload (only .mds) (only .mds)]) = some h ∧
      ¬ KeepsInstallation templatePayload (only .mds) h := by
  have hrun : run (step localBuild) (debianHost "")
      ([.install templatePayload (only .mds) (only .mds)] ++
        [.upgrade templatePayload (only .mds) (only .mds)]) = some _ := rfl
  exact ⟨_,hrun,upgrade_never_keeps (debianHost_pristine "") hrun⟩

/-- An installed metadata server is neither there nor running after an upgrade to the
same version. -/
theorem upgrade_loses_installation :
    ¬ ∀ h, run (step localBuild) (debianHost "") [.install templatePayload (only .mds) (only .mds),
        .upgrade templatePayload (only .mds) (only .mds)] = some h →
      KeepsInstallation templatePayload (only .mds) h := by
  intro hall
  have hkeep := hall _ rfl
  have hprogram := hkeep.files (.instdir "bin/mds") (by decide) rfl
  exact absurd hprogram (by decide)

end ChaosBundle.Package

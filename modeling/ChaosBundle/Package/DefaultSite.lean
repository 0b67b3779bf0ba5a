import ChaosBundle.Package.Dpkg

/-! The Apache default site. `postinst` saves it in `sites-available`; `prerm` looks for
the saved copy in `sites-enabled`, where no script ever puts one. -/
namespace ChaosBundle.Package
open Host FileSystem Runs

abbrev confAvailable : Path := .sitesAvailable .defaultConf
abbrev savedAvailable : Path := .sitesAvailable .defaultSaved
abbrev confEnabled : Path := .sitesEnabled .defaultConf
abbrev savedEnabled : Path := .sitesEnabled .defaultSaved

/-- The default site has this content, is enabled by its link, and no saved copy is
where `prerm` looks for one. -/
structure SiteIs (content : String) (h : Host) : Prop where
  enabled : h.fs confEnabled = some (.link confAvailable)
  available : h.fs confAvailable = some (.file content)
  notSaved : h.fs savedEnabled = none
  savedPlain : ∀ q, h.fs savedAvailable ≠ some (.link q)

namespace SiteIs
variable {content : String} {h h' : Host}

theorem read (hs : SiteIs content h) : h.fs.read confEnabled = some content := by
  simp [FileSystem.read, target, hs.enabled, hs.available]

theorem of_fs (hs : SiteIs content h) (hfs : ∀ q : Path, q.Packaged = false → q ≠ .varLogChaos →
    h'.fs q = h.fs q) : SiteIs content h' where
  enabled := by rw [hfs _ rfl (by simp)]; exact hs.enabled
  available := by rw [hfs _ rfl (by simp)]; exact hs.available
  notSaved := by rw [hfs _ rfl (by simp)]; exact hs.notSaved
  savedPlain q := by rw [hfs _ rfl (by simp)]; exact hs.savedPlain q

/-- The restore finds nothing to restore. -/
theorem restoreSite_eq (hs : SiteIs content h) : restoreSite h = h := by
  have hread : h.fs.read savedEnabled = none := by
    simp [FileSystem.read, target, hs.notSaved]
  rw [restoreSite, copy_of_read_none _ hread]

private theorem serviceStop (hs : SiteIs content h) (s : Service) : SiteIs content (h.serviceStop s) :=
  hs.of_fs fun q _ _ => by rw [serviceStop_fs]

private theorem prermBlock {site : Host → Host} (hsite : ∀ h', SiteIs content h' → site h' = h')
    (s : Service) (hs : SiteIs content h) : SiteIs content (prermBlock site s h) := by
  unfold Package.prermBlock
  split_ifs
  · rw [hsite _ (hs.serviceStop s)]
    refine (hs.serviceStop s).of_fs fun q hq _ => rmConf_fs_of_ne _ _ ?_
    rintro rfl
    cases hq
  · exact hs

private theorem prerm (hs : SiteIs content h) : SiteIs content (prerm h) := by
  have hid : ∀ h', SiteIs content h' → id h' = h' := fun _ _ => rfl
  have hrestore : ∀ h', SiteIs content h' → restoreSite h' = h' := fun _ h' => h'.restoreSite_eq
  exact ((((hs.prermBlock hid .cu).prermBlock hid .cds).prermBlock hrestore .webui).prermBlock
    hrestore .wan).prermBlock hid .mds

private theorem preinst (hs : SiteIs content h) : SiteIs content (preinst h) :=
  hs.of_fs fun q hq _ => preinst_fs h fun job e => by subst e; cases hq

private theorem postrm (hs : SiteIs content h) : SiteIs content (postrm h) :=
  hs.of_fs fun _ hq hlog => postrm_fs h hq hlog

private theorem unpack (hs : SiteIs content h) (p : Payload) : SiteIs content (unpack p h) :=
  hs.of_fs fun q hq _ => unpack_fs p h fun hmem => by simp [p.packaged_of_mem hmem] at hq

private theorem deleteFiles (hs : SiteIs content h) {gone : Path → Bool}
    (hgone : ∀ q, gone q → q.Packaged) : SiteIs content (deleteFiles gone h) := by
  apply hs.of_fs
  intro q hq _
  have hkept : gone q = false := by
    cases hg : gone q with
    | false => rfl
    | true => simp [hgone q hg] at hq
  simp [Package.deleteFiles, hkept]

/-- Saving overwrites the default site with the generated one. The saved copy is of
whatever the site was, the generated one included. -/
theorem saveSite (hs : SiteIs content h) (b : Build) :
    SiteIs (generatedSite b) (saveSite b h) := by
  have hsaved : h.fs.target savedAvailable = savedAvailable := target_of_plain hs.savedPlain
  have hread : h.fs.read confAvailable = some content := by
    simp [FileSystem.read, target, hs.available]
  have hcopy (q : Path) : h.fs.copy confAvailable savedAvailable q =
      if q = savedAvailable then some (.file content) else h.fs q := by
    rw [copy_of_read _ hread, write_apply, hsaved]
  have htarget : (h.fs.copy confAvailable savedAvailable).target confAvailable = confAvailable :=
    target_of_plain fun q => by simp [hcopy, hs.available]
  have hhead : ((h.fs.copy confAvailable savedAvailable).write confAvailable (echo siteHead))
      confAvailable = some (.file (echo siteHead)) := by
    rw [write_apply, htarget, if_pos rfl]
  have hfs (q : Path) : (Package.saveSite b h).fs q =
      if q = confAvailable then some (.file (generatedSite b)) else
        h.fs.copy confAvailable savedAvailable q := by
    apply (foldl_append_apply _ _ hhead q).trans
    split_ifs with hq
    · rfl
    · rw [write_apply, htarget, if_neg hq]
  constructor
  · rw [hfs, if_neg (by decide), hcopy, if_neg (by decide)]
    exact hs.enabled
  · rw [hfs, if_pos rfl]
  · rw [hfs, if_neg (by decide), hcopy, if_neg (by decide)]
    exact hs.notSaved
  · simp [hfs, hcopy]

private theorem makeDirs (hs : SiteIs content h) : SiteIs content (makeDirs h) :=
  hs.of_fs fun q hq hlog => makeDirs_fs h (by rintro rfl; cases hq) (by rintro rfl; cases hq) hlog

private theorem postinst (hs : SiteIs content h) (b : Build) (ok : Service → Bool) :
    SiteIs (if h.answers .webui then generatedSite b else content) (postinst b ok h).1 := by
  have hconf : SiteIs (if h.answers .webui then generatedSite b else content) (configure b h) := by
    unfold configure
    split_ifs
    · exact hs.makeDirs.saveSite b
    · exact hs.makeDirs
  exact hconf.of_fs fun q _ _ => by rw [postinst_fs]

end SiteIs

/-- The step runs `postinst` with the web interface enabled. -/
def Action.writesSite : Action → Bool
  | .install _ a _ | .upgrade _ a _ | .reconfigure a _ => a .webui
  | .remove _ => false

private theorem step_site (b : Build) {content : String} {h h' : Host} {x : Action}
    (hs : SiteIs content h) (hstep : step b h x = some h') :
    SiteIs (if x.writesSite then generatedSite b else content) h' := by
  have hset (a : Answers) : SiteIs content (setAnswers a h) := hs.of_fs fun _ _ _ => rfl
  rcases step_eq_some.mp hstep with ⟨p,a,ok,rfl,-,rfl⟩ | ⟨old,p,a,ok,rfl,-,rfl⟩ |
    ⟨old,a,ok,rfl,-,rfl⟩ | ⟨old,a,rfl,-,rfl⟩
  · have hu : SiteIs content (unpackInstall p a h) :=
      ((hset a).preinst.unpack p).of_fs fun _ _ _ => rfl
    have hpost := hu.postinst b ok
    rw [unpackInstall_answers] at hpost
    exact hpost
  · have hgone : ∀ q, decide (q ∈ old.paths ∧ q ∉ p.paths) = true → q.Packaged = true :=
      fun q hq => old.packaged_of_mem (of_decide_eq_true hq).1
    have hu : SiteIs content (unpackUpgrade old p a h) :=
      (((hset a).prerm.preinst.unpack p).postrm.deleteFiles hgone).of_fs fun _ _ _ => rfl
    have hpost := hu.postinst b ok
    rw [unpackUpgrade_answers] at hpost
    exact hpost
  · exact (hset a).postinst b ok
  · have hgone : ∀ q, decide (q ∈ old.paths) = true → q.Packaged = true :=
      fun q hq => old.packaged_of_mem (of_decide_eq_true hq)
    exact (((hset a).prerm.deleteFiles hgone).postrm).of_fs fun _ _ _ => rfl

/-- A postinst with the web interface enabled leaves the generated site for good. -/
theorem run_site (b : Build) {content : String} {h₀ h : Host} {xs : List Action}
    (hs : SiteIs content h₀) (hrun : run (step b) h₀ xs = some h) :
    SiteIs (if xs.any Action.writesSite then generatedSite b else content) h := by
  induction xs generalizing h₀ content with
  | nil =>
    cases hrun
    exact hs
  | cons x xs ih =>
    obtain ⟨u,hu,htail⟩ := run_cons_eq_some.mp hrun
    have htail := ih (step_site b hs hu) htail
    cases hx : x.writesSite <;> simpa [hx] using htail

/-- The content of the default site after a removal is the original one exactly when no
postinst of the run had the web interface enabled, or the original was already the site
that `postinst` generates. -/
theorem default_site_restored_iff {b : Build} {content : String} {h₀ h : Host} {xs : List Action}
    {a : Answers} (hs : SiteIs content h₀)
    (hrun : run (step b) h₀ (xs ++ [.remove a]) = some h) :
    h.fs.read confEnabled = some content ↔
      (∀ x ∈ xs, x.writesSite = false) ∨ content = generatedSite b := by
  have hread := (run_site b hs hrun).read
  have hlast : [Action.remove a].any Action.writesSite = false := rfl
  rw [List.any_append, hlast, Bool.or_false] at hread
  rw [hread, Option.some.injEq]
  cases hany : xs.any Action.writesSite with
  | false =>
    have hnone : ∀ x ∈ xs, x.writesSite = false := by simpa using hany
    exact iff_of_true rfl (Or.inl hnone)
  | true =>
    have hsome : ¬ ∀ x ∈ xs, x.writesSite = false := by simpa using hany
    rw [or_iff_right hsome]
    exact eq_comm

theorem debianHost_site (site : String) : SiteIs site (debianHost site) :=
  ⟨rfl,rfl,rfl,by simp [debianHost]⟩

theorem default_site_restored_without_webui :
    ∃ h, run (step localBuild) (debianHost "pristine")
        ([.install templatePayload (only .mds) (only .mds)] ++ [.remove (only .mds)]) = some h ∧
      h.fs.read confEnabled = some "pristine" := by
  have hrun : run (step localBuild) (debianHost "pristine")
      ([.install templatePayload (only .mds) (only .mds)] ++ [.remove (only .mds)]) = some _ := rfl
  refine ⟨_,hrun,(default_site_restored_iff (debianHost_site _) hrun).mpr (Or.inl ?_)⟩
  simp [Action.writesSite, only]

/-- Installing and removing the web interface loses the site that Debian had. -/
theorem default_site_lost :
    ¬ ∀ h, run (step localBuild) (debianHost "pristine")
        [.install templatePayload (only .webui) (only .webui), .remove (only .webui)] = some h →
      h.fs.read confEnabled = some "pristine" := by
  intro hall
  have hrun : run (step localBuild) (debianHost "pristine")
      [.install templatePayload (only .webui) (only .webui), .remove (only .webui)] = some _ := rfl
  have hread := (run_site localBuild (debianHost_site "pristine") hrun).read
  have hsame : generatedSite localBuild = "pristine" := Option.some.inj (hread.symm.trans (hall _ hrun))
  exact absurd hsame (by decide +kernel)

end ChaosBundle.Package

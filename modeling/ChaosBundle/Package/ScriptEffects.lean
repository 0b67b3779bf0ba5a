import ChaosBundle.Package.MaintainerScripts

/-! What each maintainer script does to the running jobs, to the files of
`/etc/init`, and to the files outside the package. -/
namespace ChaosBundle.Package
open Host FileSystem

/-- A part of a script that touches only files outside the package. -/
structure Tame (site : Host → Host) : Prop where
  running : ∀ h, (site h).running = h.running
  answers : ∀ h, (site h).answers = h.answers
  apart : ∀ h, LinksApart h.fs → LinksApart (site h).fs
  packaged : ∀ h, LinksApart h.fs → ∀ q : Path, q.Packaged → (site h).fs q = h.fs q

theorem tame_id : Tame id := ⟨fun _ => rfl,fun _ => rfl,fun _ ha => ha,fun _ _ _ _ => rfl⟩

theorem tame_restoreSite : Tame restoreSite where
  running _ := rfl
  answers _ := rfl
  apart _ ha := ha.copy _ _
  packaged _ ha q hq := ha.copy_outside _ rfl (by simp [hq])

theorem tame_saveSite (b : Build) : Tame (saveSite b) where
  running _ := rfl
  answers _ := rfl
  apart _ ha := ((ha.copy _ _).write _ _).appends _ _
  packaged h ha q hq := by
    have hout : ¬ q.Packaged = false := by simp [hq]
    have hcopy := ha.copy (.sitesAvailable .defaultConf) (.sitesAvailable .defaultSaved)
    calc (saveSite b h).fs q
      _ = ((h.fs.copy _ _).write _ _) q := (hcopy.write _ _).appends_outside rfl hout _
      _ = h.fs.copy _ _ q := hcopy.write_outside rfl hout _
      _ = h.fs q := ha.copy_outside _ rfl hout

/-! `prerm` -/

section Prerm
variable {site : Host → Host} (hsite : Tame site) (s : Service) {h : Host} (ha : LinksApart h.fs)
include hsite ha

private theorem prermBlock_apart : LinksApart (prermBlock site s h).fs := by
  unfold prermBlock
  split_ifs
  · exact (hsite.apart _ (by simpa using ha)).remove _
  · exact ha

omit ha in
theorem prermBlock_answers : (prermBlock site s h).answers = h.answers := by
  unfold prermBlock
  split_ifs <;> simp [hsite.answers]

private theorem prermBlock_hasConf (job : Job) : (prermBlock site s h).hasConf job =
    (h.hasConf job && !(decide (job = .node s) && h.answers s)) := by
  have hkeep : (site (h.serviceStop s)).hasConf job = h.hasConf job := by
    have := hsite.packaged (h.serviceStop s) (by simpa using ha) (.initConf job) rfl
    rw [serviceStop_fs] at this
    rw [hasConf, hasConf, this]
  unfold prermBlock
  split_ifs with he <;> by_cases hj : job = .node s <;> simp_all

omit ha in
private theorem prermBlock_running (t : Service) : (prermBlock site s h).running t =
    (h.running t && !(decide (t = s) && h.answers s && h.hasConf (.node s))) := by
  unfold prermBlock
  split_ifs with he <;> simp [hsite.running, he]

end Prerm

section PrermBlocks
variable {L : List (Service × (Host → Host))} (hL : ∀ block ∈ L, Tame block.2)
  {h : Host} (ha : LinksApart h.fs)
include hL ha

/-- The blocks of `prerm` name each service once, so that the answers and the files
read by a block are those at the start. -/
theorem prermBlocks_effect (hnodup : (L.map Prod.fst).Nodup) :
    let h' := L.foldl (fun h block => prermBlock block.2 block.1 h) h
    LinksApart h'.fs ∧ h'.answers = h.answers ∧
      h'.hasConf .service = h.hasConf .service ∧
      (∀ t, h'.hasConf (.node t) =
        (h.hasConf (.node t) && !(decide (t ∈ L.map Prod.fst) && h.answers t))) ∧
      (∀ t, h'.running t = (h.running t &&
        !(decide (t ∈ L.map Prod.fst) && h.answers t && h.hasConf (.node t)))) := by
  induction L generalizing h with
  | nil => exact ⟨ha,rfl,rfl,by simp,by simp⟩
  | cons block L ih =>
    have hsite := hL block (by simp)
    rw [List.map_cons] at hnodup ⊢
    obtain ⟨hblock,hnodup⟩ := List.nodup_cons.mp hnodup
    obtain ⟨hap,han,hservice,hconf,hrun⟩ := ih (fun c hc => hL c (by simp [hc]))
      (prermBlock_apart hsite block.1 ha) hnodup
    simp only [prermBlock_answers hsite, prermBlock_hasConf hsite _ ha,
      prermBlock_running hsite] at han hservice hconf hrun
    rw [List.foldl_cons]
    refine ⟨hap,han,by simpa using hservice,fun t => ?_,fun t => ?_⟩
    · rw [hconf t]
      by_cases ht : t = block.1
      · subst ht
        simp only [hblock, List.mem_cons, true_or, decide_true]
        simp
      · simp only [ht, List.mem_cons, false_or, Job.node.injEq, decide_false]
        simp
    · rw [hrun t]
      by_cases ht : t = block.1
      · subst ht
        simp only [hblock, List.mem_cons, true_or, decide_true]
        simp
      · simp only [ht, List.mem_cons, false_or, Job.node.injEq, decide_false]
        simp

end PrermBlocks

section Prerm
variable {h : Host} (ha : LinksApart h.fs)
include ha

private theorem prerm_blocks :
    LinksApart (prerm h).fs ∧ (prerm h).answers = h.answers ∧ (prerm h).hasConf .service = h.hasConf .service ∧
      (∀ t, (prerm h).hasConf (.node t) = (h.hasConf (.node t) && !h.answers t)) ∧
      (∀ t, (prerm h).running t = (h.running t && !(h.answers t && h.hasConf (.node t)))) := by
  have hL : ∀ block ∈ [(Service.cu, id), (.cds, id), (.webui, restoreSite), (.wan, restoreSite),
      (.mds, id)], Tame block.2 := by
    simp [tame_id, tame_restoreSite]
  obtain ⟨hap,han,hservice,hconf,hrun⟩ := prermBlocks_effect hL ha (by decide)
  refine ⟨hap,han,hservice,fun t => ?_,fun t => ?_⟩
  · exact (hconf t).trans (by cases t <;> simp)
  · exact (hrun t).trans (by cases t <;> simp)

theorem prerm_apart : LinksApart (prerm h).fs := (prerm_blocks ha).1

omit ha in
@[simp] theorem prerm_answers : (prerm h).answers = h.answers := by
  simp only [prerm, List.foldl_cons, List.foldl_nil, prermBlock_answers tame_id,
    prermBlock_answers tame_restoreSite]

theorem prerm_hasConf_node (t : Service) :
    (prerm h).hasConf (.node t) = (h.hasConf (.node t) && !h.answers t) :=
  (prerm_blocks ha).2.2.2.1 t

theorem prerm_hasConf_of {job : Job} (hj : (prerm h).hasConf job) : h.hasConf job := by
  cases job with
  | node t =>
    rw [prerm_hasConf_node ha, Bool.and_eq_true] at hj
    exact hj.1
  | service => exact (prerm_blocks ha).2.2.1 ▸ hj

theorem prerm_running (t : Service) :
    (prerm h).running t = (h.running t && !(h.answers t && h.hasConf (.node t))) :=
  (prerm_blocks ha).2.2.2.2 t

end Prerm

section Drops
variable (h : Host)

theorem preinst_eq : preinst h = (dropOrder.foldl (dropConf h.answers) h).rmConf .service := by
  rw [preinst]
  split_ifs with hs
  · rfl
  · exact (rmConf_of_not_hasConf hs).symm

@[simp] theorem preinst_answers : (preinst h).answers = h.answers := by simp [preinst_eq]
theorem preinst_fs {q : Path} (hq : ∀ job, q ≠ .initConf job) : (preinst h).fs q = h.fs q := by
  rw [preinst_eq, rmConf_fs_of_ne _ _ (hq _)]
  exact dropConfs_fs _ _ _ fun s _ => hq _

theorem preinst_hasConf (job : Job) :
    (preinst h).hasConf job = (h.hasConf job && decide (job = .node .wan)) := by
  rw [preinst_eq, rmConf_hasConf, dropConfs_hasConf]
  cases job with
  | node t => cases t <;> simp [dropOrder]
  | service => simp

theorem preinst_running (t : Service) : (preinst h).running t =
    (h.running t && !(decide (t ≠ .wan) && h.hasConf (.node t) && h.answers t)) := by
  have hmem : decide (t ∈ dropOrder) = decide (t ≠ .wan) := by cases t <;> decide
  rw [preinst_eq, rmConf_running, dropConfs_running, hmem]

@[simp] theorem postrm_answers : (postrm h).answers = h.answers := by simp [postrm]
/-- `postrm` stops nothing: the variables it tests are never set. -/
@[simp] theorem postrm_running (t : Service) : (postrm h).running t = h.running t := by
  simp [postrm, postrmEnable]

theorem postrm_fs {q : Path} (hq : q.Packaged = false) (hlog : q ≠ .varLogChaos) :
    (postrm h).fs q = h.fs q := by
  have hconf : ∀ job, q ≠ .initConf job := by rintro job rfl; cases hq
  have hdir : q.underInstdir = false := by cases q <;> first | rfl | cases hq
  have halias : q ≠ .instdirAlias := by rintro rfl; cases hq
  simp only [postrm, remove_apply, if_neg hlog, rmConf_fs_of_ne _ _ (hconf _)]
  rw [dropConfs_fs _ _ _ fun s _ => hconf _]
  simp [hdir, halias]

variable {h} in
theorem preinst_apart (ha : LinksApart h.fs) : LinksApart (preinst h).fs := by
  apply ha.of_links
  intro q r hq hr
  rwa [preinst_fs h fun job e => by subst e; cases hq] at hr

variable {h} in
theorem postrm_apart (ha : LinksApart h.fs) : LinksApart (postrm h).fs := by
  apply ha.of_links
  intro q r hq hr
  by_cases hlog : q = .varLogChaos
  · subst hlog
    simp [postrm] at hr
  · rwa [postrm_fs h hq hlog] at hr

theorem postrm_underInstdir {q : Path} (hq : q.underInstdir) : (postrm h).fs q = none := by
  have hconf : ∀ job, q ≠ .initConf job := by rintro job rfl; cases hq
  have hlog : q ≠ .varLogChaos := by rintro rfl; cases hq
  simp only [postrm, remove_apply, if_neg hlog, rmConf_fs_of_ne _ _ (hconf _)]
  rw [dropConfs_fs _ _ _ fun s _ => hconf _]
  simp [hq]

theorem postrm_hasConf (job : Job) :
    (postrm h).hasConf job = (h.hasConf job && decide (job = .node .wan)) := by
  have hstart : ({ h with fs := (h.fs.remove .instdirAlias).removeAll Path.underInstdir } :
      Host).hasConf job = h.hasConf job := by
    simp [hasConf, Path.underInstdir]
  have hend (h' : Host) : ({ h' with fs := h'.fs.remove .varLogChaos } : Host).hasConf job =
      h'.hasConf job := by
    simp [hasConf]
  unfold postrm
  rw [hend, rmConf_hasConf, dropConfs_hasConf, hstart]
  cases job with
  | node t => cases t <;> simp [dropOrder]
  | service => simp

end Drops

section Postinst
variable (b : Build) (ok : Service → Bool) (h : Host)

@[simp] theorem configure_running : (configure b h).running = h.running := by
  unfold configure; split_ifs <;> rfl

@[simp] theorem configure_answers : (configure b h).answers = h.answers := by
  unfold configure; split_ifs <;> rfl

@[simp] theorem configure_installed : (configure b h).installed = h.installed := by
  unfold configure; split_ifs <;> rfl

variable {h} in
theorem makeDirs_apart (ha : LinksApart h.fs) : LinksApart (makeDirs h).fs :=
  ((ha.mkdir (.instdir "etc")).mkdir (.instdir "log")).mkdir .varLogChaos

theorem makeDirs_fs {q : Path} (hetc : q ≠ .instdir "etc") (hlog : q ≠ .instdir "log")
    (hvar : q ≠ .varLogChaos) : (makeDirs h).fs q = h.fs q := by
  change (((h.fs.mkdir (.instdir "etc")).mkdir (.instdir "log")).mkdir .varLogChaos) q = _
  rw [mkdir_of_ne _ hvar, mkdir_of_ne _ hlog, mkdir_of_ne _ hetc]

variable {h} in
private theorem configure_apart (ha : LinksApart h.fs) : LinksApart (configure b h).fs := by
  unfold configure
  split_ifs
  · exact (tame_saveSite b).apart _ (makeDirs_apart ha)
  · exact makeDirs_apart ha

variable {h} in
/-- Of the packaged names `configure` makes at most the two directories. -/
theorem configure_fs (ha : LinksApart h.fs) {q : Path} (hq : q.Packaged)
    (hetc : q ≠ .instdir "etc") (hlog : q ≠ .instdir "log") : (configure b h).fs q = h.fs q := by
  have hdirs := makeDirs_fs h hetc hlog (q := q) (by rintro rfl; cases hq)
  unfold configure
  split_ifs
  · exact ((tame_saveSite b).packaged _ (makeDirs_apart ha) q hq).trans hdirs
  · exact hdirs

variable {h} in
theorem configure_hasConf (ha : LinksApart h.fs) (job : Job) :
    (configure b h).hasConf job = h.hasConf job := by
  rw [hasConf, configure_fs b ha rfl (by simp) (by simp), hasConf]

variable {b} in
theorem postinst_eq (ht : b.template ≠ "docker") :
    postinst b ok h = startEnabled ok startOrder (configure b h) :=
  if_pos ht

theorem postinst_frame : ∃ r, (postinst b ok h).1 = { configure b h with running := r } := by
  rw [postinst]
  split_ifs
  · exact startEnabled_frame ok startOrder (configure b h)
  · exact ⟨_,rfl⟩

theorem postinst_fs : (postinst b ok h).1.fs = (configure b h).fs := by
  obtain ⟨r,hr⟩ := postinst_frame b ok h
  rw [hr]

@[simp] theorem postinst_answers : (postinst b ok h).1.answers = h.answers := by
  obtain ⟨r,hr⟩ := postinst_frame b ok h
  rw [hr, configure_answers]

@[simp] theorem postinst_installed : (postinst b ok h).1.installed = h.installed := by
  obtain ⟨r,hr⟩ := postinst_frame b ok h
  rw [hr, configure_installed]

variable {h} in
theorem postinst_apart (ha : LinksApart h.fs) : LinksApart (postinst b ok h).1.fs :=
  postinst_fs b ok h ▸ configure_apart b ha

variable {h} in
theorem postinst_hasConf (ha : LinksApart h.fs) (job : Job) :
    (postinst b ok h).1.hasConf job = h.hasConf job := by
  rw [hasConf, postinst_fs, ← hasConf, configure_hasConf b ha]

variable {h} in
theorem postinst_running (ha : LinksApart h.fs) {t : Service}
    (ht : (postinst b ok h).1.running t) :
    h.running t ∨ h.answers t ∧ h.hasConf (.node t) := by
  rw [postinst] at ht
  split_ifs at ht
  · rcases startEnabled_running ok startOrder _ ht with hr | ⟨he,hc⟩
    · exact Or.inl (by simpa using hr)
    · exact Or.inr ⟨by simpa using he,configure_hasConf b ha _ ▸ hc⟩
  · exact Or.inl (by simpa using ht)

theorem postinst_running_mono {t : Service} (ht : h.running t) :
    (postinst b ok h).1.running t := by
  rw [postinst]
  split_ifs
  · exact startEnabled_running_mono ok startOrder _ (by simpa using ht)
  · simpa using ht

end Postinst

end ChaosBundle.Package

import ChaosBundle.Package.Host
import Mathlib.Tactic.SplitIfs

/-! The four maintainer scripts of `package_template/DEBIAN`, run by bash without
`set -e`. Only `postinst` can end with a status other than zero. -/
namespace ChaosBundle.Package
open Host

def echo (line : String) : String := line ++ "\n"

def siteHead : String := "<VirtualHost *:80>"

/-- The lines that `postinst` appends to the default site. -/
def siteBody (b : Build) : List String :=
  ["        ServerAdmin webmaster@localhost",
    "        DocumentRoot " ++ b.instdir ++ "/html",
    "        ErrorLog $\x7bAPACHE_LOG_DIR\x7d/error.log",
    "        CustomLog $\x7bAPACHE_LOG_DIR\x7d/access.log combined",
    " <Directory \"" ++ b.instdir ++ "/html\">",
    "    Require all granted ",
    " </Directory>",
    "</VirtualHost>"]

/-- The default site of the web interface. It depends on `$INSTDIR` only. -/
def generatedSite (b : Build) : String :=
  ((siteBody b).map echo).foldl (· ++ ·) (echo siteHead)

/-- Save the default site beside itself in `sites-available` and write the new one. -/
def saveSite (b : Build) (h : Host) : Host :=
  let conf := Path.sitesAvailable .defaultConf
  let saved := h.fs.copy conf (.sitesAvailable .defaultSaved)
  { h with
    fs := ((siteBody b).map echo).foldl (fun fs line => fs.append conf line)
      (saved.write conf (echo siteHead)) }

/-- The restore of `prerm` looks for the saved site in `sites-enabled`. -/
def restoreSite (h : Host) : Host :=
  { h with fs := h.fs.copy (.sitesEnabled .defaultSaved) (.sitesEnabled .defaultConf) }

/-- One block of `prerm`; `site` is what it does between the stop and the `rm`. -/
def prermBlock (site : Host → Host) (s : Service) (h : Host) : Host :=
  if h.answers s then (site (h.serviceStop s)).rmConf (.node s) else h

def prerm (h : Host) : Host :=
  [(Service.cu, id), (.cds, id), (.webui, restoreSite), (.wan, restoreSite), (.mds, id)].foldl
    (fun h block => prermBlock block.2 block.1 h) h

/-- One block of `preinst` and `postrm`; `enable` is the script's `$..._ENABLE`. -/
def dropConf (enable : Service → Bool) (h : Host) (s : Service) : Host :=
  if h.hasConf (.node s) then
    (if enable s then h.serviceStop s else h).rmConf (.node s)
  else h

/-- The services that `preinst` and `postrm` list. Neither names `wan`. -/
def dropOrder : List Service := [.cu, .cds, .webui, .mds]

def preinst (h : Host) : Host :=
  let h := dropOrder.foldl (dropConf h.answers) h
  if h.hasConf .service then h.rmConf .service else h

/-- `postrm` never reads the debconf database: its `$..._ENABLE` are unset. -/
def postrmEnable : Service → Bool := fun _ => false

def postrm (h : Host) : Host :=
  let h := { h with fs := (h.fs.remove .instdirAlias).removeAll Path.underInstdir }
  let h := dropOrder.foldl (dropConf postrmEnable) h
  let h := h.rmConf .service
  { h with fs := h.fs.remove .varLogChaos }

def startOrder : List Service := [.mds, .cds, .webui, .wan, .cu]

/-- The start blocks of `postinst`, with the exit status: the first start that
fails ends the script. -/
def startEnabled (ok : Service → Bool) : List Service → Host → Host × Nat
  | [], h => (h, 0)
  | s :: rest, h =>
    if h.answers s then
      match h.serviceStart ok s with
      | some h' => startEnabled ok rest h'
      | none => (h, 1)
    else startEnabled ok rest h

def makeDirs (h : Host) : Host :=
  { h with fs := ((h.fs.mkdir (.instdir "etc")).mkdir (.instdir "log")).mkdir .varLogChaos }

/-- The part of `postinst` before any service is started. -/
def configure (b : Build) (h : Host) : Host :=
  if h.answers .webui then saveSite b (makeDirs h) else makeDirs h

/-- The restarts of the databases and the test of the metadata server, whose statuses are
ignored, are left out. -/
def postinst (b : Build) (ok : Service → Bool) (h : Host) : Host × Nat :=
  let h := configure b h
  if b.template ≠ "docker" then startEnabled ok startOrder h else (h, 0)

/-! What the blocks can do. -/

section Blocks
variable (h : Host) (s t : Service) (job : Job) (enable : Service → Bool)

@[simp] theorem dropConf_answers : (dropConf enable h s).answers = h.answers := by
  unfold dropConf; split_ifs <;> simp

private theorem dropConf_fs_of_ne {q : Path} (hq : q ≠ .initConf (.node s)) :
    (dropConf enable h s).fs q = h.fs q := by
  unfold dropConf
  split_ifs <;> simp [rmConf, hq]

@[simp] theorem dropConf_hasConf :
    (dropConf enable h s).hasConf job = (h.hasConf job && decide (job ≠ .node s)) := by
  unfold dropConf
  by_cases hj : job = .node s <;> split_ifs <;> simp_all

@[simp] theorem dropConf_running : (dropConf enable h s).running t =
    (h.running t && !(decide (t = s) && h.hasConf (.node s) && enable s)) := by
  unfold dropConf
  split_ifs <;> simp_all

end Blocks

section DropConfs
variable (enable : Service → Bool) (L : List Service) (h : Host)

@[simp] theorem dropConfs_answers : (L.foldl (dropConf enable) h).answers = h.answers := by
  induction L generalizing h with
  | nil => rfl
  | cons s L ih => simp [ih]

theorem dropConfs_fs {q : Path} (hq : ∀ s ∈ L, q ≠ .initConf (.node s)) :
    (L.foldl (dropConf enable) h).fs q = h.fs q := by
  induction L generalizing h with
  | nil => rfl
  | cons s L ih =>
    rw [List.foldl_cons, ih _ fun t ht => hq t (by simp [ht])]
    exact dropConf_fs_of_ne h s enable (hq s (by simp))

@[simp] theorem dropConfs_hasConf (job : Job) : (L.foldl (dropConf enable) h).hasConf job =
    (h.hasConf job && decide (∀ s ∈ L, job ≠ .node s)) := by
  induction L generalizing h with
  | nil => simp
  | cons s L ih => simp [ih, Bool.and_assoc]

@[simp] theorem dropConfs_running (t : Service) : (L.foldl (dropConf enable) h).running t =
    (h.running t && !(decide (t ∈ L) && h.hasConf (.node t) && enable t)) := by
  induction L generalizing h with
  | nil => simp
  | cons s L ih =>
    rw [List.foldl_cons, ih, dropConf_running, dropConf_hasConf]
    by_cases hts : t = s
    · subst hts
      cases h.running t <;> cases h.hasConf (.node t) <;> cases enable t <;> simp
    · simp [hts]

end DropConfs

section Starts
variable (ok : Service → Bool) (L : List Service) (h : Host)

theorem startEnabled_cons_of_enabled {s : Service} (hs : h.answers s) :
    startEnabled ok (s :: L) h =
      if h.canStart ok s then
        startEnabled ok L { h with running := Function.update h.running s true }
      else (h, 1) := by
  rw [startEnabled, if_pos hs, serviceStart]
  split_ifs <;> rfl

theorem startEnabled_cons_of_disabled {s : Service} (hs : ¬ h.answers s) :
    startEnabled ok (s :: L) h = startEnabled ok L h := by
  rw [startEnabled, if_neg hs]

theorem startEnabled_frame : ∃ r, (startEnabled ok L h).1 = { h with running := r } := by
  induction L generalizing h with
  | nil => exact ⟨h.running,rfl⟩
  | cons s L ih =>
    by_cases hs : h.answers s
    · rw [startEnabled_cons_of_enabled ok L h hs]
      split_ifs
      · obtain ⟨r,hr⟩ := ih { h with running := Function.update h.running s true }
        exact ⟨r,hr⟩
      · exact ⟨h.running,rfl⟩
    · rw [startEnabled_cons_of_disabled ok L h hs]
      exact ih h

theorem startEnabled_running_mono {t : Service} (ht : h.running t) :
    (startEnabled ok L h).1.running t := by
  induction L generalizing h with
  | nil => exact ht
  | cons s L ih =>
    by_cases hs : h.answers s
    · rw [startEnabled_cons_of_enabled ok L h hs]
      split_ifs
      · apply ih
        simp [Function.update_apply, ht]
      · exact ht
    · rw [startEnabled_cons_of_disabled ok L h hs]
      exact ih h ht

/-- What runs afterwards ran before or is an enabled service with a file. -/
theorem startEnabled_running {t : Service} (ht : (startEnabled ok L h).1.running t) :
    h.running t ∨ h.answers t ∧ h.hasConf (.node t) := by
  induction L generalizing h with
  | nil => exact Or.inl ht
  | cons s L ih =>
    by_cases hs : h.answers s
    · rw [startEnabled_cons_of_enabled ok L h hs] at ht
      split_ifs at ht with hc
      · rcases ih _ ht with hr | hr
        · by_cases hts : t = s
          · subst hts
            simp only [canStart, Bool.and_eq_true] at hc
            exact Or.inr ⟨hs,hc.1.1⟩
          · simp only [Function.update_of_ne hts] at hr
            exact Or.inl hr
        · exact Or.inr hr
      · exact Or.inl ht
    · rw [startEnabled_cons_of_disabled ok L h hs] at ht
      exact ih h ht

/-- The status is zero exactly when every enabled job of the list can be started. -/
theorem startEnabled_status (hL : L.Nodup) :
    (startEnabled ok L h).2 = 0 ↔ ∀ s ∈ L, h.answers s → h.canStart ok s := by
  induction L generalizing h with
  | nil => simp [startEnabled]
  | cons s L ih =>
    obtain ⟨hsL,hL⟩ := List.nodup_cons.mp hL
    by_cases hs : h.answers s
    · rw [startEnabled_cons_of_enabled ok L h hs]
      split_ifs with hc
      · rw [ih _ hL, List.forall_mem_cons, and_iff_right fun _ => hc]
        apply forall₃_congr
        intro t ht _
        have hts : t ≠ s := fun e => hsL (e ▸ ht)
        simp [canStart, hasConf, Function.update_of_ne hts]
      · simp [hs, hc]
    · rw [startEnabled_cons_of_disabled ok L h hs, ih _ hL]
      simp [hs]

theorem startEnabled_all_running (h0 : (startEnabled ok L h).2 = 0) {s : Service}
    (hs : s ∈ L) (he : h.answers s) : (startEnabled ok L h).1.running s := by
  induction L generalizing h with
  | nil => cases hs
  | cons t L ih =>
    by_cases ht : h.answers t
    · rw [startEnabled_cons_of_enabled ok L h ht] at h0 ⊢
      split_ifs at h0 ⊢ with hc
      · rcases List.mem_cons.mp hs with rfl | hs
        · exact startEnabled_running_mono ok L _ (by simp)
        · exact ih _ h0 hs he
    · rw [startEnabled_cons_of_disabled ok L h ht] at h0 ⊢
      rcases List.mem_cons.mp hs with rfl | hs
      · exact absurd he ht
      · exact ih h h0 hs he

theorem startEnabled_first_fails {s : Service} (hs : L.find? (h.answers ·) = some s)
    (hc : ¬ h.canStart ok s) : startEnabled ok L h = (h, 1) := by
  induction L with
  | nil => cases hs
  | cons t L ih =>
    by_cases ht : h.answers t
    · rw [List.find?_cons_of_pos ht, Option.some.injEq] at hs
      subst hs
      rw [startEnabled_cons_of_enabled ok L h ht, if_neg hc]
    · rw [List.find?_cons_of_neg ht] at hs
      rw [startEnabled_cons_of_disabled ok L h ht, ih hs]

theorem startEnabled_first_starts {s : Service} (hs : L.find? (h.answers ·) = some s)
    (hc : h.canStart ok s) : (startEnabled ok L h).1.running s := by
  induction L with
  | nil => cases hs
  | cons t L ih =>
    by_cases ht : h.answers t
    · rw [List.find?_cons_of_pos ht, Option.some.injEq] at hs
      subst hs
      rw [startEnabled_cons_of_enabled ok L h ht, if_pos hc]
      exact startEnabled_running_mono ok L _ (by simp)
    · rw [List.find?_cons_of_neg ht] at hs
      rw [startEnabled_cons_of_disabled ok L h ht]
      exact ih hs

end Starts

end ChaosBundle.Package

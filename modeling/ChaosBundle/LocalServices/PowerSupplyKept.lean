import ChaosBundle.LocalServices.PowerSupplyCounts

/-! What becomes of the logs of `test-powersupply.sh`: which file stands under which name,
in every order of the steps. -/
namespace ChaosBundle.LocalServices
open Function Glob Runs

def finalName (p : Pair) : Verdict → List Char
  | .ok => okName p
  | .failed => failName p

private theorem finalName_eq (p : Pair) (v : Verdict) : ∃ ending, ending ≠ ['l','o','g'] ∧
    finalName p v = logFile p ending := by
  cases v with
  | ok => exact ⟨_,by simp,rfl⟩
  | failed => exact ⟨_,by simp,rfl⟩

theorem finalName_ne (p q : Pair) (v : Verdict) : finalName p v ≠ logName q := by
  cases v with
  | ok => exact okName_ne p q
  | failed => exact failName_ne p q

private theorem finalName_inj {p q : Pair} {v w : Verdict} :
    finalName p v = finalName q w ↔ p = q ∧ v = w := by
  cases v <;> cases w <;> simp [finalName, okName, failName, logFile_inj]

namespace Pc

def visiting : Pc → List Pair
  | .clean p rest | .launch p rest | .grepOk p rest | .moveOk p rest | .grepFail p rest => p :: rest
  | .check | .moveFail _ | .ended _ => []

/-- The logs are being removed and the processes started. -/
def setting : Pc → Bool
  | .clean _ _ | .launch _ _ => true
  | _ => false

/-- The pair whose log is renamed next, and the verdict that was found in it. -/
def moving : Pc → Option (Pair × Verdict)
  | .moveOk p _ => some (p,.ok)
  | .moveFail p => some (p,.failed)
  | _ => none

end Pc

theorem moving_iff {pc : Pc} {p : Pair} : Moving pc p ↔ ∃ v, pc.moving = some (p,v) := by
  cases pc <;> simp [Moving, Pc.moving]

@[simp] theorem setup_moving (rest : List Pair) : (setup rest).moving = none := by
  cases rest <;> rfl

@[simp] theorem scan_moving (rest : List Pair) : (scan rest).moving = none := by
  cases rest <;> rfl

@[simp] theorem setup_visiting (rest : List Pair) : (setup rest).visiting = rest := by
  cases rest <;> rfl

@[simp] theorem scan_visiting (rest : List Pair) : (scan rest).visiting = rest := by
  cases rest <;> rfl

@[simp] theorem scan_setting (rest : List Pair) : (scan rest).setting = false := by
  cases rest <;> rfl

/-- The pair is counted and its log renamed. -/
def Shelved (s : State) (p : Pair) : Prop := p ∈ s.counted ∧ ∀ v, s.pc.moving ≠ some (p,v)

section Kept
variable {nus ncu : Nat} {s t : State} {p q : Pair}

theorem shelved_congr (hcounted : t.counted = s.counted) (hmoving : t.pc.moving = s.pc.moving) :
    Shelved t p ↔ Shelved s p := by
  rw [Shelved, Shelved, hcounted, hmoving]

/-- Every log of this run stands under one name, which says what has been counted. -/
structure Kept (nus ncu : Nat) (s : State) : Prop where
  visiting : s.pc.visiting <:+ pairs nus ncu
  setting : s.pc.setting → s.counted = [] ∧ ∀ p ∈ s.pc.visiting, p ∉ s.started
  moving : ∀ p v, s.pc.moving = some (p,v) → p ∈ s.counted ∧ s.written p = some v
  recorded : ∀ p v, s.written p = some v → ∃ i, s.fd p = some i ∧ some v ∈ s.lines i
  standing : ∀ p i, s.fd p = some i → ¬ Shelved s p → s.link (logName p) = some i
  shelved : ∀ p, Shelved s p → ∃ v, s.written p = some v ∧ s.link (finalName p v) = s.fd p
  unshelved : ∀ p v, Tidy s p → ¬ (Shelved s p ∧ s.written p = some v) →
    s.link (finalName p v) = none

private theorem begin_kept (link : List Char → Option Nat) (lines : Nat → List Line) (fresh : Nat) :
    Kept nus ncu (begin nus ncu link lines fresh) := by
  refine ⟨by simp [begin],by simp [begin],by simp [begin],by simp [begin],by simp [begin],?_,?_⟩
  · simp [begin, Shelved]
  · rintro p v (hp | ⟨rest,hp⟩)
    · simp [begin] at hp
    · exact absurd hp (setup_ne_launch _ p rest)

theorem Kept.same (hs : Kept nus ncu s) (hvisiting : t.pc.visiting <:+ pairs nus ncu)
    (hsetting : t.pc.setting → t.counted = [] ∧ ∀ p ∈ t.pc.visiting, p ∉ t.started)
    (hmoving : ∀ p v, t.pc.moving = some (p,v) → p ∈ t.counted ∧ t.written p = some v)
    (hshelved : ∀ p, Shelved t p ↔ Shelved s p) (htidy : ∀ p, Tidy t p → Tidy s p)
    (hfd : t.fd = s.fd) (hlines : t.lines = s.lines) (hwritten : t.written = s.written)
    (hlink : t.link = s.link) : Kept nus ncu t where
  visiting := hvisiting
  setting := hsetting
  moving := hmoving
  recorded := by
    rw [hfd, hlines, hwritten]
    exact hs.recorded
  standing p i := by
    rw [hfd, hlink, hshelved]
    exact hs.standing p i
  shelved p := by
    rw [hfd, hlink, hwritten, hshelved]
    exact hs.shelved p
  unshelved p v hp := by
    rw [hlink, hwritten, hshelved]
    exact hs.unshelved p v (htidy p hp)

theorem tidy_of_started (hstarted : t.started = s.started) (hsetting : t.pc.setting = false)
    (hp : Tidy t p) : Tidy s p := by
  rcases hp with hp | ⟨rest,hp⟩
  · exact .inl (hstarted ▸ hp)
  · simp [hp, Pc.setting] at hsetting

private theorem Kept.quiet (hs : Kept nus ncu s) (hvisiting : t.pc.visiting <:+ pairs nus ncu)
    (hsetting : t.pc.setting = false) (hmoving : t.pc.moving = s.pc.moving)
    (hcounted : t.counted = s.counted) (hstarted : t.started = s.started) (hfd : t.fd = s.fd)
    (hlines : t.lines = s.lines) (hwritten : t.written = s.written) (hlink : t.link = s.link) :
    Kept nus ncu t := by
  refine hs.same hvisiting (by simp [hsetting]) ?_ (fun q => shelved_congr hcounted hmoving)
    (fun q => tidy_of_started hstarted hsetting) hfd hlines hwritten hlink
  rw [hmoving, hcounted, hwritten]
  exact hs.moving

/-- Nothing has been counted while the logs are removed. -/
theorem Kept.not_shelved (hs : Kept nus ncu s) (hsetting : s.pc.setting) (p : Pair) : ¬ Shelved s p := by
  rw [Shelved, (hs.setting hsetting).1]
  simp

private theorem Kept.clean (hs : Kept nus ncu s) (ho : OwnLogs s) {rest : List Pair}
    (hpc : s.pc = .clean p rest) : Kept nus ncu {s.rm (logFile p ['*']) with pc := .launch p rest} := by
  have hnone : ∀ q, ¬ Shelved s q := hs.not_shelved (by simp [hpc, Pc.setting])
  obtain ⟨hcounted,hstarted⟩ := hs.setting (by simp [hpc, Pc.setting])
  have hvisiting := hs.visiting
  simp only [hpc, Pc.visiting] at hvisiting hstarted
  have hrm := s.rm_link p
  refine ⟨hvisiting,fun _ => ⟨hcounted,hstarted⟩,by simp [Pc.moving],hs.recorded,?_,?_,?_⟩
  · intro q i hq _
    have hqp : q ≠ p := fun h => hstarted p List.mem_cons_self (h ▸ (ho.opened q i hq).1)
    exact ((hrm q _).trans (if_neg hqp)).trans (hs.standing q i hq (hnone q))
  · intro q hq
    change q ∈ s.counted ∧ _ at hq
    simp [hcounted] at hq
  · intro q v hq _
    obtain ⟨ending,-,hname⟩ := finalName_eq q v
    rw [hname]
    refine (hrm q ending).trans ?_
    split_ifs with hqp
    · rfl
    · rw [← hname]
      refine hs.unshelved q v (.inl ?_) fun h => hnone q h.1
      rcases hq with hq | ⟨rest',hq⟩
      · exact hq
      · cases hq
        exact absurd rfl hqp

private theorem Kept.launch (hs : Kept nus ncu s) {rest : List Pair} (hpc : s.pc = .launch p rest) :
    Kept nus ncu {s with started := p :: s.started, pc := setup rest} := by
  have hnone : ∀ q, ¬ Shelved s q := hs.not_shelved (by simp [hpc, Pc.setting])
  obtain ⟨hcounted,hstarted⟩ := hs.setting (by simp [hpc, Pc.setting])
  have hvisiting := hs.visiting
  simp only [hpc, Pc.visiting] at hvisiting hstarted
  have hnodup := List.nodup_cons.mp (hvisiting.sublist.nodup (nodup_pairs nus ncu))
  have hshelved : ∀ q, Shelved {s with started := p :: s.started, pc := setup rest} q ↔ Shelved s q :=
    fun q => shelved_congr rfl ((setup_moving rest).trans (by rw [hpc]; rfl))
  refine hs.same ?_ ?_ (by simp) hshelved ?_ rfl rfl rfl rfl
  · rw [setup_visiting]
    exact (List.suffix_cons p rest).trans hvisiting
  · rw [setup_visiting]
    intro _
    refine ⟨hcounted,fun q hq => ?_⟩
    rw [List.mem_cons, not_or]
    exact ⟨fun h => hnodup.1 (h ▸ hq),hstarted q (List.mem_cons_of_mem _ hq)⟩
  · rintro q (hq | ⟨rest',hq⟩)
    · rcases List.mem_cons.mp hq with rfl | hq
      · exact .inr ⟨rest,hpc⟩
      · exact .inl hq
    · exact absurd hq (setup_ne_launch rest q rest')

private theorem Kept.count (hs : Kept nus ncu s) (hc : Counts nus ncu s) (ho : OwnLogs s)
    (hp : p ∈ s.started)
    (hstill : s.pc.moving = none) {v : Verdict} (hg : s.grep v p) (hcounted : t.counted = p :: s.counted)
    (hmoving : t.pc.moving = some (p,v)) (hvisiting : t.pc.visiting <:+ pairs nus ncu)
    (hsetting : t.pc.setting = false) (hstarted : t.started = s.started) (hfd : t.fd = s.fd)
    (hlines : t.lines = s.lines) (hwritten : t.written = s.written) (hlink : t.link = s.link) :
    Kept nus ncu t := by
  have hnotMem : p ∉ s.counted := hc.notMem_of_grep ho hp (by simp [moving_iff, hstill]) hg
  refine hs.same hvisiting (by simp [hsetting]) ?_ ?_ ?_ hfd hlines hwritten hlink
  · intro q w hq
    obtain ⟨rfl,rfl⟩ : p = q ∧ v = w := by simpa [hmoving] using hq
    rw [hcounted, hwritten]
    exact ⟨List.mem_cons_self,(ho.grep hp hg).2.2⟩
  · intro q
    by_cases hqp : q = p
    · subst hqp
      simp [Shelved, hmoving, hnotMem]
    · simp [Shelved, hcounted, hmoving, hstill, hqp, Ne.symm hqp]
  · exact fun q => tidy_of_started hstarted hsetting

private theorem Kept.move (hs : Kept nus ncu s) (hc : Counts nus ncu s) {v : Verdict}
    (hmoving : s.pc.moving = some (p,v)) (pc : Pc) (hstill : pc.moving = none)
    (hvisiting : pc.visiting <:+ pairs nus ncu) (hsetting : pc.setting = false) :
    Kept nus ncu {s.mv (logName p) (finalName p v) with pc := pc} := by
  obtain ⟨hcounted,hwritten⟩ := hs.moving p v hmoving
  obtain ⟨i,hfd⟩ := Option.ne_none_iff_exists'.mp (hc.moved p hcounted).1
  have hlog : s.link (logName p) = some i := hs.standing p i hfd (by simp [Shelved, hmoving])
  have hmv : (s.mv (logName p) (finalName p v)).link =
      update (update s.link (finalName p v) (some i)) (logName p) none := by
    simp [State.mv, hlog]
  have hshelved : ∀ q, Shelved {s.mv (logName p) (finalName p v) with pc := pc} q ↔
      q = p ∨ Shelved s q := fun q => by
    by_cases hqp : q = p
    · subst hqp
      simp [Shelved, hstill, State.mv, hcounted]
    · simp [Shelved, hstill, State.mv, hmoving, hqp, Ne.symm hqp]
  refine ⟨hvisiting,by simp [hsetting],by simp [hstill],hs.recorded,?_,?_,?_⟩
  · intro q j hq hnot
    rw [hshelved, not_or] at hnot
    change (s.mv (logName p) (finalName p v)).link (logName q) = some j
    have hname : logName q ≠ logName p := fun h => hnot.1 (logFile_inj.mp h).1
    rw [hmv, update_of_ne hname, update_of_ne (finalName_ne p q v).symm]
    exact hs.standing q j hq hnot.2
  · intro q hq
    change ∃ w, s.written q = some w ∧ (s.mv (logName p) (finalName p v)).link (finalName q w) = s.fd q
    rw [hmv]
    rcases (hshelved q).mp hq with rfl | hq
    · exact ⟨v,hwritten,by simp [finalName_ne q q v, hfd]⟩
    · obtain ⟨w,hw,hlink⟩ := hs.shelved q hq
      have hqp : q ≠ p := fun h => hq.2 v (h ▸ hmoving)
      refine ⟨w,hw,?_⟩
      have hname : finalName q w ≠ finalName p v := fun h => hqp (finalName_inj.mp h).1
      rw [update_of_ne (finalName_ne q p w), update_of_ne hname]
      exact hlink
  · intro q w hq hnot
    change (s.mv (logName p) (finalName p v)).link (finalName q w) = none
    change ¬ (_ ∧ s.written q = some w) at hnot
    rw [hshelved] at hnot
    have hne : finalName q w ≠ finalName p v := fun h => by
      obtain ⟨rfl,rfl⟩ := finalName_inj.mp h
      exact hnot ⟨.inl rfl,hwritten⟩
    rw [hmv, update_of_ne (finalName_ne q p w), update_of_ne hne]
    refine hs.unshelved q w (.inl ?_) fun h => hnot ⟨.inr h.1,h.2⟩
    rcases hq with hq | ⟨rest,rfl⟩
    · exact hq
    · simp [Pc.setting] at hsetting

private theorem Kept.script (hs : Kept nus ncu s) (hc : Counts nus ncu s) (ho : OwnLogs s) {good : Bool}
    (h : scriptStep nus ncu s good = some t) : Kept nus ncu t := by
  have hvisiting := hs.visiting
  have hplace := hc.place
  unfold scriptStep at h
  unfold Place at hplace
  cases hpc : s.pc with
  | clean p rest =>
    simp only [hpc, Option.some.injEq] at h
    subst h
    exact hs.clean ho hpc
  | launch p rest =>
    simp only [hpc] at h
    split_ifs at h
    all_goals
      cases h
    · exact hs.launch hpc
    · exact hs.quiet List.nil_suffix rfl (by rw [hpc]; rfl) rfl rfl rfl rfl rfl rfl
  | check =>
    have hend : ∀ status, Kept nus ncu {s with pc := .ended status} := fun status =>
      hs.quiet List.nil_suffix rfl (by rw [hpc]; rfl) rfl rfl rfl rfl rfl rfl
    simp only [hpc] at h
    split_ifs at h
    all_goals
      cases h
    · exact hend 1
    · exact hend s.errors
    · refine hs.quiet ?_ (scan_setting _) ((scan_moving _).trans (by rw [hpc]; rfl)) rfl rfl rfl rfl rfl rfl
      exact (scan_visiting (pairs nus ncu)).symm ▸ List.suffix_rfl
    · exact hend s.errors
  | grepOk p rest =>
    simp only [hpc, Pc.visiting] at h hplace hvisiting
    have hp := hplace.2.1 p (hplace.2.2 p List.mem_cons_self)
    split_ifs at h with hg
    all_goals
      cases h
    · exact hs.count hc ho hp (by rw [hpc]; rfl) hg rfl rfl hvisiting rfl rfl rfl rfl rfl rfl
    · exact hs.quiet hvisiting rfl (by rw [hpc]; rfl) rfl rfl rfl rfl rfl rfl
  | moveOk p rest =>
    simp only [hpc, Option.some.injEq, Pc.visiting] at h hvisiting
    subst h
    exact hs.move hc (by rw [hpc]; rfl) (.grepFail p rest) rfl hvisiting rfl
  | grepFail p rest =>
    simp only [hpc, Pc.visiting] at h hplace hvisiting
    have hp := hplace.2.1 p (hplace.2.2 p List.mem_cons_self)
    split_ifs at h with hg
    all_goals
      cases h
    · exact hs.count hc ho hp (by rw [hpc]; rfl) hg rfl rfl List.nil_suffix rfl rfl rfl rfl rfl rfl
    · refine hs.quiet ?_ (scan_setting rest) ((scan_moving rest).trans (by rw [hpc]; rfl)) rfl rfl rfl rfl rfl rfl
      exact (scan_visiting rest).symm ▸ (List.suffix_cons p rest).trans hvisiting
  | moveFail p =>
    simp only [hpc, Option.some.injEq] at h
    subst h
    exact hs.move hc (by rw [hpc]; rfl) (.ended 1) rfl List.nil_suffix rfl
  | ended status => simp [hpc] at h

private theorem Kept.openLog (hs : Kept nus ncu s) (ho : OwnLogs s) (hp : p ∈ s.started)
    (hfd : s.fd p = none) : Kept nus ncu (s.openLog p) := by
  rw [ho.openLog_eq hp hfd]
  refine ⟨hs.visiting,hs.setting,hs.moving,?_,?_,?_,?_⟩
  · intro q v hq
    obtain ⟨i,hi,hline⟩ := hs.recorded q v hq
    have hqp : q ≠ p := fun h => by simp [h ▸ hi] at hfd
    exact ⟨i,by simpa [hqp] using hi,by simpa [(ho.opened q i hi).2.ne] using hline⟩
  · intro q i hq hnot
    by_cases hqp : q = p
    · subst hqp
      simpa using hq
    · have hname : logName q ≠ logName p := fun h => hqp (logFile_inj.mp h).1
      simp only [update_of_ne hqp] at hq
      simpa [hname] using hs.standing q i hq hnot
  · intro q hq
    obtain ⟨v,hv,hlink⟩ := hs.shelved q hq
    obtain ⟨i,hi,-⟩ := hs.recorded q v hv
    have hqp : q ≠ p := fun h => by simp [h ▸ hi] at hfd
    exact ⟨v,hv,by simpa [hqp, finalName_ne] using hlink⟩
  · intro q v hq hnot
    simpa [finalName_ne] using hs.unshelved q v hq hnot

/-- The process of a shelved log has written its verdict and adds only other lines. -/
theorem Kept.append (hs : Kept nus ncu s) (ho : OwnLogs s) {i : Nat} {line : Line} (hfd : s.fd p = some i)
    (hline : line = none ∨ s.written p = none) : Kept nus ncu (s.append p i line) := by
  have hwritten : ∀ q, Shelved s q → (s.append p i line).written q = s.written q := fun q hq => by
    obtain ⟨v,hv,-⟩ := hs.shelved q hq
    rw [append_written hline hv, hv]
  refine ⟨hs.visiting,hs.setting,?_,?_,hs.standing,?_,?_⟩
  · exact fun q v hq => ⟨(hs.moving q v hq).1,append_written hline (hs.moving q v hq).2⟩
  · intro q v hq
    by_cases hqp : q = p
    · subst hqp
      refine ⟨i,hfd,?_⟩
      simp only [State.append, update_self] at hq ⊢
      rcases Option.or_eq_some_iff.mp hq with rfl | ⟨-,hq⟩
      · simp
      · obtain ⟨j,hj,hmem⟩ := hs.recorded q v hq
        cases hfd.symm.trans hj
        exact List.mem_append_left _ hmem
    · simp only [State.append, update_of_ne hqp] at hq
      obtain ⟨j,hj,hmem⟩ := hs.recorded q v hq
      refine ⟨j,hj,?_⟩
      have hji : j ≠ i := fun h => hqp (ho.apart q p i (h ▸ hj) hfd)
      simpa [State.append, hji] using hmem
  · intro q hq
    obtain ⟨v,hv,hlink⟩ := hs.shelved q hq
    exact ⟨v,append_written hline hv,hlink⟩
  · intro q v hq hnot
    refine hs.unshelved q v hq fun h => hnot ⟨h.1,?_⟩
    rw [hwritten q h.1]
    exact h.2

private theorem step_kept {a : Label} (hs : Kept nus ncu s) (hc : Counts nus ncu s) (ho : OwnLogs s)
    (hstep : step nus ncu s a = some t) : Kept nus ncu t := by
  cases a with
  | script good => exact hs.script hc ho hstep
  | opens p =>
    simp only [step] at hstep
    split_ifs at hstep with hp
    cases hstep
    exact hs.openLog ho hp.1 hp.2
  | writes p line =>
    simp only [step] at hstep
    split at hstep
    · split_ifs at hstep with hline
      cases hstep
      exact hs.append ho ‹_› hline
    · cases hstep

structure Sound (nus ncu : Nat) (s : State) : Prop where
  own : OwnLogs s
  counts : Counts nus ncu s
  kept : Kept nus ncu s

theorem step_sound (s : State) (a : Label) (t : State) (hs : Sound nus ncu s)
    (hstep : step nus ncu s a = some t) : Sound nus ncu t :=
  ⟨step_ownLogs hs.own hstep,step_counts hs.counts hs.own hstep,step_kept hs.kept hs.counts hs.own hstep⟩

theorem begin_sound (link : List Char → Option Nat) (lines : Nat → List Line) (fresh : Nat) :
    Sound nus ncu (begin nus ncu link lines fresh) :=
  ⟨begin_ownLogs link lines fresh,begin_counts link lines fresh,begin_kept link lines fresh⟩

theorem run_sound {link : List Char → Option Nat} {lines : Nat → List Line} {fresh : Nat}
    {labels : List Label} (hrun : run (step nus ncu) (begin nus ncu link lines fresh) labels = some s) :
    Sound nus ncu s :=
  run_invariant step_sound hrun (begin_sound link lines fresh)

end Kept

end ChaosBundle.LocalServices

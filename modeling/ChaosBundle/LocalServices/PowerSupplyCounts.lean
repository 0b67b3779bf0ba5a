import ChaosBundle.LocalServices.PowerSupply
import Mathlib.Data.List.Perm.Subperm

/-! The counters of `test-powersupply.sh` against the logs and the verdicts behind them,
in every order of the steps of the script and of its processes. -/
namespace ChaosBundle.LocalServices
open Function Runs

section Counts
variable {nus ncu : Nat} {s t : State} {p : Pair}

/-- The pair is counted and its log not yet renamed. -/
def Moving (pc : Pc) (p : Pair) : Prop := (∃ rest, pc = .moveOk p rest) ∨ pc = .moveFail p

/-- What the script knows by its place. -/
def Place (nus ncu : Nat) (s : State) : Prop :=
  match s.pc with
  | .clean p rest | .launch p rest =>
    s.errors = 0 ∧ ∀ q ∈ pairs nus ncu, q ∈ s.started ∨ q ∈ p :: rest
  | .check => s.errors = 0 ∧ ∀ q ∈ pairs nus ncu, q ∈ s.started
  | .grepOk p rest | .moveOk p rest | .grepFail p rest =>
    s.errors = 0 ∧ (∀ q ∈ pairs nus ncu, q ∈ s.started) ∧ ∀ q ∈ p :: rest, q ∈ pairs nus ncu
  | .moveFail _ => True
  | .ended status => status = 0 → ∀ q ∈ pairs nus ncu, s.written q = some .ok

structure Counts (nus ncu : Nat) (s : State) : Prop where
  tot_eq : s.tot = s.success + s.errors
  tot_counted : s.tot = s.counted.length
  nodup : s.counted.Nodup
  mem : ∀ p ∈ s.counted, p ∈ pairs nus ncu
  moved : ∀ p ∈ s.counted, s.fd p ≠ none ∧ (¬ Moving s.pc p → s.link (logName p) = none)
  passed : s.errors = 0 → ∀ p ∈ s.counted, s.written p = some .ok
  place : Place nus ncu s

theorem Counts.tot_le (hs : Counts nus ncu s) : s.tot ≤ nus * ncu := by
  rw [hs.tot_counted, ← length_pairs]
  exact (List.subperm_of_subset hs.nodup hs.mem).length_le

private theorem Counts.all_counted (hs : Counts nus ncu s) (htot : s.tot = nus * ncu) :
    ∀ p ∈ pairs nus ncu, p ∈ s.counted := by
  have hlength : (pairs nus ncu).length ≤ s.counted.length := by
    rw [length_pairs, ← htot, hs.tot_counted]
  exact fun p hp => by
    have hperm := (List.subperm_of_subset hs.nodup hs.mem).perm_of_length_le hlength
    exact hperm.mem_iff.mpr hp

theorem begin_counts (link : List Char → Option Nat) (lines : Nat → List Line) (fresh : Nat) :
    Counts nus ncu (begin nus ncu link lines fresh) := by
  refine ⟨rfl,rfl,List.nodup_nil,?_,?_,?_,?_⟩
  · simp [begin]
  · simp [begin]
  · simp [begin]
  · unfold Place begin
    cases h : pairs nus ncu <;> simp [setup]

theorem begin_ownLogs (link : List Char → Option Nat) (lines : Nat → List Line) (fresh : Nat) :
    OwnLogs (begin nus ncu link lines fresh) := by
  refine ⟨?_,?_,?_,?_⟩
  · rintro p i (hp | ⟨rest,hp⟩)
    · simp [begin] at hp
    · exact absurd hp (setup_ne_launch _ p rest)
  all_goals simp [begin]

private theorem Counts.keep (hs : Counts nus ncu s) (hsuccess : t.success = s.success)
    (herrors : t.errors = s.errors) (htot : t.tot = s.tot) (hcounted : t.counted = s.counted)
    (hfd : t.fd = s.fd) (hwritten : t.written = s.written)
    (hmoved : ∀ p ∈ s.counted, ¬ Moving t.pc p → t.link (logName p) = none)
    (hplace : Place nus ncu t) : Counts nus ncu t where
  tot_eq := by rw [htot, hsuccess, herrors, hs.tot_eq]
  tot_counted := by rw [htot, hcounted, hs.tot_counted]
  nodup := hcounted ▸ hs.nodup
  mem := hcounted ▸ hs.mem
  moved p hp := by
    rw [hcounted] at hp
    rw [hfd]
    exact ⟨(hs.moved p hp).1,hmoved p hp⟩
  passed := by
    rw [herrors, hcounted, hwritten]
    exact hs.passed
  place := hplace

private theorem place_setup (s : State) {rest : List Pair} (herrors : s.errors = 0)
    (hstarted : ∀ q ∈ pairs nus ncu, q ∈ s.started ∨ q ∈ rest) :
    Place nus ncu {s with pc := setup rest} := by
  cases rest with
  | nil => exact ⟨herrors,fun q hq => by simpa using hstarted q hq⟩
  | cons p rest => exact ⟨herrors,hstarted⟩

private theorem place_scan (s : State) {rest : List Pair} (herrors : s.errors = 0)
    (hstarted : ∀ q ∈ pairs nus ncu, q ∈ s.started) (hrest : ∀ q ∈ rest, q ∈ pairs nus ncu) :
    Place nus ncu {s with pc := scan rest} := by
  cases rest with
  | nil => exact ⟨herrors,hstarted⟩
  | cons p rest => exact ⟨herrors,hstarted,hrest⟩

/-- A verdict is found under the name of a log only while its pair is not counted. -/
theorem Counts.notMem_of_grep (hs : Counts nus ncu s) (ho : OwnLogs s) (hp : p ∈ s.started)
    (hmoving : ¬ Moving s.pc p) {v : Verdict} (hg : s.grep v p) : p ∉ s.counted := fun hc =>
  (ho.grep hp hg).2.1 ((hs.moved p hc).2 hmoving)

private theorem Counts.count (hs : Counts nus ncu s) (ho : OwnLogs s) (hp : p ∈ s.started)
    (hpair : p ∈ pairs nus ncu) (hmoving : ∀ q, ¬ Moving s.pc q) {v : Verdict} (hg : s.grep v p)
    (hsum : t.success + t.errors = s.success + s.errors + 1) (htot : t.tot = s.tot + 1)
    (hcounted : t.counted = p :: s.counted) (hfd : t.fd = s.fd) (hlink : t.link = s.link)
    (hmoved : Moving t.pc p) (hpassed : t.errors = 0 → ∀ q ∈ t.counted, t.written q = some .ok)
    (hplace : Place nus ncu t) : Counts nus ncu t where
  tot_eq := by rw [htot, hsum, hs.tot_eq]
  tot_counted := by rw [htot, hcounted, List.length_cons, hs.tot_counted]
  nodup := by
    rw [hcounted]
    exact List.nodup_cons.mpr ⟨hs.notMem_of_grep ho hp (hmoving p) hg,hs.nodup⟩
  mem := by
    rw [hcounted]
    exact List.forall_mem_cons.mpr ⟨hpair,hs.mem⟩
  moved := by
    rw [hcounted, hfd, hlink]
    refine List.forall_mem_cons.mpr ⟨⟨(ho.grep hp hg).1,fun hm => absurd hmoved hm⟩,?_⟩
    exact fun q hq => ⟨(hs.moved q hq).1,fun _ => (hs.moved q hq).2 (hmoving q)⟩
  passed := hpassed
  place := hplace

private theorem Counts.script (hs : Counts nus ncu s) (ho : OwnLogs s) {good : Bool}
    (h : scriptStep nus ncu s good = some t) : Counts nus ncu t := by
  have hplace := hs.place
  unfold scriptStep at h
  unfold Place at hplace
  cases hpc : s.pc with
  | clean p rest =>
    simp only [hpc, Option.some.injEq] at h hplace
    subst h
    refine hs.keep rfl rfl rfl rfl rfl rfl (fun q hq _ => ?_) hplace
    rw [logName, State.rm_link, ← logName, (hs.moved q hq).2 (by simp [hpc, Moving])]
    split_ifs <;> rfl
  | launch p rest =>
    simp only [hpc] at h hplace
    have hkept : ∀ q ∈ s.counted, s.link (logName q) = none := fun q hq =>
      (hs.moved q hq).2 (by simp [hpc, Moving])
    split_ifs at h with hgood
    all_goals
      cases h
    · refine hs.keep rfl rfl rfl rfl rfl rfl (fun q hq _ => hkept q hq) ?_
      apply place_setup {s with started := p :: s.started} hplace.1
      intro q hq
      rcases hplace.2 q hq with hq | hq
      · exact .inl (List.mem_cons_of_mem _ hq)
      · rcases List.mem_cons.mp hq with rfl | hq
        · exact .inl List.mem_cons_self
        · exact .inr hq
    · exact hs.keep rfl rfl rfl rfl rfl rfl (fun q hq _ => hkept q hq) (by simp [Place])
  | check =>
    simp only [hpc] at h hplace
    have hkept : ∀ q ∈ s.counted, s.link (logName q) = none := fun q hq =>
      (hs.moved q hq).2 (by simp [hpc, Moving])
    split_ifs at h with hle hgood htot
    all_goals
      cases h
      refine hs.keep rfl rfl rfl rfl rfl rfl (fun q hq _ => hkept q hq) ?_
    · simp [Place]
    · intro _ q hq
      exact hs.passed hplace.1 q (hs.all_counted htot q hq)
    · exact place_scan s hplace.1 hplace.2 fun q hq => hq
    · exact absurd hs.tot_le hle
  | grepOk p rest =>
    simp only [hpc] at h hplace
    obtain ⟨herrors,hstarted,hrest⟩ := hplace
    have hp := hstarted p (hrest p List.mem_cons_self)
    split_ifs at h with hg
    all_goals
      cases h
    · refine hs.count ho hp (hrest p List.mem_cons_self) (by simp [hpc, Moving]) hg ?_ rfl rfl rfl rfl
        (.inl ⟨rest,rfl⟩) ?_ ⟨herrors,hstarted,hrest⟩
      · simp only [State.countOk]
        omega
      · exact fun _ => List.forall_mem_cons.mpr ⟨(ho.grep hp hg).2.2,hs.passed herrors⟩
    · refine hs.keep rfl rfl rfl rfl rfl rfl (fun q hq _ => ?_) ⟨herrors,hstarted,hrest⟩
      exact (hs.moved q hq).2 (by simp [hpc, Moving])
  | moveOk p rest =>
    simp only [hpc, Option.some.injEq] at h hplace
    subst h
    refine hs.keep rfl rfl rfl rfl rfl rfl (fun q hq _ => ?_) hplace
    rw [mv_link (okName_ne p)]
    split_ifs with hqp
    · rfl
    · exact (hs.moved q hq).2 (by simpa [hpc, Moving] using Ne.symm hqp)
  | grepFail p rest =>
    simp only [hpc] at h hplace
    obtain ⟨herrors,hstarted,hrest⟩ := hplace
    have hp := hstarted p (hrest p List.mem_cons_self)
    split_ifs at h with hg
    all_goals
      cases h
    · refine hs.count ho hp (hrest p List.mem_cons_self) (by simp [hpc, Moving]) hg ?_ rfl rfl rfl rfl
        (.inr rfl) (fun h => absurd h (Nat.succ_ne_zero _)) trivial
      simp only [State.countFail]
      omega
    · refine hs.keep rfl rfl rfl rfl rfl rfl (fun q hq _ => ?_) ?_
      · exact (hs.moved q hq).2 (by simp [hpc, Moving])
      · exact place_scan s herrors hstarted fun q hq => hrest q (List.mem_cons_of_mem _ hq)
  | moveFail p =>
    simp only [hpc, Option.some.injEq] at h
    subst h
    refine hs.keep rfl rfl rfl rfl rfl rfl (fun q hq _ => ?_) (by simp [Place])
    rw [mv_link (failName_ne p)]
    split_ifs with hqp
    · rfl
    · exact (hs.moved q hq).2 (by simpa [hpc, Moving] using Ne.symm hqp)
  | ended status => simp [hpc] at h

/-- A counted process has opened its log before, so that no new log appears for it. -/
theorem Counts.openLog (hs : Counts nus ncu s) (ho : OwnLogs s) (hp : p ∈ s.started)
    (hfd : s.fd p = none) : Counts nus ncu (s.openLog p) := by
  rw [ho.openLog_eq hp hfd]
  refine ⟨hs.tot_eq,hs.tot_counted,hs.nodup,hs.mem,fun q hq => ?_,hs.passed,hs.place⟩
  have hqp : q ≠ p := fun h => (hs.moved q hq).1 (h ▸ hfd)
  have hname : logName q ≠ logName p := fun h => hqp (logFile_inj.mp h).1
  simpa [hqp, hname] using hs.moved q hq

private theorem place_append {i : Nat} {line : Line} (hline : line = none ∨ s.written p = none)
    (h : Place nus ncu s) : Place nus ncu (s.append p i line) := by
  have hpc : (s.append p i line).pc = s.pc := rfl
  unfold Place at h ⊢
  rw [hpc]
  cases hs : s.pc with
  | ended status =>
    simp only [hs] at h ⊢
    exact fun hstatus q hq => append_written hline (h hstatus q hq)
  | moveFail q => trivial
  | _ =>
    simp only [hs] at h ⊢
    exact h

private theorem Counts.append (hs : Counts nus ncu s) {i : Nat} {line : Line}
    (hline : line = none ∨ s.written p = none) : Counts nus ncu (s.append p i line) :=
  ⟨hs.tot_eq,hs.tot_counted,hs.nodup,hs.mem,hs.moved,
    fun herrors q hq => append_written hline (hs.passed herrors q hq),place_append hline hs.place⟩

theorem step_counts {a : Label} (hs : Counts nus ncu s) (ho : OwnLogs s)
    (hstep : step nus ncu s a = some t) : Counts nus ncu t := by
  cases a with
  | script good => exact hs.script ho hstep
  | opens p =>
    simp only [step] at hstep
    split_ifs at hstep with hp
    cases hstep
    exact hs.openLog ho hp.1 hp.2
  | writes p line =>
    simp only [step] at hstep
    split at hstep
    · split_ifs at hstep with hline
      cases hstep
      exact hs.append hline
    · cases hstep

/-- In every state that the script and its processes reach together, every count stands
for another pair, and the test has passed only if every process has written `OK`. -/
theorem run_counts {link : List Char → Option Nat} {lines : Nat → List Line} {fresh : Nat}
    {labels : List Label} (hrun : run (step nus ncu) (begin nus ncu link lines fresh) labels = some s) :
    s.tot = s.success + s.errors ∧ s.tot ≤ nus * ncu ∧
    s.tot = s.counted.length ∧ s.counted.Nodup ∧ (∀ p ∈ s.counted, p.1 < nus ∧ p.2 < ncu) ∧
    (s.pc = .ended 0 → ∀ us < nus, ∀ cu < ncu, s.written (us,cu) = some .ok) := by
  have hs : OwnLogs s ∧ Counts nus ncu s :=
    run_invariant (I := fun s => OwnLogs s ∧ Counts nus ncu s)
      (fun _ _ _ hs hstep => ⟨step_ownLogs hs.1 hstep,step_counts hs.2 hs.1 hstep⟩) hrun
      ⟨begin_ownLogs link lines fresh,begin_counts link lines fresh⟩
  obtain ⟨-,hs⟩ := hs
  refine ⟨hs.tot_eq,hs.tot_le,hs.tot_counted,hs.nodup,fun p hp => mem_pairs.mp (hs.mem p hp),?_⟩
  intro hended us hus cu hcu
  have hplace := hs.place
  simp only [Place, hended] at hplace
  exact hplace trivial (us,cu) (mem_pairs.mpr ⟨hus,hcu⟩)

end Counts

def stale : State :=
  begin 1 1 (fun name => if name = logName (0,0) then some 0 else none) (fun _ => [some .failed]) 1

def slowProcess : List Label :=
  [.script true,.script true,.opens (0,0),.script true,.script true,.writes (0,0) none,
    .writes (0,0) (some .ok)] ++ List.replicate 6 (.script true)

/-- The process passes after `grep` has missed its verdict, and is counted in the next scan. -/
theorem one_unit_passes : ∃ s, run (step 1 1) stale slowProcess = some s ∧
    s.pc = .ended 0 ∧ s.tot = s.success + s.errors ∧ s.written (0,0) = some .ok := by
  have hpc : (run (step 1 1) stale slowProcess).map State.pc = some (.ended 0) := by decide
  obtain ⟨s,hrun,hended⟩ := Option.map_eq_some_iff.mp hpc
  have hcounts := run_counts hrun
  exact ⟨s,hrun,hended,hcounts.1,hcounts.2.2.2.2.2 hended 0 (by decide) 0 (by decide)⟩

end ChaosBundle.LocalServices

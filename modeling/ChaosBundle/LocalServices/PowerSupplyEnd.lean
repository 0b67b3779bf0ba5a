import ChaosBundle.Library.Progress
import ChaosBundle.LocalServices.PowerSupplyKept

/-! `test-powersupply.sh` comes to its end: once every process has written its verdict, the
scan that is under way and one more find all of them. -/
namespace ChaosBundle.LocalServices
open Function Runs

/-- The pairs whose verdict the current scan can still find. -/
def State.ahead (s : State) : List Pair :=
  match s.pc with
  | .grepOk p rest => p :: rest
  | .moveOk _ rest => rest
  | .grepFail p rest => if s.written p = some .failed then p :: rest else rest
  | _ => []

/-- The current scan misses a pair, and another one follows. -/
def Late (nus ncu : Nat) (s : State) : Prop := ∃ p ∈ pairs nus ncu, p ∉ s.counted ∧ p ∉ s.ahead

instance (nus ncu : Nat) (s : State) : Decidable (Late nus ncu s) :=
  inferInstanceAs (Decidable (∃ p ∈ pairs nus ncu, p ∉ s.counted ∧ p ∉ s.ahead))

def again (nus ncu : Nat) (s : State) : Nat := if Late nus ncu s then 3*(nus*ncu)+2 else 1

/-- A bound on the steps that the script has still to take, if all verdicts are written. -/
def rank (nus ncu : Nat) (s : State) : Nat :=
  match s.pc with
  | .check => again nus ncu s
  | .grepOk _ rest => 3*rest.length+3+again nus ncu s
  | .moveOk _ rest => 3*rest.length+2+again nus ncu s
  | .grepFail _ rest => 3*rest.length+1+again nus ncu s
  | .moveFail _ => 1
  | .clean _ _ | .launch _ _ | .ended _ => 0

def Reported (nus ncu : Nat) (s : State) : Prop := ∀ p ∈ pairs nus ncu, s.written p ≠ none

def Label.isScript : Label → Bool
  | .script _ => true
  | _ => false

section End
variable {nus ncu : Nat} {s t : State} {p : Pair}

private theorem again_pos (nus ncu : Nat) (s : State) : 1 ≤ again nus ncu s := by
  unfold again
  split_ifs <;> omega

theorem again_mono (h : Late nus ncu t → Late nus ncu s) : again nus ncu t ≤ again nus ncu s := by
  unfold again
  split_ifs with ht hs
  · exact le_rfl
  · exact absurd (h ht) hs
  · omega
  · exact le_rfl

private theorem rank_lt {k m : Nat} (hs : rank nus ncu s = m + again nus ncu s)
    (ht : rank nus ncu t = k + again nus ncu t)
    (hkm : k < m) (hlate : Late nus ncu t → Late nus ncu s) : 1 + rank nus ncu t ≤ rank nus ncu s := by
  have hmono := again_mono hlate
  omega

@[simp] theorem scan_ahead (s : State) (rest : List Pair) : {s with pc := scan rest}.ahead = rest := by
  cases rest <;> rfl

private theorem rank_scan (s : State) (rest : List Pair) : rank nus ncu {s with pc := scan rest} =
    3*rest.length + again nus ncu {s with pc := scan rest} := by
  cases rest with
  | nil => exact (Nat.zero_add _).symm
  | cons p rest =>
    change 3*rest.length+3+_ = 3*(rest.length+1)+_
    omega

private theorem rank_le (hs : Sound nus ncu s) : rank nus ncu s ≤ 6*(nus*ncu)+2 := by
  have hlength := hs.kept.visiting.length_le
  rw [length_pairs] at hlength
  have hagain : again nus ncu s ≤ 3*(nus*ncu)+2 := by
    unfold again
    split_ifs <;> omega
  unfold rank
  cases hpc : s.pc
  all_goals
    simp only [hpc, Pc.visiting, List.length_cons] at hlength ⊢
    omega

private theorem Sound.grep (hs : Sound nus ncu s) {v : Verdict} (hv : s.written p = some v)
    (hp : p ∉ s.counted) : s.grep v p := by
  obtain ⟨i,hi,hline⟩ := hs.kept.recorded p v hv
  have hlink := hs.kept.standing p i hi fun h => hp h.1
  simp [State.grep, hlink, hline]

private theorem Sound.not_setting (hs : Sound nus ncu s) (hr : Reported nus ncu s) :
    s.pc.setting = false := by
  cases hsetting : s.pc.setting with
  | false => rfl
  | true =>
    have hnone : ∀ q, q ∈ s.pc.visiting → False := fun q hq => by
      obtain ⟨v,hv⟩ := Option.ne_none_iff_exists'.mp (hr q (hs.kept.visiting.mem hq))
      obtain ⟨i,hi,-⟩ := hs.kept.recorded q v hv
      exact (hs.kept.setting hsetting).2 q hq (hs.own.opened q i hi).1
    cases hpc : s.pc
    all_goals
      simp [hpc, Pc.setting] at hsetting
    all_goals
      simp only [hpc, Pc.visiting] at hnone
      exact (hnone _ List.mem_cons_self).elim

private theorem Sound.late_of_check (hs : Sound nus ncu s) (hpc : s.pc = .check)
    (htot : s.tot ≠ nus * ncu) : Late nus ncu s := by
  have hahead : s.ahead = [] := by simp [State.ahead, hpc]
  by_contra hnot
  have hall : pairs nus ncu ⊆ s.counted := fun q hq => by
    by_contra hq'
    exact hnot ⟨q,hq,hq',by simp [hahead]⟩
  have hlength := (List.subperm_of_subset (nodup_pairs nus ncu) hall).length_le
  rw [length_pairs, ← hs.counts.tot_counted] at hlength
  exact htot (le_antisymm hs.counts.tot_le hlength)

private theorem rank_script (hs : Sound nus ncu s) (hr : Reported nus ncu s) {good : Bool}
    (h : scriptStep nus ncu s good = some t) : 1 + rank nus ncu t ≤ rank nus ncu s := by
  have hplace := hs.counts.place
  have hsetting := hs.not_setting hr
  unfold scriptStep at h
  unfold Place at hplace
  cases hpc : s.pc with
  | clean p rest => simp [hpc, Pc.setting] at hsetting
  | launch p rest => simp [hpc, Pc.setting] at hsetting
  | check =>
    have hrank : rank nus ncu s = again nus ncu s := by simp [rank, hpc]
    have hend : ∀ status, 1 + rank nus ncu {s with pc := .ended status} ≤ rank nus ncu s := fun status =>
      hrank ▸ again_pos nus ncu s
    simp only [hpc] at h
    split_ifs at h with hle hgood htot
    all_goals
      cases h
    · exact hend 1
    · exact hend s.errors
    · have hearly : again nus ncu {s with pc := scan (pairs nus ncu)} = 1 := by
        apply if_neg
        intro hlate
        obtain ⟨q,hq,-,hahead⟩ := hlate
        exact hahead (by rwa [scan_ahead])
      rw [rank_scan, hearly, hrank, again, if_pos (hs.late_of_check hpc htot), length_pairs]
      omega
    · exact hend s.errors
  | grepOk p rest =>
    simp only [hpc] at h hplace
    have hp := hplace.2.2 p List.mem_cons_self
    have hahead : s.ahead = p :: rest := by simp [State.ahead, hpc]
    have hrank : rank nus ncu s = 3*rest.length+3+again nus ncu s := by simp [rank, hpc]
    split_ifs at h with hg
    all_goals
      cases h
    · refine rank_lt hrank rfl (Nat.lt_succ_self _) ?_
      rintro ⟨q,hq,hcounted,hrest⟩
      refine ⟨q,hq,fun h => hcounted (List.mem_cons_of_mem _ h),?_⟩
      rw [hahead, List.mem_cons, not_or]
      exact ⟨fun h => hcounted (h ▸ List.mem_cons_self),hrest⟩
    · refine rank_lt hrank rfl (by omega) ?_
      rintro ⟨q,hq,hcounted,hrest⟩
      refine ⟨q,hq,hcounted,?_⟩
      -- A verdict that is there but not `OK` is left to the next `grep`.
      have hqp : q ≠ p := by
        rintro rfl
        obtain ⟨v,hv⟩ := Option.ne_none_iff_exists'.mp (hr q hq)
        cases v with
        | ok => exact hg (hs.grep hv hcounted)
        | failed => simp [State.ahead, hv] at hrest
      rw [hahead, List.mem_cons, not_or]
      refine ⟨hqp,fun h => hrest ?_⟩
      simp only [State.ahead]
      split_ifs
      · exact List.mem_cons_of_mem _ h
      · exact h
  | moveOk p rest =>
    simp only [hpc, Option.some.injEq] at h
    subst h
    have hmoving := hs.kept.moving p .ok (by rw [hpc]; rfl)
    have hrank : rank nus ncu s = 3*rest.length+2+again nus ncu s := by simp [rank, hpc]
    refine rank_lt hrank rfl (Nat.lt_succ_self _) ?_
    rintro ⟨q,hq,hcounted,hrest⟩
    refine ⟨q,hq,hcounted,?_⟩
    simpa [State.ahead, hpc, State.mv, hmoving.2] using hrest
  | grepFail p rest =>
    simp only [hpc] at h
    have hrank : rank nus ncu s = 3*rest.length+1+again nus ncu s := by simp [rank, hpc]
    split_ifs at h with hg
    all_goals
      cases h
    · rw [hrank]
      have hpos := again_pos nus ncu s
      change 1 + 1 ≤ _
      omega
    · refine rank_lt hrank (rank_scan s rest) (Nat.lt_succ_self _) ?_
      rintro ⟨q,hq,hcounted,hrest⟩
      rw [scan_ahead] at hrest
      refine ⟨q,hq,hcounted,?_⟩
      simp only [State.ahead, hpc]
      split_ifs with hv
      · rw [List.mem_cons, not_or]
        refine ⟨?_,hrest⟩
        rintro rfl
        exact hg (hs.grep hv hcounted)
      · exact hrest
  | moveFail p =>
    simp only [hpc, Option.some.injEq] at h
    subst h
    have hrank : rank nus ncu s = 1 := by simp [rank, hpc]
    exact hrank.ge
  | ended status => simp [hpc] at h

private theorem rank_append (hs : Sound nus ncu s) (hr : Reported nus ncu s) {i : Nat} {line : Line}
    (hline : line = none ∨ s.written p = none) :
    rank nus ncu (s.append p i line) = rank nus ncu s := by
  have hahead : (s.append p i line).ahead = s.ahead := by
    have hplace := hs.counts.place
    have hsame : (s.append p i line).pc = s.pc := rfl
    unfold Place at hplace
    unfold State.ahead
    rw [hsame]
    cases hpc : s.pc with
    | grepFail q rest =>
      simp only [hpc] at hplace
      obtain ⟨v,hv⟩ := Option.ne_none_iff_exists'.mp (hr q (hplace.2.2 q List.mem_cons_self))
      simp only [hv, append_written hline hv]
    | _ => rfl
  have hlate : Late nus ncu (s.append p i line) ↔ Late nus ncu s := by
    unfold Late
    rw [hahead]
    rfl
  have hagain : again nus ncu (s.append p i line) = again nus ncu s :=
    le_antisymm (again_mono hlate.mp) (again_mono hlate.mpr)
  unfold rank
  rw [hagain]
  rfl

private theorem rank_openLog (hs : Sound nus ncu s) (hp : p ∈ s.started) (hfd : s.fd p = none) :
    rank nus ncu (s.openLog p) = rank nus ncu s := by
  rw [hs.own.openLog_eq hp hfd]
  rfl

private theorem rank_step (hs : Sound nus ncu s) (hr : Reported nus ncu s) {a : Label}
    (hstep : step nus ncu s a = some t) :
    (if a.isScript then 1 else 0) + rank nus ncu t ≤ rank nus ncu s := by
  cases a with
  | script good => exact rank_script hs hr hstep
  | opens p =>
    simp only [step] at hstep
    split_ifs at hstep with hp
    cases hstep
    simp [Label.isScript, rank_openLog hs hp.1 hp.2]
  | writes p line =>
    simp only [step] at hstep
    split at hstep
    · split_ifs at hstep with hline
      cases hstep
      simp [Label.isScript, rank_append hs hr hline]
    · cases hstep

theorem step_written {a : Label} (hstep : step nus ncu s a = some t) {v : Verdict}
    (hv : s.written p = some v) : t.written p = some v := by
  cases a with
  | script good => rwa [(script_effect hstep).written]
  | opens q =>
    simp only [step] at hstep
    split_ifs at hstep
    cases hstep
    unfold State.openLog
    split <;> exact hv
  | writes q line =>
    simp only [step] at hstep
    split at hstep
    · split_ifs at hstep with hline
      cases hstep
      exact append_written hline hv
    · cases hstep

private theorem step_reported (hr : Reported nus ncu s) {a : Label} (hstep : step nus ncu s a = some t) :
    Reported nus ncu t := fun p hp => by
  obtain ⟨v,hv⟩ := Option.ne_none_iff_exists'.mp (hr p hp)
  rw [step_written hstep hv]
  exact Option.some_ne_none v

/-- The script waits for nothing. -/
theorem scriptStep_isSome (hpc : ∀ status, s.pc ≠ .ended status) (good : Bool) :
    (scriptStep nus ncu s good).isSome := by
  unfold scriptStep
  cases h : s.pc
  case ended status => exact absurd h (hpc status)
  all_goals
    simp only
    try split_ifs
    all_goals rfl

theorem setup_ne_ended (rest : List Pair) (status : Nat) : setup rest ≠ .ended status := by
  cases rest <;> simp [setup]

private theorem scan_ne_ended (rest : List Pair) (status : Nat) : scan rest ≠ .ended status := by
  cases rest <;> simp [scan]

/-- An end with an error has a failed process behind it. -/
def Blamed (nus ncu : Nat) (s : State) : Prop :=
  ∀ status, s.pc = .ended status → status ≠ 0 → ∃ p ∈ pairs nus ncu, s.written p = some .failed

private theorem script_blamed (hs : Sound nus ncu s) (h : scriptStep nus ncu s true = some t) :
    Blamed nus ncu t := by
  intro status hended hstatus
  have hplace := hs.counts.place
  unfold scriptStep at h
  unfold Place at hplace
  cases hpc : s.pc with
  | check =>
    simp only [hpc] at h hplace
    split_ifs at h with hle hgood htot
    all_goals
      cases h
    · simp at hgood
    · cases hended
      exact absurd hplace.1 hstatus
    · exact absurd hended (scan_ne_ended _ _)
    · exact absurd hs.counts.tot_le hle
  | moveFail p =>
    simp only [hpc, Option.some.injEq] at h
    subst h
    obtain ⟨hcounted,hwritten⟩ := hs.kept.moving p .failed (by rw [hpc]; rfl)
    exact ⟨p,hs.counts.mem p hcounted,hwritten⟩
  | launch p rest =>
    simp only [hpc, if_true, Option.some.injEq] at h
    subst h
    exact absurd hended (setup_ne_ended _ _)
  | grepFail p rest =>
    simp only [hpc] at h
    split_ifs at h
    all_goals
      cases h
    · cases hended
    · exact absurd hended (scan_ne_ended _ _)
  | grepOk p rest =>
    simp only [hpc] at h
    split_ifs at h
    all_goals
      cases h
      cases hended
  | ended status => simp [hpc] at h
  | _ =>
    simp only [hpc, Option.some.injEq] at h
    subst h
    cases hended

private theorem step_blamed {a : Label} (ha : a ≠ .script false) (hs : Sound nus ncu s)
    (hb : Blamed nus ncu s) (hstep : step nus ncu s a = some t) : Blamed nus ncu t := by
  cases a with
  | script good =>
    cases good with
    | true => exact script_blamed hs hstep
    | false => exact absurd rfl ha
  | opens p =>
    have hpc : t.pc = s.pc := by
      simp only [step] at hstep
      split_ifs at hstep
      cases hstep
      unfold State.openLog
      split <;> rfl
    intro status hended hstatus
    obtain ⟨q,hq,hv⟩ := hb status (hpc ▸ hended) hstatus
    exact ⟨q,hq,step_written hstep hv⟩
  | writes p line =>
    have hpc : t.pc = s.pc := by
      simp only [step] at hstep
      split at hstep
      · split_ifs at hstep
        cases hstep
        rfl
      · cases hstep
    intro status hended hstatus
    obtain ⟨q,hq,hv⟩ := hb status (hpc ▸ hended) hstatus
    exact ⟨q,hq,step_written hstep hv⟩

/-- Once every process has written its verdict, the script takes a bounded number of steps
in whatever order the processes go on, waits for nothing, and ends with 0 exactly if all
of them have passed. -/
theorem run_ends {link : List Char → Option Nat} {lines : Nat → List Line} {fresh : Nat}
    {labels more : List Label} (hrun : run (step nus ncu) (begin nus ncu link lines fresh) labels = some s)
    (hreported : ∀ us < nus, ∀ cu < ncu, s.written (us,cu) ≠ none)
    (hmore : run (step nus ncu) s more = some t) :
    more.countP Label.isScript ≤ 6*(nus*ncu)+2 ∧
    ((∃ status, t.pc = .ended status) ∨ ∀ good, (step nus ncu t (.script good)).isSome) ∧
    ((∀ a ∈ labels ++ more, a ≠ .script false) → ∀ status, t.pc = .ended status →
      (status = 0 ↔ ∀ us < nus, ∀ cu < ncu, t.written (us,cu) = some .ok)) := by
  have hs := run_sound hrun
  have hr : Reported nus ncu s := fun p hp => hreported p.1 (mem_pairs.mp hp).1 p.2 (mem_pairs.mp hp).2
  refine ⟨?_,?_,?_⟩
  · have hbound := countP_add_rank_le (I := fun s => Sound nus ncu s ∧ Reported nus ncu s)
      (fun s a t hs h => ⟨step_sound s a t hs.1 h,step_reported hs.2 h⟩)
      (fun s a t hs h => rank_step hs.1 hs.2 h) hmore ⟨hs,hr⟩
    exact (Nat.le_add_right _ _).trans (hbound.trans (rank_le hs))
  · by_cases hended : ∃ status, t.pc = .ended status
    · exact .inl hended
    · exact .inr fun good => scriptStep_isSome (fun status h => hended ⟨status,h⟩) good
  · intro hgood status hended
    have hwhole : run (step nus ncu) (begin nus ncu link lines fresh) (labels ++ more) = some t := by
      rw [run_append, hrun]
      exact hmore
    have hblamed : Sound nus ncu t ∧ Blamed nus ncu t :=
      run_invariant_of_meets (I := fun s => Sound nus ncu s ∧ Blamed nus ncu s)
        (fun s a t hs ha h => ⟨step_sound s a t hs.1 h,step_blamed ha hs.1 hs.2 h⟩) hwhole
        (meets_of_forall hgood _)
        ⟨begin_sound link lines fresh,fun status h => absurd h (setup_ne_ended _ status)⟩
    constructor
    · rintro rfl us hus cu hcu
      have hplace := hblamed.1.counts.place
      simp only [Place, hended] at hplace
      exact hplace trivial (us,cu) (mem_pairs.mpr ⟨hus,hcu⟩)
    · intro hall
      by_contra hstatus
      obtain ⟨p,hp,hfailed⟩ := hblamed.2 status hended hstatus
      have hp := mem_pairs.mp hp
      simp [hall p.1 hp.1 p.2 hp.2] at hfailed

end End

/-- Both scans of the bound are needed: the verdict comes right after `grep` has missed it. -/
theorem late_verdict_ends : ∃ s t, run (step 1 1) stale (slowProcess.take 7) = some s ∧
    run (step 1 1) s (slowProcess.drop 7) = some t ∧ t.pc = .ended 0 ∧
    (slowProcess.drop 7).countP Label.isScript ≤ 8 ∧ t.written (0,0) = some .ok := by
  obtain ⟨s,hs,hwritten⟩ : ∃ s, run (step 1 1) stale (slowProcess.take 7) = some s ∧
      s.written (0,0) = some .ok := Option.map_eq_some_iff.mp
    (show (run (step 1 1) stale (slowProcess.take 7)).map (fun s => s.written (0,0)) = some (some .ok) by decide)
  obtain ⟨t,ht,hended⟩ : ∃ t, run (step 1 1) stale slowProcess = some t ∧ t.pc = .ended 0 :=
    Option.map_eq_some_iff.mp
      (show (run (step 1 1) stale slowProcess).map State.pc = some (.ended 0) by decide)
  have hmore : run (step 1 1) s (slowProcess.drop 7) = some t := by
    rw [← List.take_append_drop 7 slowProcess, run_append, hs] at ht
    exact ht
  obtain ⟨hbound,-,hverdict⟩ := run_ends hs (fun us hus cu hcu => by
    obtain ⟨rfl,rfl⟩ : us = 0 ∧ cu = 0 := by omega
    simp [hwritten]) hmore
  exact ⟨s,t,hs,hmore,hended,hbound,(hverdict (by decide) 0 hended).mp rfl 0 (by decide) 0 (by decide)⟩

end ChaosBundle.LocalServices

import ChaosBundle.Package.Dpkg

/-! Repeated runs of `postinst`. It starts a service that already runs, which fails,
so that a run which got past its first service blocks the next one. -/
namespace ChaosBundle.Package
open Host

/-- Earlier runs of `postinst`, each with the starts that the host let succeed. -/
def postinstRuns (b : Build) (attempts : List (Service → Bool)) (h : Host) : Host :=
  attempts.foldl (fun h ok => (postinst b ok h).1) h

/-- The run ends with status zero and every enabled service is up. -/
def Succeeds (b : Build) (ok : Service → Bool) (h : Host) : Prop :=
  (postinst b ok h).2 = 0 ∧ ∀ s, h.answers s → (postinst b ok h).1.running s

theorem mem_startOrder (s : Service) : s ∈ startOrder := by cases s <;> decide

section Runs
variable (b : Build)

@[simp] theorem postinstRuns_answers (attempts : List (Service → Bool)) (h : Host) :
    (postinstRuns b attempts h).answers = h.answers := by
  induction attempts generalizing h with
  | nil => rfl
  | cons ok attempts ih => exact (ih _).trans (postinst_answers b ok h)

private theorem succeeds_iff (ht : b.template ≠ "docker") {ok : Service → Bool} {h : Host}
    (hstart : ∀ s, h.answers s → ¬ h.running s → (configure b h).canStart ok s) :
    Succeeds b ok h ↔ ∀ s, h.answers s → ¬ h.running s := by
  rw [Succeeds, postinst_eq ok h ht, startEnabled_status ok startOrder (configure b h) (by decide)]
  constructor
  · rintro ⟨hall,-⟩ s hs hrun
    have hc := hall s (mem_startOrder s) (by simpa using hs)
    simp [canStart, hrun] at hc
  · intro hstopped
    have hall : ∀ s ∈ startOrder, (configure b h).answers s → (configure b h).canStart ok s := by
      intro s _ hs
      rw [configure_answers] at hs
      exact hstart s hs (hstopped s hs)
    refine ⟨hall,fun s hs => ?_⟩
    apply startEnabled_all_running ok startOrder _ _ (mem_startOrder s) (by simpa using hs)
    exact (startEnabled_status ok startOrder _ (by decide)).mpr hall

variable {b} (ht : b.template ≠ "docker")
include ht

private theorem postinst_first_fails {ok : Service → Bool} {h : Host} (ha : LinksApart h.fs)
    (hfail : ∀ s, startOrder.find? (h.answers ·) = some s → ¬ h.canStart ok s) :
    (postinst b ok h).1.running = h.running := by
  rw [postinst_eq ok h ht]
  cases hfirst : startOrder.find? (h.answers ·) with
  | none =>
    have hnone : ∀ s, ¬ (configure b h).answers s := fun s => by
      simpa using List.find?_eq_none.mp hfirst s (mem_startOrder s)
    funext s
    cases hr : h.running s with
    | true => exact startEnabled_running_mono ok startOrder _ (by simpa using hr)
    | false =>
      by_contra hne
      rcases startEnabled_running ok startOrder _ (by simpa using hne) with hran | ⟨he,-⟩
      · simp [hr] at hran
      · exact hnone s he
  | some s =>
    have hc : ¬ (configure b h).canStart ok s := by
      have := hfail s hfirst
      simpa [canStart, configure_hasConf b ha] using this
    rw [startEnabled_first_fails ok startOrder (configure b h) (by simpa using hfirst) hc]
    exact configure_running b h

private theorem none_running_iff {attempts : List (Service → Bool)} {h : Host} (ha : LinksApart h.fs) :
    (∀ s, h.answers s → ¬ (postinstRuns b attempts h).running s) ↔
      (∀ s, h.answers s → ¬ h.running s) ∧
      ∀ ok ∈ attempts, ∀ s, startOrder.find? (h.answers ·) = some s → ¬ h.canStart ok s := by
  induction attempts generalizing h with
  | nil => simp [postinstRuns]
  | cons ok attempts ih =>
    have hstep := ih (postinst_apart b ok ha)
    rw [postinst_answers] at hstep
    rw [postinstRuns, List.foldl_cons, ← postinstRuns, hstep, List.forall_mem_cons]
    constructor
    · rintro ⟨hnext,hrest⟩
      have hstopped : ∀ s, h.answers s → ¬ h.running s := fun s hs hr =>
        hnext s hs (postinst_running_mono b ok h hr)
      have hfail : ∀ s, startOrder.find? (h.answers ·) = some s → ¬ h.canStart ok s := by
        intro s hs hc
        have he : h.answers s := by simpa using List.find?_some hs
        have hstarted : (postinst b ok h).1.running s := by
          rw [postinst_eq ok h ht]
          apply startEnabled_first_starts ok startOrder _ (by simpa using hs)
          simpa [canStart, configure_hasConf b ha] using hc
        exact hnext s he hstarted
      refine ⟨hstopped,hfail,fun ok' hok' s hs => ?_⟩
      have := hrest ok' hok' s hs
      rw [canStart, postinst_first_fails ht ha hfail, postinst_hasConf b ok ha] at this
      exact this
    · rintro ⟨hstopped,hfail,hrest⟩
      have hsame := postinst_first_fails ht ha hfail
      refine ⟨fun s hs => by rw [hsame]; exact hstopped s hs,fun ok' hok' s hs => ?_⟩
      rw [canStart, hsame, postinst_hasConf b ok ha]
      exact hrest ok' hok' s hs

/-- A retry in which every stopped enabled job can be started succeeds exactly when no
enabled service is running before it; that is, none ran at the start and every earlier
run failed at the first enabled service. -/
theorem retry_succeeds_iff {attempts : List (Service → Bool)} {ok : Service → Bool} {h : Host}
    (hstart : ∀ s, h.answers s → ¬ (postinstRuns b attempts h).running s →
      (configure b (postinstRuns b attempts h)).canStart ok s) :
    (Succeeds b ok (postinstRuns b attempts h) ↔
      ∀ s, h.answers s → ¬ (postinstRuns b attempts h).running s) ∧
    (LinksApart h.fs → (Succeeds b ok (postinstRuns b attempts h) ↔
      (∀ s, h.answers s → ¬ h.running s) ∧
      ∀ earlier ∈ attempts, ∀ s, startOrder.find? (h.answers ·) = some s →
        ¬ h.canStart earlier s)) := by
  have hiff := @succeeds_iff b ht ok (postinstRuns b attempts h) (by simpa using hstart)
  rw [postinstRuns_answers] at hiff
  exact ⟨hiff,fun ha => hiff.trans (none_running_iff ht ha)⟩

end Runs

def metadataAndCache : Answers := fun s => decide (s = .mds ∨ s = .cds)

/-- A configuration that failed before anything was started can be retried. -/
theorem retry_succeeds_after_first_failure :
    Succeeds localBuild (fun _ => true) (postinstRuns localBuild [fun _ => false]
      (unpackInstall templatePayload metadataAndCache (debianHost ""))) := by
  apply (retry_succeeds_iff (b := localBuild) (by decide) ?_).1.mpr
  all_goals
    intro s
    cases s <;> decide

/-- The metadata server that a failed run started makes the retry fail. -/
theorem retry_blocked_by_started_service :
    ¬ ∀ ok : Service → Bool, (∀ s, metadataAndCache s →
        ¬ (postinstRuns localBuild [only .mds]
          (unpackInstall templatePayload metadataAndCache (debianHost ""))).running s →
        (configure localBuild (postinstRuns localBuild [only .mds]
          (unpackInstall templatePayload metadataAndCache (debianHost "")))).canStart ok s) →
      Succeeds localBuild ok (postinstRuns localBuild [only .mds]
        (unpackInstall templatePayload metadataAndCache (debianHost ""))) := by
  intro hall
  have hretry := hall (fun _ => true) (by intro s; cases s <;> decide)
  exact absurd hretry.1 (by decide)

end ChaosBundle.Package

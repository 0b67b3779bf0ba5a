import Mathlib.Data.List.Basic

/-! Suites of tests that are run one after the other as long as they succeed: `./test || exit 1`. -/
namespace ChaosBundle.Suites
variable {Test Outcome Host : Type}

/-- One test that was run: the host that it found, and its status. -/
structure Entry (Test Host : Type) where
  test : Test
  found : Host
  status : ℕ

structure Report (Test Host : Type) where
  host : Host
  status : ℕ
  log : List (Entry Test Host)

/-- `exec` is one test, and `outcomes` says how the commands of each turn out. -/
def run (exec : Test → Outcome → Host → Host × ℕ) (outcomes : ℕ → Outcome) :
    List Test → ℕ → Host → Report Test Host
  | [], _, h => ⟨h,0,[]⟩
  | t :: ts, i, h =>
    let (h',status) := exec t (outcomes i) h
    let entry : Entry Test Host := ⟨t,h,status⟩
    if status = 0 then
      let r := run exec outcomes ts (i+1) h'
      {r with log := entry :: r.log}
    else ⟨h',1,[entry]⟩

/-- From `P` the test gets back to `P` if it succeeds, and to `E` if it fails. -/
def Meets (exec : Test → Outcome → Host → Host × ℕ) (P : Host → Prop) (E : Test → Host → Prop) (t : Test) :
    Prop :=
  ∀ o h, P h → ((exec t o h).2 = 0 → P (exec t o h).1) ∧ ((exec t o h).2 ≠ 0 → E t (exec t o h).1)

/-- The tests of a suite that has ended: all with status 0, or all up to one that has failed. -/
inductive Ended (tests : List Test) (P : Host → Prop) (E : Test → Host → Prop) (r : Report Test Host) :
    Prop where
  | passed (status : r.status = 0) (host : P r.host) (log : r.log.map Entry.test = tests)
      (statuses : ∀ e ∈ r.log, e.status = 0)
  | failed (status : r.status = 1) (done : List (Entry Test Host)) (last : Entry Test Host)
      (log : r.log = done ++ [last]) (before : (done.map Entry.test) ++ [last.test] <+: tests)
      (statuses : ∀ e ∈ done, e.status = 0) (failure : last.status ≠ 0) (host : E last.test r.host)

variable {exec : Test → Outcome → Host → Host × ℕ} {outcomes : ℕ → Outcome} {tests : List Test}
  {P : Host → Prop} {E : Test → Host → Prop}

/-- Every test of a suite finds `P`, and the suite ends where its last test does. -/
theorem run_ended (hmeets : ∀ t ∈ tests, Meets exec P E t) (i : ℕ) {h : Host} (hP : P h) :
    (∀ e ∈ (run exec outcomes tests i h).log, P e.found) ∧ Ended tests P E (run exec outcomes tests i h) := by
  induction tests generalizing i h with
  | nil => exact ⟨nofun,.passed rfl hP rfl nofun⟩
  | cons t tests ih =>
    obtain ⟨ht,htests⟩ := List.forall_mem_cons.mp hmeets
    obtain ⟨hpass,hfail⟩ := ht (outcomes i) h hP
    simp only [run]
    split_ifs with hstatus
    · obtain ⟨hfound,hended⟩ := ih htests (i+1) (hpass hstatus)
      refine ⟨List.forall_mem_cons.mpr ⟨hP,hfound⟩,?_⟩
      cases hended with
      | passed status host log statuses =>
        exact .passed status host (congrArg _ log) (List.forall_mem_cons.mpr ⟨hstatus,statuses⟩)
      | failed status done last log before statuses failure host =>
        refine .failed status (⟨t,h,_⟩ :: done) last (congrArg _ log) ?_ ?_ failure host
        · exact List.cons_prefix_cons.mpr ⟨rfl,before⟩
        · exact List.forall_mem_cons.mpr ⟨hstatus,statuses⟩
    · refine ⟨List.forall_mem_singleton.mpr hP,?_⟩
      exact .failed rfl [] ⟨t,h,_⟩ rfl (List.prefix_append [t] tests) nofun hstatus (hfail hstatus)

end ChaosBundle.Suites

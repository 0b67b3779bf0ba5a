import ChaosBundle.Library.Suites
import ChaosBundle.LocalServices.BasicCore

/-! `test-local-services.sh`: the tests of the local services one after the other, with the
unit servers and the noise that each of them leaves. Its runs are those that end: the loop of
`test-powersupply.sh` goes on for as long as a verdict is missing. -/
namespace ChaosBundle.LocalServices
open GuardedScripts Suites

namespace Suite

/-- The commands of all tests but `test-basic-core.sh`. -/
inductive Command where
  | start_services
  /-- the test for `chaosDashboard.json` -/
  | config
  | upload
  | find_cu
  | check_webui
  | sleep
  | launch_us_cu
  /-- `launch_us_cu`, and `check_proc` if it has succeeded -/
  | launch_checked
  | check_proc
  | stop_us
  | init_cu (p : Pair)
  | start_cu (p : Pair)
  | get_timestamp_cu
  | rm
  | get_dataset_cu (p : Pair)
  | mv (p : Pair)
  | stop_test
  | rm_log (p : Pair)
  /-- `run_proc` of `powersupply_test` -/
  | run_test (p : Pair)
  /-- the two searches in a log, which fail at the verdict `FAILED` -/
  | scan (p : Pair)
  | get_hdataset_cu
  deriving DecidableEq

/-- A launch that fails may have started some of the servers. -/
def Starts : Command → Bool → BasicCore.Proc → Prop
  | .launch_us_cu, _, p => p = .us
  | .launch_checked, _, p => p = .us
  | _, _, _ => False

def Stops : Command → Bool → BasicCore.Proc → Prop
  | .stop_us, _, p => p = .us
  | .check_proc, ok, p => ok = false ∧ p = .us
  | .launch_checked, ok, p => ok = false ∧ p = .us
  | _, _, _ => False

/-- A guarded command; `end_test 1` stops nothing. -/
def must (c : Command) : GuardedScripts.Line Command := .must c [] 1

/-- `withWebui` is the test of `CHAOS_WEBUI`. -/
def testServices (withWebui : Bool) : List (GuardedScripts.Line Command) :=
  [must .start_services,must .config,must .upload,must .find_cu,.act .sleep] ++
    if withWebui then [] else [must .check_webui]

def testSensors (nus ncu acquire_s : ℕ) : List (GuardedScripts.Line Command) :=
  [must .launch_checked] ++ ((pairs nus ncu).flatMap fun p => [must (.init_cu p),must (.start_cu p)]) ++
  [must .get_timestamp_cu,.act .rm] ++
  ((List.range acquire_s).flatMap fun _ =>
    ((pairs nus ncu).map fun p => must (.get_dataset_cu p)) ++ [.act .sleep]) ++
  ((pairs nus ncu).map fun p => .act (.mv p)) ++ [.act .stop_us]

/-- The loop ends after `scans` scans, unless a command fails in one of them. The processes of
`powersupply_test` are left out. -/
def testPowersupply (nus ncu scans : ℕ) : List (GuardedScripts.Line Command) :=
  [must .launch_us_cu,must .check_proc,.act .stop_test] ++
  ((pairs nus ncu).flatMap fun p => [.act (.rm_log p),must (.run_test p)]) ++
  ((List.range scans).flatMap fun _ =>
    [must .check_proc] ++ ((pairs nus ncu).map fun p => must (.scan p)) ++ [.act .sleep]) ++
  [must .check_proc,.act .stop_test] ++ [.act .stop_us]

/-- `files` is the number of files that `ls` finds. -/
def testHistory (files : ℕ) : List (GuardedScripts.Line Command) := List.replicate files (must .get_hdataset_cu)

inductive Test where
  | services | basic_core | sensors | powersupply | history
  deriving DecidableEq

/-- How a test that ends turns out. -/
structure Outcome where
  ok : ℕ → Bool
  scans : ℕ
  files : ℕ

/-- The lines of `test-local-services.sh`, each with `|| exit 1`. -/
def tests : List Test := [.services,.basic_core,.services,.sensors,.services,.powersupply,.history]

structure CommonUtil (Host : Type) where
  basic : BasicCore.CommonUtil Host
  other : Processes Starts Stops Host
  same : ∀ p h, other.runs p h ↔ basic.runs p h

section Tests
variable {Host : Type} (util : CommonUtil Host) (withWebui : Bool)

/-- A test ends with status 0 if it gets to its end. -/
def runTest (o : Outcome) (script : List (GuardedScripts.Line Command)) (h : Host) : Host × ℕ :=
  let r := GuardedScripts.run util.other.exec o.ok script 0 h
  (r.state,r.status.getD 0)

def exec : Test → Outcome → Host → Host × ℕ
  | .services, o, h => runTest util o (testServices withWebui) h
  | .basic_core, o, h =>
    let r := GuardedScripts.run (BasicCore.exec util.basic) o.ok (BasicCore.script 2 4 false) 0 ⟨h,[]⟩
    (r.state.host,r.status.getD 0)
  | .sensors, o, h => runTest util o (testSensors 2 4 60) h
  | .powersupply, o, h => runTest util o (testPowersupply 2 4 o.scans) h
  | .history, o, h => runTest util o (testHistory o.files) h

/-- What a test may leave where it fails. -/
def Leaves (t : Test) (h : Host) : Prop :=
  ¬ util.basic.runs .noise h ∧ (util.basic.runs .us h → t = .sensors ∨ t = .powersupply)

variable {util} {withWebui}

theorem not_starts_noise {c : Command} {ok : Bool} : ¬ Starts c ok .noise := by
  cases c <;> simp [Starts]

@[simp] theorem act_spares (c : Command) : (GuardedScripts.Line.act c).Spares Starts .noise :=
  fun _ => not_starts_noise

@[simp] theorem must_spares (c : Command) : (must c).Spares Starts .noise :=
  ⟨Nat.one_ne_zero,fun _ _ _ => not_starts_noise⟩

private theorem testSensors_spares (nus ncu acquire_s : ℕ) :
    ∀ line ∈ testSensors nus ncu acquire_s, line.Spares Starts .noise := by
  simp only [testSensors, List.forall_mem_append, List.forall_mem_flatMap, List.forall_mem_map]
  simp

private theorem testPowersupply_spares (nus ncu scans : ℕ) :
    ∀ line ∈ testPowersupply nus ncu scans, line.Spares Starts .noise := by
  simp only [testPowersupply, List.forall_mem_append, List.forall_mem_flatMap, List.forall_mem_map]
  simp

theorem testServices_spares (p : BasicCore.Proc) : ∀ line ∈ testServices withWebui, line.Spares Starts p := by
  cases withWebui <;> simp [testServices, must, GuardedScripts.Line.Spares, Starts]

private theorem testHistory_spares (files : ℕ) (p : BasicCore.Proc) :
    ∀ line ∈ testHistory files, line.Spares Starts p := by
  simp [testHistory, must, GuardedScripts.Line.Spares, Starts]

def Quiet (util : CommonUtil Host) (h : Host) : Prop := BasicCore.Quiet util.basic h

theorem quiet_iff {h : Host} : Quiet util h ↔ ∀ p, ¬ util.other.runs p h :=
  forall_congr' fun p => not_congr (util.same p h).symm

private theorem runTest_meets {P Q R : Host → Prop} {script : List (GuardedScripts.Line Command)}
    (htriple : Triple util.other.exec P script Q fun status h => status ≠ 0 ∧ R h) (o : Outcome) {h : Host}
    (hP : P h) :
    ((runTest util o script h).2 = 0 → Q (runTest util o script h).1) ∧
    ((runTest util o script h).2 ≠ 0 → R (runTest util o script h).1) := by
  obtain ⟨hend,hexit⟩ := htriple o.ok 0 h hP
  simp only [runTest]
  cases hstatus : (GuardedScripts.run util.other.exec o.ok script 0 h).status with
  | none => exact ⟨fun _ => hend hstatus,fun hne => absurd rfl hne⟩
  | some status =>
    obtain ⟨hne,hR⟩ := hexit status hstatus
    exact ⟨fun hzero => absurd hzero hne,fun _ => hR⟩

private theorem triple_quiet {script : List (GuardedScripts.Line Command)}
    (h : ∀ p, ∀ line ∈ script, line.Spares Starts p) :
    Triple util.other.exec (Quiet util) script (Quiet util) fun status h => status ≠ 0 ∧ Quiet util h := by
  intro ok n s hs
  have hspares := fun p => util.other.triple_spares (h p) ok n s (quiet_iff.mp hs p)
  refine ⟨fun hnone => quiet_iff.mpr fun p => (hspares p).1 hnone,fun status hstatus => ⟨?_,?_⟩⟩
  · exact ((hspares .us).2 status hstatus).1
  · exact quiet_iff.mpr fun p => ((hspares p).2 status hstatus).2

private theorem triple_stopping {script : List (GuardedScripts.Line Command)}
    (h : ∀ line ∈ script ++ [.act .stop_us], line.Spares Starts .noise) :
    Triple util.other.exec (Quiet util) (script ++ [.act .stop_us]) (Quiet util)
      fun status h => status ≠ 0 ∧ ¬ util.basic.runs .noise h := by
  have hus : Triple util.other.exec (fun _ => True) (script ++ [.act .stop_us])
      (fun h => ¬ util.other.runs .us h) fun _ _ => True :=
    .append (R := fun _ => True) (fun _ _ _ _ => ⟨fun _ => trivial,fun _ _ => trivial⟩)
      (.act fun ok s _ => util.other.ended .stop_us ok s .us rfl)
  intro ok n s hs
  obtain ⟨hend,hexit⟩ := util.other.triple_spares h ok n s (quiet_iff.mp hs .noise)
  refine ⟨fun hnone => quiet_iff.mpr fun p => ?_,fun status hstatus => ?_⟩
  · cases p with
    | us => exact (hus ok n s trivial).1 hnone
    | noise => exact hend hnone
  · obtain ⟨hne,hnoise⟩ := hexit status hstatus
    exact ⟨hne,mt (util.same .noise _).mpr hnoise⟩

private theorem leaves_of_quiet {t : Test} {h : Host} (hquiet : Quiet util h) : Leaves util t h :=
  ⟨hquiet .noise,fun hus => absurd hus (hquiet .us)⟩

private theorem exec_meets (t : Test) : Meets (exec util withWebui) (Quiet util) (Leaves util) t := by
  intro o h hquiet
  cases t with
  | services =>
    obtain ⟨hpass,hfail⟩ := runTest_meets (triple_quiet testServices_spares) o hquiet
    exact ⟨hpass,fun hne => leaves_of_quiet (hfail hne)⟩
  | history =>
    obtain ⟨hpass,hfail⟩ := runTest_meets (triple_quiet (testHistory_spares o.files)) o hquiet
    exact ⟨hpass,fun hne => leaves_of_quiet (hfail hne)⟩
  | sensors =>
    obtain ⟨hpass,hfail⟩ := runTest_meets (triple_stopping (testSensors_spares 2 4 60)) o hquiet
    exact ⟨hpass,fun hne => ⟨hfail hne,fun _ => .inl rfl⟩⟩
  | powersupply =>
    obtain ⟨hpass,hfail⟩ := runTest_meets (triple_stopping (testPowersupply_spares 2 4 o.scans)) o hquiet
    exact ⟨hpass,fun hne => ⟨hfail hne,fun _ => .inr rfl⟩⟩
  | basic_core =>
    obtain ⟨hend,hexit⟩ := @BasicCore.triple_script Host util.basic 2 4 false o.ok 0 ⟨h,[]⟩ ⟨hquiet,rfl⟩
    simp only [exec]
    generalize GuardedScripts.run (BasicCore.exec util.basic) o.ok (BasicCore.script 2 4 false) 0 ⟨h,[]⟩ = r at *
    cases hstatus : r.status with
    | none => exact ⟨fun _ => (hend hstatus).1,fun hne => absurd rfl hne⟩
    | some status =>
      obtain ⟨rfl,hgivesUp⟩ := hexit status hstatus
      exact ⟨fun hzero => absurd hzero Nat.one_ne_zero,fun _ => leaves_of_quiet hgivesUp⟩

/-- Every test of a suite that ends starts on a host without unit servers and noise, and the suite
ends with 0 exactly if each of its tests does so, on a quiet host. Where it ends with 1, the failed
test is its last one; of the two kinds of processes only unit servers of `test-sensors.sh` or
`test-powersupply.sh` are left. -/
theorem suite_ends {h : Host} (hquiet : Quiet util h) (withWebui : Bool) (outcomes : ℕ → Outcome) :
    let r := Suites.run (exec util withWebui) outcomes tests 0 h
    (∀ e ∈ r.log, Quiet util e.found) ∧ Ended tests (Quiet util) (Leaves util) r :=
  run_ended (fun t _ => exec_meets t) 0 hquiet

end Tests

def localHost : CommonUtil (Bool × Bool) where
  basic := BasicCore.twoProcesses
  other :=
    { exec := fun c ok h => match c with
        | .launch_us_cu => (true,h.2)
        | .launch_checked => (ok,h.2)
        | .check_proc => (h.1 && ok,h.2)
        | .stop_us => (false,h.2)
        | _ => h
      runs := BasicCore.twoProcesses.runs
      started := fun c ok h p => by cases c <;> cases p <;> simp +contextual [Starts, BasicCore.twoProcesses]
      ended := fun c ok h p => by cases c <;> cases p <;> simp +contextual [Stops, BasicCore.twoProcesses] }
  same _ _ := Iff.rfl

/-- The fourth test gets no timestamp, and its unit servers stay. -/
theorem sensors_leaves_servers :
    let r := Suites.run (exec localHost false) (fun i => ⟨fun n => i ≠ 3 ∨ n ≠ 17,1,1⟩) tests 0 (false,false)
    Ended tests (Quiet localHost) (Leaves localHost) r ∧ r.log.length = 4 ∧ localHost.basic.runs .us r.host := by
  have hquiet : Quiet localHost (false,false) := BasicCore.quiet_of nofun nofun
  exact ⟨(suite_ends hquiet false fun i => ⟨fun n => i ≠ 3 ∨ n ≠ 17,1,1⟩).2,rfl,rfl⟩

end Suite
end ChaosBundle.LocalServices

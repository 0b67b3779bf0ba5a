import ChaosBundle.Library.GuardedScripts

/-! `test-ping-bandwidth.sh`: bandwidth tests of one unit server with shorter and shorter
scheduler delays. -/
namespace ChaosBundle.Benchmark
open GuardedScripts

namespace PingBandwidth

/-- The delay of the next round; the last one is 1 instead of 0. -/
def shorter (sched : Int) : Int :=
  if sched ≤ 1000 then
    if sched - 200 = 0 then 1 else sched - 200
  else sched - 1000

private theorem shorter_lt (sched : Int) : shorter sched < sched := by
  unfold shorter
  split_ifs <;> omega

/-- The delays of the loop `while ((sched>0))`. -/
def delays (sched : Int) : List Int :=
  if 0 < sched then sched :: delays (shorter sched) else []
termination_by sched.toNat
decreasing_by
  have := shorter_lt sched
  omega

example : delays 1000 = [1000,800,600,400,200,1] := by
  simp [delays, shorter]

inductive Command where
  /-- `check_proc mds` -/
  | check_mds
  | launch_us_cu
  | check_us
  | stop_us
  | rm
  | sleep
  /-- `run_proc` of `MessClient` -/
  | mess_client (sched : Int)
  | plot (sched : Int)
  | archive
  deriving DecidableEq

inductive Proc where
  | us
  deriving DecidableEq

def Starts : Command → Bool → Proc → Prop
  | .launch_us_cu, _, _ => True
  | _, _, _ => False

def Stops : Command → Bool → Proc → Prop
  | .stop_us, _, _ => True
  | .check_us, ok, _ => ok = false
  | _, _, _ => False

/-- What the script relies on in `common_util.sh`. -/
abbrev CommonUtil (Host : Type) := Processes Starts Stops Host

/-- `mdsDead` and `launched` say what the commands have found and done so far. -/
structure State (Host : Type) where
  host : Host
  nerr : Nat
  launched : Bool
  mdsDead : Bool

def checkMds (external : Bool) : List (Line Command) :=
  if external then [] else [.must .check_mds [] 1]

/-- One bandwidth test. -/
def round (external : Bool) (sched : Int) : List (Line Command) :=
  [.act (.mess_client sched)] ++ [.act (.plot sched)] ++ [.must .check_us [] 1] ++ checkMds external

/-- `external` is the test of `CHAOS_EXTERNAL_MDS`. At the end the status is `nerr`. -/
def script (external : Bool) (sched : Int) : List (Line Command) :=
  checkMds external ++ [.must .launch_us_cu [.stop_us] 1] ++ [.must .check_us [] 1] ++ [.act .rm] ++
  [.act .sleep] ++ checkMds external ++ (delays sched).flatMap (round external) ++ [.act .archive] ++
  [.act .stop_us]

/-- A bandwidth test that fails, as a line with its number. -/
def failedTest (ok : Nat → Bool) : Line Command × Nat → Bool
  | (.act (.mess_client _),i) => !ok i
  | _ => false

def failedTests (ok : Nat → Bool) (script : List (Line Command)) : Nat := script.zipIdx.countP (failedTest ok)

section Blocks
variable {Host : Type} (util : CommonUtil Host)

def exec (c : Command) (ok : Bool) (s : State Host) : State Host where
  host := util.exec c ok s.host
  nerr := match c with
    | .mess_client _ => if ok then s.nerr else s.nerr+1
    | _ => s.nerr
  launched := s.launched || decide (c = .launch_us_cu)
  mdsDead := s.mdsDead || (decide (c = .check_mds) && !ok)

/-- The script gives up with status 1. It may leave its unit server only if it has launched it
and then missed the metadata server. -/
def GivesUp (status : Nat) (s : State Host) : Prop :=
  status = 1 ∧ (util.runs .us s.host → s.launched ∧ s.mdsDead)

def Idle (s : State Host) : Prop := ¬ util.runs .us s.host ∧ s.nerr = 0

/-- After the launch, with at most `n` failures. -/
def Launched (n : Nat) (s : State Host) : Prop := s.launched ∧ s.nerr ≤ n

variable {util} {external : Bool} {sched : Int} {n : Nat} {c : Command}

private theorem not_us {s : State Host} {ok : Bool} (h : ¬ util.runs .us s.host)
    (hc : c ≠ .launch_us_cu) : ¬ util.runs .us (exec util c ok s).host := by
  apply util.not_runs h
  cases c <;> simp_all [Starts]

private theorem triple_first_check :
    Triple (exec util) (Idle util) (checkMds external) (Idle util) (GivesUp util) := by
  unfold checkMds
  split_ifs
  · exact .nil
  · refine .must (fun s hs => ⟨not_us hs.1 nofun,hs.2⟩) (fun s hs => ?_) .nil
    exact ⟨rfl,fun h => absurd h (not_us hs.1 nofun)⟩

theorem triple_check_mds : Triple (exec util) (Launched n) (checkMds external) (Launched n) (GivesUp util) := by
  unfold checkMds
  split_ifs
  · exact .nil
  · refine .must (fun s hs => ⟨by simp [exec, hs.1],hs.2⟩) (fun s hs => ?_) .nil
    exact ⟨rfl,fun _ => ⟨by simp [exec, hs.1],by simp [exec]⟩⟩

private theorem triple_launch :
    Triple (exec util) (Idle util) [.must .launch_us_cu [.stop_us] 1] (Launched 0) (GivesUp util) := by
  refine .must (R := fun _ => True) (fun s hs => ⟨by simp [exec],Nat.le_of_eq hs.2⟩) (fun _ _ => trivial) ?_
  exact .cons (fun ok s _ => ⟨rfl,fun h => absurd h (util.ended .stop_us ok s.host .us trivial)⟩) .nil

theorem triple_check_us : Triple (exec util) (Launched n) [.must .check_us [] 1] (Launched n) (GivesUp util) := by
  refine .must (fun s hs => ⟨by simp [exec, hs.1],hs.2⟩) (fun s hs => ?_) .nil
  exact ⟨rfl,fun h => absurd h (util.ended .check_us false s.host .us rfl)⟩

theorem triple_act (hc : ∀ sched, c ≠ .mess_client sched) :
    Triple (exec util) (Launched n) [.act c] (Launched n) (GivesUp util) := by
  refine .act fun ok s hs => ⟨by simp [exec, hs.1],?_⟩
  cases c with
  | mess_client sched => exact absurd rfl (hc sched)
  | _ => exact hs.2

private theorem triple_round :
    Triple (exec util) (Launched n) (round external sched) (Launched (n+1)) (GivesUp util) := by
  refine .append (.append (.append (R := Launched (n+1)) ?_ (triple_act nofun)) triple_check_us) triple_check_mds
  refine .act fun ok s hs => ⟨by simp [exec, hs.1],?_⟩
  have hnerr := hs.2
  simp only [exec]
  split_ifs <;> omega

theorem triple_script : Triple (exec util) (Idle util) (script external sched)
    (fun s => ¬ util.runs .us s.host ∧ s.nerr ≤ (delays sched).length) (GivesUp util) := by
  have hrounds : Triple (exec util) (Launched 0) ((delays sched).flatMap (round external))
      (Launched (delays sched).length) (GivesUp util) := by
    refine .loop (I := fun done => Launched done.length) fun done x todo _ => ?_
    rw [List.length_append, List.length_singleton]
    exact triple_round
  refine .append (.append (.append (.append (.append (.append (.append (.append triple_first_check triple_launch)
    triple_check_us) (triple_act nofun)) (triple_act nofun)) triple_check_mds) hrounds) (triple_act nofun)) ?_
  exact .act fun ok s hs => ⟨util.ended .stop_us ok s.host .us trivial,hs.2⟩

theorem run_nerr (ok : Nat → Bool) (script : List (Line Command)) (i : Nat) (s : State Host)
    (h : (run (exec util) ok script i s).status = none) :
    (run (exec util) ok script i s).state.nerr = s.nerr + (script.zipIdx i).countP (failedTest ok) := by
  induction script generalizing i s with
  | nil => rfl
  | cons line script ih =>
    rw [List.zipIdx_cons, List.countP_cons]
    cases line with
    | act c =>
      rw [run, ih _ _ h]
      cases c with
      | mess_client sched =>
        cases hok : ok i
        · simp only [exec, failedTest, hok, Bool.not_false, if_true, Bool.false_eq_true, if_false]
          omega
        · simp [exec, failedTest, hok]
      | _ => simp [exec, failedTest]
    | must c cleanup status =>
      by_cases hok : ok i
      · simp only [run, if_pos hok] at h ⊢
        rw [ih _ _ h]
        cases c <;> simp [exec, failedTest]
      · simp [run, hok] at h

/-- The script ends with the number of bandwidth tests that have failed, or gives up with
status 1. It leaves its unit server running only if it gives up because the metadata server
is gone after the launch. -/
theorem ping_bandwidth_ends {h : Host} (hidle : ¬ util.runs .us h) (external : Bool) (sched : Int)
    (ok : Nat → Bool) :
    let r := run (exec util) ok (script external sched) 0 ⟨h,0,false,false⟩
    (r.status = none ↔ ∀ i c cleanup status,
      (script external sched)[i]? = some (.must c cleanup status) → ok i) ∧
    (r.status = none → ¬ util.runs .us r.state.host ∧
      r.state.nerr = failedTests ok (script external sched) ∧ r.state.nerr ≤ (delays sched).length) ∧
    ∀ status, r.status = some status → status = 1 ∧
      (util.runs .us r.state.host → r.state.launched ∧ r.state.mdsDead) := by
  have hcompletes := @run_completes_iff _ _ (exec util) ok (script external sched) 0 ⟨h,0,false,false⟩
  simp only [Nat.zero_add] at hcompletes
  obtain ⟨hend,hexit⟩ := @triple_script _ util external sched ok 0 ⟨h,0,false,false⟩ ⟨hidle,rfl⟩
  refine ⟨hcompletes,fun hstatus => ⟨(hend hstatus).1,?_,(hend hstatus).2⟩,hexit⟩
  rw [run_nerr ok _ _ _ hstatus, Nat.zero_add, failedTests]

end Blocks

def oneProcess : CommonUtil Bool where
  exec c ok h := match c with
    | .launch_us_cu => true
    | .check_us => h && ok
    | .stop_us => false
    | _ => h
  runs _ h := h
  started c ok h p := by cases c <;> simp +contextual [Starts]
  ended c ok h p := by cases c <;> simp +contextual [Stops]

/-- The metadata server is gone before the first bandwidth test. -/
theorem unit_server_left :
    let r := run (exec oneProcess) (fun n => decide (n ≠ 5)) (script false 1000) 0 ⟨false,0,false,false⟩
    oneProcess.runs .us r.state.host ∧ r.status = some 1 ∧ r.state.mdsDead := by
  intro r
  have hends := (@ping_bandwidth_ends _ oneProcess false nofun false 1000 fun n => decide (n ≠ 5)).2.2
  have hstatus : r.status = some 1 := rfl
  have hleft : oneProcess.runs .us r.state.host := rfl
  exact ⟨hleft,hstatus,((hends 1 hstatus).2 hleft).2⟩

end PingBandwidth
end ChaosBundle.Benchmark

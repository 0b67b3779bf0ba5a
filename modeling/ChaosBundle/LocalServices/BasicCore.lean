import ChaosBundle.Library.GuardedScripts
import ChaosBundle.LocalServices.Pairs

/-! `test-basic-core.sh`: it drives every control unit of its unit servers, after a process
that disturbs them if it is asked for. -/
namespace ChaosBundle.LocalServices
open GuardedScripts

namespace BasicCore

inductive Command where
  /-- `run_proc` of `create-noise-requests.sh` -/
  | noise
  | launch_us_cu
  | check_proc
  | stop_us
  | stop_noise
  | deinit_cu (p : Pair)
  | loop_cu_test (p : Pair)
  | init_cu (p : Pair)
  | start_cu (p : Pair)
  deriving DecidableEq

inductive Proc where
  | us | noise
  deriving DecidableEq

/-- A launch that fails may have started some of the servers. -/
def Starts : Command → Bool → Proc → Prop
  | .launch_us_cu, _, p => p = .us
  | .noise, ok, p => ok ∧ p = .noise
  | _, _, _ => False

/-- `check_proc` fails if there is no process. -/
def Stops : Command → Bool → Proc → Prop
  | .stop_us, _, p => p = .us
  | .stop_noise, _, p => p = .noise
  | .check_proc, ok, p => ok = false ∧ p = .us
  | _, _, _ => False

/-- What the script relies on in `common_util.sh`. -/
abbrev CommonUtil (Host : Type) := Processes Starts Stops Host

structure State (Host : Type) where
  host : Host
  driven : List Command

def Command.drives : Command → Bool
  | .loop_cu_test _ | .init_cu _ | .start_cu _ => true
  | _ => false

/-- One step for a control unit; if it fails the unit servers are stopped. -/
def driveLine (c : Command) : Line Command := .must c [.stop_us] 1

def drive (p : Pair) : List (Line Command) :=
  [driveLine (.loop_cu_test p)] ++ [driveLine (.init_cu p)] ++ [driveLine (.start_cu p)] ++
    [.must .check_proc [] 1]

/-- `withNoise` is the test of the fifth argument. At the end the status is 0. -/
def script (nus ncu : Nat) (withNoise : Bool) : List (Line Command) :=
  (if withNoise then [.must .noise [] 1] else []) ++
  ([.must .launch_us_cu [.stop_us,.stop_noise] 1] ++ [.must .check_proc [.stop_noise] 1]) ++
  (if withNoise then
    [.act .stop_noise] ++ (pairs nus ncu).flatMap fun p => [driveLine (.deinit_cu p)]
  else []) ++
  (pairs nus ncu).flatMap drive ++
  [.act .stop_us]

/-- The tests that have been passed, one control unit after the other. -/
def passed (ps : List Pair) : List Command :=
  ps.flatMap fun p => [.loop_cu_test p,.init_cu p,.start_cu p]

section Blocks
variable {Host : Type} (util : CommonUtil Host)

def exec (c : Command) (ok : Bool) (s : State Host) : State Host :=
  ⟨util.exec c ok s.host,if c.drives && ok then s.driven ++ [c] else s.driven⟩

def Quiet (h : Host) : Prop := ∀ p, ¬ util.runs p h

def GivesUp (status : Nat) (s : State Host) : Prop := status = 1 ∧ Quiet util s.host

def Driving (L : List Command) (s : State Host) : Prop := ¬ util.runs .noise s.host ∧ s.driven = L

variable {util} {nus ncu : Nat} {withNoise : Bool} {p : Pair} {done : List Pair} {c : Command} {L : List Command}

theorem quiet_of {h : Host} (hus : ¬ util.runs .us h) (hnoise : ¬ util.runs .noise h) : Quiet util h
  | .us => hus
  | .noise => hnoise

theorem not_noise {s : State Host} {ok : Bool} (h : ¬ util.runs .noise s.host) (hc : c ≠ .noise) :
    ¬ util.runs .noise (exec util c ok s).host := by
  apply util.not_runs h
  cases c <;> simp_all [Starts]

theorem not_us {s : State Host} {ok : Bool} (h : ¬ util.runs .us s.host) (hc : c ≠ .launch_us_cu) :
    ¬ util.runs .us (exec util c ok s).host := by
  apply util.not_runs h
  cases c <;> simp_all [Starts]

private theorem cleans_us :
    Cleans (exec util) (fun s => ¬ util.runs .noise s.host) [.stop_us] (GivesUp util 1) :=
  .cons (fun ok s hs => ⟨rfl,quiet_of (util.ended .stop_us ok s.host _ rfl) (not_noise hs nofun)⟩) .nil

private theorem cleans_noise :
    Cleans (exec util) (fun s => ¬ util.runs .us s.host) [.stop_noise] (GivesUp util 1) :=
  .cons (fun ok s hs => ⟨rfl,quiet_of (not_us hs nofun) (util.ended .stop_noise ok s.host _ rfl)⟩) .nil

theorem triple_driveLine (hc : c ≠ .noise) : Triple (exec util) (Driving util L) [driveLine c]
    (Driving util (if c.drives then L ++ [c] else L)) (GivesUp util) := by
  refine .must (fun s hs => ⟨not_noise hs.1 hc,?_⟩) (fun s hs => not_noise hs.1 hc) cleans_us
  simp [exec, hs.2]

private theorem triple_noise : Triple (exec util) (fun s => Quiet util s.host ∧ s.driven = [])
    (if withNoise then [.must .noise [] 1] else [])
    (fun s => ¬ util.runs .us s.host ∧ s.driven = [] ∧ (withNoise = false → ¬ util.runs .noise s.host))
    (GivesUp util) := by
  split_ifs with hnoise
  · refine .must (fun s hs => ⟨not_us (hs.1 .us) nofun,hs.2,fun h => ?_⟩) (fun s hs => ?_) .nil
    · rw [h] at hnoise
      cases hnoise
    · exact ⟨rfl,quiet_of (not_us (hs.1 .us) nofun) (util.not_runs (hs.1 .noise) (by simp [Starts]))⟩
  · exact Triple.nil.weaken (fun _ hs => hs) fun s hs => ⟨hs.1 .us,hs.2,fun _ => hs.1 .noise⟩

private theorem triple_launch : Triple (exec util)
    (fun s => ¬ util.runs .us s.host ∧ s.driven = [] ∧ (withNoise = false → ¬ util.runs .noise s.host))
    ([.must .launch_us_cu [.stop_us,.stop_noise] 1] ++ [.must .check_proc [.stop_noise] 1])
    (fun s => s.driven = [] ∧ (withNoise = false → ¬ util.runs .noise s.host)) (GivesUp util) := by
  refine .append (R := fun s => s.driven = [] ∧ (withNoise = false → ¬ util.runs .noise s.host)) ?_ ?_
  · exact .must (R := fun _ => True) (fun s hs => ⟨hs.2.1,fun h => not_noise (hs.2.2 h) nofun⟩)
      (fun _ _ => trivial) (.cons (fun ok s _ => util.ended .stop_us ok s.host _ rfl) cleans_noise)
  · exact .must (fun s hs => ⟨hs.1,fun h => not_noise (hs.2 h) nofun⟩)
      (fun s _ => util.ended .check_proc false s.host _ ⟨rfl,rfl⟩) cleans_noise

private theorem triple_deinit : Triple (exec util)
    (fun s => s.driven = [] ∧ (withNoise = false → ¬ util.runs .noise s.host))
    (if withNoise then
      [.act .stop_noise] ++ (pairs nus ncu).flatMap fun p => [driveLine (.deinit_cu p)]
    else []) (Driving util []) (GivesUp util) := by
  split_ifs with hnoise
  · refine .append (R := Driving util []) (.act fun ok s hs => ⟨util.ended .stop_noise ok s.host _ rfl,hs.1⟩) ?_
    exact .loop (I := fun _ => Driving util []) fun _ p _ _ => triple_driveLine (c := .deinit_cu p) nofun
  · exact Triple.nil.weaken (fun _ hs => hs) fun s hs => ⟨hs.2 (by simpa using hnoise),hs.1⟩

private theorem triple_drive : Triple (exec util) (Driving util (passed done)) (drive p)
    (Driving util (passed (done ++ [p]))) (GivesUp util) := by
  have hpassed : passed (done ++ [p]) = passed done ++ [.loop_cu_test p] ++ [.init_cu p] ++ [.start_cu p] := by
    simp [passed]
  rw [hpassed]
  refine .append (.append (.append (triple_driveLine nofun) (triple_driveLine nofun)) (triple_driveLine nofun)) ?_
  exact .must (fun s hs => ⟨not_noise hs.1 nofun,hs.2⟩)
    (fun s hs => ⟨rfl,quiet_of (util.ended .check_proc false s.host _ ⟨rfl,rfl⟩) (not_noise hs.1 nofun)⟩) .nil

theorem triple_script : Triple (exec util) (fun s => Quiet util s.host ∧ s.driven = []) (script nus ncu withNoise)
    (fun s => Quiet util s.host ∧ s.driven = passed (pairs nus ncu)) (GivesUp util) := by
  have hdrive : Triple (exec util) (Driving util []) ((pairs nus ncu).flatMap drive)
      (Driving util (passed (pairs nus ncu))) (GivesUp util) :=
    .loop (I := fun done => Driving util (passed done)) fun _ _ _ _ => triple_drive
  refine .append (.append (.append (.append triple_noise triple_launch) triple_deinit) hdrive) ?_
  exact .act fun ok s hs => ⟨quiet_of (util.ended .stop_us ok s.host _ rfl) (not_noise hs.1 nofun),hs.2⟩

/-- However the commands turn out, nothing that the script has started is left running. It
ends with status 0 exactly if every command that it tests has succeeded, and then each control
unit has passed its tests, one after the other; otherwise it ends with status 1. -/
theorem basic_core_ends {h : Host} (hquiet : Quiet util h) (nus ncu : Nat) (withNoise : Bool) (ok : Nat → Bool) :
    let r := run (exec util) ok (script nus ncu withNoise) 0 ⟨h,[]⟩
    Quiet util r.state.host ∧
    (r.status = none ↔ ∀ i c cleanup status,
      (script nus ncu withNoise)[i]? = some (.must c cleanup status) → ok i) ∧
    (r.status = none ∧ r.state.driven = passed (pairs nus ncu) ∨ r.status = some 1) := by
  intro r
  obtain ⟨hend,hexit⟩ := @triple_script Host util nus ncu withNoise ok 0 ⟨h,[]⟩ ⟨hquiet,rfl⟩
  have hcompletes := @run_completes_iff _ _ (exec util) ok (script nus ncu withNoise) 0 ⟨h,[]⟩
  simp only [Nat.zero_add] at hcompletes
  cases hstatus : r.status with
  | none =>
    obtain ⟨hquiet,hdriven⟩ := hend hstatus
    exact ⟨hquiet,hstatus ▸ hcompletes,.inl ⟨rfl,hdriven⟩⟩
  | some status =>
    obtain ⟨rfl,hquiet⟩ := hexit status hstatus
    exact ⟨hquiet,hstatus ▸ hcompletes,.inr rfl⟩

end Blocks

def twoProcesses : CommonUtil (Bool × Bool) where
  exec c ok h := match c with
    | .noise => (h.1,h.2 || ok)
    | .launch_us_cu => (true,h.2)
    | .check_proc => (h.1 && ok,h.2)
    | .stop_us => (false,h.2)
    | .stop_noise => (h.1,false)
    | _ => h
  runs p h := match p with
    | .us => h.1
    | .noise => h.2
  started c ok h p := by cases c <;> cases p <;> simp +contextual [Starts]
  ended c ok h p := by cases c <;> cases p <;> simp +contextual [Stops]

/-- The unit servers come up beside the noise, and the second control unit does not start. -/
theorem second_start_fails :
    let r := run (exec twoProcesses) (fun n => decide (n ≠ 12)) (script 1 2 true) 0 ⟨(false,false),[]⟩
    Quiet twoProcesses r.state.host ∧ r.status = some 1 := by
  obtain ⟨hquiet,-,hends⟩ := @basic_core_ends _ twoProcesses (false,false) (quiet_of nofun nofun) 1 2 true fun n =>
    decide (n ≠ 12)
  exact ⟨hquiet,hends.resolve_left fun h => absurd h.1 (by decide)⟩

end BasicCore
end ChaosBundle.LocalServices

import ChaosBundle.Template.Driver
import ChaosBundle.Library.Runs

/-! `__template_name__` and its default command: a random value below the input attribute
`rand_max`, which an operator may write at any time. -/
namespace ChaosBundle.Template
open Runs
variable {RAND_MAX : ℕ+}

/-- The control unit checks the accessor and the value that `rand_max` has at this time. -/
def unitInit (accessor : Bool) (i_rand_max : Option ℚ) : Except Fault ℚ :=
  if ¬ accessor then throwing (-1) "Cannot retrieve the requested driver" "unitInit"
  else match i_rand_max with
    | none => throwing (-1) "BAD rand_max value" "unitInit"
    | some q => if q ≤ 0 then throwing (-1) "BAD rand_max value" "unitInit" else .ok q

/-- The default command with the two attributes that it points to. -/
structure DefaultCommand where
  driver : Bool
  i_rand_max : ℚ
  o_out1 : ℚ
  schedulerDelay : ℕ
  outputChanged : Bool

namespace DefaultCommand

def setHandler (accessor : Bool) (i_rand_max o_out1 : ℚ) : DefaultCommand :=
  ⟨accessor,i_rand_max,o_out1,1000000,false⟩

def acquireHandler (c : DefaultCommand) (memory : Memory) (rand : Rand RAND_MAX) :
    Except Fault DefaultCommand :=
  if c.driver then do
    let parm ← defined (CInt.ofRat c.i_rand_max)
    let (_,var) ← op2 memory rand parm
    pure { c with o_out1 := var, outputChanged := true }
  else pure c

end DefaultCommand

/-- The control unit starts and installs its default command. -/
def start (accessor : Bool) (i_rand_max : Option ℚ) (o_out1 : ℚ) : Except Fault DefaultCommand := do
  let q ← unitInit accessor i_rand_max
  pure (.setHandler accessor q o_out1)

inductive Event (RAND_MAX : ℕ+) where
  /-- The operator writes `rand_max`. -/
  | write (value : ℚ)
  /-- The scheduler runs `acquireHandler`. -/
  | acquire (memory : Memory) (rand : Rand RAND_MAX)

/-- A cycle that throws leaves the attributes as they are; after undefined behaviour there is
no next state. -/
def step (c : DefaultCommand) : Event RAND_MAX → Option DefaultCommand
  | .write value => some { c with i_rand_max := value }
  | .acquire memory rand =>
    match c.acquireHandler memory rand with
    | .ok d => some d
    | .error (.exception _) => some c
    | .error .undefined => none

/-- The conversion of the cycle is in range, and what it publishes lies between zero and a
positive bound. -/
def Respected (c : DefaultCommand) : Event RAND_MAX → Prop
  | .write _ => True
  | .acquire memory rand => (CInt.ofRat c.i_rand_max).isSome ∧
      ∀ d, c.acquireHandler memory rand = .ok d →
        0 < c.i_rand_max ∧ 0 ≤ d.o_out1 ∧ d.o_out1 ≤ c.i_rand_max

/-- The run never becomes undefined, and each of its cycles respects the value that
`rand_max` then has. -/
def RespectsRandMax (c : DefaultCommand) (events : List (Event RAND_MAX)) : Prop :=
  (run step c events).isSome ∧ Meets step Respected c events

/-- The conversion has a value, and the bound is positive where something gets published. -/
def PositiveInRange (c : DefaultCommand) : Event RAND_MAX → Prop
  | .write _ => True
  | .acquire memory _ => -2^31 - 1 < c.i_rand_max ∧ c.i_rand_max < 2^31 ∧
      (memory.idata → memory.odata → 0 < c.i_rand_max)

private theorem start_ok {accessor : Bool} {i_rand_max : Option ℚ} {o_out1 : ℚ} {c : DefaultCommand}
    (h : start accessor i_rand_max o_out1 = .ok c) : c.driver ∧ 0 < c.i_rand_max := by
  cases accessor with
  | false => simp [start, unitInit, throwing] at h
  | true =>
    cases i_rand_max with
    | none => simp [start, unitInit, throwing] at h
    | some q =>
      by_cases hq : q ≤ 0
      · simp [start, unitInit, throwing, hq] at h
      · simp only [start, unitInit, hq] at h
        cases h
        exact ⟨rfl,not_le.mp hq⟩

theorem start_of_pos {q : ℚ} (hq : 0 < q) (o_out1 : ℚ) :
    start true (some q) o_out1 = .ok (.setHandler true q o_out1) := by
  simp [start, unitInit, not_le.mpr hq]

variable {c d : DefaultCommand} {memory : Memory} {rand : Rand RAND_MAX} {e : Event RAND_MAX}

theorem acquireHandler_eq (hdriver : c.driver) {parm : CInt} (h : CInt.ofRat c.i_rand_max = some parm) :
    c.acquireHandler memory rand =
      (op2 memory rand parm).map fun r => { c with o_out1 := r.2, outputChanged := true } := by
  cases hop : op2 memory rand parm <;>
    simp [DefaultCommand.acquireHandler, hdriver, h, hop, Except.map]

theorem acquireHandler_ok (hdriver : c.driver) (h : c.acquireHandler memory rand = .ok d) :
    ∃ parm, CInt.ofRat c.i_rand_max = some parm ∧ memory.idata ∧ memory.odata ∧
      d = { c with o_out1 := (rand.val : ℚ) / RAND_MAX * parm.val, outputChanged := true } := by
  cases hparm : CInt.ofRat c.i_rand_max with
  | none => simp [DefaultCommand.acquireHandler, hdriver, hparm] at h
  | some parm =>
    rw [acquireHandler_eq hdriver hparm] at h
    cases hop : op2 memory rand parm with
    | error f => simp [hop, Except.map] at h
    | ok r =>
      obtain ⟨hi,ho,hval⟩ := op2_ok hop
      rw [hop] at h
      cases h
      exact ⟨parm,rfl,hi,ho,congrArg (DefaultCommand.mk _ _ · _ _) hval⟩

theorem respected_iff (hdriver : c.driver) : Respected c e ↔ PositiveInRange c e := by
  cases e with
  | write value => exact Iff.rfl
  | acquire memory rand =>
    change (CInt.ofRat c.i_rand_max).isSome ∧ _ ↔ _
    rw [CInt.isSome_ofRat, and_assoc]
    refine and_congr_right fun hlow => and_congr_right fun hhigh => ?_
    obtain ⟨parm,hparm⟩ := Option.isSome_iff_exists.mp (CInt.isSome_ofRat.mpr ⟨hlow,hhigh⟩)
    constructor
    · intro h hi ho
      have hok : c.acquireHandler memory rand = .ok
          { c with o_out1 := (rand.val : ℚ) / RAND_MAX * parm.val, outputChanged := true } := by
        rw [acquireHandler_eq hdriver hparm, op2_eq memory rand parm hi ho]
        rfl
      exact (h _ hok).1
    · intro hpos d hd
      obtain ⟨parm',hparm',hi,ho,rfl⟩ := acquireHandler_ok hdriver hd
      have hq := hpos hi ho
      exact ⟨hq,share_le hq (CInt.ofRat_eq_some.mp hparm') rand⟩

private theorem step_driver (hdriver : c.driver) (h : step c e = some d) : d.driver := by
  cases e with
  | write value =>
    cases h
    exact hdriver
  | acquire memory rand =>
    cases hacquire : c.acquireHandler memory rand with
    | ok u =>
      simp only [step, hacquire, Option.some_inj] at h
      obtain ⟨_,-,-,-,hu⟩ := acquireHandler_ok hdriver hacquire
      rw [← h, hu]
      exact hdriver
    | error f =>
      cases f with
      | exception e =>
        simp only [step, hacquire, Option.some_inj] at h
        exact h ▸ hdriver
      | undefined => simp [step, hacquire] at h

private theorem step_isSome (hdriver : c.driver) (h : Respected c e) : (step c e).isSome := by
  cases e with
  | write value => rfl
  | acquire memory rand =>
    obtain ⟨parm,hparm⟩ := Option.isSome_iff_exists.mp h.1
    cases hop : op2 memory rand parm with
    | ok r => simp [step, acquireHandler_eq hdriver hparm, hop, Except.map]
    | error f =>
      obtain ⟨e,rfl⟩ := op2_error hop
      simp [step, acquireHandler_eq hdriver hparm, hop, Except.map]

/-- After a start that did not throw, the runs that respect `rand_max` are those whose
cycles find a positive value below 2^31. -/
theorem respects_rand_max_iff {accessor : Bool} {i_rand_max : Option ℚ} {o_out1 : ℚ}
    (hstart : start accessor i_rand_max o_out1 = .ok c) (events : List (Event RAND_MAX)) :
    RespectsRandMax c events ↔ Meets step PositiveInRange c events := by
  have hkeeps : ∀ (s : DefaultCommand) (a : Event RAND_MAX) t, s.driver → step s a = some t → t.driver :=
    fun _ _ _ => step_driver
  have hiff : Meets step Respected c events ↔ Meets step PositiveInRange c events :=
    meets_congr hkeeps (fun _ _ => respected_iff) (start_ok hstart).1 events
  rw [RespectsRandMax, ← hiff, and_iff_right_iff_imp]
  exact run_isSome_of_meets hkeeps (fun _ _ => step_isSome) (start_ok hstart).1

def acquired (RAND_MAX : ℕ+) : Event RAND_MAX := .acquire ⟨true,true⟩ 0

theorem respects_rand_max_from_10 :
    RespectsRandMax (.setHandler true 10 0) [.write (5/2),acquired 7] := by
  refine (respects_rand_max_iff (start_of_pos (by norm_num) 0) _).mpr ⟨trivial,fun t ht => ?_⟩
  cases ht
  exact ⟨⟨by norm_num,by norm_num,fun _ _ => by norm_num⟩,fun _ _ => trivial⟩

theorem negative_rand_max_breaks :
    start true (some 10) 0 = .ok (.setHandler true 10 0) ∧
      ¬ RespectsRandMax (.setHandler true 10 0) [.write (-1),acquired 7] := by
  refine ⟨start_of_pos (by norm_num) 0,fun h => ?_⟩
  have hcycle := (h.2.2 _ rfl).1
  have hpos : (0 : ℚ) < -1 := ((respected_iff rfl).mp hcycle).2.2 rfl rfl
  norm_num at hpos

end ChaosBundle.Template

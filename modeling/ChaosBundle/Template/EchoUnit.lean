import ChaosBundle.Library.DecimalFields
import ChaosBundle.Library.Runs
import ChaosBundle.Template.Driver

/-! The control unit and the driver of `rtcu.tmpl`: the input `in_1` goes to the driver
when it has changed, and each `unitRun` fetches the driver's value to the output `out_1`.
The driver executes a message before `send` returns. -/
namespace ChaosBundle.Template
open DecimalFields Runs

namespace Rtcu

/-- `other` is an opcode that the driver does not know. -/
inductive Opcode where
  | SET_CH_1 | GET_CH_1 | other
  deriving DecidableEq

structure DrvMsg where
  opcode : Opcode
  /-- the value that `inputData` points to -/
  inputData : Option CInt
  inputDataLength : Nat
  /-- `resultData` points somewhere -/
  resultData : Bool
  deriving DecidableEq

def DrvMsg.cleared (opcode : Opcode) : DrvMsg := ⟨opcode,none,0,false⟩

/-- `sizeof(int32_t)` -/
def sizeofInt : Nat := 4

/-- The driver's value afterwards, and what is written to the result. -/
def execOpcode (cmd : DrvMsg) (i32_out_1_value : CInt) : Except Fault (CInt × Option CInt) :=
  match cmd.opcode with
  | .SET_CH_1 =>
    match cmd.inputData with
    | none => .ok (i32_out_1_value,none)
    | some v =>
      if sizeofInt ≠ cmd.inputDataLength then .ok (i32_out_1_value,none) else .ok (v,none)
  | .GET_CH_1 => if cmd.resultData then .ok (i32_out_1_value,some i32_out_1_value) else .error .undefined
  | .other => .ok (i32_out_1_value,none)

/-- The digits behind a sign. -/
def castDigits (negative : Bool) (ds : List Char) : Option CInt :=
  if ds ≠ [] ∧ ds.all Char.isDigit then
    CInt.ofInt (if negative then -(Nat.ofDigitChars 10 ds 0) else Nat.ofDigitChars 10 ds 0)
  else none

/-- `boost::lexical_cast<int32_t>` -/
def lexicalCast : List Char → Option CInt
  | '-' :: ds => castDigits true ds
  | '+' :: ds => castDigits false ds
  | ds => castDigits false ds

def driverInit (prettyFunction : String) (initParameter : List Char) : Except Fault CInt :=
  match lexicalCast initParameter with
  | some v => .ok v
  | none => throwing (-1) "Error on seed value" prettyFunction

/-- The attribute cache with the driver of the unit. -/
structure ControlUnit where
  in_1 : CInt
  out_1 : CInt
  /-- the indices of the inputs that have changed -/
  changed : List Nat
  outputChanged : Bool
  driver : CInt

def unitRun (s : ControlUnit) : Except Fault ControlUnit := do
  let (driver,out) ← execOpcode {DrvMsg.cleared .GET_CH_1 with resultData := true} s.driver
  return {s with driver := driver, out_1 := out.getD s.out_1, outputChanged := true}

/-- What the handler does for one changed input. -/
def inputChanged (in_1 driver : CInt) : Nat → Except Fault CInt
  | 0 => do
    let (driver,_) ← execOpcode
      {DrvMsg.cleared .SET_CH_1 with inputData := some in_1, inputDataLength := sizeofInt} driver
    return driver
  | _ => return driver

def unitInputAttributeChangedHandler (s : ControlUnit) : Except Fault ControlUnit := do
  if s.changed.length ≠ 0 then
    let driver ← s.changed.foldlM (inputChanged s.in_1) s.driver
    return {s with driver := driver, changed := []}
  else return s

/-- `write` and `change` are the framework's: it marks an input whose value differs, and it
may mark any other input. -/
inductive Label where
  | write (v : CInt) (marked : Bool)
  | change (index : Nat)
  | handler
  | unitRun
  /-- another message for the driver -/
  | message (cmd : DrvMsg)

def step (s : ControlUnit) : Label → Option ControlUnit
  | .write v marked =>
    if marked ∨ v = s.in_1 then
      some {s with in_1 := v, changed := if marked then 0 :: s.changed else s.changed}
    else none
  | .change index => if index = 0 then none else some {s with changed := index :: s.changed}
  | .handler => (unitInputAttributeChangedHandler s).toOption
  | .unitRun => (unitRun s).toOption
  | .message cmd => (execOpcode cmd s.driver).toOption.map fun r => {s with driver := r.1}

/-! The unit is a pipeline of three registers. -/

structure Pipeline where
  input : CInt
  driver : CInt
  output : CInt
  /-- the input has been marked at least once -/
  fresh : Bool

def Pipeline.step (q : Pipeline) : Label → Pipeline
  | .write v marked => {q with input := v, fresh := q.fresh || marked}
  | .handler => if q.fresh then {q with driver := q.input} else q
  | .unitRun => {q with output := q.driver}
  | _ => q

/-- The label is no message that sets the driver's value past the unit. -/
def Label.Quiet : Label → Prop
  | .message cmd => cmd.opcode = .SET_CH_1 → cmd.inputData = none ∨ cmd.inputDataLength ≠ sizeofInt
  | _ => True

/-- Between two calls of the handler the driver is up to date, or the input is marked. -/
structure Refines (s : ControlUnit) (q : Pipeline) : Prop where
  input : s.in_1 = q.input
  driver : s.driver = q.driver
  output : s.out_1 = q.output
  fresh : 0 ∈ s.changed → q.fresh
  current : q.fresh → 0 ∉ s.changed → q.driver = q.input

section Pipeline
variable {s t : ControlUnit} {q : Pipeline} {a : Label} {labels : List Label}

private theorem foldlM_inputChanged (v : CInt) (L : List Nat) (driver : CInt) :
    L.foldlM (inputChanged v) driver = .ok (if 0 ∈ L then v else driver) := by
  induction L generalizing driver with
  | nil => rfl
  | cons i L ih =>
    cases i with
    | zero =>
      have hset : inputChanged v driver 0 = .ok v := rfl
      rw [List.foldlM_cons, hset, ok_bind, ih, if_pos List.mem_cons_self, ite_self]
    | succ i =>
      have hskip : inputChanged v driver (i+1) = .ok driver := rfl
      rw [List.foldlM_cons, hskip, ok_bind, ih]
      simp

private theorem handler_eq (s : ControlUnit) : unitInputAttributeChangedHandler s =
    .ok {s with driver := if 0 ∈ s.changed then s.in_1 else s.driver, changed := []} := by
  unfold unitInputAttributeChangedHandler
  rw [foldlM_inputChanged]
  split_ifs with hlength hmem
  · rfl
  · rfl
  · have hnil : s.changed = [] := by simpa using hlength
    simp [hnil] at *
  · have hnil : s.changed = [] := by simpa using hlength
    rw [← hnil]
    rfl

private theorem execOpcode_quiet {cmd : DrvMsg} (h : (Label.message cmd).Quiet) {driver : CInt}
    {r : CInt × Option CInt} (hr : execOpcode cmd driver = .ok r) : r.1 = driver := by
  unfold execOpcode at hr
  split at hr
  · rename_i hop
    split at hr
    · cases hr
      rfl
    · rename_i v hdata
      split_ifs at hr with hlength
      · cases hr
        rfl
      · rcases h hop with hnone | hne
        · cases hdata.symm.trans hnone
        · exact absurd (Ne.symm hne) hlength
  · split_ifs at hr
    cases hr
    rfl
  · cases hr
    rfl

private theorem step_refines (h : Refines s q) (ha : a.Quiet) (hstep : step s a = some t) :
    Refines t (q.step a) := by
  cases a with
  | write v marked =>
    cases marked with
    | true =>
      cases hstep
      refine ⟨rfl,h.driver,h.output,fun _ => by simp [Pipeline.step],fun _ hnot => ?_⟩
      exact absurd List.mem_cons_self hnot
    | false =>
      simp only [step, Bool.false_eq_true, false_or, Option.ite_none_right_eq_some, Option.some.injEq] at hstep
      obtain ⟨rfl,rfl⟩ := hstep
      refine ⟨rfl,h.driver,h.output,fun hmem => ?_,fun hfresh hnot => ?_⟩
      · simpa [Pipeline.step] using h.fresh hmem
      · exact (h.current (by simpa [Pipeline.step] using hfresh) hnot).trans h.input.symm
  | change index =>
    simp only [step, Option.ite_none_left_eq_some, Option.some.injEq] at hstep
    obtain ⟨hindex,rfl⟩ := hstep
    refine ⟨h.input,h.driver,h.output,fun hmem => h.fresh ?_,fun hfresh hnot => h.current hfresh fun hmem => ?_⟩
    · exact (List.mem_cons.mp hmem).resolve_left (Ne.symm hindex)
    · exact hnot (List.mem_cons_of_mem _ hmem)
  | handler =>
    simp only [step, handler_eq, Except.toOption, Option.some.injEq] at hstep
    subst hstep
    by_cases hfresh : q.fresh
    · simp only [Pipeline.step, if_pos hfresh]
      refine ⟨h.input,?_,h.output,fun hmem => absurd hmem List.not_mem_nil,fun _ _ => rfl⟩
      simp only
      split_ifs with hmem
      · exact h.input
      · exact h.driver.trans (h.current hfresh hmem)
    · have hnot : 0 ∉ s.changed := fun hmem => hfresh (h.fresh hmem)
      simp only [Pipeline.step, if_neg hfresh, if_neg hnot]
      exact ⟨h.input,h.driver,h.output,fun hmem => absurd hmem List.not_mem_nil,fun hf => absurd hf hfresh⟩
  | unitRun =>
    cases hstep
    exact ⟨h.input,h.driver,h.driver,h.fresh,h.current⟩
  | message cmd =>
    obtain ⟨r,hr,rfl⟩ := Option.map_eq_some_iff.mp hstep
    have hok : execOpcode cmd s.driver = .ok r := by
      cases hcmd : execOpcode cmd s.driver with
      | error e => simp [hcmd, Except.toOption] at hr
      | ok r' => simpa [hcmd, Except.toOption] using hr
    have hsame : r.1 = s.driver := execOpcode_quiet ha hok
    exact ⟨h.input,hsame.trans h.driver,h.output,h.fresh,h.current⟩

private theorem run_refines (hrun : run step s labels = some t) (hquiet : ∀ a ∈ labels, a.Quiet)
    (h : Refines s q) : Refines t (labels.foldl Pipeline.step q) := by
  induction labels generalizing s q with
  | nil =>
    cases hrun
    exact h
  | cons a labels ih =>
    obtain ⟨u,hu,htail⟩ := run_cons_eq_some.mp hrun
    obtain ⟨ha,hlabels⟩ := List.forall_mem_cons.mp hquiet
    exact ih htail hlabels (step_refines h ha hu)

def lastWritten (v : CInt) (labels : List Label) : CInt :=
  labels.foldl (fun v a => match a with | .write w _ => w | _ => v) v

def marks (labels : List Label) : Bool := labels.any fun | .write _ marked => marked | _ => false

private theorem foldl_input (labels : List Label) (q : Pipeline) :
    (labels.foldl Pipeline.step q).input = lastWritten q.input labels := by
  induction labels generalizing q with
  | nil => rfl
  | cons a labels ih =>
    rw [List.foldl_cons, ih, lastWritten, lastWritten, List.foldl_cons]
    cases a with
    | handler =>
      simp only [Pipeline.step]
      split_ifs <;> rfl
    | _ => rfl

private theorem foldl_fresh (labels : List Label) (q : Pipeline) :
    (labels.foldl Pipeline.step q).fresh = (q.fresh || marks labels) := by
  induction labels generalizing q with
  | nil => simp [marks]
  | cons a labels ih =>
    rw [List.foldl_cons, ih, marks, marks, List.any_cons]
    cases a with
    | handler =>
      simp only [Pipeline.step]
      split_ifs <;> simp
    | write v marked => simp [Pipeline.step, Bool.or_assoc]
    | _ => simp [Pipeline.step]

private theorem foldl_driver (labels : List Label) (q : Pipeline)
    (h : .handler ∉ labels ∨ (q.fresh || marks labels) = false) :
    (labels.foldl Pipeline.step q).driver = q.driver := by
  induction labels generalizing q with
  | nil => rfl
  | cons a labels ih =>
    have hstep : (q.step a).driver = q.driver ∧
        (.handler ∉ labels ∨ ((q.step a).fresh || marks labels) = false) := by
      cases a with
      | handler =>
        rcases h with hnot | hfresh
        · exact absurd List.mem_cons_self hnot
        · obtain ⟨hq,hlabels⟩ := Bool.or_eq_false_iff.mp hfresh
          exact ⟨by simp [Pipeline.step, hq],.inr (by simpa [Pipeline.step, hq, marks] using hlabels)⟩
      | write v marked =>
        refine ⟨rfl,h.imp (fun hnot hmem => hnot (List.mem_cons_of_mem _ hmem)) fun hfresh => ?_⟩
        simpa [marks, Pipeline.step, Bool.or_assoc] using hfresh
      | _ =>
        refine ⟨rfl,h.imp (fun hnot hmem => hnot (List.mem_cons_of_mem _ hmem)) fun hfresh => ?_⟩
        simpa [marks, Pipeline.step] using hfresh
    rw [List.foldl_cons, ih _ hstep.2, hstep.1]

private theorem foldl_output (labels : List Label) (q : Pipeline) (h : .unitRun ∉ labels) :
    (labels.foldl Pipeline.step q).output = q.output := by
  induction labels generalizing q with
  | nil => rfl
  | cons a labels ih =>
    rw [List.foldl_cons, ih _ fun hmem => h (List.mem_cons_of_mem _ hmem)]
    cases a with
    | unitRun => exact absurd List.mem_cons_self h
    | handler =>
      simp only [Pipeline.step]
      split_ifs <;> rfl
    | _ => rfl

/-- A value in decimal digits. -/
def seedText (v : CInt) : List Char := (if v.val < 0 then ['-'] else []) ++ digits v.val.natAbs

theorem driverInit_seedText (prettyFunction : String) (v : CInt) :
    driverInit prettyFunction (seedText v) = .ok v := by
  have hcast : ∀ negative, (if negative then -(v.val.natAbs : ℤ) else v.val.natAbs) = v.val →
      castDigits negative (digits v.val.natAbs) = some v := by
    intro negative hv
    have hall : (digits v.val.natAbs).all Char.isDigit :=
      List.all_eq_true.mpr fun c hc => digit_of_mem hc
    rw [castDigits, if_pos ⟨digits_ne_nil _,hall⟩, digits, Nat.ofDigitChars_ten_toDigits, CInt.ofInt_eq_some]
    exact hv.symm
  have hlexical : lexicalCast (seedText v) = some v := by
    by_cases hneg : v.val < 0
    · rw [seedText, if_pos hneg]
      exact hcast true (by rw [if_pos rfl]; omega)
    · rw [seedText, if_neg hneg, List.nil_append]
      have hv := hcast false (by rw [if_neg Bool.false_ne_true]; omega)
      obtain ⟨d,ds,hds⟩ := List.exists_cons_of_ne_nil (digits_ne_nil v.val.natAbs)
      have hd : d.isDigit := digit_of_mem (hds ▸ List.mem_cons_self)
      rw [hds] at hv ⊢
      unfold lexicalCast
      split
      · rename_i heq
        cases heq
        cases hd
      · rename_i heq
        cases heq
        cases hd
      · exact hv
  rw [driverInit, hlexical]

end Pipeline

end Rtcu
end ChaosBundle.Template

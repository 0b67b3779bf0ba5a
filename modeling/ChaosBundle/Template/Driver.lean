import ChaosBundle.Library.CInt

/-! `__template_name__Interface` and `__template_name__Driver`: the messages of a command
to the driver. The framework gives a message that is sent to `execOpcode`. -/
namespace ChaosBundle.Template

structure CException where
  errorCode : ℤ
  errorMessage : String
  errorDomain : String
  deriving DecidableEq

/-- What ends a handler early. The behaviour is undefined in C++ after a null pointer is
followed, and after an `int` operation without a value in range. -/
inductive Fault where
  | exception (e : CException)
  | undefined
  deriving DecidableEq

def throwing {α : Type} (errorCode : ℤ) (errorMessage errorDomain : String) : Except Fault α :=
  .error (.exception ⟨errorCode,errorMessage,errorDomain⟩)

def defined {α : Type} : Option α → Except Fault α
  | some a => .ok a
  | none => .error .undefined

section Handlers
variable {α β : Type} (a : α) (f : α → Except Fault β)

@[simp] theorem defined_some : defined (some a) = .ok a := rfl

@[simp] theorem defined_none : (defined none : Except Fault α) = .error .undefined := rfl

@[simp] theorem pure_eq_ok : (pure a : Except Fault α) = .ok a := rfl

@[simp] theorem ok_bind : (Except.ok a >>= f) = f a := rfl

@[simp] theorem error_bind (e : Fault) : (Except.error e >>= f) = .error e := rfl

end Handlers

inductive Opcode where
  | OP_1 | OP_2
  deriving DecidableEq

structure Iparams where
  parm1 : CInt

structure Oparams where
  drv_out : ℚ
  drv_ret : CInt

structure DrvMsg where
  opcode : Opcode
  inputData : Iparams

abbrev Rand (RAND_MAX : ℕ+) := Fin (RAND_MAX + 1)

/-- Which of its two buffers `malloc` finds memory for. -/
structure Memory where
  idata : Bool
  odata : Bool

variable {RAND_MAX : ℕ+}

/-- What the driver writes to the buffer of the results; `OP_1` only seeds the generator. -/
def execOpcode (rand : Rand RAND_MAX) (cmd : DrvMsg) : Option Oparams :=
  match cmd.opcode with
  | .OP_1 => none
  | .OP_2 => some ⟨((1 * (rand.val : ℚ)) / RAND_MAX) * cmd.inputData.parm1.val,cmd.inputData.parm1⟩

/-- The message that `op1` sends. -/
def op1 (memory : Memory) (val : CInt) : Except Fault DrvMsg :=
  if memory.idata then .ok ⟨.OP_1,⟨val⟩⟩
  else throwing 1 "cannot allocate memory for driver" "__template_name__Interface::op1"

/-- The value that `op2` returns and the one that it stores through its pointer. -/
def op2 (memory : Memory) (rand : Rand RAND_MAX) (parm : CInt) : Except Fault (CInt × ℚ) :=
  if ¬ memory.idata then
    throwing 1 "cannot allocate memory for driver" "input data __template_name__Interface::op2"
  else if ¬ memory.odata then
    throwing 1 "cannot allocate memory for driver" "output data __template_name__Interface::op2"
  else (defined (execOpcode rand ⟨.OP_2,⟨parm⟩⟩)).map fun odata => (odata.drv_ret,odata.drv_out)

theorem op2_eq (memory : Memory) (rand : Rand RAND_MAX) (parm : CInt)
    (hi : memory.idata) (ho : memory.odata) :
    op2 memory rand parm = .ok (parm,(rand.val : ℚ) / RAND_MAX * parm.val) := by
  simp [op2, hi, ho, execOpcode, Except.map]

theorem op2_ok {memory : Memory} {rand : Rand RAND_MAX} {parm ret : CInt} {val : ℚ}
    (h : op2 memory rand parm = .ok (ret,val)) :
    memory.idata ∧ memory.odata ∧ val = (rand.val : ℚ) / RAND_MAX * parm.val := by
  cases hi : memory.idata with
  | false => simp [op2, hi, throwing] at h
  | true =>
    cases ho : memory.odata with
    | false => simp [op2, hi, ho, throwing] at h
    | true =>
      rw [op2_eq memory rand parm hi ho] at h
      cases h
      exact ⟨rfl,rfl,rfl⟩

theorem op2_error {memory : Memory} {rand : Rand RAND_MAX} {parm : CInt} {f : Fault}
    (h : op2 memory rand parm = .error f) : ∃ e, f = .exception e := by
  cases hi : memory.idata with
  | false =>
    simp only [op2, hi, throwing] at h
    cases h
    exact ⟨_,rfl⟩
  | true =>
    cases ho : memory.odata with
    | false =>
      simp only [op2, hi, ho, throwing] at h
      cases h
      exact ⟨_,rfl⟩
    | true => simp [op2_eq memory rand parm hi ho] at h

/-- A share of a positive bound that the conversion has only made smaller. -/
theorem share_le {q : ℚ} (hq : 0 < q) {parm : CInt} (h : parm.val = CInt.truncate q)
    (rand : Rand RAND_MAX) :
    0 ≤ (rand.val : ℚ) / RAND_MAX * parm.val ∧ (rand.val : ℚ) / RAND_MAX * parm.val ≤ q := by
  have hparm : (0 : ℚ) ≤ parm.val := by
    rw [h, CInt.truncate_of_nonneg hq.le]
    exact_mod_cast Int.floor_nonneg.mpr hq.le
  have hfloor : (parm.val : ℚ) ≤ q := by
    rw [h, CInt.truncate_of_nonneg hq.le]
    exact Int.floor_le q
  have hpos : (0 : ℚ) < RAND_MAX := by exact_mod_cast RAND_MAX.pos
  have hone : (rand.val : ℚ) / RAND_MAX ≤ 1 := by
    rw [div_le_one hpos]
    exact_mod_cast Nat.lt_succ_iff.mp rand.isLt
  have hzero : 0 ≤ (rand.val : ℚ) / RAND_MAX := by positivity
  refine ⟨mul_nonneg hzero hparm,?_⟩
  calc (rand.val : ℚ) / RAND_MAX * parm.val
      ≤ 1 * parm.val := mul_le_mul_of_nonneg_right hone hparm
    _ ≤ q := by rwa [one_mul]

end ChaosBundle.Template

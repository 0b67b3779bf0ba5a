import ChaosBundle.Template.Driver

/-! `__template_name__CommandSample`: the command `fire`, which counts from its parameter
until the counter has passed 100. -/
namespace ChaosBundle.Template

inductive RunningProperty where
  | exec | ended
  deriving DecidableEq

/-- The command with the attributes and the features that it sets. -/
structure CommandSample where
  parm_from_cmd : CInt
  cnt : CInt
  driver : Bool
  o_out2 : CInt
  running : RunningProperty
  schedulerDelay : ℕ
  commandTimeout : Option ℕ
  outputChanged : Bool

/-- What `setHandler` finds: the accessor, the input attribute `timeout` and the key `parm1`. -/
structure Request where
  accessor : Bool
  i_timeout : CInt
  parm1 : Option CInt
  memory : Memory

namespace CommandSample

/-- The constructor leaves the counter as it is. -/
def constructed (cnt out2 : CInt) : CommandSample where
  parm_from_cmd := CInt.zero
  cnt := cnt
  driver := false
  o_out2 := out2
  running := .exec
  schedulerDelay := 1000
  commandTimeout := none
  outputChanged := false

def setHandler (c : CommandSample) (data : Request) : Except Fault CommandSample := do
  let c := { c with driver := c.driver || data.accessor }
  match data.parm1 with
  | none => throwing 0 "command parameter not found" "setHandler"
  | some parm1 =>
    let c := if 0 < data.i_timeout.val then
      { c with commandTimeout := some (data.i_timeout.val.toNat * 1000) } else c
    let c := { c with schedulerDelay := 500000, cnt := CInt.zero, parm_from_cmd := parm1 }
    if c.driver then
      let _ ← op1 data.memory c.parm_from_cmd
      let cnt ← defined (c.parm_from_cmd.add CInt.one)
      pure { c with cnt, running := .exec }
    else .error .undefined

def acquireHandler (c : CommandSample) : Except Fault CommandSample := do
  let cnt ← defined (c.cnt.add CInt.one)
  pure { c with cnt }

def ccHandler (c : CommandSample) : CommandSample :=
  { c with
    o_out2 := c.cnt
    running := if 100 < c.cnt.val then .ended else c.running
    outputChanged := true }

def cycle (c : CommandSample) : Except Fault CommandSample := c.acquireHandler.map ccHandler

def cycles : ℕ → CommandSample → Except Fault CommandSample
  | 0, c => .ok c
  | k+1, c => do (← cycles k c).cycle

variable {c : CommandSample}

theorem setHandler_ok {data : Request} {p n : CInt} (hdriver : c.driver ∨ data.accessor)
    (hmemory : data.memory.idata) (hp : data.parm1 = some p) (h : n.val = p.val + 1) :
    ∃ d, c.setHandler data = .ok d ∧ d.cnt = n ∧ d.running = .exec := by
  have hadd : p.add CInt.one = some n := CInt.add_one_eq_some.mpr h
  have hd : (c.driver || data.accessor) = true := by simpa using hdriver
  by_cases ht : 0 < data.i_timeout.val
  all_goals
    simp [setHandler, hp, hd, ht, op1, hmemory, hadd]

private theorem setHandler_undefined {data : Request} {p : CInt} (hdriver : c.driver ∨ data.accessor)
    (hmemory : data.memory.idata) (hp : data.parm1 = some p) (h : p.val = 2^31 - 1) :
    c.setHandler data = .error .undefined := by
  have hadd : p.add CInt.one = none := CInt.ofInt_eq_none.mpr (.inr (by rw [h]; decide))
  have hd : (c.driver || data.accessor) = true := by simpa using hdriver
  by_cases ht : 0 < data.i_timeout.val
  all_goals simp [setHandler, hp, hd, ht, op1, hmemory, hadd]

private theorem cycle_ok {n : CInt} (h : n.val = c.cnt.val + 1) :
    c.cycle = .ok (ccHandler { c with cnt := n }) := by
  have hadd : c.cnt.add CInt.one = some n := CInt.add_one_eq_some.mpr h
  simp [cycle, acquireHandler, hadd, Except.map]

private theorem cycle_undefined (h : c.cnt.val = 2^31 - 1) : c.cycle = .error .undefined := by
  have hadd : c.cnt.add CInt.one = none := CInt.ofInt_eq_none.mpr (.inr (by rw [h]; decide))
  simp [cycle, acquireHandler, hadd, Except.map]

private theorem cycles_ok {k : ℕ} (hrun : c.running = .exec) (hlow : c.cnt.val + k ≤ 101 ∨ k ≤ 1)
    (hroom : c.cnt.val + k < 2^31) :
    ∃ d, cycles k c = .ok d ∧ d.cnt.val = c.cnt.val + k ∧ (0 < k → d.o_out2 = d.cnt) ∧
      (d.running = .ended ↔ 0 < k ∧ 100 < d.cnt.val) := by
  induction k with
  | zero => exact ⟨c,rfl,by simp,by simp,by simp [hrun]⟩
  | succ k ih =>
    have hsucc : c.cnt.val + (k + 1 : ℕ) = c.cnt.val + k + 1 := by push_cast; ring
    rw [hsucc] at hlow hroom
    obtain ⟨d,hd,hcnt,-,hend⟩ := ih (by omega) (by omega)
    have hbelow : d.running = .exec := by
      cases h : d.running with
      | exec => rfl
      | ended =>
        obtain ⟨hk,hpassed⟩ := hend.mp h
        omega
    have hlowest := c.cnt.low
    let n : CInt := ⟨d.cnt.val + 1,by omega,by omega⟩
    refine ⟨ccHandler { d with cnt := n },?_,?_,fun _ => rfl,?_⟩
    · rw [cycles, hd]
      exact cycle_ok rfl
    · rw [hsucc, ← hcnt]
      rfl
    · simp [ccHandler, hbelow]

end CommandSample

section CountsUp

/-- From the parameter `p` the command counts up, and ends in the first cycle that passes 100. -/
def CountsUp (c : CommandSample) (data : Request) (p : CInt) : Prop :=
  ∃ d, c.setHandler data = .ok d ∧ ∀ k : ℕ, 1 ≤ k → k ≤ max 1 (100 - p.val) →
    ∃ s, d.cycles k = .ok s ∧ s.o_out2.val = p.val + 1 + k ∧
      (s.running = .ended ↔ 100 < p.val + 1 + k) ∧
      (100 < p.val + 1 + k ↔ (k : ℤ) = max 1 (100 - p.val))

variable {c : CommandSample} {data : Request} {p : CInt} (hdriver : c.driver ∨ data.accessor)
  (hmemory : data.memory.idata) (hp : data.parm1 = some p)
include hdriver hmemory hp

private theorem countsUp_of_room (hroom : p.val ≤ 2^31 - 3) : CountsUp c data p := by
  have hlow := p.low
  obtain ⟨d,hd,hcnt,hrun⟩ := CommandSample.setHandler_ok (n := ⟨p.val + 1,by omega,by omega⟩)
    hdriver hmemory hp rfl
  refine ⟨d,hd,fun k hk hlast => ?_⟩
  have hstart : d.cnt.val = p.val + 1 := by rw [hcnt]
  obtain ⟨s,hs,hval,hout,hend⟩ := CommandSample.cycles_ok (k := k) hrun (by omega) (by omega)
  have hval' : s.cnt.val = p.val + 1 + k := by rw [hval, hstart]
  refine ⟨s,hs,?_,?_,by omega⟩
  · rw [hout hk, hval']
  · rw [hend, hval']
    exact and_iff_right hk

theorem not_countsUp_of_top (htop : 2^31 - 3 < p.val) : ¬ CountsUp c data p := by
  rintro ⟨d,hd,hcycles⟩
  have hhigh := p.high
  obtain heq | heq : p.val = 2^31 - 1 ∨ p.val = 2^31 - 2 := by omega
  · rw [CommandSample.setHandler_undefined hdriver hmemory hp heq] at hd
    cases hd
  · obtain ⟨d',hd',hcnt,-⟩ := CommandSample.setHandler_ok (n := ⟨p.val + 1,by omega,by omega⟩)
      hdriver hmemory hp rfl
    cases hd.symm.trans hd'
    obtain ⟨s,hs,-⟩ := hcycles 1 le_rfl (by simp)
    have hfull : d.cnt.val = 2^31 - 1 := by
      rw [hcnt]
      change p.val + 1 = _
      omega
    rw [CommandSample.cycles, CommandSample.cycles] at hs
    cases (CommandSample.cycle_undefined hfull).symm.trans hs

/-- The parameters that leave room for the two additions. -/
theorem fire_counts_up_iff : CountsUp c data p ↔ p.val ≤ 2^31 - 3 := by
  constructor
  · intro h
    by_contra htop
    exact not_countsUp_of_top hdriver hmemory hp (not_le.mp htop) h
  · exact countsUp_of_room hdriver hmemory hp

end CountsUp

def fire (p : CInt) : Request := ⟨true,CInt.zero,some p,⟨true,true⟩⟩

theorem fire_counts_up_from_98 :
    CountsUp (.constructed CInt.zero CInt.zero) (fire ⟨98,by decide,by decide⟩) ⟨98,by decide,by decide⟩ :=
  (fire_counts_up_iff (.inr rfl) rfl rfl).mpr (by decide)

theorem fire_overflows :
    ¬ CountsUp (.constructed CInt.zero CInt.zero) (fire ⟨2147483646,by decide,by decide⟩)
      ⟨2147483646,by decide,by decide⟩ :=
  not_countsUp_of_top (.inr rfl) rfl rfl (by decide)

end ChaosBundle.Template

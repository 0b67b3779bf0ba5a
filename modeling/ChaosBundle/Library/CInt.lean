import Mathlib.Data.Rat.Floor

/-! The 32-bit `int` of C++. An operation whose result is out of range is undefined. -/
namespace ChaosBundle

@[ext] structure CInt where
  val : ℤ
  low : -2^31 ≤ val
  high : val < 2^31
  deriving DecidableEq

namespace CInt

def ofInt (n : ℤ) : Option CInt :=
  if h : -2^31 ≤ n ∧ n < 2^31 then some ⟨n,h.1,h.2⟩ else none

def add (a b : CInt) : Option CInt := ofInt (a.val + b.val)

def zero : CInt := ⟨0,by decide,by decide⟩

def one : CInt := ⟨1,by decide,by decide⟩

theorem ofInt_eq_some {n : ℤ} {a : CInt} : ofInt n = some a ↔ a.val = n := by
  unfold ofInt
  split_ifs with h
  · rw [Option.some_inj, CInt.ext_iff]
    exact eq_comm
  · simp only [false_iff]
    rintro rfl
    exact h ⟨a.low,a.high⟩

theorem ofInt_eq_none {n : ℤ} : ofInt n = none ↔ n < -2^31 ∨ 2^31 ≤ n := by
  unfold ofInt
  split_ifs with h
  · simp only [false_iff]
    omega
  · simp only [true_iff]
    omega

theorem add_one_eq_some {a b : CInt} : a.add one = some b ↔ b.val = a.val + 1 := ofInt_eq_some

/-- The conversion of a floating-point value drops its fraction. -/
def truncate (q : ℚ) : ℤ := if 0 ≤ q then ⌊q⌋ else ⌈q⌉

def ofRat (q : ℚ) : Option CInt := ofInt (truncate q)

theorem truncate_of_nonneg {q : ℚ} (h : 0 ≤ q) : truncate q = ⌊q⌋ := if_pos h

private theorem le_truncate {q : ℚ} : -2^31 ≤ truncate q ↔ (-2^31 - 1 : ℚ) < q := by
  unfold truncate
  split_ifs with h
  · have hfloor : 0 ≤ ⌊q⌋ := Int.floor_nonneg.mpr h
    constructor
    · exact fun _ => lt_of_lt_of_le (by norm_num) h
    · exact fun _ => le_trans (by norm_num) hfloor
  · rw [← Int.sub_one_lt_iff, Int.lt_ceil]
    norm_num

private theorem truncate_lt {q : ℚ} : truncate q < 2^31 ↔ q < 2^31 := by
  unfold truncate
  split_ifs with h
  · rw [Int.floor_lt]
    norm_num
  · have hneg : q < 0 := not_le.mp h
    have hceil : ⌈q⌉ ≤ 0 := Int.ceil_le.mpr (by simpa using hneg.le)
    constructor
    · exact fun _ => hneg.trans (by norm_num)
    · exact fun _ => lt_of_le_of_lt hceil (by norm_num)

theorem ofRat_eq_some {q : ℚ} {a : CInt} : ofRat q = some a ↔ a.val = truncate q := ofInt_eq_some

theorem isSome_ofRat {q : ℚ} : (ofRat q).isSome ↔ (-2^31 - 1 : ℚ) < q ∧ q < 2^31 := by
  rw [← le_truncate, ← truncate_lt, Option.isSome_iff_ne_none, ofRat, ne_eq, ofInt_eq_none]
  omega

end CInt

end ChaosBundle

import ChaosBundle.Library.Numerals

/-! The numbers of `bc` and its scale rules, in base ten. -/
namespace ChaosBundle.Bc
open DecimalFields Numerals

/-- An integer with a count of decimal places. -/
structure Number where
  unscaled : Int
  scale : Nat
  deriving DecidableEq

namespace Number

def value (x : Number) : ℚ := x.unscaled / 10 ^ x.scale

def ofNumeral (x : Numeral) : Number := ⟨x.unscaled,x.places⟩

def neg (x : Number) : Number := ⟨-x.unscaled,x.scale⟩

/-- The sum has as many places as the operand with more of them. -/
def add (x y : Number) : Number :=
  let s := max x.scale y.scale
  ⟨x.unscaled * 10 ^ (s - x.scale) + y.unscaled * 10 ^ (s - y.scale),s⟩

/-- The places of `full` digits after the point are cut down to `scale`. -/
def cut (full scale : Nat) (n : Int) : Number := ⟨n.tdiv (10 ^ (full - scale)),scale⟩

def mul (scale : Nat) (x y : Number) : Number :=
  let full := x.scale + y.scale
  cut full (min full (max scale (max x.scale y.scale))) (x.unscaled * y.unscaled)

def div (scale : Nat) (x y : Number) : Option Number :=
  if y.unscaled = 0 then none
  else some ⟨(x.unscaled * 10 ^ (scale + y.scale)).tdiv (y.unscaled * 10 ^ x.scale),scale⟩

/-- The places of the exponent are ignored; a power with a negative exponent is a quotient. -/
def pow (scale : Nat) (x y : Number) : Option Number :=
  let e := y.unscaled.tdiv (10 ^ y.scale)
  let n := e.natAbs
  let power : Number := ⟨x.unscaled ^ n,x.scale * n⟩
  if e = 0 then some ⟨1,0⟩
  else if 0 < e then some (cut power.scale (min power.scale (max scale x.scale)) power.unscaled)
  else div scale ⟨1,0⟩ power

theorem value_ofNumeral (x : Numeral) : (ofNumeral x).value = x.value := by
  simp [value, ofNumeral, Numeral.value]

theorem value_neg (x : Number) : x.neg.value = -x.value := by
  simp [value, neg, neg_div]

private theorem widen (n : Int) {s t : Nat} (h : s ≤ t) :
    (n * 10 ^ (t - s) : ℚ) / 10 ^ t = n / 10 ^ s := by
  obtain ⟨d,rfl⟩ := Nat.exists_eq_add_of_le h
  rw [Nat.add_sub_cancel_left, pow_add]
  field_simp

theorem value_add (x y : Number) : (x.add y).value = x.value + y.value := by
  have hx := widen x.unscaled (le_max_left x.scale y.scale)
  have hy := widen y.unscaled (le_max_right x.scale y.scale)
  simp only [value, add]
  push_cast
  rw [add_div, hx, hy]

theorem value_mul_int (scale : Nat) (x : Number) (n : Int) :
    (mul scale x ⟨n,0⟩).value = x.value * n := by
  simp [mul, cut, value, mul_div_right_comm]

theorem pow_ten_pos (n : Nat) : pow 0 ⟨10,0⟩ ⟨n,0⟩ = some ⟨10 ^ n,0⟩ := by
  rcases Nat.eq_zero_or_pos n with rfl | hn
  · simp [pow]
  · simp [pow, cut, hn, hn.ne']

/-- Without places a power of ten with a negative exponent is nothing. -/
theorem pow_ten_neg {n : Nat} (hn : n ≠ 0) : pow 0 ⟨10,0⟩ ⟨-n,0⟩ = some ⟨0,0⟩ := by
  have hpow : (10 : Int) ^ n ≠ 0 := by positivity
  have hlt : (1 : Int).tdiv (10 ^ n) = 0 := by
    apply Int.tdiv_eq_zero_of_lt (by decide)
    exact_mod_cast Nat.one_lt_pow hn (by decide)
  simp [pow, div, hn, hlt]

theorem div_int (scale : Nat) (x : Number) {n : Nat} (hn : 0 < n) :
    ∃ q, div scale x ⟨n,0⟩ = some q ∧ q.scale = scale ∧ q.value = truncate scale (x.value / n) := by
  refine ⟨⟨(x.unscaled * 10 ^ (scale + 0)).tdiv (n * 10 ^ x.scale),scale⟩,?_,rfl,?_⟩
  · simp [div, hn.ne']
  · have hpos : (0 : Int) < n * 10 ^ x.scale := by positivity
    have hquot : ((x.unscaled * 10 ^ (scale + 0) : Int) : ℚ) / (n * 10 ^ x.scale : Int) =
        x.value / n * 10 ^ scale := by
      simp only [value, Nat.add_zero]
      push_cast
      field_simp
    have hsign : 0 ≤ x.value / n * 10 ^ scale ↔ 0 ≤ x.value / n :=
      mul_nonneg_iff_of_pos_right (by positivity)
    rw [value, tdiv_eq_truncate _ hpos, hquot, truncate]
    simp only [hsign]

def lastDigits : Nat → Nat → List Char
  | 0, _ => []
  | s+1, n => lastDigits s (n / 10) ++ [(n % 10).digitChar]

theorem length_lastDigits (s n : Nat) : (lastDigits s n).length = s := by
  induction s generalizing n with
  | zero => rfl
  | succ s ih => simp [lastDigits, ih]

private theorem digit_of_mem_lastDigits {s n : Nat} {c : Char} (hc : c ∈ lastDigits s n) :
    c.isDigit := by
  induction s generalizing n with
  | zero => simp [lastDigits] at hc
  | succ s ih =>
    rcases List.mem_append.mp hc with hc | hc
    · exact ih hc
    · rw [List.mem_singleton.mp hc]
      simpa [Nat.isDigit_digitChar] using Nat.mod_lt n (by decide)

private theorem ofDigitChars_lastDigits (s n init : Nat) :
    Nat.ofDigitChars 10 (lastDigits s n) init = init * 10 ^ s + n % 10 ^ s := by
  induction s generalizing n with
  | zero => simp [lastDigits, Nat.mod_one]
  | succ s ih =>
    have hlt := Nat.mod_lt n (show 0 < 10 by decide)
    rw [lastDigits, Nat.ofDigitChars_append, ih, Nat.ofDigitChars_cons_digitChar_of_lt_ten hlt,
      Nat.ofDigitChars_nil, Nat.pow_succ', Nat.mod_mul]
    ring

/-- A number without its sign: nothing is written for an integral part of zero, and the
number zero has no places. -/
def numeral (x : Number) : Numeral :=
  let n := x.unscaled.natAbs
  let q := n / 10 ^ x.scale
  if h : n = 0 then ⟨['0'],none,by simp,by simp,by simp⟩
  else
    { int := if q = 0 then [] else digits q
      frac := if x.scale = 0 then none else some (lastDigits x.scale n)
      int_digits := fun c hc => by
        split_ifs at hc
        · cases hc
        · exact digit_of_mem hc
      frac_digits := fun c hc => by
        split_ifs at hc
        · cases hc
        · exact digit_of_mem_lastDigits hc
      some_digit := by
        split_ifs with hq hs hs
        · simp only [q, hs, pow_zero, Nat.div_one] at hq
          exact absurd hq h
        · have hlength := length_lastDigits x.scale n
          intro hnil
          simp_all
        all_goals simp [digits_ne_nil] }

def print (x : Number) : List Char := signText (x.unscaled < 0) ++ x.numeral.text

theorem numeral_unscaled (x : Number) : x.numeral.unscaled = x.unscaled.natAbs := by
  unfold Numeral.unscaled numeral
  by_cases hn : x.unscaled.natAbs = 0
  · simp [hn, Nat.ofDigitChars_cons]
  · rw [dif_neg hn]
    have hint : Nat.ofDigitChars 10 (if x.unscaled.natAbs / 10 ^ x.scale = 0 then []
        else digits (x.unscaled.natAbs / 10 ^ x.scale)) 0 = x.unscaled.natAbs / 10 ^ x.scale := by
      split_ifs with hq
      · simp [hq]
      · exact Nat.ofDigitChars_ten_toDigits
    simp only [Nat.ofDigitChars_append, hint]
    by_cases hs : x.scale = 0
    · simp [hs]
    · simp only [hs, if_false, Option.getD_some, ofDigitChars_lastDigits]
      exact Nat.div_add_mod' _ _

theorem numeral_frac {x : Number} (hx : x.unscaled ≠ 0) (hs : x.scale ≠ 0) :
    x.numeral.frac = some (lastDigits x.scale x.unscaled.natAbs) := by
  simp [numeral, hx, hs]

theorem numeral_places (x : Number) (hx : x.unscaled ≠ 0) : x.numeral.places = x.scale := by
  unfold Numeral.places numeral
  rw [dif_neg (by simpa using hx)]
  by_cases hs : x.scale = 0 <;> simp [hs, length_lastDigits]

theorem signed_numeral (x : Number) : signed (x.unscaled < 0) x.numeral.value = x.value := by
  rw [Numeral.value, numeral_unscaled, value]
  by_cases hx : x.unscaled = 0
  · simp [hx, signed]
  rw [numeral_places x hx, Nat.cast_natAbs]
  by_cases hneg : x.unscaled < 0
  · rw [abs_of_neg hneg]
    simp [signed, hneg, neg_div]
  · rw [abs_of_nonneg (not_lt.mp hneg)]
    simp [signed, hneg]

theorem notMem_print (x : Number) {c : Char} (h : isNumeralChar c = false) : c ∉ x.print :=
  notMem_signed h

private theorem length_int_le {x : Number} (hx : x.unscaled ≠ 0) {k : Nat} (hk : 0 < k) :
    x.numeral.int.length ≤ k ↔ x.unscaled.natAbs < 10 ^ (k + x.scale) := by
  have hpos : 0 < 10 ^ x.scale := by positivity
  unfold numeral
  rw [dif_neg (by simpa using hx), pow_add, ← Nat.div_lt_iff_lt_mul hpos]
  simp only
  split_ifs with hq
  · simp [hq]
  · exact Nat.length_toDigits_le_iff (by decide) hk

private theorem length_print {x : Number} (hx : x.unscaled ≠ 0) (hs : x.scale ≠ 0) :
    x.print.length = (if x.unscaled < 0 then 1 else 0) + x.numeral.int.length + 1 + x.scale := by
  have hfrac := numeral_frac hx hs
  have hsign : (signText (x.unscaled < 0)).length = if x.unscaled < 0 then 1 else 0 := by
    by_cases hneg : x.unscaled < 0 <;> simp [signText, hneg]
  rw [print, List.length_append, hsign, Numeral.text, hfrac, List.length_append, List.length_cons,
    length_lastDigits]
  omega

theorem length_print_le {x : Number} (hs : x.scale ≠ 0) {w : Nat} (hw : 0 < w) :
    x.print.length ≤ w + x.scale + 2 ↔ -10 ^ w < x.value ∧ x.value < 10 ^ (w + 1) := by
  have hten : (0 : ℚ) < 10 ^ x.scale := by positivity
  by_cases hx : x.unscaled = 0
  · have hzero : x.print.length = 1 := by simp [print, numeral, signText, Numeral.text, hx]
    have hvalue : x.value = 0 := by simp [value, hx]
    rw [hzero, hvalue]
    exact ⟨fun _ => ⟨by simp,by positivity⟩,fun _ => by omega⟩
  rw [length_print hx hs]
  -- The minus takes the place of a digit.
  by_cases hneg : x.unscaled < 0
  · have hvalue : x.value < 10 ^ (w + 1) := by
      have hlt : x.value < 0 := div_neg_of_neg_of_pos (by exact_mod_cast hneg) hten
      exact hlt.trans (by positivity)
    have habs : (x.unscaled.natAbs : ℚ) = -x.unscaled := by
      rw [Nat.cast_natAbs, abs_of_neg hneg, Int.cast_neg]
    have hrange : x.unscaled.natAbs < 10 ^ (w + x.scale) ↔ -10 ^ w < x.value := by
      rw [value, lt_div_iff₀ hten, ← @Nat.cast_lt ℚ, habs, Nat.cast_pow, pow_add, neg_mul, neg_lt]
      rfl
    rw [if_pos hneg, ← hrange, ← length_int_le hx hw]
    constructor
    · exact fun h => ⟨by omega,hvalue⟩
    · intro h
      omega
  · have hvalue : -10 ^ w < x.value := by
      have hle : 0 ≤ x.value := div_nonneg (by exact_mod_cast not_lt.mp hneg) hten.le
      exact lt_of_lt_of_le (by simp) hle
    have habs : (x.unscaled.natAbs : ℚ) = x.unscaled := by
      rw [Nat.cast_natAbs, abs_of_nonneg (not_lt.mp hneg)]
    have hrange : x.unscaled.natAbs < 10 ^ (w + 1 + x.scale) ↔ x.value < 10 ^ (w + 1) := by
      rw [value, div_lt_iff₀ hten, ← @Nat.cast_lt ℚ, habs, Nat.cast_pow, pow_add _ (w + 1)]
      rfl
    rw [if_neg hneg, ← hrange, ← length_int_le hx (Nat.succ_pos w)]
    constructor
    · exact fun h => ⟨hvalue,by omega⟩
    · intro h
      omega

end Number

end ChaosBundle.Bc

import ChaosBundle.Library.DecimalFields
import Mathlib.Data.List.TakeWhile
import Mathlib.Data.Rat.Floor
import Mathlib.Tactic.FieldSimp
import Mathlib.Tactic.Positivity
import Mathlib.Tactic.Push
import Mathlib.Tactic.Ring

/-! Decimal numerals with a point, the numbers that they stand for, and truncation to a
count of decimals. -/
namespace ChaosBundle.Numerals
open DecimalFields

/-- An unsigned numeral: digits, a point or none, and digits after it. -/
structure Numeral where
  int : List Char
  frac : Option (List Char)
  int_digits : ∀ c ∈ int, c.isDigit
  frac_digits : ∀ c ∈ frac.getD [], c.isDigit
  some_digit : int ++ frac.getD [] ≠ []

namespace Numeral

def text (x : Numeral) : List Char :=
  x.int ++ match x.frac with
    | none => []
    | some frac => '.' :: frac

def places (x : Numeral) : Nat := (x.frac.map List.length).getD 0

def unscaled (x : Numeral) : Nat := Nat.ofDigitChars 10 (x.int ++ x.frac.getD []) 0

def value (x : Numeral) : ℚ := x.unscaled / 10 ^ x.places

def ofDigits (ds : List Char) (h : ∀ c ∈ ds, c.isDigit) (hne : ds ≠ []) : Numeral where
  int := ds
  frac := none
  int_digits := h
  frac_digits _ hc := absurd hc List.not_mem_nil
  some_digit h := hne (List.append_eq_nil_iff.mp h).1

end Numeral

def signText (negative : Bool) : List Char := if negative then ['-'] else []

def signed (negative : Bool) (q : ℚ) : ℚ := if negative then -q else q

/-- The number that a text stands for, if it is a numeral with an optional minus. -/
def readNumeral (t : List Char) : Option ℚ :=
  let negative := t.head? == some '-'
  let u := if negative then t.tail else t
  let int := u.takeWhile Char.isDigit
  let read (frac : List Char) : Option ℚ :=
    if frac.all Char.isDigit ∧ int ++ frac ≠ [] then
      some (signed negative (Nat.ofDigitChars 10 (int ++ frac) 0 / 10 ^ frac.length))
    else none
  match u.dropWhile Char.isDigit with
  | [] => read []
  | '.' :: frac => read frac
  | _ => none

def isNumeralChar (c : Char) : Bool := c.isDigit || c == '.' || c == '-'

theorem Numeral.text_chars {x : Numeral} {c : Char} (hc : c ∈ x.text) : c.isDigit ∨ c = '.' := by
  unfold Numeral.text at hc
  rcases List.mem_append.mp hc with hc | hc
  · exact .inl (x.int_digits c hc)
  · cases hfrac : x.frac with
    | none => simp [hfrac] at hc
    | some frac =>
      rw [hfrac] at hc
      rcases List.mem_cons.mp hc with rfl | hc
      · exact .inr rfl
      · exact .inl (x.frac_digits c (by simpa [hfrac] using hc))

theorem signed_chars {negative : Bool} {x : Numeral} {c : Char}
    (hc : c ∈ signText negative ++ x.text) : isNumeralChar c := by
  rcases List.mem_append.mp hc with hsign | htext
  · cases negative with
    | false => cases hsign
    | true =>
      rw [List.mem_singleton.mp hsign]
      rfl
  · rcases Numeral.text_chars htext with hdigit | rfl
    · simp [isNumeralChar, hdigit]
    · rfl

theorem notMem_signed {negative : Bool} {x : Numeral} {c : Char} (h : isNumeralChar c = false) :
    c ∉ signText negative ++ x.text := fun hc => by
  have hchar := signed_chars hc
  rw [h] at hchar
  cases hchar

private theorem Numeral.text_head (x : Numeral) : x.text.head? ≠ some '-' := fun h => by
  have hchar := Numeral.text_chars (List.mem_of_mem_head? h)
  simp at hchar

theorem Numeral.text_ne_nil (x : Numeral) : x.text ≠ [] := by
  unfold Numeral.text
  cases hfrac : x.frac with
  | none => simpa [hfrac] using x.some_digit
  | some frac => simp

theorem readNumeral_text (negative : Bool) (x : Numeral) :
    readNumeral (signText negative ++ x.text) = some (signed negative x.value) := by
  have hsign : ((signText negative ++ x.text).head? == some '-') = negative := by
    cases negative with
    | false => simpa [signText] using x.text_head
    | true => rfl
  have htail : (if negative then (signText negative ++ x.text).tail else signText negative ++ x.text) =
      x.text := by
    cases negative <;> rfl
  unfold readNumeral
  simp only [hsign, htail]
  have htake : x.text.takeWhile Char.isDigit = x.int := by
    unfold Numeral.text
    rw [List.takeWhile_append_of_pos x.int_digits]
    cases x.frac <;> simp
  have hdrop : x.text.dropWhile Char.isDigit = match x.frac with
      | none => []
      | some frac => '.' :: frac := by
    unfold Numeral.text
    rw [List.dropWhile_append_of_pos x.int_digits]
    cases x.frac <;> simp
  have hdigit := x.some_digit
  have hdigits := x.frac_digits
  rw [htake, hdrop]
  cases hfrac : x.frac with
  | none =>
    simp only [hfrac, Option.getD_none, List.append_nil] at hdigit
    simp [hdigit, Numeral.value, Numeral.unscaled, Numeral.places, hfrac]
  | some frac =>
    simp only [hfrac, Option.getD_some] at hdigit hdigits
    have hall : frac.all Char.isDigit := by simpa using hdigits
    simp only [hall, Numeral.value, Numeral.unscaled, Numeral.places, hfrac]
    simpa using hdigit

theorem readNumeral_chars {t : List Char} {q : ℚ} (h : readNumeral t = some q) {c : Char} (hc : c ∈ t) :
    isNumeralChar c := by
  unfold readNumeral at h
  simp only at h
  generalize hu : (if t.head? == some '-' then t.tail else t) = u at h
  have hmem : c = '-' ∨ c ∈ u := by
    cases t with
    | nil => cases hc
    | cons d t =>
      by_cases hd : d = '-'
      · subst hd hu
        simpa using hc
      · right
        simpa [← hu, hd] using hc
  rcases hmem with rfl | hmem
  · rfl
  rw [← @List.takeWhile_append_dropWhile _ Char.isDigit u] at hmem
  rcases List.mem_append.mp hmem with hint | hdrop
  · simp [isNumeralChar, List.mem_takeWhile_imp hint]
  · split at h
    · rename_i hnil
      rw [hnil] at hdrop
      cases hdrop
    · rename_i frac hfrac
      rw [hfrac] at hdrop
      rcases List.mem_cons.mp hdrop with rfl | hdrop
      · rfl
      · by_cases hall : frac.all Char.isDigit
        · simp [isNumeralChar, List.all_eq_true.mp hall c hdrop]
        · simp [hall] at h
    · cases h

/-- Truncation toward zero. -/
def truncate (decimals : Nat) (q : ℚ) : ℚ :=
  (if 0 ≤ q then (⌊q * 10 ^ decimals⌋ : ℚ) else ⌈q * 10 ^ decimals⌉) / 10 ^ decimals

theorem tdiv_eq_truncate (a : Int) {b : Int} (hb : 0 < b) :
    ((a.tdiv b : Int) : ℚ) = if 0 ≤ (a : ℚ) / b then (⌊(a : ℚ) / b⌋ : ℚ) else ⌈(a : ℚ) / b⌉ := by
  have hfloor : ∀ c : Int, ⌊(c : ℚ) / b⌋ = c / b := by
    intro c
    lift b to Nat using hb.le
    exact Rat.floor_intCast_div_natCast c b
  have hbq : (0 : ℚ) < b := by exact_mod_cast hb
  by_cases ha : 0 ≤ a
  · have hpos : 0 ≤ (a : ℚ) / b := by
      have : (0 : ℚ) ≤ a := by exact_mod_cast ha
      positivity
    rw [if_pos hpos, hfloor, Int.tdiv_eq_ediv_of_nonneg ha]
  · have hneg : ¬ 0 ≤ (a : ℚ) / b := by
      have haq : (a : ℚ) < 0 := by exact_mod_cast not_le.mp ha
      exact not_le.mpr (div_neg_of_neg_of_pos haq hbq)
    obtain ⟨c,rfl⟩ : ∃ c, a = -c := ⟨-a,by omega⟩
    rw [if_neg hneg, Int.neg_tdiv, Int.tdiv_eq_ediv_of_nonneg (by omega), ← hfloor, Int.cast_neg,
      Int.cast_neg, neg_div, Int.ceil_neg, Int.cast_neg]

end ChaosBundle.Numerals

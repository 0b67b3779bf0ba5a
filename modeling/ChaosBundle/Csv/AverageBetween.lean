import ChaosBundle.Csv.AverageAgain
import Mathlib.Algebra.Order.BigOperators.Group.List

/-! The averages lie between the smallest and the largest of the values they are taken of. -/
namespace ChaosBundle.Csv
open Bc Numerals ShellWords TextLines

private theorem truncate_mono (decimals : Nat) {x y : ℚ} (h : x ≤ y) :
    truncate decimals x ≤ truncate decimals y := by
  have hpow : (0 : ℚ) < 10 ^ decimals := by positivity
  have hscaled : x * 10 ^ decimals ≤ y * 10 ^ decimals := mul_le_mul_of_nonneg_right h hpow.le
  unfold truncate
  apply div_le_div_of_nonneg_right _ hpow.le
  split_ifs with hx hy hy
  · exact_mod_cast Int.floor_mono hscaled
  · exact absurd (hx.trans h) hy
  · -- The lower value is negative and the upper one is not.
    have hlow : ⌈x * 10 ^ decimals⌉ ≤ 0 :=
      Int.ceil_le.mpr (by exact_mod_cast mul_nonpos_of_nonpos_of_nonneg (not_le.mp hx).le hpow.le)
    have hhigh : 0 ≤ ⌊y * 10 ^ decimals⌋ := Int.floor_nonneg.mpr (mul_nonneg hy hpow.le)
    exact_mod_cast hlow.trans hhigh
  · exact_mod_cast Int.ceil_mono hscaled

private theorem truncate_between_zero (decimals : Nat) (x : ℚ) :
    min x 0 ≤ truncate decimals x ∧ truncate decimals x ≤ max x 0 := by
  have hpow : (0 : ℚ) < 10 ^ decimals := by positivity
  unfold truncate
  split_ifs with hx
  · rw [min_eq_right hx, max_eq_left hx, div_le_iff₀ hpow]
    exact ⟨div_nonneg (by exact_mod_cast Int.floor_nonneg.mpr (mul_nonneg hx hpow.le)) hpow.le,Int.floor_le _⟩
  · have hneg : x ≤ 0 := (not_le.mp hx).le
    have hceil : ⌈x * 10 ^ decimals⌉ ≤ 0 :=
      Int.ceil_le.mpr (by exact_mod_cast mul_nonpos_of_nonpos_of_nonneg hneg hpow.le)
    rw [min_eq_left hneg, max_eq_right hneg, le_div_iff₀ hpow]
    exact ⟨Int.le_ceil _,div_nonpos_of_nonpos_of_nonneg (by exact_mod_cast hceil) hpow.le⟩

private theorem fitsLine_truncate {lo hi x : ℚ} (hlo : FitsLine lo) (hhi : FitsLine hi)
    (hx : lo ≤ x ∧ x ≤ hi) : FitsLine (truncate 3 x) := by
  obtain ⟨hlow,hhigh⟩ := truncate_between_zero 3 x
  constructor
  · refine lt_of_lt_of_le (lt_min (hlo.1.trans_le hx.1) ?_) hlow
    norm_num
  · refine hhigh.trans_lt (max_lt (hx.2.trans_lt hhi.2) ?_)
    norm_num

section Between
variable {k m : Nat} {r : Fin m} {c : Fin (k + 1)}

private theorem bcMean_between {files : List (CsvFile k m)} {lo hi : ℚ} (hne : files ≠ [])
    (h : ∀ f ∈ files, lo ≤ (f.cell r c).bcValue ∧ (f.cell r c).bcValue ≤ hi) :
    lo ≤ bcMean files r c ∧ bcMean files r c ≤ hi := by
  have hlength : 0 < (files.length : ℚ) := by exact_mod_cast List.length_pos_iff.mpr hne
  have hlow := List.card_nsmul_le_sum (files.map fun f => (f.cell r c).bcValue) lo
    (by simpa using fun f hf => (h f hf).1)
  have hhigh := List.sum_le_card_nsmul (files.map fun f => (f.cell r c).bcValue) hi
    (by simpa using fun f hf => (h f hf).2)
  rw [List.length_map, nsmul_eq_mul] at hlow hhigh
  rw [bcMean, le_div_iff₀ hlength, div_le_iff₀ hlength]
  exact ⟨by rwa [mul_comm],by rwa [mul_comm hi]⟩

/-- Where the values of a field lie between two bounds in all files, so does its average, but
for the decimals that are cut off. -/
theorem averages_between {first : CsvFile k m} {rest : List (CsvFile k m)} {lo hi : Fin m → Fin (k + 1) → ℚ}
    (h : ∀ f ∈ first :: rest, ∀ r c, lo r c ≤ (f.cell r c).bcValue ∧ (f.cell r c).bcValue ≤ hi r c)
    (hfits : ∀ r c, FitsLine (lo r c) ∧ FitsLine (hi r c)) : ∃ rows : Fin m → List Char,
      csvaverage ((first :: rest).map CsvFile.text) = some (unlines (first.header :: List.ofFn rows)) ∧
      ∀ r, ∃ fs : Fin (k + 1) → List Char, (rows r).splitOn ',' = List.ofFn fs ∧
        ∀ c, ∃ q, readNumeral (fs c) = some q ∧ truncate 3 (lo r c) ≤ q ∧ q ≤ truncate 3 (hi r c) := by
  have hmean : ∀ r c, lo r c ≤ bcMean (first :: rest) r c ∧ bcMean (first :: rest) r c ≤ hi r c := fun r c =>
    bcMean_between (List.cons_ne_nil _ _) fun f hf => h f hf r c
  have hread : ∀ r c, readNumeral (lineField (first :: rest) r c) =
      some (truncate 3 (bcMean (first :: rest) r c)) := by
    intro r c
    rcases lineField_shown (List.cons_ne_nil first rest) r c with ⟨-,hread⟩ | ⟨hlong,-⟩
    · exact hread
    · exact absurd (fitsLine_truncate (hfits r c).1 (hfits r c).2 (hmean r c)) hlong
  refine ⟨_,csvaverage_text first rest,fun r => ⟨_,splitOn_outLine fun c => ⟨_,hread r c⟩,fun c => ?_⟩⟩
  exact ⟨_,hread r c,truncate_mono 3 (hmean r c).1,truncate_mono 3 (hmean r c).2⟩

end Between

/-- The average of `5e-1`, which counts as 0, and 3 lies between the two. -/
theorem half_and_three_between : ∃ rows : Fin 1 → List Char,
    csvaverage ([halfFile,threeFile].map CsvFile.text) = some (unlines (['a'] :: List.ofFn rows)) ∧
    ∀ r, ∃ fs : Fin 1 → List Char, (rows r).splitOn ',' = List.ofFn fs ∧
      ∀ c, ∃ q, readNumeral (fs c) = some q ∧ truncate 3 0 ≤ q ∧ q ≤ truncate 3 3 := by
  apply @averages_between 0 1 halfFile [threeFile] (fun _ _ => 0) fun _ _ => 3
  · simp [bcValue_halfFile, bcValue_threeFile]
  · intro r c
    norm_num [FitsLine]

end ChaosBundle.Csv

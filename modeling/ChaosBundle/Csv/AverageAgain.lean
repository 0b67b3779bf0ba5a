import ChaosBundle.Csv.AverageRows

/-! Averages of the same files in another order, and averages of averages. -/
namespace ChaosBundle.Csv
open Bc Numerals ShellWords TextLines

private theorem truncate_truncate (decimals : Nat) (q : ℚ) :
    truncate decimals (truncate decimals q) = truncate decimals q := by
  obtain ⟨n,hn⟩ : ∃ n : ℤ, truncate decimals q = n / 10 ^ decimals := by
    unfold truncate
    split_ifs
    · exact ⟨_,rfl⟩
    · exact ⟨_,rfl⟩
  have hmul : (n : ℚ) / 10 ^ decimals * 10 ^ decimals = n := div_mul_cancel₀ _ (by positivity)
  rw [hn, truncate, hmul, Int.floor_intCast, Int.ceil_intCast, ite_self]

private theorem number_eq_of_value {x y : Number} (hscale : x.scale = y.scale) (h : x.value = y.value) :
    x = y := by
  obtain ⟨a,s⟩ := x
  obtain ⟨b,t⟩ := y
  obtain rfl : s = t := hscale
  have hpow : ((10 : ℚ) ^ s) ≠ 0 := by positivity
  have hab : (a : ℚ) = b := (div_left_inj' hpow).mp h
  rw [Int.cast_inj.mp hab]

section Rows
variable {k m : Nat} {files files' : List (CsvFile k m)}

theorem outLine_congr (hne : files ≠ []) (hne' : files' ≠ []) {r : Fin m}
    (h : ∀ c, truncate 3 (bcMean files r c) = truncate 3 (bcMean files' r c)) :
    outLine files r = outLine files' r := by
  have hfield : ∀ c : Fin (k + 1), rowField files r c = rowField files' r c := by
    intro c
    obtain ⟨q,hscale,hvalue,hshown⟩ := rowField_shown hne r c
    obtain ⟨q',hscale',hvalue',hshown'⟩ := rowField_shown hne' r c
    have hq : q = q' := by
      apply number_eq_of_value (hscale.trans hscale'.symm)
      rw [hvalue, hvalue', h c]
    rw [hshown, hshown', hq]
  have hline : lineField files r = lineField files' r := by
    funext c
    rw [lineField, lineField, hfield c]
  rw [outLine, outLine, hline]

/-- The rows of `average.csv` do not depend on the order in which the files are given. -/
theorem rows_regardless_of_order {first first' : CsvFile k m} {rest rest' : List (CsvFile k m)}
    (h : (first :: rest).Perm (first' :: rest')) : ∃ rows,
      csvaverage ((first :: rest).map CsvFile.text) = some (unlines (first.header :: rows)) ∧
      csvaverage ((first' :: rest').map CsvFile.text) = some (unlines (first'.header :: rows)) := by
  have hmean : ∀ r c, bcMean (first :: rest) r c = bcMean (first' :: rest') r c := by
    intro r c
    rw [bcMean, bcMean, (h.map fun f => (f.cell r c).bcValue).sum_eq, h.length_eq]
  have hrows : outLine (first :: rest) = outLine (first' :: rest') := by
    funext r
    exact outLine_congr (List.cons_ne_nil _ _) (List.cons_ne_nil _ _) fun c => by rw [hmean]
  refine ⟨List.ofFn (outLine (first :: rest)),csvaverage_text first rest,?_⟩
  rw [csvaverage_text, hrows]

end Rows

section Again
variable {k m : Nat}

private theorem shown_of_fits {q : Number} (h : q.print.length ≤ 68) : shown q = sedZeros q.print := by
  have hline : '\n' ∉ sedZeros q.print := by
    rw [mem_sedZeros (by decide) (by decide)]
    exact q.notMem_print rfl
  rw [shown, wrap_of_le h, sedZeros_line, capture_line]
  exact fun hlast => hline (List.mem_of_getLast? hlast)

private theorem lead_text (negative : Bool) (x : Numeral) : ∃ y : Numeral,
    lead (signText negative ++ x.text) = signText negative ++ y.text ∧ y.value = x.value := by
  cases negative with
  | true => exact ⟨x,rfl,rfl⟩
  | false =>
    obtain ⟨int,frac,hint,hfrac,hsome⟩ := x
    cases int with
    | cons d int =>
      have hd : d ≠ '.' := by
        rintro rfl
        simpa using hint '.' List.mem_cons_self
      refine ⟨_,?_,rfl⟩
      simp [lead, signText, Numeral.text, hd]
    | nil =>
      cases frac with
      | none => exact absurd rfl hsome
      | some frac =>
        refine ⟨⟨['0'],some frac,by simp,hfrac,by simp⟩,rfl,?_⟩
        simp [Numeral.value, Numeral.unscaled, Numeral.places, Nat.ofDigitChars_cons]

private theorem lineField_cell {files : List (CsvFile k m)} (hne : files ≠ []) {r : Fin m}
    {c : Fin (k + 1)} (hfits : FitsLine (truncate 3 (bcMean files r c))) : ∃ cell : Cell,
      cell.text = lineField files r c ∧ cell.bcValue = truncate 3 (bcMean files r c) := by
  obtain ⟨q,hscale,hvalue,hfield⟩ := rowField_shown hne r c
  have hlength := Number.length_print_le (x := q) (by omega) (show 0 < 63 by decide)
  rw [hscale, hvalue] at hlength
  obtain ⟨negative,x,hx,hxvalue⟩ := sedZeros_print hscale
  have hcell : ∀ y : Numeral, y.value = x.value →
      (Cell.mk negative y none).bcValue = truncate 3 (bcMean files r c) := by
    intro y hy
    simp [Cell.bcValue, Cell.vanishes, Cell.value, hy, hxvalue, hvalue]
  rw [lineField, hfield, shown_of_fits (hlength.mpr hfits), hx]
  split_ifs
  · exact ⟨⟨negative,x,none⟩,by simp [Cell.text],hcell x rfl⟩
  · obtain ⟨y,hy,hyvalue⟩ := lead_text negative x
    exact ⟨⟨negative,y,none⟩,by simp [Cell.text, hy],hcell y hyvalue⟩

/-- The average of a single file that is itself an average is that file. -/
theorem average_of_average {first : CsvFile k m} {rest : List (CsvFile k m)} {out : List Char}
    (hout : csvaverage ((first :: rest).map CsvFile.text) = some out)
    (hfits : ∀ r c, FitsLine (truncate 3 (bcMean (first :: rest) r c))) : csvaverage [out] = some out := by
  have hne : first :: rest ≠ [] := List.cons_ne_nil _ _
  choose cell htext hvalue using fun r c => lineField_cell hne (hfits r c)
  let average : CsvFile k m := ⟨first.header,cell,first.header_line,first.header_columns⟩
  have hrows : outLine [average] = outLine (first :: rest) := by
    funext r
    apply outLine_congr (List.cons_ne_nil _ _) hne
    intro c
    have hmean : bcMean [average] r c = (cell r c).bcValue := by simp [bcMean, average]
    rw [hmean, hvalue, truncate_truncate]
  have hrow : average.row = outLine (first :: rest) := by
    funext r
    rw [CsvFile.row, outLine]
    congr 2
    funext c
    exact htext r c
  have haverage : average.text = out := by
    rw [csvaverage_text, Option.some_inj] at hout
    rw [← hout, CsvFile.text, hrow]
  have hagain := csvaverage_text average []
  rw [hrows, List.map_singleton, haverage] at hagain
  rw [hagain, ← csvaverage_text first rest, hout]

end Again

def threeFile : CsvFile 0 1 where
  header := ['b']
  cell _ _ := ⟨false,.ofDigits ['3'] (List.forall_mem_singleton.mpr rfl) (List.cons_ne_nil _ _),none⟩
  header_line h := absurd (List.mem_singleton.mp h) (by decide)
  header_columns := rfl

theorem two_files_either_way : ∃ rows,
    csvaverage ([threeFile,halfFile].map CsvFile.text) = some (unlines (['b'] :: rows)) ∧
    csvaverage ([halfFile,threeFile].map CsvFile.text) = some (unlines (['a'] :: rows)) :=
  rows_regardless_of_order (List.Perm.swap halfFile threeFile [])

theorem bcValue_halfFile (r : Fin 1) (c : Fin 1) : (halfFile.cell r c).bcValue = 0 := if_pos rfl

theorem bcValue_threeFile (r : Fin 1) (c : Fin 1) : (threeFile.cell r c).bcValue = 3 := by
  have hdigit : '3'.toNat - '0'.toNat = 3 := rfl
  norm_num [threeFile, Cell.bcValue, Cell.vanishes, Cell.value, signed, Numeral.value, Numeral.unscaled,
    Numeral.places, Numeral.ofDigits, Nat.ofDigitChars_cons, hdigit]

/-- The average of `5e-1`, which counts as 0, and 3. -/
def averageFile : List Char := ['a','\n','1','.','5','0','0','\n']

theorem half_of_three_stays : csvaverage ([halfFile,threeFile].map CsvFile.text) = some averageFile ∧
    csvaverage [averageFile] = some averageFile := by
  have hout : csvaverage ([halfFile,threeFile].map CsvFile.text) = some averageFile := by decide
  refine ⟨hout,@average_of_average 0 1 halfFile [threeFile] _ hout fun r c => ?_⟩
  norm_num [FitsLine, bcMean, bcValue_halfFile, bcValue_threeFile, truncate]

end ChaosBundle.Csv

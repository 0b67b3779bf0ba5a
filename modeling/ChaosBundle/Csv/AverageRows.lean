import ChaosBundle.Csv.Average

/-! The rows that `csvaverage.sh` writes, and the numbers in their fields. -/
namespace ChaosBundle.Csv
open Bc Numerals ShellWords TextLines

theorem sedZeros_line (cs : List Char) : sedZeros (cs ++ ['\n']) = sedZeros cs ++ ['\n'] := by
  induction cs using sedZeros.induct with
  | case1 cs ih => simp [sedZeros, ih]
  | case2 c cs hno ih =>
    rw [List.cons_append, sedZeros, ih, sedZeros, List.cons_append]
    · exact hno
    · intro rest hc hcs
      rcases cs with _ | ⟨a,_ | ⟨b,_ | ⟨c,cs⟩⟩⟩ <;> simp at hcs
      obtain ⟨rfl,rfl,rfl,-⟩ := hcs
      exact hno cs hc rfl
  | case3 => simp [sedZeros]

/-- What `sed` and the command substitution leave of the output of `bc`. -/
def shown (q : Number) : List Char := capture (sedZeros (wrap q.print ++ ['\n']))

section Shown
variable {q : Number}

private theorem comma_notMem_shown : ',' ∉ shown q := by
  have hprint : ',' ∉ q.print := q.notMem_print rfl
  rw [shown, mem_capture (by decide), mem_sedZeros (by decide) (by decide), List.mem_append, wrap,
    mem_wrapFrom (by decide) (by decide)]
  simp [hprint]

/-- A number that fits the output line of `bc` is shown as a numeral of it. -/
theorem shown_fits (hscale : q.scale = 3) (hfits : q.print.length ≤ 68) :
    readNumeral (shown q) = some q.value ∧ '\n' ∉ shown q := by
  have hline : '\n' ∉ sedZeros q.print := by
    rw [mem_sedZeros (by decide) (by decide)]
    exact q.notMem_print rfl
  have hshown : shown q = sedZeros q.print := by
    rw [shown, wrap_of_le hfits, sedZeros_line, capture_line]
    exact fun hlast => hline (List.mem_of_getLast? hlast)
  obtain ⟨negative,y,hy,hvalue⟩ := sedZeros_print hscale
  rw [hshown]
  exact ⟨by rw [hy,readNumeral_text,hvalue],hline⟩

private theorem shown_wraps (hlong : 68 < q.print.length) : '\\' ∈ shown q := by
  rw [shown, mem_capture (by decide), mem_sedZeros (by decide) (by decide)]
  exact List.mem_append_left _ (backslash_mem_wrap hlong)

end Shown

section Fields
variable {k m : Nat}

private theorem foldl_addField (files : List (CsvFile k m)) (r : Fin m) (c : Fin (k + 1))
    {val : Nat → List Char} {x : Number} (hval : val c = wrap x.print) : ∃ y : Number,
    (files.map CsvFile.text).foldl (fun val file col => addField (readField file (r + 2) col) (val col))
      val c = wrap y.print ∧ y.value = x.value + (files.map fun f => (f.cell r c).bcValue).sum := by
  induction files generalizing val x with
  | nil => exact ⟨x,hval,by simp⟩
  | cons f files ih =>
    obtain ⟨y,hy,hvalue⟩ := addField_print (f.cell r c) x
    rw [← hval, ← f.readField_text r c] at hy
    obtain ⟨z,hz,hsum⟩ := @ih (fun col => addField (readField f.text (r + 2) col) (val col)) y hy
    rw [List.map_cons, List.foldl_cons]
    refine ⟨z,hz,?_⟩
    rw [hsum, hvalue, List.map_cons, List.sum_cons]
    ring

private theorem rowValues_print (files : List (CsvFile k m)) (r : Fin m) (c : Fin (k + 1)) :
    ∃ x : Number, rowValues (files.map CsvFile.text) (r + 2) c = wrap x.print ∧
      x.value = (files.map fun f => (f.cell r c).bcValue).sum := by
  have hzero : ['0'] = wrap (Number.print ⟨0,0⟩) := by decide
  obtain ⟨x,hx,hvalue⟩ := @foldl_addField k m files r c (fun _ => ['0']) ⟨0,0⟩ hzero
  exact ⟨x,hx,by simpa [Number.value] using hvalue⟩

def rowField (files : List (CsvFile k m)) (r : Fin m) (col : Nat) : List Char :=
  averageField files.length (rowValues (files.map CsvFile.text) (r + 2) col)

theorem rowField_shown {files : List (CsvFile k m)} (hne : files ≠ []) (r : Fin m) (c : Fin (k + 1)) :
    ∃ q : Number, q.scale = 3 ∧ q.value = truncate 3 (bcMean files r c) ∧
      rowField files r c = shown q := by
  obtain ⟨x,hx,hsum⟩ := rowValues_print files r c
  obtain ⟨q,hscale,hvalue,hfield⟩ := averageField_print x (List.length_pos_iff.mpr hne)
  refine ⟨q,hscale,?_,?_⟩
  · rw [hvalue, hsum, bcMean]
  · rw [rowField, hx, hfield, shown]

def lineField (files : List (CsvFile k m)) (r : Fin m) (c : Fin (k + 1)) : List Char :=
  if c = 0 then rowField files r c else lead (rowField files r c)

def outLine (files : List (CsvFile k m)) (r : Fin m) : List Char :=
  [','].intercalate (List.ofFn (lineField files r))

private theorem averageLine_text {files : List (CsvFile k m)} (hne : files ≠ []) (r : Fin m) :
    averageLine (files.map CsvFile.text) k (r + 2) = outLine files r := by
  have hcomma : ∀ c : Fin (k + 1), ',' ∉ rowField files r c := by
    intro c
    obtain ⟨q,-,-,hfield⟩ := rowField_shown hne r c
    rw [hfield]
    exact comma_notMem_shown
  have hrange : (List.range (k + 1)).map (rowField files r) =
      List.ofFn fun c : Fin (k + 1) => rowField files r c := by
    apply List.ext_getElem
    · simp
    · intro c _ _
      rw [List.getElem_map, List.getElem_range, List.getElem_ofFn]
  have hline : averageLine (files.map CsvFile.text) k (r + 2) =
      sedPoint ([','].intercalate ((List.range (k + 1)).map (rowField files r))) := by
    rw [averageLine, List.length_map]
    rfl
  rw [hline, hrange, List.ofFn_succ, sedPoint_line, outLine, List.ofFn_succ, List.map_ofFn]
  · simp [lineField, Function.comp_def]
  · rw [List.forall_mem_cons, List.forall_mem_ofFn_iff]
    exact ⟨hcomma 0,fun c => hcomma c.succ⟩

theorem csvaverage_text (first : CsvFile k m) (rest : List (CsvFile k m)) :
    csvaverage ((first :: rest).map CsvFile.text) =
      some (unlines (first.header :: List.ofFn (outLine (first :: rest)))) := by
  have hfirst : firstLine first.text = first.header := by
    rw [firstLine, first.lines_text, List.headD_cons]
  have hrows : (List.range' 2 m).map (averageLine ((first :: rest).map CsvFile.text) k) =
      List.ofFn (outLine (first :: rest)) := by
    apply List.ext_getElem
    · simp
    · intro r hr _
      have hline := averageLine_text (List.cons_ne_nil first rest) ⟨r,by simpa using hr⟩
      rw [List.getElem_map, List.getElem_range', List.getElem_ofFn, ← hline, Nat.one_mul, Nat.add_comm]
  rw [List.map_cons] at hrows
  rw [List.map_cons, csvaverage, hfirst, first.count_text, first.header_columns, Nat.add_sub_cancel, hrows]

/-- With three decimals and a sign the number takes 68 characters at most. -/
def FitsLine (q : ℚ) : Prop := -10 ^ 63 < q ∧ q < 10 ^ 64

/-- The field is a numeral of the mean that `bc` finds, or it goes on after a backslash. -/
theorem lineField_shown {files : List (CsvFile k m)} (hne : files ≠ []) (r : Fin m) (c : Fin (k + 1)) :
    (FitsLine (truncate 3 (bcMean files r c)) ∧
      readNumeral (lineField files r c) = some (truncate 3 (bcMean files r c))) ∨
    (¬ FitsLine (truncate 3 (bcMean files r c)) ∧ '\\' ∈ lineField files r c) := by
  obtain ⟨q,hscale,hvalue,hfield⟩ := rowField_shown hne r c
  have hlength := Number.length_print_le (x := q) (by omega) (show 0 < 63 by decide)
  rw [hscale, hvalue] at hlength
  rw [lineField, FitsLine, ← hlength, ← hvalue, hfield]
  rcases Nat.lt_or_ge 68 q.print.length with hlong | hfits
  · right
    refine ⟨not_le.mpr hlong,?_⟩
    have hback := shown_wraps hlong
    unfold lead
    split_ifs <;> simp [hback]
  · left
    refine ⟨hfits,?_⟩
    have hread := (shown_fits hscale hfits).1
    split_ifs
    · exact hread
    · exact readNumeral_lead hread

theorem newline_notMem_outLine {files : List (CsvFile k m)} {r : Fin m}
    (h : ∀ c, ∃ q, readNumeral (lineField files r c) = some q) : '\n' ∉ outLine files r := by
  rw [outLine, mem_intercalate (by simp)]
  rintro ⟨field,hfield,hline⟩
  obtain ⟨c,rfl⟩ := List.mem_ofFn.mp hfield
  obtain ⟨q,hq⟩ := h c
  cases readNumeral_chars hq hline

theorem splitOn_outLine {files : List (CsvFile k m)} {r : Fin m}
    (h : ∀ c, ∃ q, readNumeral (lineField files r c) = some q) :
    (outLine files r).splitOn ',' = List.ofFn (lineField files r) := by
  apply List.splitOn_intercalate
  · rw [List.forall_mem_ofFn_iff]
    intro c hc
    obtain ⟨q,hq⟩ := h c
    cases readNumeral_chars hq hc
  · simp

end Fields

section Averages
variable {k m : Nat} {first : CsvFile k m} {rest : List (CsvFile k m)} {out : List Char}

theorem fits_of_averages (hout : csvaverage ((first :: rest).map CsvFile.text) = some out)
    (h : Averages (first :: rest) first.header out) (r : Fin m) (c : Fin (k + 1)) :
    FitsLine (truncate 3 (bcMean (first :: rest) r c)) ∧
      readNumeral (lineField (first :: rest) r c) = some (truncate 3 (bcMean (first :: rest) r c)) := by
  obtain ⟨rows,rfl,hrows⟩ := h
  rcases lineField_shown (List.cons_ne_nil first rest) r c with hfits | ⟨-,hback⟩
  · exact hfits
  rw [csvaverage_text, Option.some_inj, unlines, unlines, List.flatMap_cons, List.flatMap_cons] at hout
  have hmem : '\\' ∈ unlines (List.ofFn (outLine (first :: rest))) := by
    rw [mem_unlines (by decide)]
    refine ⟨_,List.mem_ofFn.mpr ⟨r,rfl⟩,?_⟩
    rw [outLine, mem_intercalate (by decide)]
    exact ⟨_,List.mem_ofFn.mpr ⟨c,rfl⟩,hback⟩
  rw [unlines, List.append_cancel_left hout, ← unlines, mem_unlines (by decide)] at hmem
  obtain ⟨line,hline,hback⟩ := hmem
  obtain ⟨r,rfl⟩ := List.mem_ofFn.mp hline
  obtain ⟨-,fs,hsplit,hread⟩ := hrows r
  have hjoin : [','].intercalate ((rows r).splitOn ',') = rows r := List.intercalate_splitOn ','
  rw [← hjoin, hsplit, mem_intercalate (by decide)] at hback
  obtain ⟨field,hfield,hback⟩ := hback
  obtain ⟨c,rfl⟩ := List.mem_ofFn.mp hfield
  cases readNumeral_chars (hread c) hback

theorem bcMean_of_averages (hout : csvaverage ((first :: rest).map CsvFile.text) = some out)
    (h : Averages (first :: rest) first.header out) (r : Fin m) (c : Fin (k + 1)) :
    truncate 3 (bcMean (first :: rest) r c) = truncate 3 (mean (first :: rest) r c) := by
  have hread := fun r c => (fits_of_averages hout h r c).2
  have hnumeral : ∀ r c, ∃ q, readNumeral (lineField (first :: rest) r c) = some q :=
    fun r c => ⟨_,hread r c⟩
  obtain ⟨rows,rfl,hrows⟩ := h
  have hlines : outLine (first :: rest) = rows := by
    rw [csvaverage_text, Option.some_inj] at hout
    have heq := congrArg lines hout
    rw [lines_unlines, lines_unlines] at heq
    · exact List.ofFn_injective (List.cons_injective heq)
    · rw [List.forall_mem_cons, List.forall_mem_ofFn_iff]
      exact ⟨first.header_line,fun r => (hrows r).1⟩
    · rw [List.forall_mem_cons, List.forall_mem_ofFn_iff]
      exact ⟨first.header_line,fun r => newline_notMem_outLine (hnumeral r)⟩
  obtain ⟨-,fs,hsplit,hfs⟩ := hrows r
  rw [← hlines, splitOn_outLine (hnumeral r)] at hsplit
  have hfield := hfs c
  rw [← List.ofFn_injective hsplit, hread] at hfield
  exact Option.some_inj.mp hfield

/-- The averages are right exactly where a number with an exponent below zero may count as
zero and the numeral fits the line. -/
theorem averages_iff (first : CsvFile k m) (rest : List (CsvFile k m)) :
    (∃ out, csvaverage ((first :: rest).map CsvFile.text) = some out ∧
      Averages (first :: rest) first.header out) ↔
    ∀ r c, truncate 3 (bcMean (first :: rest) r c) = truncate 3 (mean (first :: rest) r c) ∧
      FitsLine (truncate 3 (mean (first :: rest) r c)) := by
  constructor
  · rintro ⟨out,hout,h⟩ r c
    have hmean := bcMean_of_averages hout h r c
    have hfits := (fits_of_averages hout h r c).1
    rw [hmean] at hfits
    exact ⟨hmean,hfits⟩
  · intro h
    have hread : ∀ r c, readNumeral (lineField (first :: rest) r c) =
        some (truncate 3 (mean (first :: rest) r c)) := by
      intro r c
      obtain ⟨hmean,hfits⟩ := h r c
      rcases lineField_shown (List.cons_ne_nil first rest) r c with ⟨-,hread⟩ | ⟨hlong,-⟩
      · rw [hread, hmean]
      · rw [hmean] at hlong
        exact absurd hfits hlong
    have hnumeral : ∀ r c, ∃ q, readNumeral (lineField (first :: rest) r c) = some q :=
      fun r c => ⟨_,hread r c⟩
    refine ⟨_,csvaverage_text first rest,_,rfl,fun r => ⟨?_,_,splitOn_outLine (hnumeral r),hread r⟩⟩
    exact newline_notMem_outLine (hnumeral r)

end Averages

def halfFile : CsvFile 0 1 where
  header := ['a']
  cell _ _ :=
    { negative := false
      mantissa := .ofDigits ['5'] (List.forall_mem_singleton.mpr rfl) (List.cons_ne_nil _ _)
      exponent := some
        { mark := 'e'
          sign := .minus
          digits := ['1']
          mark_eq := .inl rfl
          all_digits := List.forall_mem_singleton.mpr rfl
          some_digit := List.cons_ne_nil _ _ } }
  header_line h := absurd (List.mem_singleton.mp h) (by decide)
  header_columns := rfl

theorem half_counts_as_zero : csvaverage ([halfFile].map CsvFile.text) = some ['a','\n','0','\n'] ∧
    ¬ ∃ out, csvaverage ([halfFile].map CsvFile.text) = some out ∧
      Averages [halfFile] halfFile.header out := by
  refine ⟨by decide,?_⟩
  rintro ⟨out,hout,h⟩
  have hmean := bcMean_of_averages hout h 0 0
  have hhalf : (halfFile.cell 0 0).value = 1 / 2 := by
    have hfive : '5'.toNat - '0'.toNat = 5 := rfl
    have hone : '1'.toNat - '0'.toNat = 1 := rfl
    norm_num [halfFile, Cell.value, Numeral.value, Numeral.ofDigits, Numeral.unscaled, Numeral.places,
      signed, Exponent.factor, Exponent.size, Exponent.numeral, Nat.ofDigitChars_cons, hfive, hone]
  have hzero : (halfFile.cell 0 0).bcValue = 0 := if_pos (by decide)
  norm_num [bcMean, mean, hhalf, hzero, truncate] at hmean

end ChaosBundle.Csv

import ChaosBundle.Csv.Cell

/-! The fields of the average: quotients by `bc -l`, and the two edits by `sed` that follow. -/
namespace ChaosBundle.Csv
open Bc DecimalFields Numerals ShellWords

/-- `s/\.000//g` -/
def sedZeros : List Char → List Char
  | '.' :: '0' :: '0' :: '0' :: cs => sedZeros cs
  | c :: cs => c :: sedZeros cs
  | [] => []

/-- `s/,\./,0\./g` -/
def sedPoint : List Char → List Char
  | ',' :: '.' :: cs => [',','0','.'] ++ sedPoint cs
  | c :: cs => c :: sedPoint cs
  | [] => []

def scaleThree : List Char := scaleWord ++ ['=','3',';',' ']

/-- `echo "scale=3; ${val[$col]}/($ncsv)" | bc -l|sed 's/\.000//g'` -/
def averageField (ncsv : Nat) (val : List Char) : List Char :=
  capture (sedZeros (bc 20 (scaleThree ++ val ++ (['/','('] ++ digits ncsv ++ [')','\n']))))

private theorem lex_quotient (negative : Bool) (y : Numeral) (n : Nat) :
    lex .none (scaleThree ++ (signText negative ++ y.text ++ (['/','('] ++ digits n ++ [')','\n']))) =
      some ([.word scaleWord,.assign,.num ⟨3,0⟩,.stop] ++ signTok negative ++
        [.num (.ofNumeral y),.over,.open,.num ⟨n,0⟩,.close,.stop]) := by
  have hscale : ∀ cs, lex .none (scaleThree ++ cs) =
      (lex .none cs).map ([.word scaleWord,.assign,.num ⟨3,0⟩,.stop] ++ ·) := fun cs => by
    simp [scaleThree, scaleWord, lex, lexStep, operator, Pending.flush]
    rfl
  have hover : ∀ (p : Pending) cs, lex p ('/' :: '(' :: cs) =
      (lex .none cs).map (p.flush ++ [.over,.open] ++ ·) := fun p cs => by
    simp [lex, lexStep, operator]
    rfl
  have hclose : ∀ p : Pending, lex p [')','\n'] = some (p.flush ++ [.close,.stop]) := fun p => by
    simp [lex, lexStep, operator]
  rw [hscale, lex_signed, List.append_assoc, List.cons_append, List.cons_append, hover,
    List.nil_append, lex_int (fun _ => digit_of_mem) (digits_ne_nil n), hclose]
  simp [digits]

private theorem exec_quotient (negative : Bool) (y : Numeral) (n : Nat) {fuel : Nat} (hfuel : 5 ≤ fuel) :
    exec fuel 20 ([.word scaleWord,.assign,.num ⟨3,0⟩,.stop] ++ signTok negative ++
        [.num (.ofNumeral y),.over,.open,.num ⟨n,0⟩,.close,.stop]) =
      (eval 3 (.div (Cell.literal negative y) (.num ⟨n,0⟩))).map fun x => [x] := by
  obtain ⟨fuel,rfl⟩ := Nat.exists_eq_add_of_le' hfuel
  have hscale : ∀ ts, exec (fuel + 5) 20 ([.word scaleWord,.assign,.num ⟨3,0⟩,.stop] ++ ts) =
      exec (fuel + 3) 3 ts := fun ts => rfl
  rw [List.append_assoc, hscale]
  cases negative <;> exact exec_expr (by simp) (by simp) (by omega) rfl

theorem averageField_print (x : Number) {n : Nat} (hn : 0 < n) : ∃ q : Number, q.scale = 3 ∧
    q.value = truncate 3 (x.value / n) ∧
    averageField n (wrap x.print) = capture (sedZeros (wrap q.print ++ ['\n'])) := by
  obtain ⟨m,hm,hvalue⟩ := Cell.eval_literal 3 (x.unscaled < 0) x.numeral
  rw [Number.signed_numeral] at hvalue
  obtain ⟨q,hq,hscale,hqvalue⟩ := Number.div_int 3 m hn
  refine ⟨q,hscale,by rw [hqvalue,hvalue],?_⟩
  have hhead : '\\' ∉ scaleThree := by decide
  have htail : '\\' ∉ ['/','('] ++ digits n ++ [')','\n'] :=
    List.not_mem_append (List.not_mem_append (by decide) (notMem_digits rfl)) (by decide)
  have hlex := lex_quotient (x.unscaled < 0) x.numeral n
  have hprogram : unwrap (scaleThree ++ wrap x.print ++ (['/','('] ++ digits n ++ [')','\n'])) =
      scaleThree ++ (signText (x.unscaled < 0) ++ x.numeral.text ++
        (['/','('] ++ digits n ++ [')','\n'])) := by
    have hrest := unwrap_append htail []
    rw [List.append_nil] at hrest
    rw [List.append_assoc, unwrap_append hhead, unwrap_print, hrest, ← Number.print, unwrap,
      List.append_nil]
  rw [← hprogram] at hlex
  have hexec := fun fuel => @exec_quotient (x.unscaled < 0) x.numeral n fuel
  have heval : eval 3 (.div (Cell.literal (x.unscaled < 0) x.numeral) (.num ⟨n,0⟩)) = some q := by
    rw [eval, hm]
    exact hq
  rw [heval] at hexec
  rw [averageField, bc_eq hlex (hexec _ (by simp))]

theorem mem_sedZeros {c : Char} (hpoint : c ≠ '.') (hzero : c ≠ '0') (cs : List Char) :
    c ∈ sedZeros cs ↔ c ∈ cs := by
  induction cs using sedZeros.induct with
  | case1 cs ih => simp [sedZeros, ih, hpoint, hzero]
  | case2 d cs hno ih =>
    rw [sedZeros, List.mem_cons, List.mem_cons, ih]
    exact hno
  | case3 => rfl

private theorem sedZeros_append {cs : List Char} (h : '.' ∉ cs) (rest : List Char) :
    sedZeros (cs ++ rest) = cs ++ sedZeros rest := by
  induction cs with
  | nil => rfl
  | cons c cs ih =>
    rw [List.mem_cons, not_or] at h
    rw [List.cons_append, sedZeros, ih h.2, List.cons_append]
    intro _ hc
    exact absurd hc.symm h.1

/-- The edit leaves out the point and three zeros after it, and nothing else. -/
theorem sedZeros_decimals {a b c : Char} (h : [a,b,c] ≠ ['0','0','0']) :
    sedZeros ['.',a,b,c] = ['.',a,b,c] := by
  have hrest : sedZeros [a,b,c] = [a,b,c] := by simp [sedZeros]
  rw [sedZeros, hrest]
  rintro _ _ hcs
  simp_all

theorem sedZeros_print {q : Number} (hscale : q.scale = 3) : ∃ (negative : Bool) (y : Numeral),
    sedZeros q.print = signText negative ++ y.text ∧ signed negative y.value = q.value := by
  have hsign : '.' ∉ signText (q.unscaled < 0) := by
    by_cases hneg : q.unscaled < 0 <;> simp [signText, hneg]
  have hint : '.' ∉ q.numeral.int := fun h => by simpa using q.numeral.int_digits '.' h
  by_cases hq : q.unscaled = 0
  · refine ⟨_,q.numeral,?_,q.signed_numeral⟩
    simp [Number.print, Number.numeral, Numeral.text, signText, hq, sedZeros]
  have hfrac := Number.numeral_frac hq (by simp [hscale])
  rw [hscale] at hfrac
  have hprint : q.print = signText (q.unscaled < 0) ++ q.numeral.int ++
      '.' :: Number.lastDigits 3 q.unscaled.natAbs := by
    rw [Number.print, Numeral.text, hfrac, List.append_assoc]
  rw [hprint, sedZeros_append (List.not_mem_append hsign hint)]
  by_cases hzeros : Number.lastDigits 3 q.unscaled.natAbs = ['0','0','0']
  · have hjoin : q.numeral.unscaled = Nat.ofDigitChars 10 q.numeral.int 0 * 1000 := by
      rw [Numeral.unscaled, hfrac, hzeros, Option.getD_some, Nat.ofDigitChars_append]
      simp [Nat.ofDigitChars_cons]
      ring
    have hint_ne : q.numeral.int ≠ [] := by
      intro hnil
      rw [Number.numeral_unscaled, hnil] at hjoin
      exact hq (by simpa using hjoin)
    let y := Numeral.ofDigits q.numeral.int q.numeral.int_digits hint_ne
    refine ⟨q.unscaled < 0,y,by simp [hzeros,sedZeros,y,Numeral.ofDigits,Numeral.text],?_⟩
    have hvalue : y.value = q.numeral.value := by
      rw [Numeral.value, Numeral.value, Number.numeral_places q hq, hscale, hjoin]
      simp only [y, Numeral.ofDigits, Numeral.unscaled, Numeral.places, Option.getD_none, Option.map_none,
        List.append_nil, pow_zero, div_one]
      push_cast
      ring
    rw [hvalue, q.signed_numeral]
  · refine ⟨_,q.numeral,?_,q.signed_numeral⟩
    obtain ⟨a,b,c,habc⟩ := List.length_eq_three.mp (Number.length_lastDigits 3 q.unscaled.natAbs)
    rw [habc] at hzeros hprint ⊢
    rw [sedZeros_decimals hzeros, ← hprint, Number.print]

/-- A field in front of a comma gets a digit in front of its point. -/
def lead (field : List Char) : List Char := if field.head? = some '.' then '0' :: field else field

private theorem sedPoint_append {cs : List Char} (h : ',' ∉ cs) (rest : List Char) :
    sedPoint (cs ++ rest) = cs ++ sedPoint rest := by
  induction cs with
  | nil => rfl
  | cons c cs ih =>
    rw [List.mem_cons, not_or] at h
    rw [List.cons_append, sedPoint, ih h.2, List.cons_append]
    intro _ hc
    exact absurd hc.symm h.1

private theorem sedPoint_comma (rest : List Char) :
    sedPoint (',' :: rest) = ',' :: (if rest.head? = some '.' then '0' :: sedPoint rest else sedPoint rest) := by
  cases rest with
  | nil => rfl
  | cons c cs =>
    by_cases hc : c = '.'
    · subst hc
      have hpoint : sedPoint ('.' :: cs) = '.' :: sedPoint cs := by
        rw [sedPoint]
        rintro _ ⟨⟩
      simp [sedPoint, hpoint]
    · rw [sedPoint]
      · simp [hc]
      · rintro _ - ⟨⟩
        exact hc rfl

private theorem head?_line (field : List Char) (fields : List (List Char)) :
    ([','].intercalate (field :: fields)).head? = some '.' ↔ field.head? = some '.' := by
  cases field with
  | nil => cases fields <;> simp [List.intercalate_cons_cons]
  | cons c cs => simp [List.intercalate_cons_cons_left]

/-- On a line the edit works field by field. -/
theorem sedPoint_line {field : List Char} {fields : List (List Char)}
    (h : ∀ f ∈ field :: fields, ',' ∉ f) :
    sedPoint ([','].intercalate (field :: fields)) = [','].intercalate (field :: fields.map lead) := by
  induction fields generalizing field with
  | nil => simpa [sedPoint] using sedPoint_append (h field (by simp)) []
  | cons next fields ih =>
    obtain ⟨hfield,hrest⟩ := List.forall_mem_cons.mp h
    have hcomma := sedPoint_append hfield (',' :: [','].intercalate (next :: fields))
    rw [sedPoint_comma, ih hrest] at hcomma
    rw [List.map_cons, List.intercalate_cons_cons, List.intercalate_cons_cons, List.append_assoc,
      List.append_assoc, List.singleton_append, List.singleton_append, hcomma, lead]
    simp only [head?_line]
    split_ifs
    · rw [List.intercalate_cons_cons_left]
    · rfl

theorem readNumeral_lead {field : List Char} {q : ℚ} (h : readNumeral field = some q) :
    readNumeral (lead field) = some q := by
  unfold lead
  split_ifs with hpoint
  · obtain ⟨frac,rfl⟩ : ∃ frac, field = '.' :: frac := by
      cases field with
      | nil => cases hpoint
      | cons c cs => exact ⟨cs,by rw [Option.some.inj hpoint]⟩
    simp [readNumeral] at h ⊢
    rw [Nat.ofDigitChars_cons]
    exact ⟨h.1.1,h.2⟩
  · exact h

end ChaosBundle.Csv

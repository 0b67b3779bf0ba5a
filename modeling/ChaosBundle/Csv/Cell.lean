import ChaosBundle.Library.BcProgram
import ChaosBundle.Library.ShellWords

/-! The numbers in the files of `csvaverage.sh`, and what `sed` and `bc` make of them. -/
namespace ChaosBundle.Csv
open Bc Numerals ShellWords

inductive Sign where
  | absent | plus | minus
  deriving DecidableEq

def Sign.text : Sign → List Char
  | .absent => []
  | .plus => ['+']
  | .minus => ['-']

structure Exponent where
  mark : Char
  sign : Sign
  digits : List Char
  mark_eq : mark = 'e' ∨ mark = 'E'
  all_digits : ∀ c ∈ digits, c.isDigit
  some_digit : digits ≠ []

structure Cell where
  negative : Bool
  mantissa : Numeral
  exponent : Option Exponent

namespace Exponent

def text (e : Exponent) : List Char := e.mark :: (e.sign.text ++ e.digits)

def numeral (e : Exponent) : Numeral := .ofDigits e.digits e.all_digits e.some_digit

def size (e : Exponent) : Nat := e.numeral.unscaled

def factor (e : Exponent) : ℚ := if e.sign = .minus then 1 / 10 ^ e.size else 10 ^ e.size

end Exponent

namespace Cell

def text (c : Cell) : List Char :=
  signText c.negative ++ c.mantissa.text ++ match c.exponent with
    | none => []
    | some e => e.text

def value (c : Cell) : ℚ :=
  signed c.negative c.mantissa.value * match c.exponent with
    | none => 1
    | some e => e.factor

/-- The exponent is below zero. -/
def vanishes (c : Cell) : Bool := c.exponent.any fun e => e.sign = .minus ∧ e.size ≠ 0

/-- A power of ten with an exponent below zero has no places and is zero. -/
def bcValue (c : Cell) : ℚ := if c.vanishes then 0 else c.value

end Cell

/-- `s/[eE]+*/\*10\^/`: the first `e` or `E`, and any plus signs after it. -/
def sedExponent : List Char → List Char
  | [] => []
  | c :: cs =>
    if c = 'e' ∨ c = 'E' then ['*','1','0','^'] ++ cs.dropWhile (· = '+')
    else c :: sedExponent cs

/-- `echo "$v + ${val[$col]}" | bc` -/
def addField (v val : List Char) : List Char :=
  capture (bc 0 (v ++ [' ','+',' '] ++ val ++ ['\n']))

private theorem sedExponent_same {cs : List Char} (he : 'e' ∉ cs) (hE : 'E' ∉ cs) :
    sedExponent cs = cs := by
  induction cs with
  | nil => rfl
  | cons c cs ih =>
    rw [List.mem_cons, not_or] at he hE
    rw [sedExponent, if_neg (not_or.mpr ⟨Ne.symm he.1,Ne.symm hE.1⟩), ih he.2 hE.2]

private theorem sedExponent_mark {cs : List Char} (he : 'e' ∉ cs) (hE : 'E' ∉ cs) {mark : Char}
    (hmark : mark = 'e' ∨ mark = 'E') (rest : List Char) : sedExponent (cs ++ mark :: rest) =
      cs ++ (['*','1','0','^'] ++ rest.dropWhile (· = '+')) := by
  induction cs with
  | nil => rw [List.nil_append, sedExponent, if_pos hmark, List.nil_append]
  | cons c cs ih =>
    rw [List.mem_cons, not_or] at he hE
    rw [List.cons_append, sedExponent, if_neg (not_or.mpr ⟨Ne.symm he.1,Ne.symm hE.1⟩), ih he.2 hE.2]
    rfl

namespace Exponent

/-- The exponent as `bc` reads it. -/
def power (e : Exponent) : List Char := signText (e.sign = .minus) ++ e.numeral.text

private theorem dropWhile_plus (e : Exponent) :
    (e.sign.text ++ e.digits).dropWhile (· = '+') = e.power := by
  obtain ⟨mark,sign,digits,-,hall,hsome⟩ := e
  obtain ⟨d,ds,rfl⟩ := List.exists_cons_of_ne_nil hsome
  have hd : d ≠ '+' := by
    rintro rfl
    simpa using hall '+' (by simp)
  cases sign <;> simp [Sign.text, power, numeral, Numeral.ofDigits, Numeral.text,
    signText, hd]

end Exponent

namespace Cell
variable (c : Cell)

theorem sed_text : sedExponent c.text =
    signText c.negative ++ c.mantissa.text ++ match c.exponent with
      | none => []
      | some e => ['*','1','0','^'] ++ e.power := by
  have he : 'e' ∉ signText c.negative ++ c.mantissa.text := notMem_signed rfl
  have hE : 'E' ∉ signText c.negative ++ c.mantissa.text := notMem_signed rfl
  unfold text
  cases c.exponent with
  | none => simpa using sedExponent_same he hE
  | some e =>
    simp only [Exponent.text]
    rw [sedExponent_mark he hE e.mark_eq, e.dropWhile_plus]

def toks : List Tok :=
  signTok c.negative ++ .num (.ofNumeral c.mantissa) :: match c.exponent with
    | none => []
    | some e => [.times,.num ⟨10,0⟩,.caret] ++ signTok (e.sign = .minus) ++ [.num (.ofNumeral e.numeral)]

def literal (negative : Bool) (x : Numeral) : Expr :=
  if negative then .neg (.num (.ofNumeral x)) else .num (.ofNumeral x)

def expr : Expr :=
  match c.exponent with
  | none => literal c.negative c.mantissa
  | some e => .mul (literal c.negative c.mantissa)
      (.pow (.num ⟨10,0⟩) (literal (e.sign = .minus) e.numeral))

private theorem lex_val (p : Pending) (negative : Bool) (y : Numeral) :
    lex p ([' ','+',' '] ++ (signText negative ++ y.text) ++ ['\n']) =
      some (p.flush ++ .plus :: signTok negative ++ [.num (.ofNumeral y),.stop]) := by
  have hplus : ∀ (p : Pending) cs, lex p ('+' :: cs) = (lex .none cs).map (p.flush ++ [.plus] ++ ·) :=
    fun p => lex_operator rfl (by decide) rfl rfl p
  have hstop : ∀ (p : Pending) cs, lex p ('\n' :: cs) = (lex .none cs).map (p.flush ++ [.stop] ++ ·) :=
    fun p => lex_operator rfl (by decide) rfl rfl p
  rw [List.append_assoc]
  simp only [List.cons_append, List.nil_append, lex_space, hplus, lex_signed, hstop]
  simp [lex]

private theorem lex_sum (negative : Bool) (y : Numeral) :
    lex .none (sedExponent c.text ++ ([' ','+',' '] ++ (signText negative ++ y.text) ++ ['\n'])) =
      some (c.toks ++ .plus :: signTok negative ++ [.num (.ofNumeral y),.stop]) := by
  rw [sed_text, toks]
  cases c.exponent with
  | none =>
    rw [List.append_nil, lex_signed, lex_val]
    simp
  | some e =>
    have hten : ∀ (p : Pending) cs, lex p (['*','1','0','^'] ++ cs) =
        (lex .none cs).map (p.flush ++ [.times,.num ⟨10,0⟩,.caret] ++ ·) := fun p cs => by
      simp [lex, lexStep, operator, Pending.flush]
      rfl
    rw [List.append_assoc, lex_signed, List.append_assoc, hten, Exponent.power, lex_signed, lex_val]
    simp

private theorem exec_sum (negative : Bool) (y : Numeral) {fuel : Nat} (hfuel : 3 ≤ fuel) :
    exec fuel 0 (c.toks ++ .plus :: signTok negative ++ [.num (.ofNumeral y),.stop]) =
      (eval 0 (.add c.expr (literal negative y))).map fun x => [x] := by
  obtain ⟨cneg,mantissa,exponent⟩ := c
  cases exponent with
  | none => cases cneg <;> cases negative <;> exact exec_expr (by simp) (by simp) hfuel rfl
  | some e =>
    obtain ⟨mark,sign,digits,_,_,_⟩ := e
    cases sign <;> cases cneg <;> cases negative <;> exact exec_expr (by simp) (by simp) hfuel rfl

theorem eval_literal (scale : Nat) (negative : Bool) (x : Numeral) :
    ∃ n, eval scale (literal negative x) = some n ∧ n.value = signed negative x.value := by
  cases negative with
  | false => exact ⟨_,rfl,Number.value_ofNumeral x⟩
  | true => exact ⟨_,rfl,by rw [Number.value_neg,Number.value_ofNumeral]; rfl⟩

private theorem eval_power (e : Exponent) :
    eval 0 (.pow (.num ⟨10,0⟩) (literal (e.sign = .minus) e.numeral)) =
      some ⟨if e.sign = .minus ∧ e.size ≠ 0 then 0 else 10 ^ e.size,0⟩ := by
  have hsize : Number.ofNumeral e.numeral = ⟨e.size,0⟩ := rfl
  by_cases hminus : e.sign = .minus
  · simp only [eval, literal, hminus, hsize, Number.neg, decide_true, if_true, Option.bind_some,
      Option.map_some]
    by_cases hzero : e.size = 0
    · simpa [hzero] using Number.pow_ten_pos 0
    · simpa [hzero] using Number.pow_ten_neg hzero
  · simpa [eval, literal, hminus, hsize] using Number.pow_ten_pos e.size

/-- `bc` reads the number that it is given, unless the exponent is below zero. -/
theorem eval_expr : ∃ t, eval 0 c.expr = some t ∧ t.value = c.bcValue := by
  obtain ⟨m,hm,hvalue⟩ := eval_literal 0 c.negative c.mantissa
  unfold expr bcValue vanishes value
  cases c.exponent with
  | none => exact ⟨m,hm,by simpa using hvalue⟩
  | some e =>
    refine ⟨Number.mul 0 m ⟨if e.sign = .minus ∧ e.size ≠ 0 then 0 else 10 ^ e.size,0⟩,?_,?_⟩
    · rw [eval, hm, Option.bind_some, eval_power]
      rfl
    · rw [Number.value_mul_int, hvalue]
      simp only [Option.any_some, decide_eq_true_eq]
      split_ifs with hbelow
      · simp
      · rw [Exponent.factor]
        by_cases hminus : e.sign = .minus
        · have hzero : e.size = 0 := by simpa [hminus] using hbelow
          simp [hminus, hzero]
        · simp [hminus]

end Cell

/-- One step of the accumulation: the output of `bc` stands for the sum of the two numbers. -/
theorem addField_print (c : Cell) (x : Number) : ∃ y : Number,
    addField (sedExponent c.text) (wrap x.print) = wrap y.print ∧ y.value = c.bcValue + x.value := by
  obtain ⟨t,ht,htvalue⟩ := c.eval_expr
  obtain ⟨n,hn,hnvalue⟩ := Cell.eval_literal 0 (x.unscaled < 0) x.numeral
  refine ⟨t.add n,?_,by rw [Number.value_add,htvalue,hnvalue,Number.signed_numeral]⟩
  have hclean : '\\' ∉ sedExponent c.text ++ [' ','+',' '] := by
    have hsigned : ∀ {negative : Bool} {y : Numeral}, '\\' ∉ signText negative ++ y.text :=
      notMem_signed rfl
    rw [c.sed_text]
    cases c.exponent with
    | none =>
      rw [List.append_nil]
      exact List.not_mem_append hsigned (by decide)
    | some e =>
      exact List.not_mem_append (List.not_mem_append hsigned
        (List.not_mem_append (by decide) hsigned)) (by decide)
  have hlex : lex .none (unwrap (sedExponent c.text ++ [' ','+',' '] ++ wrap x.print ++ ['\n'])) =
      some (c.toks ++ .plus :: signTok (x.unscaled < 0) ++ [.num (.ofNumeral x.numeral),.stop]) := by
    rw [List.append_assoc, unwrap_append hclean, unwrap_print]
    simpa [Number.print, unwrap] using c.lex_sum (x.unscaled < 0) x.numeral
  have hexec := fun fuel => @Cell.exec_sum c (x.unscaled < 0) x.numeral fuel
  rw [eval, ht, Option.bind_some, hn] at hexec
  rw [addField, bc_eq hlex (hexec _ (by simp; omega)), capture_line (getLast?_print _)]

end ChaosBundle.Csv

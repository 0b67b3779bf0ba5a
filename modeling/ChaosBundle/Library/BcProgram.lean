import ChaosBundle.Library.BcNumber

/-! Programs of `bc`: assignments to `scale` and expressions whose values are printed. A
minus in front binds tighter than a power. -/
namespace ChaosBundle.Bc
open DecimalFields Numerals

inductive Tok where
  | num (x : Number) | word (w : List Char)
  | plus | minus | times | over | caret | open | close | assign | stop
  deriving DecidableEq

/-- The lexeme that is being read: a number with the count of its places once the point
has come, or a word. -/
inductive Pending where
  | none | number (n : Nat) (places : Option Nat) | word (w : List Char)
  deriving DecidableEq

def Pending.flush : Pending → List Tok
  | .none => []
  | .number n places => [.num ⟨n,places.getD 0⟩]
  | .word w => [.word w]

@[simp] theorem flush_none : Pending.none.flush = [] := rfl

@[simp] theorem flush_number (n : Nat) (places : Option Nat) :
    (Pending.number n places).flush = [.num ⟨n,places.getD 0⟩] := rfl

def operator : Char → Option (List Tok)
  | '+' => some [.plus]
  | '-' => some [.minus]
  | '*' => some [.times]
  | '/' => some [.over]
  | '^' => some [.caret]
  | '(' => some [.open]
  | ')' => some [.close]
  | '=' => some [.assign]
  | ';' | '\n' => some [.stop]
  | ' ' | '\t' => some []
  | _ => none

/-- Read one character: the tokens that it ends, and what is pending after it. -/
def lexStep (p : Pending) (c : Char) : Option (List Tok × Pending) :=
  if c.isDigit then
    let digit := c.toNat - '0'.toNat
    match p with
    | .number n places => some ([],.number (10 * n + digit) (places.map (· + 1)))
    | p => some (p.flush,.number digit none)
  else if c = '.' then
    match p with
    | .number n none => some ([],.number n (some 0))
    | p => some (p.flush,.number 0 (some 0))
  else if c.isLower then
    match p with
    | .word w => some ([],.word (w ++ [c]))
    | p => some (p.flush,.word [c])
  else (operator c).map fun ts => (p.flush ++ ts,.none)

def lex : Pending → List Char → Option (List Tok)
  | p, [] => some p.flush
  | p, c :: cs => (lexStep p c).bind fun (ts,p) => (lex p cs).map (ts ++ ·)

inductive Expr where
  | num (x : Number) | neg (e : Expr)
  | add (a b : Expr) | sub (a b : Expr) | mul (a b : Expr) | div (a b : Expr) | pow (a b : Expr)

/-- What the parser expects: sums and products carry what stands left of the next operator. -/
inductive Goal where
  | sum | sumAfter (a : Expr) | product | productAfter (a : Expr) | power | atom

def parse : Nat → Goal → List Tok → Option (Expr × List Tok)
  | 0, _, _ => none
  | f+1, .sum, ts => (parse f .product ts).bind fun (a,ts) => parse f (.sumAfter a) ts
  | f+1, .sumAfter a, ts => match ts with
    | .plus :: ts => (parse f .product ts).bind fun (b,ts) => parse f (.sumAfter (.add a b)) ts
    | .minus :: ts => (parse f .product ts).bind fun (b,ts) => parse f (.sumAfter (.sub a b)) ts
    | ts => some (a,ts)
  | f+1, .product, ts => (parse f .power ts).bind fun (a,ts) => parse f (.productAfter a) ts
  | f+1, .productAfter a, ts => match ts with
    | .times :: ts => (parse f .power ts).bind fun (b,ts) => parse f (.productAfter (.mul a b)) ts
    | .over :: ts => (parse f .power ts).bind fun (b,ts) => parse f (.productAfter (.div a b)) ts
    | ts => some (a,ts)
  | f+1, .power, ts => (parse f .atom ts).bind fun (a,ts) => match ts with
    | .caret :: ts => (parse f .power ts).map fun (b,ts) => (.pow a b,ts)
    | ts => some (a,ts)
  | f+1, .atom, ts => match ts with
    | .num x :: ts => some (.num x,ts)
    | .minus :: ts => (parse f .atom ts).map fun (a,ts) => (.neg a,ts)
    | .open :: ts => (parse f .sum ts).bind fun (a,ts) => match ts with
      | .close :: ts => some (a,ts)
      | _ => none
    | _ => none

/-- A division by zero ends the program. -/
def eval (scale : Nat) : Expr → Option Number
  | .num x => some x
  | .neg a => (eval scale a).map .neg
  | .add a b => (eval scale a).bind fun x => (eval scale b).map x.add
  | .sub a b => (eval scale a).bind fun x => (eval scale b).map fun y => x.add y.neg
  | .mul a b => (eval scale a).bind fun x => (eval scale b).map (Number.mul scale x)
  | .div a b => (eval scale a).bind fun x => (eval scale b).bind (Number.div scale x)
  | .pow a b => (eval scale a).bind fun x => (eval scale b).bind (Number.pow scale x)

def scaleWord : List Char := ['s','c','a','l','e']

def exec : Nat → (scale : Nat) → List Tok → Option (List Number)
  | 0, _, _ => none
  | f+1, scale, ts =>
    let fuel := 8 * (ts.length + 1)
    match ts with
    | [] => some []
    | .stop :: ts => exec f scale ts
    | .word w :: .assign :: ts =>
      if w = scaleWord then
        (parse fuel .sum ts).bind fun (e,ts) => (eval scale e).bind fun x =>
          match ts with
          | [] | .stop :: _ => exec f (x.unscaled.tdiv (10 ^ x.scale)).toNat ts
          | _ => none
      else none
    | ts =>
      (parse fuel .sum ts).bind fun (e,ts) => (eval scale e).bind fun x =>
        match ts with
        | [] | .stop :: _ => (exec f scale ts).map (x :: ·)
        | _ => none

theorem exec_expr {t : Tok} {ts : List Tok} (hstop : t ≠ .stop) (hword : ∀ w, t ≠ .word w)
    {scale fuel : Nat} {e : Expr} (hfuel : 3 ≤ fuel)
    (hparse : parse (8 * ((t :: ts).length + 1)) .sum (t :: ts) = some (e,[.stop])) :
    exec fuel scale (t :: ts) = (eval scale e).map fun x => [x] := by
  obtain ⟨fuel,rfl⟩ := Nat.exists_eq_add_of_le' hfuel
  have hexec : exec (fuel + 3) scale (t :: ts) =
      (parse (8 * ((t :: ts).length + 1)) .sum (t :: ts)).bind fun (e,ts) =>
        (eval scale e).bind fun x => match ts with
          | [] | .stop :: _ => (exec (fuel + 2) scale ts).map (x :: ·)
          | _ => none := by
    cases t with
    | stop => exact absurd rfl hstop
    | word w => exact absurd rfl (hword w)
    | _ => rfl
  rw [hexec, hparse]
  simp only [Option.bind_some]
  cases eval scale e <;> rfl

/-- A backslash at the end of a line joins it with the next. -/
def unwrap : List Char → List Char
  | '\\' :: '\n' :: cs => unwrap cs
  | c :: cs => c :: unwrap cs
  | [] => []

/-- An output line takes 68 characters, and then a backslash if it goes on. -/
def wrapFrom : Nat → List Char → List Char
  | _, [] => []
  | column, c :: cs =>
    if column = 68 then '\\' :: '\n' :: c :: wrapFrom 1 cs else c :: wrapFrom (column + 1) cs

def wrap (cs : List Char) : List Char := wrapFrom 0 cs

/-- The output of a program, started with the given scale; an error prints nothing. -/
def bc (scale : Nat) (program : List Char) : List Char :=
  match (lex .none (unwrap program)).bind fun ts => exec (ts.length + 1) scale ts with
  | some values => values.flatMap fun x => wrap x.print ++ ['\n']
  | none => []

example : bc 0 "-1.5*10^3 + .25".toList = "-1499.75\n".toList := by decide
example : bc 0 "5*10^-1 + 2".toList = "2\n".toList := by decide
example : bc 20 "scale=3; -.5/(2)".toList = "-.250\n".toList := by decide

theorem unwrap_append {cs : List Char} (h : '\\' ∉ cs) (rest : List Char) :
    unwrap (cs ++ rest) = cs ++ unwrap rest := by
  induction cs with
  | nil => rfl
  | cons c cs ih =>
    rw [List.mem_cons, not_or] at h
    rw [List.cons_append, unwrap, ih h.2, List.cons_append]
    intro _ hc
    exact absurd hc.symm h.1

private theorem unwrap_wrapFrom {cs : List Char} (h : '\\' ∉ cs) (column : Nat) (rest : List Char) :
    unwrap (wrapFrom column cs ++ rest) = cs ++ unwrap rest := by
  induction cs generalizing column with
  | nil => rfl
  | cons c cs ih =>
    rw [List.mem_cons, not_or] at h
    have hsingle : '\\' ∉ [c] := by simpa using h.1
    have hnext := fun column => unwrap_append hsingle (wrapFrom column cs ++ rest)
    rw [wrapFrom]
    split_ifs
    · rw [List.cons_append, List.cons_append, unwrap]
      simpa [ih h.2] using hnext 1
    · simpa [ih h.2] using hnext (column + 1)

private theorem getLast?_wrapFrom (column : Nat) (cs : List Char) :
    (wrapFrom column cs).getLast? = cs.getLast? := by
  induction cs generalizing column with
  | nil => rfl
  | cons c cs ih =>
    have hnext : ∀ column, (c :: wrapFrom column cs).getLast? = (c :: cs).getLast? := fun column => by
      rw [List.getLast?_cons, List.getLast?_cons, ih]
    rw [wrapFrom]
    split_ifs
    · rw [List.getLast?_cons_cons, List.getLast?_cons_cons, hnext]
    · exact hnext _

theorem unwrap_print (x : Number) (rest : List Char) :
    unwrap (wrap x.print ++ rest) = x.print ++ unwrap rest :=
  unwrap_wrapFrom (x.notMem_print rfl) 0 rest

theorem getLast?_print (x : Number) : (wrap x.print).getLast? ≠ some '\n' := by
  rw [wrap, getLast?_wrapFrom]
  exact fun h => x.notMem_print rfl (List.mem_of_getLast? h)

theorem bc_eq {scale : Nat} {program : List Char} {ts : List Tok} {x : Number}
    (hlex : lex .none (unwrap program) = some ts) (hexec : exec (ts.length + 1) scale ts = some [x]) :
    bc scale program = wrap x.print ++ ['\n'] := by
  simp [bc, hlex, hexec]

private theorem wrapFrom_of_le {column : Nat} {cs : List Char} (h : column + cs.length ≤ 68) :
    wrapFrom column cs = cs := by
  induction cs generalizing column with
  | nil => rfl
  | cons c cs ih =>
    rw [List.length_cons] at h
    rw [wrapFrom, if_neg (by omega), ih (by omega)]

private theorem backslash_mem_wrapFrom {column : Nat} {cs : List Char} (hcolumn : column ≤ 68)
    (h : 68 < column + cs.length) : '\\' ∈ wrapFrom column cs := by
  induction cs generalizing column with
  | nil => simp at h; omega
  | cons c cs ih =>
    rw [List.length_cons] at h
    rw [wrapFrom]
    split_ifs with hend
    · simp
    · exact List.mem_cons_of_mem _ (ih (by omega) (by omega))

theorem wrap_of_le {cs : List Char} (h : cs.length ≤ 68) : wrap cs = cs :=
  wrapFrom_of_le (by omega)

theorem backslash_mem_wrap {cs : List Char} (h : 68 < cs.length) : '\\' ∈ wrap cs :=
  backslash_mem_wrapFrom (by decide) (by omega)

theorem mem_wrapFrom {c : Char} (hback : c ≠ '\\') (hline : c ≠ '\n') {column : Nat} {cs : List Char} :
    c ∈ wrapFrom column cs ↔ c ∈ cs := by
  induction cs generalizing column with
  | nil => rfl
  | cons d cs ih =>
    rw [wrapFrom]
    split_ifs <;> simp [hback, hline, ih]

def signTok (negative : Bool) : List Tok := if negative then [.minus] else []

theorem lex_digits {ds : List Char} (h : ∀ c ∈ ds, c.isDigit) (n : Nat) (places : Option Nat)
    (rest : List Char) : lex (.number n places) (ds ++ rest) =
      lex (.number (Nat.ofDigitChars 10 ds n) (places.map (· + ds.length))) rest := by
  induction ds generalizing n places with
  | nil => cases places <;> simp
  | cons c ds ih =>
    obtain ⟨hc,hds⟩ := List.forall_mem_cons.mp h
    simp only [List.cons_append, lex, lexStep, hc, if_true, Option.bind_some, List.nil_append,
      Option.map_id_fun', id_eq]
    rw [ih hds, Nat.ofDigitChars_cons, Option.map_map]
    congr 3
    funext k
    simp [Nat.add_comm, Nat.add_left_comm]

theorem lex_int {ds : List Char} (h : ∀ c ∈ ds, c.isDigit) (hne : ds ≠ []) (rest : List Char) :
    lex .none (ds ++ rest) = lex (.number (Nat.ofDigitChars 10 ds 0) none) rest := by
  cases ds with
  | nil => exact absurd rfl hne
  | cons c ds =>
    obtain ⟨hc,hds⟩ := List.forall_mem_cons.mp h
    simp only [List.cons_append, lex, lexStep, hc, if_true, Option.bind_some, Pending.flush,
      List.nil_append, Option.map_id_fun', id_eq]
    rw [lex_digits hds, Nat.ofDigitChars_cons]
    simp

private theorem lex_frac {frac : List Char} (h : ∀ c ∈ frac, c.isDigit) (n : Nat) (rest : List Char) :
    lex (.number n none) ('.' :: frac ++ rest) =
      lex (.number (Nat.ofDigitChars 10 frac n) (some frac.length)) rest := by
  simpa [lex, lexStep] using lex_digits h n (some 0) rest

def numberOf (x : Numeral) : Pending := .number x.unscaled (x.frac.map List.length)

@[simp] theorem flush_numberOf (x : Numeral) : (numberOf x).flush = [.num (.ofNumeral x)] := rfl

private theorem lex_numeral (x : Numeral) (rest : List Char) :
    lex .none (x.text ++ rest) = lex (numberOf x) rest := by
  have hdigit := x.some_digit
  have hfracs := x.frac_digits
  unfold Numeral.text numberOf Numeral.unscaled
  cases hfrac : x.frac with
  | none =>
    simp only [hfrac, Option.getD_none, List.append_nil] at hdigit ⊢
    exact lex_int x.int_digits hdigit rest
  | some frac =>
    simp only [hfrac, Option.getD_some] at hdigit hfracs ⊢
    rw [List.append_assoc, Nat.ofDigitChars_append]
    by_cases hint : x.int = []
    · simpa [hint, lex, lexStep, Pending.flush] using lex_digits hfracs 0 (some 0) rest
    · rw [lex_int x.int_digits hint, lex_frac hfracs]
      rfl

theorem lex_signed (negative : Bool) (x : Numeral) (rest : List Char) :
    lex .none (signText negative ++ x.text ++ rest) =
      (lex (numberOf x) rest).map (signTok negative ++ ·) := by
  rw [List.append_assoc]
  cases negative with
  | false => simp [signText, signTok, lex_numeral]
  | true =>
    rw [show signText true = ['-'] from rfl, List.singleton_append, lex]
    simp [lexStep, operator, Pending.flush, lex_numeral, signTok]

theorem lex_operator {c : Char} {ts : List Tok} (hdigit : c.isDigit = false) (hpoint : c ≠ '.')
    (hlower : c.isLower = false) (hop : operator c = some ts) (p : Pending) (rest : List Char) :
    lex p (c :: rest) = (lex .none rest).map (p.flush ++ ts ++ ·) := by
  simp [lex, lexStep, hdigit, hpoint, hlower, hop]

theorem lex_space (p : Pending) (rest : List Char) :
    lex p (' ' :: rest) = (lex .none rest).map (p.flush ++ ·) := by
  simpa using lex_operator rfl (by decide) rfl rfl p rest (c := ' ')

end ChaosBundle.Bc

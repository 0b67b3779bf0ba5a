import Mathlib.Data.List.Infix

/-! Patterns of the shell for one component of a path, with characters compared by
their codes. An unclosed bracket and a final backslash stand for themselves. -/
namespace ChaosBundle.Glob

/-- What may stand between brackets: a range, or a named class such as `[:digit:]`. -/
inductive Member where
  | range (low high : Char)
  | named (name : List Char)
  deriving DecidableEq

inductive Token where
  | any | one | lit (c : Char) | set (negated : Bool) (members : List Member)
  deriving DecidableEq

def Member.has (c : Char) : Member → Bool
  | .range low high => low ≤ c && c ≤ high
  | .named name =>
    let printed := 32 < c.toNat && c.toNat < 127
    match String.ofList name with
    | "alpha" => c.isAlpha
    | "digit" => c.isDigit
    | "alnum" => c.isAlphanum
    | "upper" => c.isUpper
    | "lower" => c.isLower
    | "blank" => c == ' ' || c == '\t'
    | "space" => c.isWhitespace || c.toNat == 11 || c.toNat == 12
    | "cntrl" => c.toNat < 32 || c.toNat == 127
    | "punct" => printed && !c.isAlphanum
    | "graph" => printed
    | "print" => printed || c == ' '
    | "xdigit" => c.isDigit || ('a' ≤ c && c ≤ 'f') || ('A' ≤ c && c ≤ 'F')
    | _ => false

/-- The name before `:]`, and how many characters it takes with its end. -/
def className : List Char → Option (List Char × Nat)
  | ':' :: ']' :: _ => some ([],2)
  | c :: cs => (className cs).map fun (name,n) => (c :: name,n+1)
  | [] => none

/-- The members up to the closing bracket, and how many characters they take with it.
The number skips what an earlier member has read; `atStart` makes `]` a member. -/
def members : Nat → (atStart : Bool) → List Char → Option (List Member × Nat)
  | _, _, [] => none
  | n+1, _, _ :: cs => (members n false cs).map fun (ms,k) => (ms,k+1)
  | 0, atStart, c :: cs =>
    if c = ']' ∧ ¬ atStart then some ([],1)
    else
      let (m,skip) : Member × Nat := match c, cs with
        | '[', ':' :: rest => match className rest with
          | some (name,n) => (.named name,n+1)
          | none => (.range '[' '[',0)
        | '\\', d :: _ => (.range d d,1)
        | low, '-' :: high :: _ => if high = ']' then (.range low low,0) else (.range low high,2)
        | low, _ => (.range low low,0)
      (members skip false cs).map fun (ms,k) => (m :: ms,k+1)

/-- A bracket expression after its opening bracket, with the characters it takes. -/
def bracket : List Char → Option (Token × Nat)
  | '!' :: cs => (members 0 true cs).map fun (ms,n) => (.set true ms,n+1)
  | '^' :: cs => (members 0 true cs).map fun (ms,n) => (.set true ms,n+1)
  | cs => (members 0 true cs).map fun (ms,n) => (.set false ms,n)

/-- The token that a character starts, with what it takes of the characters after it. -/
def headToken (c : Char) (cs : List Char) : Token × Nat :=
  if c = '*' then (.any,0)
  else if c = '?' then (.one,0)
  else if c = '[' then (bracket cs).getD (.lit '[',0)
  else if c = '\\' then match cs with
    | d :: _ => (.lit d,1)
    | [] => (.lit '\\',0)
  else (.lit c,0)

/-- The number skips the characters that the token before has taken. -/
def tokensFrom : Nat → List Char → List Token
  | _, [] => []
  | n+1, _ :: cs => tokensFrom n cs
  | 0, c :: cs => (headToken c cs).1 :: tokensFrom (headToken c cs).2 cs

def tokens (pattern : List Char) : List Token := tokensFrom 0 pattern

def Token.accepts (c : Char) : Token → Bool
  | .any => false
  | .one => true
  | .lit d => c == d
  | .set negated ms => ms.any (·.has c) != negated

def globMatch : List Token → List Char → Bool
  | [], name => name.isEmpty
  | .any :: ts, name => name.tails.any (globMatch ts)
  | _ :: _, [] => false
  | t :: ts, c :: name => t.accepts c && globMatch ts name

/-- A name with a leading period is matched only by a pattern that spells the period. -/
def fnMatch (pattern name : List Char) : Bool :=
  (name.head? != some '.' || (tokens pattern).head? == some (.lit '.')) &&
    globMatch (tokens pattern) name

/-- The word is subject to expansion. -/
def hasPattern (word : List Char) : Bool := word.any fun c => c = '*' || c = '?' || c = '['

/-- The token of a character that neither opens a bracket nor quotes its successor. -/
def plainToken (c : Char) : Token := if c = '*' then .any else if c = '?' then .one else .lit c

/-- Neither brackets nor backslashes occur in the word. -/
def Simple (word : List Char) : Prop := ∀ c ∈ word, c ≠ '[' ∧ c ≠ '\\'

instance (word : List Char) : Decidable (Simple word) := List.decidableBAll _ word

private theorem headToken_simple {c : Char} (h : c ≠ '[' ∧ c ≠ '\\') (cs : List Char) :
    headToken c cs = (plainToken c,0) := by
  unfold headToken plainToken
  grind

theorem tokens_append {word : List Char} (h : Simple word) (rest : List Char) :
    tokens (word ++ rest) = word.map plainToken ++ tokens rest := by
  unfold tokens
  induction word with
  | nil => rfl
  | cons c cs ih =>
    obtain ⟨hc,htail⟩ := List.forall_mem_cons.mp h
    rw [List.cons_append, tokensFrom, headToken_simple hc, ih htail]
    rfl

private theorem tokens_simple {word : List Char} (h : Simple word) :
    tokens word = word.map plainToken := by
  simpa [tokens, tokensFrom] using tokens_append h []

theorem globMatch_any {ts : List Token} (stretch : List Char) {rest : List Char}
    (h : globMatch ts rest) : globMatch (.any :: ts) (stretch ++ rest) := by
  simp only [globMatch, List.any_eq_true, List.mem_tails]
  exact ⟨rest,List.suffix_append _ _,h⟩

@[simp] theorem globMatch_lit (c : Char) (ts : List Token) (name : List Char) :
    globMatch (.lit c :: ts) (c :: name) = globMatch ts name := by
  simp [globMatch, Token.accepts]

@[simp] theorem globMatch_any_end (name : List Char) : globMatch [.any] name := by
  simp [globMatch]

theorem globMatch_lits (word : List Char) (ts : List Token) (name : List Char) :
    globMatch (word.map .lit ++ ts) name ↔ ∃ rest, name = word ++ rest ∧ globMatch ts rest := by
  induction word generalizing name with
  | nil => simp
  | cons c cs ih =>
    cases name with
    | nil => simp [globMatch]
    | cons d name =>
      simp only [List.map_cons, List.cons_append, globMatch, Token.accepts, Bool.and_eq_true,
        beq_iff_eq, ih, List.cons.injEq]
      constructor
      · rintro ⟨rfl,rest,rfl,hrest⟩
        exact ⟨rest,⟨rfl,rfl⟩,hrest⟩
      · rintro ⟨rest,⟨rfl,rfl⟩,hrest⟩
        exact ⟨rfl,rest,rfl,hrest⟩

/-- No character of the word means anything but itself in a pattern. -/
def Literal (word : List Char) : Prop := ∀ c ∈ word, c ≠ '*' ∧ c ≠ '?' ∧ c ≠ '[' ∧ c ≠ '\\'

instance (word : List Char) : Decidable (Literal word) := List.decidableBAll _ word

private theorem Literal.simple {word : List Char} (h : Literal word) : Simple word := fun c hc =>
  (h c hc).2.2

@[simp] theorem literal_append {word rest : List Char} :
    Literal (word ++ rest) ↔ Literal word ∧ Literal rest := List.forall_mem_append

@[simp] theorem literal_cons {c : Char} {word : List Char} :
    Literal (c :: word) ↔ (c ≠ '*' ∧ c ≠ '?' ∧ c ≠ '[' ∧ c ≠ '\\') ∧ Literal word :=
  List.forall_mem_cons

@[simp] theorem literal_nil : Literal [] := fun _ hc => by cases hc

theorem tokens_literal {word : List Char} (h : Literal word) (rest : List Char) :
    tokens (word ++ rest) = word.map .lit ++ tokens rest := by
  rw [tokens_append h.simple]
  congr 1
  exact List.map_congr_left fun c hc => by simp [plainToken, h c hc]

theorem fnMatch_prefix {word : List Char} (hne : word ≠ []) (h : Literal word)
    (name : List Char) : fnMatch (word ++ ['*']) name ↔ word <+: name := by
  have hstar : ∀ rest, globMatch (tokens ['*']) rest := globMatch_any_end
  have hglob := globMatch_lits word (tokens ['*']) name
  simp only [hstar, and_true] at hglob
  rw [fnMatch, tokens_literal h, Bool.and_eq_true, hglob]
  constructor
  · rintro ⟨-,rest,rfl⟩
    exact List.prefix_append _ _
  · rintro ⟨rest,rfl⟩
    refine ⟨?_,rest,rfl⟩
    cases word with
    | nil => exact absurd rfl hne
    | cons c word => by_cases hc : c = '.' <;> simp [hc]

private theorem globMatch_self (word : List Char) : globMatch (word.map plainToken) word := by
  induction word with
  | nil => rfl
  | cons c cs ih =>
    by_cases ha : c = '*'
    · simpa [plainToken, ha] using globMatch_any [c] ih
    by_cases hq : c = '?'
    · simpa [plainToken, hq, globMatch, Token.accepts] using ih
    simpa [plainToken, ha, hq, globMatch, Token.accepts] using ih

/-- Without brackets and backslashes a word, read as a pattern, matches itself. -/
theorem fnMatch_self {word : List Char} (h : Simple word) : fnMatch word word := by
  rw [fnMatch, tokens_simple h, globMatch_self, Bool.and_true]
  cases word with
  | nil => rfl
  | cons c cs =>
    by_cases hc : c = '.'
    · simp [hc, plainToken]
    · simp [hc]

example : fnMatch "unit-[!a-c]?*.pid".toList "unit-dx.pid".toList = true := by decide

end ChaosBundle.Glob

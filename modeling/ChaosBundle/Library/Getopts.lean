import Mathlib.Data.List.Basic

/-! `getopts` of the shell: the options in front of the operands, with their arguments. -/
namespace ChaosBundle.Getopts

abbrev Word := List Char

/-- Whether the option takes an argument, for an option of the string. -/
def arity : Word → Char → Option Bool
  | [], _ => none
  | c :: ':' :: cs, d => if c = d then some true else arity cs d
  | c :: cs, d => if c = d then some false else arity cs d

/-- The value of `opt` and `OPTARG`. -/
abbrev Found := Char × Word

/-- The options in one word, and the one that waits for the next word as its argument. An
unknown letter is reported as `?`. -/
def letters (optstring : Word) : Word → List Found × Option Char
  | [] => ([],none)
  | c :: cs => match arity optstring c with
    | some true => if cs = [] then ([],some c) else ([(c,cs)],none)
    | some false => ((c,[]) :: (letters optstring cs).1,(letters optstring cs).2)
    | none => (('?',[]) :: (letters optstring cs).1,(letters optstring cs).2)

/-- The options found one after the other, up to the first operand or to `--`. -/
def getopts (optstring : Word) : Option Char → List Word → List Found
  | none, [] => []
  | some _, [] => [('?',[])]
  | some c, v :: ws => (c,v) :: getopts optstring none ws
  | none, ('-' :: c :: cs) :: ws =>
    if c = '-' ∧ cs = [] then []
    else (letters optstring (c :: cs)).1 ++ getopts optstring (letters optstring (c :: cs)).2 ws
  | none, _ :: _ => []

variable {optstring : Word} {c : Char} {cs v : Word} {ws : List Word}

theorem getopts_word (hc : c ≠ '-') :
    getopts optstring none (('-' :: c :: cs) :: ws) =
      (letters optstring (c :: cs)).1 ++ getopts optstring (letters optstring (c :: cs)).2 ws := by
  simp [getopts, hc]

/-- An option with its argument in the next word. -/
theorem getopts_separate (hc : c ≠ '-') (h : arity optstring c = some true) :
    getopts optstring none (['-',c] :: v :: ws) = (c,v) :: getopts optstring none ws := by
  simp [getopts_word hc, letters, h, getopts]

theorem getopts_attached (hc : c ≠ '-') (h : arity optstring c = some true) (hv : v ≠ []) :
    getopts optstring none (('-' :: c :: v) :: ws) = (c,v) :: getopts optstring none ws := by
  simp [getopts_word hc, letters, h, hv]

theorem getopts_flag (hc : c ≠ '-') (h : arity optstring c = some false) :
    getopts optstring none (['-',c] :: ws) = (c,[]) :: getopts optstring none ws := by
  simp [getopts_word hc, letters, h]

theorem getopts_cluster (hc : c ≠ '-') (h : arity optstring c = some false) {d : Char} (hd : d ≠ '-') :
    getopts optstring none (('-' :: c :: d :: cs) :: ws) =
      (c,[]) :: getopts optstring none (('-' :: d :: cs) :: ws) := by
  rw [getopts_word hc, getopts_word hd, letters, h]
  rfl

end ChaosBundle.Getopts

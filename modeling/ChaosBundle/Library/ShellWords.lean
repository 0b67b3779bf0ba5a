import Mathlib.Data.List.Basic
import Mathlib.Data.List.DropRight

/-! Command substitution, `echo`, and field splitting of the unquoted words of the shell. -/
namespace ChaosBundle.ShellWords

/-- The default separators. -/
def isIfs (c : Char) : Bool := c = ' ' || c = '\t' || c = '\n'

def fields (word : List Char) : List (List Char) := (word.splitOnP isIfs).filter (· ≠ [])

theorem fields_eq {word : List Char} (hne : word ≠ []) (h : ∀ c ∈ word, isIfs c = false) :
    fields word = [word] := by
  have hsplit : word.splitOnP isIfs = [word] := by
    apply List.splitOnP_eq_singleton
    simpa using h
  simp [fields, hsplit, hne]

@[simp] theorem fields_nil : fields [] = [] := by simp [fields, List.splitOnP_nil]

theorem fields_append_cons (a : List Char) {sep : Char} (h : isIfs sep) (b : List Char) :
    fields (a ++ sep :: b) = fields a ++ fields b := by
  rw [fields, List.splitOnP_append_cons a b h, List.filter_append]
  rfl

/-- Command substitution takes the output without the newlines at its end. -/
def capture (output : List Char) : List Char := output.rdropWhile (· == '\n')

theorem capture_line {line : List Char} (h : line.getLast? ≠ some '\n') :
    capture (line ++ ['\n']) = line := by
  rw [capture, List.rdropWhile_concat_pos _ _ _ rfl, List.rdropWhile_eq_self_iff]
  intro hne hlast
  exact h (by simpa [List.getLast?_eq_some_getLast hne] using hlast)

theorem mem_capture {output : List Char} {c : Char} (hc : c ≠ '\n') :
    c ∈ capture output ↔ c ∈ output := by
  rw [capture, List.rdropWhile, List.mem_reverse, ← @List.mem_reverse _ c output]
  constructor
  · exact fun h => (List.dropWhile_suffix _).subset h
  · intro h
    rw [← @List.takeWhile_append_dropWhile _ (· == '\n') output.reverse] at h
    rcases List.mem_append.mp h with h | h
    · exact absurd (by simpa using List.mem_takeWhile_imp h) hc
    · exact h

/-- The newlines that command substitution drops separate nothing. -/
theorem fields_capture (output : List Char) : fields (capture output) = fields output := by
  induction output using List.reverseRecOn with
  | nil => rfl
  | append_singleton output c ih =>
    by_cases hc : c = '\n'
    · subst hc
      rw [capture, List.rdropWhile_concat_pos _ _ _ rfl, ← capture, ih,
        fields_append_cons output rfl [], fields_nil, List.append_nil]
    · rw [capture, List.rdropWhile_concat_neg _ _ _ (by simpa using hc)]

/-- `-n`, `-e`, `-E` and their combinations are options of `echo`. -/
def isEchoOption : List Char → Bool
  | '-' :: c :: cs => (c :: cs).all (· ∈ ['n','e','E'])
  | _ => false

/-- `echo "$word"` in bash. -/
def echo (word : List Char) : List Char :=
  if isEchoOption word then if 'n' ∈ word then [] else ['\n']
  else word ++ ['\n']

example : echo "-ne".toList = [] ∧ echo "-E".toList = ['\n'] ∧ echo "-".toList = ['-','\n'] := by decide

theorem echo_eq {word : List Char} (h : isEchoOption word = false) : echo word = word ++ ['\n'] := by
  rw [echo, h, if_neg Bool.false_ne_true]

end ChaosBundle.ShellWords

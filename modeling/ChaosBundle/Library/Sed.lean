import Mathlib.Data.List.Infix
import Mathlib.Data.List.Basic

/-! The `s` command of `sed` for patterns and replacements that stand for themselves. -/
namespace ChaosBundle.Sed

abbrev Text := List Char

def replaceFirst (pat rep : Text) : Text → Text
  | [] => []
  | c :: cs => if pat <+: c :: cs then rep ++ (c :: cs).drop pat.length else c :: replaceFirst pat rep cs

/-- The first occurrence on each line is replaced. -/
def substitute (pat rep text : Text) : Text :=
  ['\n'].intercalate ((text.splitOn '\n').map (replaceFirst pat rep))

def isPatternChar (c : Char) : Bool := c.isAlphanum || c == ':'

def isReplacementChar (c : Char) : Bool := c != '&' && c != '\\' && c != '\n'

/-- A script `s/pat/rep/` that needs no more than that. -/
def script (w : Text) : Option (Text × Text) :=
  match w.splitOn '/' with
  | [cmd,pat,rep,flags] =>
    if cmd = ['s'] ∧ flags = [] ∧ pat ≠ [] ∧ pat.all isPatternChar ∧ rep.all isReplacementChar then
      some (pat,rep) else none
  | _ => none

theorem script_eq {pat rep : Text} (hne : pat ≠ []) (hpat : ∀ c ∈ pat, isPatternChar c)
    (hrep : ∀ c ∈ rep, isReplacementChar c) (hslash : '/' ∉ rep) :
    script ('s' :: '/' :: (pat ++ '/' :: (rep ++ ['/']))) = some (pat,rep) := by
  have hpatSlash : '/' ∉ pat := fun h => absurd (hpat _ h) (by decide)
  have hsplit : ('s' :: '/' :: (pat ++ '/' :: (rep ++ ['/']))).splitOn '/' = [['s'],pat,rep,[]] := by
    have hjoin : 's' :: '/' :: (pat ++ '/' :: (rep ++ ['/'])) = ['/'].intercalate [['s'],pat,rep,[]] := by
      simp [List.intercalate_cons_cons]
    rw [hjoin, List.splitOn_intercalate]
    · simp [hpatSlash, hslash]
    · simp
  have hall : pat.all isPatternChar ∧ rep.all isReplacementChar :=
    ⟨List.all_eq_true.mpr hpat,List.all_eq_true.mpr hrep⟩
  simp [script, hsplit, hne, hall]

end ChaosBundle.Sed

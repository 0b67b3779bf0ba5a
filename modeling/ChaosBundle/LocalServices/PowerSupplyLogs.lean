import ChaosBundle.LocalServices.Pairs

/-! The log files of `test-powersupply.sh`: one for each control unit, named after the
numbers of its unit server and of the control unit itself. -/
namespace ChaosBundle.LocalServices
open DecimalFields Glob

def testexe : List Char := "powersupply_test".toList

/-- `$TESTEXE-$us-$cu.` followed by an ending. -/
def logFile (p : Pair) (ending : List Char) : List Char :=
  testexe ++ '-' :: (digits p.1 ++ '-' :: (digits p.2 ++ '.' :: ending))

def logName (p : Pair) : List Char := logFile p ['l','o','g']

def okName (p : Pair) : List Char := logFile p ['o','k','.','l','o','g']

def failName (p : Pair) : List Char := logFile p ['f','a','i','l','.','l','o','g']

theorem logFile_inj {p q : Pair} {e f : List Char} : logFile p e = logFile q f ↔ p = q ∧ e = f := by
  rw [logFile, logFile, List.append_cancel_left_eq, List.cons.injEq, field_inj (dash_notMem _) (dash_notMem _),
    field_inj (dot_notMem _) (dot_notMem _), digits_injective.eq_iff, digits_injective.eq_iff, Prod.ext_iff,
    and_assoc, eq_self, true_and]

theorem okName_ne (p q : Pair) : okName p ≠ logName q := fun h => by
  simpa using (logFile_inj.mp h).2

theorem failName_ne (p q : Pair) : failName p ≠ logName q := fun h => by
  simpa using (logFile_inj.mp h).2

/-- `rm -rf $CHAOS_PREFIX/log/$TESTEXE-$us-$cu.*` takes every log of its own pair, and of no
other. -/
theorem rm_logFile (p q : Pair) (ending : List Char) :
    fnMatch (logFile p ['*']) (logFile q ending) ↔ q = p := by
  have hword : logFile p ['*'] = logFile p [] ++ ['*'] := by simp [logFile]
  have hliteral : Literal (logFile p []) := by
    have htestexe : Literal testexe := by decide
    simp [logFile, htestexe, literal_digits]
  rw [hword, fnMatch_prefix (by simp [logFile]) hliteral]
  have hjoin : ∀ t, logFile p [] ++ t = logFile p t := fun t => by simp [logFile]
  constructor
  · rintro ⟨t,ht⟩
    exact (logFile_inj.mp ((hjoin t).symm.trans ht)).1.symm
  · rintro rfl
    exact ⟨ending,hjoin ending⟩

end ChaosBundle.LocalServices

import ChaosBundle.Library.DecimalFields
import Mathlib.Data.List.Infix
import Mathlib.Data.List.TakeWhile

/-! Strings of C in a buffer: they end before the first NUL, or with the buffer. -/
namespace ChaosBundle.CString

/-- A `Char` of the buffer stands for one `char` of C. -/
abbrev Buffer := List Char

def nul : Char := ⟨0,by decide⟩

def cstring (b : Buffer) : List Char := b.takeWhile (· != nul)

def strstr (b : Buffer) (needle : List Char) : Bool := decide (needle <:+: cstring b)

/-- The place of the first such character. -/
def strchr (b : Buffer) (c : Char) : Option Nat :=
  if c ∈ cstring b then some ((cstring b).takeWhile (· != c)).length else none

theorem cstring_of_notMem {b : Buffer} (h : nul ∉ b) : cstring b = b := by
  rw [cstring, List.takeWhile_eq_self_iff]
  intro c hc
  simpa using fun hnul : c = nul => h (hnul ▸ hc)

theorem cstring_append_nul {a : Buffer} (h : nul ∉ a) (b : Buffer) : cstring (a ++ nul :: b) = a :=
  DecimalFields.takeWhile_field h b

theorem cstring_append {a : Buffer} (h : nul ∉ a) (b : Buffer) : cstring (a ++ b) = a ++ cstring b := by
  rw [cstring, List.takeWhile_append_of_pos fun c hc => ?_]
  · rfl
  · simpa using fun hnul : c = nul => h (hnul ▸ hc)

theorem nul_notMem_cstring (b : Buffer) : nul ∉ cstring b := fun h => by
  simpa using List.mem_takeWhile_imp h

theorem cstring_eq_self_iff {b : Buffer} : cstring b = b ↔ nul ∉ b := by
  constructor
  · intro h
    rw [← h]
    exact nul_notMem_cstring b
  · exact cstring_of_notMem

theorem exists_split {b : Buffer} {c : Char} (h : c ∈ cstring b) :
    ∃ left right, b = left ++ c :: right ∧ c ∉ left ∧ nul ∉ left := by
  obtain ⟨left,right,hsplit,hleft⟩ := List.eq_append_cons_of_mem h
  refine ⟨left,right ++ b.dropWhile (· != nul),?_,hleft,fun hnul => ?_⟩
  · have hb : cstring b ++ b.dropWhile (· != nul) = b := List.takeWhile_append_dropWhile
    rw [hsplit, List.append_assoc] at hb
    exact hb.symm
  · exact nul_notMem_cstring b (hsplit ▸ List.mem_append_left _ hnul)

theorem strchr_split {left : Buffer} {c : Char} (hc : c ∉ left) (hnul : nul ∉ left) (hne : c ≠ nul)
    (right : Buffer) : strchr (left ++ c :: right) c = some left.length := by
  have hstring : cstring (left ++ c :: right) = left ++ c :: cstring right := by
    rw [cstring_append hnul, cstring, List.takeWhile_cons_of_pos (by simpa using hne)]
    rfl
  rw [strchr, hstring, if_pos (by simp), DecimalFields.takeWhile_field hc]

theorem strchr_eq_none {b : Buffer} {c : Char} (h : c ∉ cstring b) : strchr b c = none := if_neg h

end ChaosBundle.CString

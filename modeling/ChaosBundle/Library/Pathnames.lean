import ChaosBundle.Library.DecimalFields
import ChaosBundle.Library.ShellWords
import ChaosBundle.Library.TextLines

/-! Expansion of the unquoted words of a command in a directory whose files are left open. -/
namespace ChaosBundle.ShellWords

/-- Neither separators nor the characters of a pattern occur in the word. -/
def Plain (word : List Char) : Prop :=
  word ≠ [] ∧ ∀ c ∈ word, isIfs c = false ∧ c ≠ '*' ∧ c ≠ '?' ∧ c ≠ '[' ∧ c ≠ '\\'

instance (word : List Char) : Decidable (Plain word) :=
  @instDecidableAnd _ _ _ (List.decidableBAll _ word)

/-- Pathname expansion: a pattern that no file matches stays, and a slash is matched by a
slash only. -/
structure Pathnames where
  glob : List Char → List (List Char)
  glob_plain : ∀ word, Plain word → glob word = [word]
  glob_ne_nil : ∀ word, glob word ≠ []
  glob_slash : ∀ word, '/' ∈ word → ∀ path ∈ glob word, '/' ∈ path

namespace Pathnames

def empty : Pathnames where
  glob word := [word]
  glob_plain _ _ := rfl
  glob_ne_nil _ := List.cons_ne_nil _ _
  glob_slash _ h _ hpath := List.mem_singleton.mp hpath ▸ h

variable (p : Pathnames)

/-- The words that an unquoted expansion contributes to a command. -/
def expand (word : List Char) : List (List Char) := (fields word).flatMap p.glob

theorem expand_of_noIfs {word : List Char} (hne : word ≠ []) (h : ∀ c ∈ word, isIfs c = false) :
    p.expand word = p.glob word := by
  rw [expand, fields_eq hne h, List.flatMap_singleton]

theorem expand_plain {word : List Char} (h : Plain word) : p.expand word = [word] := by
  rw [p.expand_of_noIfs h.1 fun c hc => (h.2 c hc).1, p.glob_plain word h]

end Pathnames

theorem plain_digit {c : Char} (h : c.isDigit) :
    isIfs c = false ∧ c ≠ '*' ∧ c ≠ '?' ∧ c ≠ '[' ∧ c ≠ '\\' := by
  have hne : ∀ d : Char, d.isDigit = false → c ≠ d := fun d hd => by
    rintro rfl
    simp [h] at hd
  simp [isIfs, hne]

theorem plain_digits (n : Nat) : Plain (DecimalFields.digits n) :=
  ⟨DecimalFields.digits_ne_nil n,fun _ hc => plain_digit (DecimalFields.digit_of_mem hc)⟩

theorem fields_unlines {ls : List (List Char)} (h : ∀ l ∈ ls, l ≠ [] ∧ ∀ c ∈ l, isIfs c = false) :
    fields (TextLines.unlines ls) = ls := by
  induction ls with
  | nil => rfl
  | cons l ls ih =>
    obtain ⟨hl,hls⟩ := List.forall_mem_cons.mp h
    rw [TextLines.unlines, List.flatMap_cons, List.append_assoc, List.singleton_append,
      fields_append_cons l rfl, fields_eq hl.1 hl.2, ← TextLines.unlines, ih hls]
    rfl

end ChaosBundle.ShellWords

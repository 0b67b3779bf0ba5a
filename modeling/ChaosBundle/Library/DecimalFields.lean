import Mathlib.Data.List.Basic

/-! Texts made of fields with separators between them, and numbers as such fields. -/
namespace ChaosBundle.DecimalFields
variable {α : Type} [DecidableEq α]

theorem takeWhile_field {sep : α} {field : List α} (h : sep ∉ field) (rest : List α) :
    (field ++ sep :: rest).takeWhile (· != sep) = field := by
  have hall : ∀ a ∈ field, a != sep := fun a ha => by
    simpa using fun h' : a = sep => h (h' ▸ ha)
  simp [List.takeWhile_append_of_pos hall]

theorem field_inj {sep : α} {a b c d : List α} (ha : sep ∉ a) (hb : sep ∉ b) :
    a ++ sep :: c = b ++ sep :: d ↔ a = b ∧ c = d := by
  constructor
  · intro h
    have hab : a = b := by rw [← takeWhile_field ha c, h, takeWhile_field hb]
    subst hab
    exact ⟨rfl,(List.cons.inj (List.append_cancel_left h)).2⟩
  · rintro ⟨rfl,rfl⟩
    rfl

theorem last_field_inj {sep : α} {a b c d : List α} (hb : sep ∉ b) (hd : sep ∉ d) :
    a ++ sep :: b = c ++ sep :: d ↔ a = c ∧ b = d := by
  have hrev := @field_inj _ _ sep b.reverse d.reverse a.reverse c.reverse (by simpa) (by simpa)
  rw [← List.reverse_inj]
  simpa [and_comm] using hrev

/-- The decimal numeral of a number. -/
def digits (n : Nat) : List Char := Nat.toDigits 10 n

theorem digit_of_mem {n : Nat} {c : Char} (h : c ∈ digits n) : c.isDigit :=
  Nat.isDigit_of_mem_toDigits (by decide) (by decide) h

theorem notMem_digits {n : Nat} {c : Char} (h : c.isDigit = false) : c ∉ digits n := fun hc => by
  simp [digit_of_mem hc] at h

theorem digits_ne_nil (n : Nat) : digits n ≠ [] := Nat.toDigits_ne_nil

theorem digits_injective : Function.Injective digits := fun m n h => by
  unfold digits at h
  rw [← @Nat.ofDigitChars_ten_toDigits m, h, Nat.ofDigitChars_ten_toDigits]

end ChaosBundle.DecimalFields

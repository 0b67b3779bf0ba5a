import ChaosBundle.Library.DecimalFields
import ChaosBundle.Library.Glob
import Mathlib.Data.List.Nodup

/-! The pairs of numbers that the local service tests run through, and their numerals in
file names. -/
namespace ChaosBundle.LocalServices
open DecimalFields Glob

/-- `us` and `cu`. -/
abbrev Pair := Nat × Nat

/-- The pairs of the nested loops, in their order. -/
def pairs (nus ncu : Nat) : List Pair :=
  (List.range nus).flatMap fun us => (List.range ncu).map fun cu => (us,cu)

theorem mem_pairs {nus ncu : Nat} {p : Pair} : p ∈ pairs nus ncu ↔ p.1 < nus ∧ p.2 < ncu := by
  obtain ⟨us,cu⟩ := p
  simp [pairs]

theorem length_pairs (nus ncu : Nat) : (pairs nus ncu).length = nus * ncu := by
  simp [pairs]

theorem nodup_pairs (nus ncu : Nat) : (pairs nus ncu).Nodup := by
  refine List.nodup_flatMap.mpr ⟨fun us _ => ?_,?_⟩
  · exact List.nodup_range.map fun _ _ h => (Prod.mk.inj h).2
  · apply (List.nodup_range (n := nus)).imp
    intro us us' hne p hp hp'
    simp only [List.mem_map] at hp hp'
    obtain ⟨_,-,rfl⟩ := hp
    obtain ⟨_,-,h⟩ := hp'
    exact hne (Prod.mk.inj h).1.symm

theorem literal_digits (n : Nat) : Literal (digits n) := fun c hc => by
  have hc := digit_of_mem hc
  refine ⟨?_,?_,?_,?_⟩
  all_goals
    rintro rfl
    simp at hc

theorem dash_notMem (n : Nat) : '-' ∉ digits n := notMem_digits rfl

theorem dot_notMem (n : Nat) : '.' ∉ digits n := notMem_digits rfl

end ChaosBundle.LocalServices

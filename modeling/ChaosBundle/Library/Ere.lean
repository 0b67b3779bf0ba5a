import Mathlib.Data.List.Infix
import Mathlib.Data.List.MinMax

/-! Extended regular expressions that are a sequence of character sets, each taken once or
repeated. A search takes the leftmost match, of the matches there the longest, and of those
the one whose earlier items are longer. -/
namespace ChaosBundle.Ere

structure Item where
  set : Char → Bool
  many : Bool

/-- The sizes of the pieces that the item can take, the longest first. -/
def Item.sizes (it : Item) (s : List Char) : List Nat :=
  let stretch := (s.takeWhile it.set).length
  if it.many then (List.range' 1 stretch).reverse else if 0 < stretch then [1] else []

def Item.Fits (it : Item) (piece : List Char) : Prop :=
  (∀ c ∈ piece, it.set c) ∧ if it.many then 0 < piece.length else piece.length = 1

/-- A character that stands for itself. -/
def Item.lit (c : Char) : Item := ⟨(· == c),false⟩

def Item.plus (set : Char → Bool) : Item := ⟨set,true⟩

@[simp] theorem Item.fits_lit {c : Char} {piece : List Char} : (Item.lit c).Fits piece ↔ piece = [c] := by
  simp only [Item.Fits, Item.lit, beq_iff_eq, Bool.false_eq_true, if_false]
  constructor
  · rintro ⟨hall,hlen⟩
    obtain ⟨d,rfl⟩ := List.length_eq_one_iff.mp hlen
    simpa using hall
  · rintro rfl
    simp

@[simp] theorem Item.fits_plus {set : Char → Bool} {piece : List Char} :
    (Item.plus set).Fits piece ↔ piece ≠ [] ∧ ∀ c ∈ piece, set c := by
  simp [Item.Fits, Item.plus, List.length_pos_iff, and_comm]

/-- The matches at the start of a text, each with the piece of every item and the rest. -/
def matchings : List Item → List Char → List (List (List Char) × List Char)
  | [], s => [([],s)]
  | it :: items, s => (it.sizes s).flatMap fun n =>
      (matchings items (s.drop n)).map fun (pieces,rest) => (s.take n :: pieces,rest)

def matchHere (items : List Item) (s : List Char) : Option (List (List Char)) :=
  ((matchings items s).argmin (·.2.length)).map (·.1)

def search (items : List Item) (s : List Char) : Option (List (List Char)) :=
  s.tails.findSome? (matchHere items)

private theorem le_length_takeWhile {set : Char → Bool} {s : List Char} {n : Nat} :
    n ≤ (s.takeWhile set).length ↔ n ≤ s.length ∧ ∀ c ∈ s.take n, set c := by
  induction s generalizing n with
  | nil => simp
  | cons c cs ih =>
    cases n with
    | zero => simp
    | succ n =>
      by_cases hc : set c
      · simp [hc, ih]
      · simp [hc]

theorem Item.mem_sizes {it : Item} {s : List Char} {n : Nat} :
    n ∈ it.sizes s ↔ n ≤ s.length ∧ it.Fits (s.take n) := by
  have hstretch : n ≤ (s.takeWhile it.set).length ↔ n ≤ s.length ∧ ∀ c ∈ s.take n, it.set c :=
    le_length_takeWhile
  have hle : (s.takeWhile it.set).length ≤ s.length := (List.takeWhile_prefix _).length_le
  simp only [Item.sizes, Item.Fits, ← and_assoc, ← hstretch, List.length_take]
  split_ifs with hmany hpos
  · simp only [List.mem_reverse, List.mem_range'_1]
    omega
  · simp only [List.mem_singleton]
    omega
  · simp only [List.not_mem_nil, false_iff]
    omega

theorem mem_matchings {items : List Item} {s : List Char} {pieces : List (List Char)}
    {rest : List Char} : (pieces,rest) ∈ matchings items s ↔
      List.Forall₂ Item.Fits items pieces ∧ s = pieces.flatten ++ rest := by
  induction items generalizing s pieces with
  | nil =>
    cases pieces with
    | nil => simp [matchings, eq_comm]
    | cons p ps =>
      simp only [matchings, List.mem_singleton, Prod.mk.injEq, reduceCtorEq, false_and, false_iff]
      exact fun h => by cases h.1
  | cons it items ih =>
    simp only [matchings, List.mem_flatMap, List.mem_map, Item.mem_sizes, Prod.exists,
      Prod.mk.injEq]
    constructor
    · rintro ⟨n,⟨-,hfits⟩,ps,r,hmem,rfl,rfl⟩
      obtain ⟨hall,hdrop⟩ := ih.mp hmem
      refine ⟨.cons hfits hall,?_⟩
      rw [List.flatten_cons, List.append_assoc, ← hdrop, List.take_append_drop]
    · rintro ⟨hall,hs⟩
      cases hall with
      | cons hfits hall =>
        rename_i p ps
        subst hs
        refine ⟨p.length,⟨by simp,by simpa using hfits⟩,ps,rest,?_,by simp,rfl⟩
        simpa using ih.mpr ⟨hall,by simp⟩

/-- The expression between `^` and `$`. -/
def whole (items : List Item) (s : List Char) : Bool := (matchings items s).any (·.2.isEmpty)

theorem whole_iff {items : List Item} {s : List Char} :
    whole items s ↔ ∃ pieces, List.Forall₂ Item.Fits items pieces ∧ s = pieces.flatten := by
  simp only [whole, List.any_eq_true, Prod.exists, List.isEmpty_iff, mem_matchings]
  constructor
  · rintro ⟨pieces,rest,⟨hfits,hs⟩,rfl⟩
    exact ⟨pieces,hfits,by rwa [List.append_nil] at hs⟩
  · rintro ⟨pieces,hfits,rfl⟩
    exact ⟨pieces,[],⟨hfits,(List.append_nil _).symm⟩,rfl⟩

/-- The text that a search for the expression in front of `$` matches. -/
def matchToEnd (items : List Item) (s : List Char) : Option (List Char) := s.tails.find? (whole items)

theorem matchToEnd_cons (items : List Item) (c : Char) (s : List Char) :
    matchToEnd items (c :: s) = if whole items (c :: s) then some (c :: s) else matchToEnd items s := by
  change ((c :: s) :: s.tails).find? (whole items) = _
  rw [List.find?_cons]
  cases whole items (c :: s) <;> rfl

/-- Where the whole text can be matched in one way, a search finds that way. -/
theorem search_whole {items : List Item} {s : List Char} {pieces : List (List Char)}
    (hfits : List.Forall₂ Item.Fits items pieces) (hs : s = pieces.flatten)
    (hunique : ∀ pieces', List.Forall₂ Item.Fits items pieces' → s = pieces'.flatten →
      pieces' = pieces) : search items s = some pieces := by
  have hmem : (pieces,[]) ∈ matchings items s := mem_matchings.mpr ⟨hfits,by simpa using hs⟩
  have hhere : matchHere items s = some pieces := by
    cases hbest : (matchings items s).argmin (·.2.length) with
    | none =>
      rw [List.argmin_eq_none] at hbest
      simp [hbest] at hmem
    | some best =>
      obtain ⟨ps,rest⟩ := best
      have hle : rest.length ≤ 0 := List.le_of_mem_argmin hmem hbest
      obtain rfl : rest = [] := List.length_eq_zero_iff.mp (Nat.le_zero.mp hle)
      obtain ⟨hps,hsps⟩ := mem_matchings.mp (List.argmin_mem hbest)
      simp [matchHere, hbest, hunique ps hps (by simpa using hsps)]
  cases s with
  | nil => simp [search, hhere]
  | cons c cs => simp [search, hhere]

theorem search_isSome {items : List Item} {s : List Char} (h : whole items s) :
    (search items s).isSome := by
  have hhere : (matchHere items s).isSome := by
    rw [matchHere, Option.isSome_map, Option.isSome_iff_ne_none, ne_eq, List.argmin_eq_none]
    intro hnone
    simp [whole, hnone] at h
  rw [search, List.findSome?_isSome_iff]
  exact ⟨s,(List.mem_tails s s).mpr List.suffix_rfl,hhere⟩

example : search [.plus fun _ => true,.lit '_',.plus Char.isDigit] "a_b_12c".toList =
    some ["a_b".toList,"_".toList,"12".toList] := by decide

end ChaosBundle.Ere

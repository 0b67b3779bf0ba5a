import ChaosBundle.Library.Ere
import ChaosBundle.LocalServices.Pairs

/-! The names of the acquisition files: how `test-sensors.sh` writes them, and what
`test-history.sh` reads back from them. -/
namespace ChaosBundle.LocalServices
open DecimalFields Ere Glob

abbrev Text := List Char

def Decimal (t : Text) : Prop := t ≠ [] ∧ ∀ c ∈ t, c.isDigit

instance (t : Text) : Decidable (Decimal t) :=
  @instDecidableAnd (t ≠ []) _ inferInstance (List.decidableBAll _ t)

def dataset : Text := "hexp_dataset".toList

/-- `hexp_dataset_$us-$cu-$start-$end` -/
def dataName (p : Pair) (start stop : Text) : Text :=
  dataset ++ '_' :: (digits p.1 ++ '-' :: (digits p.2 ++ '-' :: (start ++ '-' :: stop)))

/-- The pattern of `rm` and of `ls`: `hexp_dataset_*-*-*-*`. -/
def dataPattern : Text := dataset ++ ['_','*','-','*','-','*','-','*']

def tmp : Text := "/tmp/".toList

/-- `.+_([0-9]+)-([0-9]+)-([0-9]+)-([0-9]+)` -/
def dataRegex : List Item :=
  let number := Item.plus Char.isDigit
  [.plus fun _ => true,.lit '_',number,.lit '-',number,.lit '-',number,.lit '-',number]

/-- `${BASH_REMATCH[1]}` to `${BASH_REMATCH[4]}` -/
def bashRematch (l : Text) : Option (Text × Text × Text × Text) :=
  match search dataRegex l with
  | some [_,_,m1,_,m2,_,m3,_,m4] => some (m1,m2,m3,m4)
  | _ => none

theorem decimal_digits (n : Nat) : Decimal (digits n) :=
  ⟨digits_ne_nil n,fun _ hc => digit_of_mem hc⟩

theorem Decimal.notMem {t : Text} (ht : Decimal t) {c : Char} (hc : c.isDigit = false) : c ∉ t :=
  fun h => by simp [ht.2 c h] at hc

theorem dataName_inj {p q : Pair} {start start' stop stop' : Text} (hs : '-' ∉ start)
    (hs' : '-' ∉ start') : dataName p start stop = dataName q start' stop' ↔
      p = q ∧ start = start' ∧ stop = stop' := by
  rw [dataName, dataName, List.append_cancel_left_eq, List.cons.injEq,
    field_inj (dash_notMem _) (dash_notMem _), field_inj (dash_notMem _) (dash_notMem _),
    field_inj hs hs', digits_injective.eq_iff, digits_injective.eq_iff, Prod.ext_iff,
    and_assoc, eq_self, true_and]

theorem dataName_chars {start stop : Text} (hs : Decimal start) (he : Decimal stop) {p : Pair} {c : Char}
    (hc : c ∈ dataName p start stop) : c.isDigit ∨ c ∈ dataset ++ ['_','-'] := by
  have hus := (decimal_digits p.1).2 c
  have hcu := (decimal_digits p.2).2 c
  have hstart := hs.2 c
  have hstop := he.2 c
  simp only [dataName, List.mem_append, List.mem_cons] at hc ⊢
  rcases hc with hc | hc | hc | hc | hc | hc | hc | hc | hc
  · exact .inr (.inl hc)
  · exact .inr (.inr (.inl hc))
  · exact .inl (hus hc)
  · exact .inr (.inr (.inr (.inl hc)))
  · exact .inl (hcu hc)
  · exact .inr (.inr (.inr (.inl hc)))
  · exact .inl (hstart hc)
  · exact .inr (.inr (.inr (.inl hc)))
  · exact .inl (hstop hc)

theorem dataName_matches (p : Pair) (start stop : Text) :
    fnMatch dataPattern (dataName p start stop) := by
  have hliteral : Literal dataset := by decide
  have hstars : tokens ['_','*','-','*','-','*','-','*'] =
      [.lit '_',.any,.lit '-',.any,.lit '-',.any,.lit '-',.any] := by decide
  have hstart : (dataName p start stop).head? = some 'h' := rfl
  rw [fnMatch, hstart, dataPattern, tokens_literal hliteral, hstars]
  have hglob : globMatch (dataset.map .lit ++
      [.lit '_',.any,.lit '-',.any,.lit '-',.any,.lit '-',.any]) (dataName p start stop) := by
    refine (globMatch_lits _ _ _).mpr ⟨_,rfl,?_⟩
    rw [globMatch_lit]
    apply globMatch_any (digits p.1)
    rw [globMatch_lit]
    apply globMatch_any (digits p.2)
    rw [globMatch_lit]
    apply globMatch_any start
    rw [globMatch_lit]
    exact globMatch_any_end stop
  simpa using hglob

private theorem fits_dataRegex {pieces : List Text} : List.Forall₂ Item.Fits dataRegex pieces ↔
    ∃ x a b c d, pieces = [x,['_'],a,['-'],b,['-'],c,['-'],d] ∧ x ≠ [] ∧
      Decimal a ∧ Decimal b ∧ Decimal c ∧ Decimal d := by
  simp only [dataRegex, List.forall₂_cons_left_iff, List.forall₂_nil_left_iff, Item.fits_lit,
    Item.fits_plus]
  constructor
  · rintro ⟨x,_,⟨hx,-⟩,⟨_,_,rfl,⟨a,_,ha,⟨_,_,rfl,⟨b,_,hb,⟨_,_,rfl,⟨c,_,hc,⟨_,_,rfl,
      ⟨d,_,hd,rfl,rfl⟩,rfl⟩,rfl⟩,rfl⟩,rfl⟩,rfl⟩,rfl⟩,rfl⟩,rfl⟩
    exact ⟨x,a,b,c,d,rfl,hx,ha,hb,hc,hd⟩
  · rintro ⟨x,a,b,c,d,rfl,hx,ha,hb,hc,hd⟩
    simpa [hx, ha.1, hb.1, hc.1, hd.1] using ⟨ha.2,hb.2,hc.2,hd.2⟩

/-- The expression takes the name apart into the fields that it was made of. -/
theorem bashRematch_dataName {start stop : Text} (hs : Decimal start) (he : Decimal stop) (p : Pair) :
    bashRematch (tmp ++ dataName p start stop) = some (digits p.1,digits p.2,start,stop) := by
  have hus := decimal_digits p.1
  have hcu := decimal_digits p.2
  have hsearch : search dataRegex (tmp ++ dataName p start stop) = some
      [tmp ++ dataset,['_'],digits p.1,['-'],digits p.2,['-'],start,['-'],stop] := by
    apply search_whole
    · exact fits_dataRegex.mpr ⟨_,_,_,_,_,rfl,by simp [tmp],hus,hcu,hs,he⟩
    · simp [dataName]
    · intro pieces hfits hjoin
      obtain ⟨x,a,b,c,d,rfl,-,ha,hb,hc,hd⟩ := fits_dataRegex.mp hfits
      -- No underscore comes after the one in front of the numbers.
      have hlast : ∀ {a b c d : Text}, Decimal a → Decimal b → Decimal c → Decimal d →
          '_' ∉ a ++ '-' :: (b ++ '-' :: (c ++ '-' :: d)) := fun ha hb hc hd => by
        simpa using ⟨ha.notMem rfl,hb.notMem rfl,hc.notMem rfl,hd.notMem rfl⟩
      have hfields : (tmp ++ dataset) ++ '_' :: (digits p.1 ++ '-' :: (digits p.2 ++ '-' ::
          (start ++ '-' :: stop))) = x ++ '_' :: (a ++ '-' :: (b ++ '-' :: (c ++ '-' :: d))) := by
        simpa [dataName] using hjoin
      rw [last_field_inj (hlast hus hcu hs he) (hlast ha hb hc hd),
        field_inj (hus.notMem rfl) (ha.notMem rfl), field_inj (hcu.notMem rfl) (hb.notMem rfl),
        field_inj (hs.notMem rfl) (hc.notMem rfl)] at hfields
      obtain ⟨rfl,rfl,rfl,rfl,rfl⟩ := hfields
      rfl
  simp [bashRematch, hsearch]

end ChaosBundle.LocalServices

import Mathlib.Logic.Function.Basic

/-! Files over an arbitrary type of paths. Links are followed once: a link whose
target is again a link is outside the model. -/
namespace ChaosBundle

inductive Node (P : Type) where
  | file (text : String)
  | dir
  | link (target : P)
  deriving DecidableEq, Repr

abbrev FileSystem (P : Type) := P → Option (Node P)

namespace FileSystem
variable {P : Type} [DecidableEq P]

/-- The path that a name stands for when it is opened. -/
def target (fs : FileSystem P) (p : P) : P :=
  match fs p with
  | some (.link q) => q
  | _ => p

def read (fs : FileSystem P) (p : P) : Option String :=
  match fs (fs.target p) with
  | some (.file text) => some text
  | _ => none

/-- Redirection with `>` writes through a link. -/
def write (fs : FileSystem P) (p : P) (text : String) : FileSystem P :=
  Function.update fs (fs.target p) (some (.file text))

/-- Redirection with `>>` creates a missing file. -/
def append (fs : FileSystem P) (p : P) (text : String) : FileSystem P :=
  fs.write p ((fs.read p).getD "" ++ text)

/-- `cp` without options reads and writes through links; it changes nothing when
the source cannot be read. -/
def copy (fs : FileSystem P) (src dst : P) : FileSystem P :=
  match fs.read src with
  | some text => fs.write dst text
  | none => fs

/-- `rm -f` unlinks the name itself. -/
def remove (fs : FileSystem P) (p : P) : FileSystem P := Function.update fs p none

/-- `rm -rf` on a tree, given by the names that lie in it. -/
def removeAll (fs : FileSystem P) (inTree : P → Bool) : FileSystem P :=
  fun p => if inTree p then none else fs p

/-- `mkdir -p` leaves an existing name alone. -/
def mkdir (fs : FileSystem P) (p : P) : FileSystem P :=
  if (fs p).isSome then fs else Function.update fs p (some .dir)

/-- Extract an archive over what is there. Names are replaced, not followed. -/
def extract (fs : FileSystem P) (files : List (P × Node P)) : FileSystem P :=
  files.foldl (fun fs f => Function.update fs f.1 (some f.2)) fs

omit [DecidableEq P] in
theorem target_of_plain {fs : FileSystem P} {p : P} (h : ∀ q, fs p ≠ some (.link q)) :
    fs.target p = p := by
  unfold target
  split
  · rename_i q hq
    exact absurd hq (h q)
  · rfl

@[simp] theorem write_apply (fs : FileSystem P) (p q : P) (text : String) :
    fs.write p text q = if q = fs.target p then some (.file text) else fs q := by
  simp [write, Function.update_apply]

@[simp] theorem append_apply (fs : FileSystem P) (p q : P) (text : String) :
    fs.append p text q =
      if q = fs.target p then some (.file ((fs.read p).getD "" ++ text)) else fs q := by
  simp [append]

@[simp] theorem remove_apply (fs : FileSystem P) (p q : P) :
    fs.remove p q = if q = p then none else fs q := by
  simp [remove, Function.update_apply]

theorem remove_of_none {fs : FileSystem P} {p : P} (h : fs p = none) : fs.remove p = fs := by
  funext q
  rw [remove_apply]
  split
  · rename_i hq
    rw [hq, h]
  · rfl

omit [DecidableEq P] in
@[simp] theorem removeAll_apply (fs : FileSystem P) (inTree : P → Bool) (q : P) :
    fs.removeAll inTree q = if inTree q then none else fs q := rfl

theorem mkdir_of_ne (fs : FileSystem P) {p q : P} (h : q ≠ p) : fs.mkdir p q = fs q := by
  unfold mkdir
  split
  · rfl
  · exact Function.update_of_ne h _ _

theorem copy_of_read_none {fs : FileSystem P} {src : P} (dst : P) (h : fs.read src = none) :
    fs.copy src dst = fs := by
  simp [copy, h]

theorem copy_of_read {fs : FileSystem P} {src : P} {text : String} (dst : P)
    (h : fs.read src = some text) : fs.copy src dst = fs.write dst text := by
  simp [copy, h]

theorem copy_of_ne (fs : FileSystem P) (src dst : P) {q : P} (h : q ≠ fs.target dst) :
    fs.copy src dst q = fs q := by
  cases hr : fs.read src with
  | none => rw [copy_of_read_none dst hr]
  | some text => rw [copy_of_read dst hr, write_apply, if_neg h]

theorem foldl_append_apply (fs : FileSystem P) {p : P} {text : String} (lines : List String)
    (h : fs p = some (.file text)) (q : P) :
    lines.foldl (fun fs line => fs.append p line) fs q =
      if q = p then some (.file (lines.foldl (· ++ ·) text)) else fs q := by
  induction lines generalizing fs text with
  | nil =>
    split
    · subst q; exact h
    · rfl
  | cons line lines ih =>
    have ht : fs.target p = p := by simp [target, h]
    have hr : fs.read p = some text := by simp [read, ht, h]
    have hline : fs.append p line p = some (.file (text ++ line)) := by simp [ht, hr]
    rw [List.foldl_cons, ih _ hline]
    by_cases hq : q = p <;> simp [hq, ht]

theorem extract_of_notMem (fs : FileSystem P) (files : List (P × Node P)) {q : P}
    (hq : q ∉ files.map Prod.fst) : fs.extract files q = fs q := by
  induction files generalizing fs with
  | nil => rfl
  | cons f files ih =>
    rw [List.map_cons, List.mem_cons, not_or] at hq
    exact (ih (Function.update fs f.1 (some f.2)) hq.2).trans (Function.update_of_ne hq.1 _ _)

theorem extract_isSome (fs : FileSystem P) (files : List (P × Node P)) (q : P) :
    (fs.extract files q).isSome = ((fs q).isSome || decide (q ∈ files.map Prod.fst)) := by
  induction files generalizing fs with
  | nil => simp [extract]
  | cons f files ih =>
    rw [extract, List.foldl_cons, ← extract, ih]
    by_cases hq : q = f.1
    · subst hq
      simp
    · simp only [Function.update_of_ne hq, List.map_cons, List.mem_cons, hq, false_or]

/-! Links that stay on their side of a division of the names. -/

/-- No name with the property is a link to a name without it. -/
def Closed (fs : FileSystem P) (Q : P → Prop) : Prop :=
  ∀ p q, Q p → fs p = some (.link q) → Q q

namespace Closed
variable {fs : FileSystem P} {Q : P → Prop}

omit [DecidableEq P] in
theorem target (h : fs.Closed Q) {p : P} (hp : Q p) : Q (fs.target p) := by
  unfold FileSystem.target
  split
  · rename_i q hq
    exact h p q hp hq
  · exact hp

omit [DecidableEq P] in
/-- An operation that makes no new link keeps the division. -/
theorem of_links (h : fs.Closed Q) {fs' : FileSystem P}
    (hlinks : ∀ p q, Q p → fs' p = some (.link q) → fs p = some (.link q)) : fs'.Closed Q :=
  fun p q hp hq => h p q hp (hlinks p q hp hq)

theorem write (h : fs.Closed Q) (p : P) (text : String) : (fs.write p text).Closed Q := by
  apply h.of_links
  intro a q _ hq
  rw [write_apply] at hq
  split at hq
  · cases hq
  · exact hq

theorem append (h : fs.Closed Q) (p : P) (text : String) : (fs.append p text).Closed Q :=
  h.write p _

theorem copy (h : fs.Closed Q) (src dst : P) : (fs.copy src dst).Closed Q := by
  cases hr : fs.read src with
  | none => rwa [copy_of_read_none dst hr]
  | some text => rw [copy_of_read dst hr]; exact h.write dst text

theorem remove (h : fs.Closed Q) (p : P) : (fs.remove p).Closed Q := by
  apply h.of_links
  intro a q _ hq
  rw [remove_apply] at hq
  split at hq
  · cases hq
  · exact hq

omit [DecidableEq P] in
theorem removeAll (h : fs.Closed Q) (inTree : P → Bool) : (fs.removeAll inTree).Closed Q := by
  apply h.of_links
  intro a q _ hq
  rw [removeAll_apply] at hq
  split at hq
  · cases hq
  · exact hq

theorem mkdir (h : fs.Closed Q) (p : P) : (fs.mkdir p).Closed Q := by
  apply h.of_links
  intro a q _ hq
  by_cases ha : a = p
  · subst a
    unfold FileSystem.mkdir at hq
    split at hq
    · exact hq
    · simp at hq
  · rwa [mkdir_of_ne fs ha] at hq

theorem appends (h : fs.Closed Q) (p : P) (lines : List String) :
    (lines.foldl (fun fs line => fs.append p line) fs).Closed Q := by
  induction lines generalizing fs with
  | nil => exact h
  | cons line lines ih => exact ih (h.append p line)

theorem write_outside (h : fs.Closed Q) {p q : P} (hp : Q p) (hq : ¬ Q q) (text : String) :
    fs.write p text q = fs q := by
  rw [write_apply, if_neg]
  rintro rfl
  exact hq (h.target hp)

theorem copy_outside (h : fs.Closed Q) (src : P) {dst q : P} (hp : Q dst) (hq : ¬ Q q) :
    fs.copy src dst q = fs q := by
  apply copy_of_ne fs src dst
  rintro rfl
  exact hq (h.target hp)

theorem appends_outside (h : fs.Closed Q) {p q : P} (hp : Q p) (hq : ¬ Q q)
    (lines : List String) : lines.foldl (fun fs line => fs.append p line) fs q = fs q := by
  induction lines generalizing fs with
  | nil => rfl
  | cons line lines ih =>
    rw [List.foldl_cons, ih (h.append p line)]
    exact h.write_outside hp hq _

end Closed
end FileSystem
end ChaosBundle

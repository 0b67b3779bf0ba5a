import ChaosBundle.Library.Glob
import Mathlib.Data.List.AList

/-! A directory of plain files, and what shell commands do to its names. -/
namespace ChaosBundle

def eraseAll {α : Type} {β : α → Type} [DecidableEq α] (keys : List α) (l : AList β) : AList β :=
  keys.foldl (fun l k => l.erase k) l

theorem lookup_eraseAll {α : Type} {β : α → Type} [DecidableEq α] (keys : List α) (l : AList β)
    (a : α) : (eraseAll keys l).lookup a = if a ∈ keys then none else l.lookup a := by
  induction keys generalizing l with
  | nil => rfl
  | cons k keys ih =>
    rw [eraseAll, List.foldl_cons, ← eraseAll, ih]
    by_cases hk : a = k
    · subst hk
      simp
    · simp [AList.lookup_erase_ne hk, hk]

theorem lookup_eraseAll_some {α : Type} {β : α → Type} [DecidableEq α] {keys : List α} {l : AList β}
    {a : α} {b : β a} : (eraseAll keys l).lookup a = some b ↔ a ∉ keys ∧ l.lookup a = some b := by
  rw [lookup_eraseAll]
  split_ifs with ha <;> simp [ha]

theorem lookup_insert_some {α : Type} {β : Type} [DecidableEq α] {l : AList fun _ : α => β} {a k : α}
    {b v : β} : (l.insert k v).lookup a = some b ↔ if a = k then b = v else l.lookup a = some b := by
  split_ifs with ha
  · subst ha
    simp [eq_comm]
  · rw [AList.lookup_insert_ne ha]

abbrev Directory := AList fun _ : List Char => List Char

namespace Directory
open Glob
variable {d : Directory} {name : List Char}

/-- Redirection with `>>`. -/
def append (d : Directory) (file text : List Char) : Directory :=
  d.insert file ((d.lookup file).getD [] ++ text)

/-- `mv` refuses to move a file to itself, and complains about a missing one. -/
def rename (d : Directory) (source target : List Char) : Directory :=
  if source = target then d
  else match d.lookup source with
    | some text => (d.erase source).insert target text
    | none => d

def glob (d : Directory) (pattern : List Char) : List (List Char) :=
  d.keys.filter (fnMatch pattern)

def remove (d : Directory) (pattern : List Char) : Directory := eraseAll (d.glob pattern) d

theorem mem_glob {pattern : List Char} : name ∈ d.glob pattern ↔ name ∈ d ∧ fnMatch pattern name := by
  simp [glob, AList.mem_keys]

theorem nodup_glob (d : Directory) (pattern : List Char) : (d.glob pattern).Nodup :=
  d.keys_nodup.filter _

theorem mem_append {file text : List Char} : name ∈ d.append file text ↔ name = file ∨ name ∈ d := by
  simp [append]

theorem mem_remove {pattern : List Char} : name ∈ d.remove pattern ↔ name ∈ d ∧ ¬ fnMatch pattern name := by
  rw [← AList.lookup_isSome, ← AList.lookup_isSome, remove, lookup_eraseAll]
  by_cases hd : name ∈ d
  · by_cases hm : fnMatch pattern name <;> simp [mem_glob, hd, hm]
  · simp [mem_glob, hd, AList.lookup_eq_none.mpr hd]

theorem mem_rename {source target : List Char} (hne : source ≠ target) (hs : source ∈ d) :
    name ∈ d.rename source target ↔ name = target ∨ (name ∈ d ∧ name ≠ source) := by
  obtain ⟨text,htext⟩ := Option.isSome_iff_exists.mp (AList.lookup_isSome.mpr hs)
  simp [rename, hne, htext, and_comm]

theorem lookup_append (d : Directory) (file text name : List Char) : (d.append file text).lookup name =
    if name = file then some ((d.lookup file).getD [] ++ text) else d.lookup name := by
  split_ifs with hname
  · rw [hname, append, AList.lookup_insert]
  · rw [append, AList.lookup_insert_ne hname]

theorem lookup_rename {source target : List Char} (hne : source ≠ target) (hs : source ∈ d) :
    (d.rename source target).lookup name =
      if name = target then d.lookup source else if name = source then none else d.lookup name := by
  obtain ⟨text,htext⟩ := Option.isSome_iff_exists.mp (AList.lookup_isSome.mpr hs)
  simp only [rename, hne, htext, if_false]
  split_ifs with htarget hsource
  · rw [htarget, AList.lookup_insert]
  · rw [AList.lookup_insert_ne htarget, hsource, AList.lookup_erase]
  · rw [AList.lookup_insert_ne htarget, AList.lookup_erase_ne hsource]

theorem lookup_remove (d : Directory) (pattern name : List Char) :
    (d.remove pattern).lookup name = if fnMatch pattern name then none else d.lookup name := by
  rw [remove, lookup_eraseAll]
  by_cases hd : name ∈ d
  · simp [mem_glob, hd]
  · simp [mem_glob, hd, AList.lookup_eq_none.mpr hd]

end Directory

end ChaosBundle

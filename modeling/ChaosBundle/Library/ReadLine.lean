import ChaosBundle.Library.ShellWords

/-! `read name` of the shell: a line of the input without the separators around it, in which
a backslash quotes the next character or joins the next line. -/
namespace ChaosBundle.ReadLine
open ShellWords

/-- The characters of the line, each with whether it is quoted, and the input after it. -/
def readChars : List Char → List (Char × Bool) × List Char
  | [] => ([],[])
  | [c] => if c = '\n' ∨ c = '\\' then ([],[]) else ([(c,false)],[])
  | c :: d :: cs =>
    if c = '\n' then ([],d :: cs)
    else if c = '\\' then
      if d = '\n' then readChars cs else ((d,true) :: (readChars cs).1,(readChars cs).2)
    else ((c,false) :: (readChars (d :: cs)).1,(readChars (d :: cs)).2)

def isBlank (c : Char × Bool) : Bool := !c.2 && isIfs c.1

/-- The value of the variable, and the input after the line. -/
def readVar (input : List Char) : List Char × List Char :=
  ((((readChars input).1.dropWhile isBlank).rdropWhile isBlank).map Prod.fst,(readChars input).2)

private theorem readChars_cons {c : Char} (hline : c ≠ '\n') (hquote : c ≠ '\\') (s : List Char) :
    readChars (c :: s) = ((c,false) :: (readChars s).1,(readChars s).2) := by
  cases s <;> simp [readChars, hline, hquote]

theorem readChars_newline (s : List Char) : readChars ('\n' :: s) = ([],s) := by
  cases s <;> simp [readChars]

private theorem readChars_line {line : List Char} (h : ∀ c ∈ line, c ≠ '\n' ∧ c ≠ '\\')
    (rest : List Char) : readChars (line ++ '\n' :: rest) = (line.map (·,false),rest) := by
  induction line with
  | nil => exact readChars_newline rest
  | cons c line ih =>
    obtain ⟨hc,hline⟩ := List.forall_mem_cons.mp h
    rw [List.cons_append, readChars_cons hc.1 hc.2, ih hline]
    rfl

theorem readVar_line {line : List Char} (h : ∀ c ∈ line, isIfs c = false ∧ c ≠ '\\') (rest : List Char) :
    readVar (line ++ '\n' :: rest) = (line,rest) := by
  have hblank : ∀ c ∈ line.map fun c => (c,false), isBlank c = false := by
    simp only [List.mem_map, forall_exists_index, and_imp, forall_apply_eq_imp_iff₂]
    exact fun c hc => (h c hc).1
  have hchars : ∀ c ∈ line, c ≠ '\n' ∧ c ≠ '\\' := fun c hc =>
    ⟨fun hn => by simpa [hn, isIfs] using (h c hc).1,(h c hc).2⟩
  have hfront : (line.map fun c => (c,false)).dropWhile isBlank = line.map fun c => (c,false) := by
    cases line with
    | nil => rfl
    | cons c line =>
      rw [List.map_cons, List.dropWhile_cons_of_neg]
      simp [hblank (c,false) (by simp)]
  have hback : (line.map fun c => (c,false)).rdropWhile isBlank = line.map fun c => (c,false) := by
    rw [List.rdropWhile_eq_self_iff]
    exact fun hne => Bool.eq_false_iff.mp (hblank _ (List.getLast_mem hne))
  rw [readVar, readChars_line hchars, hfront, hback, List.map_map]
  simp [Function.comp_def]

end ChaosBundle.ReadLine

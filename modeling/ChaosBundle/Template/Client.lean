import ChaosBundle.Library.CString

/-! The command loop of `__template_name__Client`: lines go to a buffer that is searched for
`quit` and `dump`, cut at its first colon, and kept where no line can be read any more. -/
namespace ChaosBundle.Template
open CString

def quit : List Char := ['q','u','i','t']

def dump : List Char := ['d','u','m','p']

/-- What one turn of the loop does: it leaves the loop, prints the output dataset, calls
`sendCmd` with an alias and a parameter, or does neither. -/
inductive Turn where
  | quit | dump | sendCmd (cmd_alias_str param : List Char) | pass
  deriving DecidableEq

/-- The buffer `stringa`, which nothing has written to at first, and the lines to come. -/
structure Client where
  stringa : Option Buffer
  input : List (List Char)

/-- Without a line the buffer stays as it is; a line of 256 characters or more overflows it. -/
def gets (c : Client) : Option Client :=
  match c.input with
  | [] => some c
  | l :: ls => if l.length < 256 then some ⟨some l,ls⟩ else none

/-- The body of the loop after `gets`, with the buffer that it leaves. -/
def body (stringa : Buffer) : Turn × Buffer :=
  if strstr stringa quit then (.quit,stringa)
  else if strstr stringa dump then (.dump,stringa)
  else match strchr stringa ':' with
    | some pnt =>
      let stringa := stringa.set pnt nul
      (.sendCmd (cstring stringa) (cstring (stringa.drop (pnt+1))),stringa)
    | none => (.pass,stringa)

/-- One turn; it is undefined where the buffer overflows or has never been written. -/
def turn (c : Client) : Option (Turn × Client) := do
  let c ← gets c
  let stringa ← c.stringa
  some ((body stringa).1,{ c with stringa := some (body stringa).2 })

/-- The turns of a loop that ends within a number of them. -/
def loop : ℕ → Client → Option (List Turn)
  | 0, _ => none
  | n+1, c => do
    let (t,c) ← turn c
    if t = .quit then some [.quit] else (loop n c).map (t :: ·)

/-- The turn that a typed line asks for. -/
def asked (line : List Char) : Turn :=
  if line = quit then .quit
  else if line = dump then .dump
  else if ':' ∈ line then
    .sendCmd (line.takeWhile (· != ':')) (line.dropWhile (· != ':')).tail
  else .pass

/-- Each line once and in order, up to the line `quit` or to the end of the input. -/
def askedTurns : List (List Char) → List Turn
  | [] => []
  | l :: ls => if l = quit then [.quit] else asked l :: askedTurns ls

def ExecutesWhatIsTyped (lines : List (List Char)) : Prop :=
  ∃ n, loop n ⟨none,lines⟩ = some (askedTurns lines)

/-- No part of the line is mistaken for a command, and no NUL hides a part of it. -/
def Unmistakable (line : List Char) : Prop :=
  ¬ quit <:+: cstring line ∧ (dump <:+: cstring line → line = dump) ∧ (nul ∈ line → ':' ∉ line)

instance (line : List Char) : Decidable (Unmistakable line) :=
  inferInstanceAs (Decidable (_ ∧ _ ∧ _))

theorem body_sendCmd {left right : Buffer} (hcolon : ':' ∉ left) (hnul : nul ∉ left)
    (hquit : ¬ quit <:+: cstring (left ++ ':' :: right))
    (hdump : ¬ dump <:+: cstring (left ++ ':' :: right)) :
    body (left ++ ':' :: right) = (.sendCmd left (cstring right),left ++ nul :: right) := by
  have hset : (left ++ ':' :: right).set left.length nul = left ++ nul :: right := by simp
  have hdrop : (left ++ nul :: right).drop (left.length + 1) = right := by simp
  simp only [body, strstr, hquit, hdump, decide_false, Bool.false_eq_true, if_false,
    strchr_split hcolon hnul (by decide : ':' ≠ nul), hset, hdrop, cstring_append_nul hnul]

theorem body_quit {b : Buffer} (h : quit <:+: cstring b) : body b = (.quit,b) := by
  simp [body, strstr, h]

theorem body_dump {b : Buffer} (hquit : ¬ quit <:+: cstring b) (h : dump <:+: cstring b) :
    body b = (.dump,b) := by
  simp [body, strstr, hquit, h]

theorem body_pass {b : Buffer} (hquit : ¬ quit <:+: cstring b) (hdump : ¬ dump <:+: cstring b)
    (h : ':' ∉ cstring b) : body b = (.pass,b) := by
  simp [body, strstr, hquit, hdump, strchr_eq_none h]

private theorem asked_colon {left : List Char} (hcolon : ':' ∉ left) (right : List Char) :
    asked (left ++ ':' :: right) = .sendCmd left right := by
  have hmem : ':' ∈ left ++ ':' :: right := by simp
  have hquit : left ++ ':' :: right ≠ quit := fun h => absurd (h ▸ hmem) (by decide)
  have hdump : left ++ ':' :: right ≠ dump := fun h => absurd (h ▸ hmem) (by decide)
  have hdrop : (left ++ ':' :: right).dropWhile (· != ':') = ':' :: right := by
    rw [List.dropWhile_append_of_pos]
    · simp
    · intro c hc
      simpa using fun h : c = ':' => hcolon (h ▸ hc)
  rw [asked, if_neg hquit, if_neg hdump, if_pos hmem, DecimalFields.takeWhile_field hcolon, hdrop]
  rfl

theorem asked_ne_quit {line : List Char} (hline : line ≠ quit) : asked line ≠ .quit := by
  rw [asked, if_neg hline]
  split_ifs <;> simp

/-- The turn of the loop is the one that was asked for just on the unmistakable lines. -/
theorem body_eq_asked {line : List Char} (hline : line ≠ quit) :
    (body line).1 = asked line ↔ Unmistakable line := by
  by_cases hquit : quit <:+: cstring line
  · simp [body_quit hquit, Unmistakable, hquit, (asked_ne_quit hline).symm]
  by_cases hdump : dump <:+: cstring line
  · rw [body_dump hquit hdump, Unmistakable]
    constructor
    · intro h
      have hdumped : line = dump := by
        by_contra hne
        rw [asked, if_neg hline, if_neg hne] at h
        split_ifs at h
      exact ⟨hquit,fun _ => hdumped,fun hnul => absurd (hdumped ▸ hnul) (by decide)⟩
    · rintro ⟨-,hdumped,-⟩
      rw [asked, if_neg hline, if_pos (hdumped hdump)]
  by_cases hcolon : ':' ∈ cstring line
  · obtain ⟨left,right,rfl,hleft,hnul⟩ := exists_split hcolon
    have hright : nul ∈ left ++ ':' :: right ↔ nul ∈ right := by simp [hnul, (by decide : nul ≠ ':')]
    rw [body_sendCmd hleft hnul hquit hdump, asked_colon hleft, Turn.sendCmd.injEq, eq_self,
      true_and, cstring_eq_self_iff, Unmistakable, hright]
    simp [hquit, hdump]
  · rw [body_pass hquit hdump hcolon, Unmistakable]
    have hne : line ≠ dump := fun h => hdump (by rw [h]; decide)
    simp only [hquit, hdump, asked, if_neg hline, if_neg hne, not_false_eq_true, false_imp_iff, true_and]
    constructor
    · intro h _ hmem
      simp [hmem] at h
    · intro h
      have hmem : ':' ∉ line := fun hmem => by
        by_cases hnul : nul ∈ line
        · exact h hnul hmem
        · exact hcolon (by rwa [cstring_of_notMem hnul])
      simp [hmem]

theorem body_quitless {b : Buffer} (h : ¬ quit <:+: cstring b) :
    (body b).1 ≠ .quit ∧ ¬ quit <:+: cstring (body b).2 := by
  by_cases hdump : dump <:+: cstring b
  · simp [body_dump h hdump, h]
  by_cases hcolon : ':' ∈ cstring b
  · obtain ⟨left,right,rfl,hleft,hnul⟩ := exists_split hcolon
    rw [body_sendCmd hleft hnul h hdump]
    refine ⟨by simp,fun hquit => h ?_⟩
    rw [cstring_append_nul hnul] at hquit
    rw [cstring_append hnul]
    exact hquit.trans (List.prefix_append _ _).isInfix
  · simp [body_pass h hdump hcolon, h]

theorem turn_line {b : Option Buffer} {l : List Char} {ls : List (List Char)} (h : l.length < 256) :
    turn ⟨b,l :: ls⟩ = some ((body l).1,⟨some (body l).2,ls⟩) := by
  simp [turn, gets, h]

private theorem loop_succ {b : Option Buffer} {l : List Char} {ls : List (List Char)}
    (h : l.length < 256) (n : ℕ) : loop (n+1) ⟨b,l :: ls⟩ =
      if (body l).1 = .quit then some [.quit] else (loop n ⟨some (body l).2,ls⟩).map ((body l).1 :: ·) := by
  simp [loop, turn_line h]

/-- At the end of the input the loop never ends. -/
theorem loop_endless {b : Option Buffer} (h : ∀ s ∈ b, ¬ quit <:+: cstring s) (n : ℕ) :
    loop n ⟨b,[]⟩ = none := by
  induction n generalizing b with
  | zero => rfl
  | succ n ih =>
    cases b with
    | none => rfl
    | some s =>
      obtain ⟨hturn,hnext⟩ := body_quitless (h s rfl)
      simp [loop, turn, gets, hturn, ih (b := some (body s).2) (by simpa using hnext)]

/-- What holds from any buffer that the loop can have at this point. -/
theorem exists_loop_iff {lines : List (List Char)} (hlength : ∀ l ∈ lines, l.length < 256)
    {b : Option Buffer} (hb : ∀ s ∈ b, ¬ quit <:+: cstring s) :
    (∃ n, loop n ⟨b,lines⟩ = some (askedTurns lines)) ↔
      ∃ earlier later, lines = earlier ++ quit :: later ∧ ∀ l ∈ earlier, Unmistakable l := by
  induction lines generalizing b with
  | nil => simp [loop_endless hb]
  | cons l ls ih =>
    obtain ⟨hl,hls⟩ := List.forall_mem_cons.mp hlength
    by_cases hline : l = quit
    · subst hline
      have hloop : loop 1 ⟨b,quit :: ls⟩ = some (askedTurns (quit :: ls)) := by
        have hbody : body quit = (.quit,quit) := body_quit (by decide)
        simp [loop_succ hl, hbody, askedTurns]
      exact ⟨fun _ => ⟨[],ls,rfl,by simp⟩,fun _ => ⟨1,hloop⟩⟩
    have hfirst : (∃ earlier later, l :: ls = earlier ++ quit :: later ∧
        ∀ l ∈ earlier, Unmistakable l) ↔ Unmistakable l ∧
          ∃ earlier later, ls = earlier ++ quit :: later ∧ ∀ l ∈ earlier, Unmistakable l := by
      constructor
      · rintro ⟨earlier,later,heq,hall⟩
        cases earlier with
        | nil => exact absurd (List.cons.inj heq).1 hline
        | cons e earlier =>
          obtain ⟨rfl,htail⟩ := List.cons.inj heq
          obtain ⟨hl,hearlier⟩ := List.forall_mem_cons.mp hall
          exact ⟨hl,earlier,later,htail,hearlier⟩
      · rintro ⟨hl,earlier,later,rfl,hall⟩
        exact ⟨l :: earlier,later,rfl,List.forall_mem_cons.mpr ⟨hl,hall⟩⟩
    rw [hfirst, askedTurns, if_neg hline, ← body_eq_asked hline]
    by_cases hturn : (body l).1 = .quit
    · have hne : (body l).1 ≠ asked l := hturn ▸ (asked_ne_quit hline).symm
      refine iff_of_false ?_ fun h => hne h.1
      rintro ⟨n,hn⟩
      cases n with
      | zero => cases hn
      | succ n =>
        rw [loop_succ hl, if_pos hturn, Option.some_inj] at hn
        exact hne (hturn.trans (List.cons.inj hn).1)
    · have hquit : ¬ quit <:+: cstring l := fun h => hturn (by rw [body_quit h])
      have hnext : ∀ s ∈ some (body l).2, ¬ quit <:+: cstring s := by
        rintro s ⟨rfl⟩
        exact (body_quitless hquit).2
      rw [← ih hls hnext]
      constructor
      · rintro ⟨n,hn⟩
        cases n with
        | zero => cases hn
        | succ n =>
          rw [loop_succ hl, if_neg hturn, Option.map_eq_some_iff] at hn
          obtain ⟨ts,hts,heq⟩ := hn
          obtain ⟨hhead,rfl⟩ := List.cons.inj heq
          exact ⟨hhead,n,hts⟩
      · rintro ⟨hhead,n,hn⟩
        exact ⟨n+1,by rw [loop_succ hl, if_neg hturn, hn, Option.map_some, hhead]⟩

/-- What is typed is executed when a line is `quit` and the lines before it are unmistakable. -/
theorem executes_what_is_typed_iff {lines : List (List Char)} (hlength : ∀ l ∈ lines, l.length < 256) :
    ExecutesWhatIsTyped lines ↔
      ∃ earlier later, lines = earlier ++ quit :: later ∧ ∀ l ∈ earlier, Unmistakable l :=
  exists_loop_iff hlength (by simp)

theorem executes_dump_and_fire :
    ExecutesWhatIsTyped [dump,['f','i','r','e',':','\x7b','\x7d'],quit] :=
  (executes_what_is_typed_iff (by decide)).mpr
    ⟨[dump,['f','i','r','e',':','\x7b','\x7d']],[],rfl,by decide⟩

/-- A parameter with the text `quit` ends the loop, and no command is sent. -/
theorem quits_at_parameter : ¬ ExecutesWhatIsTyped [['s','e','t',':','q','u','i','t'],quit] := by
  intro h
  obtain ⟨earlier,later,heq,hall⟩ := (exists_loop_iff (b := none) (by decide) (by simp)).mp h
  cases earlier with
  | nil => exact absurd (List.cons.inj heq).1 (by decide)
  | cons l earlier =>
    have hl := hall l List.mem_cons_self
    rw [← (List.cons.inj heq).1] at hl
    exact absurd hl (by decide)

end ChaosBundle.Template

import ChaosBundle.Template.Client

/-! How long the command loop of `__template_name__Client` may go on: what it does in any
number of turns, also after its input has ended. -/
namespace ChaosBundle.Template
open CString

/-- The first turns of the loop, up to a number of them. -/
def turns : ℕ → Client → Option (List Turn)
  | 0, _ => some []
  | n+1, c => do
    let (t,c) ← turn c
    if t = .quit then some [.quit] else (turns n c).map (t :: ·)

def Turn.sends : Turn → Bool
  | .sendCmd _ _ => true
  | _ => false

/-- Each line once and in order, as the body of the loop takes it, up to one that ends the loop. -/
def treated : List (List Char) → List Turn
  | [] => []
  | l :: ls => if (body l).1 = .quit then [.quit] else (body l).1 :: treated ls

private theorem turns_of_loop {n m : ℕ} {c : Client} {ts : List Turn} (h : loop n c = some ts)
    (hnm : n ≤ m) : turns m c = some ts := by
  induction n generalizing m c ts with
  | zero => cases h
  | succ n ih =>
    obtain ⟨m,rfl⟩ := Nat.exists_eq_add_one_of_ne_zero (Nat.ne_zero_of_lt hnm)
    simp only [loop, Option.bind_eq_bind, Option.bind_eq_some_iff] at h
    obtain ⟨⟨t,d⟩,hturn,h⟩ := h
    simp only [turns, hturn, Option.bind_eq_bind, Option.bind_some]
    split_ifs at h ⊢ with hquit
    · exact h
    · obtain ⟨us,hus,rfl⟩ := Option.map_eq_some_iff.mp h
      rw [ih hus (Nat.le_of_succ_le_succ hnm), Option.map_some]

/-- A buffer that the body has left is not sent, and the next turn leaves it again. -/
theorem body_body (b : Buffer) : (body (body b).2).1.sends = false ∧ (body (body b).2).2 = (body b).2 := by
  have hidle : ∀ s : Buffer, (':' ∈ cstring s → dump <:+: cstring s ∨ quit <:+: cstring s) →
      (body s).1.sends = false ∧ (body s).2 = s := by
    intro s hcolon
    by_cases hquit : quit <:+: cstring s
    · rw [body_quit hquit]
      exact ⟨rfl,rfl⟩
    by_cases hdump : dump <:+: cstring s
    · rw [body_dump hquit hdump]
      exact ⟨rfl,rfl⟩
    · rw [body_pass hquit hdump fun h => (hcolon h).elim hdump hquit]
      exact ⟨rfl,rfl⟩
  apply hidle
  intro hmem
  by_cases hquit : quit <:+: cstring b
  · rw [body_quit hquit]
    exact .inr hquit
  by_cases hdump : dump <:+: cstring b
  · rw [body_dump hquit hdump]
    exact .inl hdump
  by_cases hcolon : ':' ∈ cstring b
  · obtain ⟨left,right,rfl,hleft,hnul⟩ := exists_split hcolon
    rw [body_sendCmd hleft hnul hquit hdump, cstring_append_nul hnul] at hmem
    exact absurd hmem hleft
  · rw [body_pass hquit hdump hcolon] at hmem
    exact absurd hmem hcolon

private theorem turns_idle {s : Buffer} (h : (body s).1.sends = false ∧ (body s).2 = s) (n : ℕ) :
    ∃ ts, turns n ⟨some s,[]⟩ = some ts ∧ ∀ t ∈ ts, t.sends = false := by
  induction n with
  | zero => exact ⟨[],rfl,nofun⟩
  | succ n ih =>
    obtain ⟨ts,hts,hidle⟩ := ih
    have hturn : turn ⟨some s,[]⟩ = some ((body s).1,⟨some s,[]⟩) := by
      simp [turn, gets, h.2]
    simp only [turns, hturn, Option.bind_eq_bind, Option.bind_some]
    split_ifs with hquit
    · exact ⟨[.quit],rfl,by simp [Turn.sends]⟩
    · exact ⟨(body s).1 :: ts,by rw [hts, Option.map_some],List.forall_mem_cons.mpr ⟨h.1,hidle⟩⟩

private theorem turns_sends {lines : List (List Char)} (hne : lines ≠ [])
    (hlength : ∀ l ∈ lines, l.length < 256) (b : Option Buffer) {n : ℕ} (hn : lines.length ≤ n) :
    ∃ ts, turns n ⟨b,lines⟩ = some ts ∧ ts.filter Turn.sends = (treated lines).filter Turn.sends := by
  induction lines generalizing b n with
  | nil => exact absurd rfl hne
  | cons l ls ih =>
    obtain ⟨hl,hls⟩ := List.forall_mem_cons.mp hlength
    obtain ⟨n,rfl⟩ := Nat.exists_eq_add_one_of_ne_zero (Nat.ne_zero_of_lt hn)
    simp only [turns, turn_line hl, Option.bind_eq_bind, Option.bind_some, treated]
    split_ifs with hquit
    · exact ⟨[.quit],rfl,rfl⟩
    obtain ⟨ts,hts,hsends⟩ : ∃ ts, turns n ⟨some (body l).2,ls⟩ = some ts ∧
        ts.filter Turn.sends = (treated ls).filter Turn.sends := by
      by_cases hend : ls = []
      · subst hend
        obtain ⟨ts,hts,hidle⟩ := turns_idle (body_body l) n
        exact ⟨ts,hts,List.filter_eq_nil_iff.mpr fun t ht => by simp [hidle t ht]⟩
      · exact ih hend hls _ (Nat.le_of_succ_le_succ hn)
    exact ⟨(body l).1 :: ts,by rw [hts, Option.map_some],by rw [List.filter_cons, List.filter_cons, hsends]⟩

/-- However long the loop goes on, also where its input has ended without `quit`, it sends the
commands of its lines once and in order, and no other; so does a loop that has ended. -/
theorem sends_each_line_once {lines : List (List Char)} (hne : lines ≠ [])
    (hlength : ∀ l ∈ lines, l.length < 256) (b : Option Buffer) :
    (∀ n, lines.length ≤ n → ∃ ts, turns n ⟨b,lines⟩ = some ts ∧
      ts.filter Turn.sends = (treated lines).filter Turn.sends) ∧
    ∀ n ts, loop n ⟨b,lines⟩ = some ts →
      ts.filter Turn.sends = (treated lines).filter Turn.sends := by
  refine ⟨fun n hn => turns_sends hne hlength b hn,fun n ts hloop => ?_⟩
  obtain ⟨us,hturns,hsends⟩ := turns_sends hne hlength b (Nat.le_max_right n lines.length)
  have hsame := (turns_of_loop hloop (Nat.le_max_left n lines.length)).symm.trans hturns
  exact Option.some_inj.mp hsame ▸ hsends

/-- The one line is taken again and again at the end of the input, and sent once. -/
theorem set_sent_once : ∃ ts, turns 5 ⟨none,[['s','e','t',':','1']]⟩ = some ts ∧
    ts.filter Turn.sends = [.sendCmd ['s','e','t'] ['1']] := by
  have hsent := @sends_each_line_once [['s','e','t',':','1']] (List.cons_ne_nil _ _) (by decide) none
  obtain ⟨ts,hts,hsends⟩ := hsent.1 5 (by decide)
  exact ⟨ts,hts,hsends.trans (by decide)⟩

end ChaosBundle.Template

import ChaosBundle.Library.Progress
import ChaosBundle.Template.ClientSession

/-! `main` of `__template_name__Client`: the calls that it makes on the toolkit and on the
controller of the device, and how it returns. -/
namespace ChaosBundle.Template
open Runs

namespace ClientMain

/-- The calls whose answers come from outside of the file. -/
inductive Call where
  | initToolkit
  | getController
  | initDevice
  | getState
  | startDevice
  | fetchDataset (domain : ℕ)
  | setScheduleDelay
  /-- `setSerializedJsonData` -/
  | setParam (param : List Char)
  /-- `submitSlowControlCommand` -/
  | submit (cmd_alias_str param : List Char)
  | getCommandState
  | stopDevice
  | deinitDevice
  | deinitToolkit
  deriving DecidableEq

/-- `failed` is a null controller or an error code other than a timeout. -/
inductive Answer where
  | noError | timeout | failed | thrown
  deriving DecidableEq

/-- What `main` does after an answer: it goes on, returns -1, or leaves its `try` block. -/
inductive Effect where
  | goOn | returns | throws
  deriving DecidableEq

/-- `sendCmd` throws where a command is not accepted. Of the other error codes `main` looks
at two timeouts only. -/
def effect (argc : ℕ) : Call → Answer → Effect
  | _, .thrown => .throws
  | .submit _ _, .noError => .goOn
  | .submit _ _, _ => .throws
  | .initToolkit, _ => if argc < 2 then .returns else .goOn
  | .getController, .noError => .goOn
  | .getController, _ => .returns
  | .initDevice, .timeout => .returns
  | .getState, .timeout => .returns
  | _, _ => .goOn

def opening : List Call := [.initToolkit,.getController,.initDevice,.getState,.startDevice,.getState,
  .fetchDataset 0,.fetchDataset 1,.fetchDataset 2,.fetchDataset 3,.setScheduleDelay,.fetchDataset 0]

def closing : List Call := [.stopDevice,.getState,.deinitDevice,.getState]

/-- The calls of a turn; `quit` is followed by the end of the `try` block. -/
def calls : Turn → List Call
  | .quit => closing
  | .dump => [.fetchDataset 0]
  | .sendCmd a param => [.setParam param,.submit a param,.getCommandState]
  | .pass => []

/-- `calling` has a call to make and others after it; `left` says whether the loop has been left. -/
inductive Pc where
  | calling (c : Call) (todo : List Call) (left : Bool)
  | loop
  | deinit
  | returned (status : ℤ)
  deriving DecidableEq

def Pc.next : List Call → (left : Bool) → Pc
  | c :: todo, left => .calling c todo left
  | [], false => .loop
  | [], true => .deinit

/-- `made` keeps the calls with their answers. -/
structure State where
  pc : Pc
  client : Client
  made : List (Call × Answer)

inductive Label where
  | turn
  | answer (a : Answer)
  deriving DecidableEq

def start (lines : List (List Char)) : State := ⟨.next opening false,⟨none,lines⟩,[]⟩

/-- The toolkit is deinitialised in a `try` block of its own. -/
def step (argc : ℕ) (s : State) : Label → Option State
  | .turn => match s.pc with
    | .loop => (turn s.client).map fun (t,client) => ⟨.next (calls t) (t = .quit),client,s.made⟩
    | _ => none
  | .answer a => match s.pc with
    | .calling c todo left =>
      let pc := match effect argc c a with
        | .goOn => .next todo left
        | .returns => .returned (-1)
        | .throws => .deinit
      some ⟨pc,s.client,s.made ++ [(c,a)]⟩
    | .deinit => some ⟨.returned 0,s.client,s.made ++ [(.deinitToolkit,a)]⟩
    | _ => none

section Ends
variable (argc : ℕ)

/-- The calls that the turns of the loop ask for, after those before the loop. -/
def asked (ts : List Turn) : List Call := opening ++ ts.flatMap calls

/-- Calls after which `main` has gone on each time. -/
def WentOn (made : List (Call × Answer)) : Prop := ∀ m ∈ made, effect argc m.1 m.2 = .goOn

/-- The calls of a `main` that has returned: all that its turns ask for, or all up to one that
has thrown or made it give up. -/
inductive Ended (ts : List Turn) : ℤ → List (Call × Answer) → Prop
  | completed {made : List (Call × Answer)} (b : Answer) (quit : .quit ∈ ts)
      (all : made.map Prod.fst = asked ts) (fine : WentOn argc made) : Ended ts 0 (made ++ [(.deinitToolkit,b)])
  | caught {made : List (Call × Answer)} {c : Call} {a : Answer} (b : Answer)
      (before : made.map Prod.fst ++ [c] <+: asked ts) (fine : WentOn argc made)
      (thrown : effect argc c a = .throws) : Ended ts 0 (made ++ [(c,a)] ++ [(.deinitToolkit,b)])
  | gaveUp {made : List (Call × Answer)} {c : Call} {a : Answer}
      (before : made.map Prod.fst ++ [c] <+: asked ts) (fine : WentOn argc made)
      (given : effect argc c a = .returns) : Ended ts (-1) (made ++ [(c,a)])

/-- While `main` goes on, `todo` is what it has been asked for and not yet called. -/
structure Going (lines : List (List Char)) (ts : List Turn) (todo : List Call) (left : Bool) (client : Client)
    (made : List (Call × Answer)) : Prop where
  all : made.map Prod.fst ++ todo = asked ts
  fine : WentOn argc made
  left_iff : left = true ↔ .quit ∈ ts
  stopping : left = true → .stopDevice ∈ made.map Prod.fst ∨ todo.head? = some .stopDevice
  turns : ∃ n, turns n ⟨none,lines⟩ = some ts ∧
    (left = false → ∀ m, Template.turns (n+m) ⟨none,lines⟩ = (Template.turns m client).map (ts ++ ·))

/-- The device is told to stop exactly where the loop has been left. -/
def StopsIfLeft (ts : List Turn) (made : List (Call × Answer)) : Prop :=
  .stopDevice ∈ made.map Prod.fst ↔ .quit ∈ ts

def Reached (lines : List (List Char)) (ts : List Turn) : Prop := ∃ n, turns n ⟨none,lines⟩ = some ts

def Sound (lines : List (List Char)) (s : State) : Prop :=
  ∃ ts, Reached lines ts ∧ match s.pc with
    | .calling c todo left => Going argc lines ts (c :: todo) left s.client s.made
    | .loop => Going argc lines ts [] false s.client s.made
    | .deinit => StopsIfLeft ts s.made ∧ ∀ b, Ended argc ts 0 (s.made ++ [(.deinitToolkit,b)])
    | .returned status => StopsIfLeft ts s.made ∧ Ended argc ts status s.made

end Ends

def Pc.looping : Pc → Bool
  | .calling _ _ left => !left
  | .loop => true
  | _ => false

/-- Lines that fit into the buffer, with one that ends the loop. -/
def Quitting (lines : List (List Char)) : Prop :=
  (∃ l ∈ lines, (body l).1 = .quit) ∧ ∀ l ∈ lines, l.length < 256

def Quits (s : State) : Prop := s.pc.looping → Quitting s.client.input

/-- The calls that are still to come, and four for each line. -/
def rank (s : State) : ℕ := match s.pc with
  | .calling _ todo left => todo.length + (if left then 2 else 4*s.client.input.length+3)
  | .loop => 4*s.client.input.length+2
  | .deinit => 1
  | .returned _ => 0

section Proofs
variable {argc : ℕ} {lines : List (List Char)} {ts : List Turn} {client : Client}
  {made : List (Call × Answer)} {todo : List Call} {left : Bool} {c : Call} {a : Answer} {s t : State}

theorem stopDevice_mem_asked : .stopDevice ∈ asked ts ↔ .quit ∈ ts := by
  have hcalls : ∀ t : Turn, .stopDevice ∈ calls t ↔ t = .quit := by
    intro t
    cases t <;> simp [calls, closing]
  simp [asked, opening, hcalls]

theorem Going.stopsIfLeft (h : Going argc lines ts (c :: todo) left client made) :
    StopsIfLeft ts (made ++ [(c,a)]) := by
  rw [StopsIfLeft, ← stopDevice_mem_asked, ← h.all, List.map_append, List.map_singleton]
  constructor
  · intro hstop
    rcases List.mem_append.mp hstop with hmade | hlast
    · exact List.mem_append_left _ hmade
    · exact List.mem_append_right _ (List.mem_singleton.mp hlast ▸ List.mem_cons_self)
  · intro hstop
    rw [h.all, stopDevice_mem_asked, ← h.left_iff] at hstop
    rcases h.stopping hstop with hmade | hhead
    · exact List.mem_append_left _ hmade
    · rw [List.head?_cons, Option.some_inj] at hhead
      simp [hhead]

private theorem Going.call (h : Going argc lines ts (c :: todo) left client made)
    (ha : effect argc c a = .goOn) : Going argc lines ts todo left client (made ++ [(c,a)]) where
  all := by rw [← h.all, List.map_append, List.map_singleton, List.append_assoc, List.singleton_append]
  fine := List.forall_mem_append.mpr ⟨h.fine,List.forall_mem_singleton.mpr ha⟩
  left_iff := h.left_iff
  stopping hleft := .inl (h.stopsIfLeft.mpr (h.left_iff.mp hleft))
  turns := h.turns

private theorem Going.before (h : Going argc lines ts (c :: todo) left client made) :
    made.map Prod.fst ++ [c] <+: asked ts := ⟨todo,by rw [List.append_assoc, List.singleton_append, h.all]⟩

/-- The state at the next call, at the loop, or behind the `try` block. -/
theorem Going.sound (h : Going argc lines ts todo left client made) (hstop : StopsIfLeft ts made ∨ todo ≠ []) :
    Sound argc lines ⟨.next todo left,client,made⟩ := by
  obtain ⟨n,hn,-⟩ := h.turns
  refine ⟨ts,⟨n,hn⟩,?_⟩
  cases todo with
  | cons c todo => exact h
  | nil =>
    cases left with
    | false => exact h
    | true => exact ⟨hstop.resolve_right fun h => h rfl,fun b =>
        .completed b (h.left_iff.mp rfl) ((List.append_nil _).symm.trans h.all) h.fine⟩

private theorem start_sound : Sound argc lines (start lines) := by
  have hgoing : Going argc lines [] opening false ⟨none,lines⟩ [] :=
    ⟨by simp [asked],nofun,by simp,nofun,0,rfl,fun _ m => by simp⟩
  exact hgoing.sound (.inr nofun)

private theorem turns_add {n : ℕ} {u : Turn} {next : Client}
    (hts : ∀ m, turns (n+m) ⟨none,lines⟩ = (turns m client).map (ts ++ ·))
    (hturn : turn client = some (u,next)) :
    turns (n+1) ⟨none,lines⟩ = some (ts ++ [u]) ∧
    (u ≠ .quit → ∀ m, turns (n+1+m) ⟨none,lines⟩ = (turns m next).map (ts ++ [u] ++ ·)) := by
  constructor
  · rw [hts 1]
    by_cases hu : u = .quit <;> simp [turns, hturn, hu]
  · intro hu m
    rw [Nat.add_assoc, Nat.add_comm 1, hts (m+1)]
    simp [turns, hturn, hu, Function.comp_def]

private theorem step_turn (h : Going argc lines ts [] false client made) {u : Turn} {next : Client}
    (hturn : turn client = some (u,next)) : Sound argc lines ⟨.next (calls u) (u = .quit),next,made⟩ := by
  obtain ⟨n,hn,hts⟩ := h.turns
  obtain ⟨hone,hmore⟩ := turns_add (hts rfl) hturn
  have hquit : .quit ∉ ts := fun hmem => Bool.false_ne_true (h.left_iff.mpr hmem)
  have hgoing : Going argc lines (ts ++ [u]) (calls u) (u = .quit) next made := by
    refine ⟨?_,h.fine,?_,?_,n+1,hone,fun hleft => hmore (by simpa using hleft)⟩
    · rw [(List.append_nil _).symm.trans h.all]
      simp [asked]
    · simp [hquit, eq_comm]
    · intro hleft
      rw [of_decide_eq_true hleft]
      exact .inr rfl
  refine hgoing.sound ?_
  by_cases hcalls : calls u = []
  · refine .inl ?_
    rw [StopsIfLeft, ← stopDevice_mem_asked, ← hgoing.all, hcalls, List.append_nil]
  · exact .inr hcalls

private theorem step_sound (s : State) (l : Label) (t : State) (hs : Sound argc lines s)
    (h : step argc s l = some t) : Sound argc lines t := by
  obtain ⟨ts,hreached,hpc⟩ := hs
  cases l with
  | turn =>
    simp only [step] at h
    cases hcase : s.pc with
    | loop =>
      simp only [hcase] at h hpc
      obtain ⟨⟨u,next⟩,hturn,rfl⟩ := Option.map_eq_some_iff.mp h
      exact step_turn hpc hturn
    | _ => simp [hcase] at h
  | answer a =>
    simp only [step] at h
    cases hcase : s.pc with
    | calling c todo left =>
      simp only [hcase, Option.some_inj] at h hpc
      subst h
      cases ha : effect argc c a with
      | goOn => exact (hpc.call ha).sound (.inl hpc.stopsIfLeft)
      | returns => exact ⟨ts,hreached,hpc.stopsIfLeft,.gaveUp hpc.before hpc.fine ha⟩
      | throws => exact ⟨ts,hreached,hpc.stopsIfLeft,fun b => .caught b hpc.before hpc.fine ha⟩
    | deinit =>
      simp only [hcase, Option.some_inj] at h hpc
      subst h
      refine ⟨ts,hreached,?_,hpc.2 a⟩
      simpa [StopsIfLeft] using hpc.1
    | loop => simp [hcase] at h
    | returned status => simp [hcase] at h

theorem looping_next (todo : List Call) (left : Bool) : (Pc.next todo left).looping = !left := by
  cases todo <;> cases left <;> rfl

theorem rank_next (todo : List Call) (left : Bool) (client : Client) (made : List (Call × Answer)) :
    rank ⟨.next todo left,client,made⟩ = todo.length + if left then 1 else 4*client.input.length+2 := by
  cases todo <;> cases left <;> simp [Pc.next, rank]
  omega

private theorem length_calls_le (u : Turn) : (calls u).length ≤ if u = .quit then 4 else 3 := by
  cases u <;> simp [calls, closing]

/-- A turn of the loop takes a line, and one that ends the loop is still to come. -/
theorem turn_rank {b : Option CString.Buffer} {input : List (List Char)} (hquits : Quitting input)
    (h : step argc ⟨.loop,⟨b,input⟩,made⟩ .turn = some t) :
    Quits t ∧ rank t < rank ⟨.loop,⟨b,input⟩,made⟩ := by
  obtain ⟨⟨l,hl,hquit⟩,hlength⟩ := hquits
  cases input with
  | nil => cases hl
  | cons first input =>
    obtain ⟨hfirst,hlength⟩ := List.forall_mem_cons.mp hlength
    simp only [step, turn_line hfirst, Option.map_some, Option.some_inj] at h
    subst h
    constructor
    · intro hlooping
      rw [looping_next, Bool.not_eq_true', decide_eq_false_iff_not] at hlooping
      refine ⟨⟨l,(List.mem_cons.mp hl).resolve_left ?_,hquit⟩,hlength⟩
      rintro rfl
      exact hlooping hquit
    · have hcalls := length_calls_le (body first).1
      rw [rank_next, rank, List.length_cons]
      by_cases hend : (body first).1 = .quit
      · simp only [hend, decide_true, if_true] at hcalls ⊢
        omega
      · simp only [hend, decide_false, Bool.false_eq_true, if_false] at hcalls ⊢
        omega

private theorem step_rank (hs : Quits s) {l : Label} (h : step argc s l = some t) :
    Quits t ∧ rank t < rank s := by
  cases l with
  | turn =>
    cases hcase : s.pc with
    | loop =>
      obtain ⟨pc,⟨b,input⟩,made⟩ := s
      subst hcase
      exact turn_rank (hs rfl) h
    | _ => simp [step, hcase] at h
  | answer a =>
    simp only [step] at h
    cases hcase : s.pc with
    | calling c todo left =>
      have hrank : rank s = todo.length + (if left then 1 else 4*s.client.input.length+2) + 1 := by
        rw [rank, hcase]
        cases left <;> simp
        omega
      simp only [hcase, Option.some_inj] at h
      subst h
      cases ha : effect argc c a with
      | goOn =>
        refine ⟨fun hlooping => hs ?_,?_⟩
        · rw [hcase]
          rwa [looping_next] at hlooping
        · rw [hrank, rank_next]
          exact Nat.lt_succ_self _
      | returns => exact ⟨nofun,by rw [hrank]; exact Nat.succ_pos _⟩
      | throws =>
        refine ⟨nofun,?_⟩
        rw [hrank]
        change 1 < _
        split_ifs <;> omega
    | deinit =>
      simp only [hcase, Option.some_inj] at h
      subst h
      exact ⟨nofun,by rw [rank, rank, hcase]; exact Nat.one_pos⟩
    | loop => simp [hcase] at h
    | returned status => simp [hcase] at h

private theorem can_go_on (hs : Quits s) (hreturned : ∀ status, s.pc ≠ .returned status) :
    (step argc s .turn).isSome ∨ ∀ a, (step argc s (.answer a)).isSome := by
  cases hcase : s.pc with
  | calling c todo left => exact .inr fun a => by simp [step, hcase]
  | deinit => exact .inr fun a => by simp [step, hcase]
  | returned status => exact absurd hcase (hreturned status)
  | loop =>
    obtain ⟨pc,⟨b,input⟩,made⟩ := s
    subst hcase
    obtain ⟨⟨l,hl,-⟩,hlength⟩ := hs rfl
    cases input with
    | nil => cases hl
    | cons first input =>
      refine .inl ?_
      simp [step, turn_line (hlength first List.mem_cons_self)]

private theorem rank_start : rank (start lines) = 4*lines.length+14 := by
  rw [start, rank_next]
  simp [opening]
  omega

end Proofs

def refusal : List Label := List.replicate 12 (.answer .noError) ++
  [.turn,.answer .noError,.answer .failed,.answer .noError]

end ClientMain
end ChaosBundle.Template

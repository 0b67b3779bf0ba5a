import Mathlib.Data.List.Basic
import Mathlib.Tactic.SplitIfs

/-! Scripts of guarded commands, with rules of pre- and postconditions. A guarded line that
fails ends the script after its cleanup. -/
namespace ChaosBundle.GuardedScripts
variable {Command State : Type}

inductive Line (Command : Type) where
  /-- run the command, whatever comes of it -/
  | act (c : Command)
  /-- run the command; if it fails, run the cleanup and end with the status -/
  | must (c : Command) (cleanup : List Command) (status : Nat)

structure Result (State : Type) where
  state : State
  /-- the status with which the script has ended before its last line -/
  status : Option Nat

section Semantics
variable (exec : Command → Bool → State → State)

/-- `ok` says of each command, by its number in the run, whether it succeeds. -/
def runAll (ok : Nat → Bool) : List Command → Nat → State → State
  | [], _, s => s
  | c :: cs, n, s => runAll ok cs (n+1) (exec c (ok n) s)

def run (ok : Nat → Bool) : List (Line Command) → Nat → State → Result State
  | [], _, s => ⟨s,none⟩
  | .act c :: rest, n, s => run ok rest (n+1) (exec c (ok n) s)
  | .must c cleanup status :: rest, n, s =>
    if ok n then run ok rest (n+1) (exec c true s)
    else ⟨runAll exec ok cleanup (n+1) (exec c false s),some status⟩

/-- From `P` the script gets to its end in `Q`, or ends before it in `E`. -/
def Triple (P : State → Prop) (script : List (Line Command)) (Q : State → Prop) (E : Nat → State → Prop) : Prop :=
  ∀ ok n s, P s →
    ((run exec ok script n s).status = none → Q (run exec ok script n s).state) ∧
    ∀ status, (run exec ok script n s).status = some status → E status (run exec ok script n s).state

def Cleans (P : State → Prop) (cleanup : List Command) (Q : State → Prop) : Prop :=
  ∀ ok n s, P s → Q (runAll exec ok cleanup n s)

end Semantics

variable {exec : Command → Bool → State → State} {P Q R : State → Prop} {E : Nat → State → Prop}

theorem run_append (ok : Nat → Bool) (xs ys : List (Line Command)) (n : Nat) (s : State) :
    run exec ok (xs ++ ys) n s =
      if (run exec ok xs n s).status = none then run exec ok ys (n+xs.length) (run exec ok xs n s).state
      else run exec ok xs n s := by
  induction xs generalizing n s with
  | nil => simp [run]
  | cons x xs ih =>
    have hlength : n+(x :: xs).length = n+1+xs.length := by
      rw [List.length_cons]
      omega
    rw [List.cons_append, hlength]
    cases x with
    | act c => exact ih _ _
    | must c cleanup status =>
      by_cases hok : ok n
      · simpa only [run, if_pos hok] using ih _ _
      · simp [run, hok]

/-- A script gets to its end exactly if all its guarded commands succeed. -/
theorem run_completes_iff (ok : Nat → Bool) (script : List (Line Command)) (n : Nat) (s : State) :
    (run exec ok script n s).status = none ↔
      ∀ i c cleanup status, script[i]? = some (.must c cleanup status) → ok (n+i) := by
  induction script generalizing n s with
  | nil => simp [run]
  | cons x script ih =>
    have hshift : (∀ i c cleanup status, script[i]? = some (.must c cleanup status) → ok (n+1+i)) ↔
        ∀ i c cleanup status, (x :: script)[i+1]? = some (.must c cleanup status) → ok (n+(i+1)) := by
      simp only [List.getElem?_cons_succ, Nat.add_assoc, Nat.add_comm 1]
    cases x with
    | act c =>
      rw [run, ih, hshift]
      refine ⟨fun h i => ?_,fun h i => h (i+1)⟩
      cases i with
      | zero => simp
      | succ i => exact h i
    | must c cleanup status =>
      rw [run]
      split_ifs with hok
      · rw [ih, hshift]
        refine ⟨fun h i => ?_,fun h i => h (i+1)⟩
        cases i with
        | zero => exact fun _ _ _ _ => hok
        | succ i => exact h i
      · refine ⟨nofun,fun h => ?_⟩
        exact absurd (h 0 c cleanup status rfl) hok

namespace Triple

theorem nil : Triple exec P [] P E := fun _ _ _ hs => ⟨fun _ => hs,nofun⟩

theorem act {c : Command} (h : ∀ ok s, P s → Q (exec c ok s)) : Triple exec P [.act c] Q E :=
  fun _ _ _ hs => ⟨fun _ => h _ _ hs,nofun⟩

theorem must {c : Command} {cleanup : List Command} {status : Nat} (hok : ∀ s, P s → Q (exec c true s))
    (hfail : ∀ s, P s → R (exec c false s)) (hclean : Cleans exec R cleanup (E status)) :
    Triple exec P [.must c cleanup status] Q E := by
  intro ok n s hs
  simp only [run]
  split_ifs with h
  · exact ⟨fun _ => hok s hs,nofun⟩
  · refine ⟨nofun,fun _ hstatus => ?_⟩
    cases hstatus
    exact hclean _ _ _ (hfail s hs)

theorem append {xs ys : List (Line Command)} (hxs : Triple exec P xs R E) (hys : Triple exec R ys Q E) :
    Triple exec P (xs ++ ys) Q E := by
  intro ok n s hs
  obtain ⟨hend,hexit⟩ := hxs ok n s hs
  rw [run_append]
  split_ifs with hnone
  · exact hys _ _ _ (hend hnone)
  · exact ⟨fun h => absurd h hnone,hexit⟩

/-- The rule for a loop over a list; the invariant knows the part that is done. -/
theorem loop {α : Type} {L : List α} {body : α → List (Line Command)} {I : List α → State → Prop}
    (h : ∀ done x todo, L = done ++ x :: todo → Triple exec (I done) (body x) (I (done ++ [x])) E) :
    Triple exec (I []) (L.flatMap body) (I L) E := by
  suffices hall : ∀ todo done, L = done ++ todo → Triple exec (I done) (todo.flatMap body) (I L) E from
    hall L [] rfl
  intro todo
  induction todo with
  | nil =>
    intro done hL
    rw [List.append_nil] at hL
    exact hL ▸ nil
  | cons x todo ih =>
    intro done hL
    exact (h done x todo hL).append (ih (done ++ [x]) (by simp [hL]))

theorem weaken {P' Q' : State → Prop} {script : List (Line Command)} (h : Triple exec P script Q E)
    (hP : ∀ s, P' s → P s) (hQ : ∀ s, Q s → Q' s) : Triple exec P' script Q' E := fun ok n s hs =>
  ⟨fun hnone => hQ _ ((h ok n s (hP s hs)).1 hnone),(h ok n s (hP s hs)).2⟩

end Triple

namespace Cleans

theorem nil : Cleans exec P [] P := fun _ _ _ hs => hs

theorem cons {c : Command} {cs : List Command} (h : ∀ ok s, P s → R (exec c ok s)) (hcs : Cleans exec R cs Q) :
    Cleans exec P (c :: cs) Q := fun _ _ _ hs => hcs _ _ _ (h _ _ hs)

end Cleans

/-- Hosts on which only the commands start processes, although these may end by themselves:
`starts` says which command may start which process, and `ends` which leaves none. -/
structure Processes {Proc : Type} (starts ends : Command → Bool → Proc → Prop) (Host : Type) where
  exec : Command → Bool → Host → Host
  runs : Proc → Host → Prop
  started : ∀ c ok h p, runs p (exec c ok h) → runs p h ∨ starts c ok p
  ended : ∀ c ok h p, ends c ok p → ¬ runs p (exec c ok h)

theorem Processes.not_runs {Proc Host : Type} {starts ends : Command → Bool → Proc → Prop}
    (procs : Processes starts ends Host) {c : Command} {ok : Bool} {h : Host} {p : Proc} (hp : ¬ procs.runs p h)
    (hc : ¬ starts c ok p) : ¬ procs.runs p (procs.exec c ok h) := fun hruns =>
  (procs.started c ok h p hruns).elim hp hc

/-- The line starts no such process, and ends the script with another status than 0. -/
def Line.Spares {Proc : Type} (starts : Command → Bool → Proc → Prop) (p : Proc) : Line Command → Prop
  | .act c => ∀ ok, ¬ starts c ok p
  | .must c cleanup status => status ≠ 0 ∧ ∀ c' ∈ c :: cleanup, ∀ ok, ¬ starts c' ok p

section Spares
variable {Proc Host : Type} {starts ends : Command → Bool → Proc → Prop}
  (procs : Processes starts ends Host) {p : Proc}

theorem Processes.cleans_spares {cs : List Command} (h : ∀ c ∈ cs, ∀ ok, ¬ starts c ok p) :
    Cleans procs.exec (fun h => ¬ procs.runs p h) cs fun h => ¬ procs.runs p h := by
  induction cs with
  | nil => exact .nil
  | cons c cs ih =>
    obtain ⟨hc,hcs⟩ := List.forall_mem_cons.mp h
    exact .cons (fun ok _ hs => procs.not_runs hs (hc ok)) (ih hcs)

/-- A script of such lines leaves no process that was not there. -/
theorem Processes.triple_spares {script : List (Line Command)} (h : ∀ line ∈ script, line.Spares starts p) :
    Triple procs.exec (fun h => ¬ procs.runs p h) script (fun h => ¬ procs.runs p h)
      fun status h => status ≠ 0 ∧ ¬ procs.runs p h := by
  induction script with
  | nil => exact .nil
  | cons line script ih =>
    obtain ⟨hline,hscript⟩ := List.forall_mem_cons.mp h
    rw [← List.singleton_append]
    refine .append ?_ (ih hscript)
    cases line with
    | act c => exact .act fun ok _ hs => procs.not_runs hs (hline ok)
    | must c cleanup status =>
      obtain ⟨hc,hcleanup⟩ := List.forall_mem_cons.mp hline.2
      refine .must (R := fun h => ¬ procs.runs p h) (fun _ hs => procs.not_runs hs (hc true))
        (fun _ hs => procs.not_runs hs (hc false)) ?_
      exact fun ok n s hs => ⟨hline.1,procs.cleans_spares hcleanup ok n s hs⟩

end Spares

end ChaosBundle.GuardedScripts

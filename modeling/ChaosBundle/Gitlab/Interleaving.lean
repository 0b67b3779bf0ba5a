import ChaosBundle.Gitlab.AcceptMergeRequest
import ChaosBundle.Library.ListFacts
import ChaosBundle.Library.Progress

/-! `accept_merge_request.sh` request by request, on a server that is left open and may change
in any way in between. -/
namespace ChaosBundle.AcceptMergeRequest
open ListFacts Runs

/-- The server: what it answers depends on its state, and every request may change that. A GET
without an answer counts as one with an empty list. -/
structure GitLab (World : Type) where
  get : World → String → OpenRequests × World
  put : World → String → Nat → PutOutcome × World
  delete : World → String → Nat → World

/-- A request with what the script learns from it. -/
inductive Exchange where
  | get (p : String) (answer : OpenRequests)
  | put (p : String) (iid : Nat) (outcome : PutOutcome)
  | delete (p : String) (iid : Nat)

def Exchange.request : Exchange → Request
  | .get p _ => .get p
  | .put p iid _ => .put p iid
  | .delete p iid => .delete p iid

/-- What the script makes of the answer to its first request. -/
def chosen (branch : String) : List MergeRequest → Option MergeRequest
  | [] => none
  | first :: _ =>
    let src := pythonPrint first.sourceBranch.text
    if testNonempty src ∧ src = branch then some first else none

/-- The next request, with the projects that come after it. -/
inductive Pc where
  | get (todo : List String)
  | put (p : String) (iid : Nat) (todo : List String)
  | delete (p : String) (iid : Nat) (todo : List String)

structure State (World : Type) where
  world : World
  /-- none after the last project -/
  pc : Option Pc
  log : List Exchange

inductive Label (World : Type) where
  | script
  /-- the server comes to this state, whoever has changed it -/
  | others (w : World)

section Machine
variable {World : Type} (G : GitLab World) (branch : String)

def scriptStep (w : World) : Pc → World × Option Pc × List Exchange
  | .get [] => (w,none,[])
  | .get (p :: todo) =>
    let answer := (G.get w p).1
    let next := (chosen branch answer.entries).elim (.get todo) fun mr => .put p mr.iid todo
    ((G.get w p).2,some next,[.get p answer])
  | .put p iid todo =>
    let outcome := (G.put w p iid).1
    let next := if outcome.curlStatus = 0 then .delete p iid todo else .get todo
    ((G.put w p iid).2,some next,[.put p iid outcome])
  | .delete p iid todo => (G.delete w p iid,some (.get todo),[.delete p iid])

def step (s : State World) : Label World → Option (State World)
  | .script => s.pc.map fun pc =>
    let r := scriptStep G branch s.world pc
    ⟨r.1,r.2.1,s.log ++ r.2.2⟩
  | .others w => some {s with world := w}

def State.sent (s : State World) : List Request := s.log.map Exchange.request

def start (w : World) : State World := ⟨w,some (.get projects),[]⟩

def Label.isScript : Label World → Bool
  | .script => true
  | .others _ => false

end Machine

/-- The server gives the same answer. -/
def Exchange.AgreesWith (server : Server) : Exchange → Prop
  | .get p answer => server.openRequests p = answer
  | .put p iid outcome => server.put p iid = outcome
  | .delete _ _ => True

private theorem checkProject_chosen (branch : String) (server : Server) (p : String) :
    checkProject branch server p = .get p ::
      match chosen branch (server.openRequests p).entries with
      | none => []
      | some mr => .put p mr.iid ::
          if (server.put p mr.iid).curlStatus = 0 then [.delete p mr.iid] else [] := by
  unfold checkProject chosen
  cases (server.openRequests p).entries with
  | nil => rfl
  | cons first rest =>
    simp only
    split_ifs <;> simp [*]

section Atomic
variable {World : Type} {G : GitLab World} {branch : String} {s t : State World} {server : Server}

/-- The requests that are still to come, if the server stands still. -/
def Pc.remaining (branch : String) (server : Server) : Pc → List Request
  | .get todo => todo.flatMap (checkProject branch server)
  | .put p iid todo => .put p iid :: ((if (server.put p iid).curlStatus = 0 then [.delete p iid] else []) ++
      todo.flatMap (checkProject branch server))
  | .delete p iid todo => .delete p iid :: todo.flatMap (checkProject branch server)

private theorem scriptStep_sends (w : World) (pc : Pc)
    (h : ∀ e ∈ (scriptStep G branch w pc).2.2, e.AgreesWith server) :
    pc.remaining branch server = (scriptStep G branch w pc).2.2.map Exchange.request ++
      (scriptStep G branch w pc).2.1.elim [] (Pc.remaining branch server) := by
  cases pc with
  | get todo =>
    cases todo with
    | nil => rfl
    | cons p todo =>
      have hanswer : server.openRequests p = (G.get w p).1 := h _ List.mem_cons_self
      rw [Pc.remaining, List.flatMap_cons, checkProject_chosen, hanswer]
      simp only [scriptStep]
      cases chosen branch (G.get w p).1.entries with
      | none => rfl
      | some mr => rfl
  | put p iid todo =>
    have houtcome : server.put p iid = (G.put w p iid).1 := h _ List.mem_cons_self
    rw [Pc.remaining, houtcome]
    simp only [scriptStep]
    split_ifs <;> rfl
  | delete p iid todo => rfl

/-- Whatever server gives the answers of the log, what has been sent and what is still to come
are together what a call sends to it. -/
def Atomic (branch : String) (s : State World) : Prop :=
  ∀ server : Server, (∀ e ∈ s.log, e.AgreesWith server) →
    s.sent ++ s.pc.elim [] (Pc.remaining branch server) = projects.flatMap (checkProject branch server)

theorem step_atomic {a : Label World} (hs : Atomic branch s) (h : step G branch s a = some t) :
    Atomic branch t := by
  cases a with
  | others w =>
    cases h
    exact hs
  | script =>
    obtain ⟨pc,hpc,rfl⟩ := Option.map_eq_some_iff.mp h
    intro server hlog
    obtain ⟨hbefore,hnow⟩ := List.forall_mem_append.mp hlog
    have hsent := hs server hbefore
    rw [hpc, Option.elim_some, scriptStep_sends s.world pc hnow, ← List.append_assoc] at hsent
    rw [← hsent, State.sent, State.sent, List.map_append]

end Atomic

section Recorded
variable {World : Type} {G : GitLab World} {branch : String} {s t : State World}

def Exchange.answer? : Exchange → Option (String × OpenRequests)
  | .get p answer => some (p,answer)
  | _ => none

def Exchange.outcome? : Exchange → Option (String × Nat × PutOutcome)
  | .put p iid outcome => some (p,iid,outcome)
  | _ => none

/-- The projects that have been asked about, and those in which a merge has been attempted. -/
def asked (log : List Exchange) : List String := (log.filterMap Exchange.answer?).map Prod.fst

def attempted (log : List Exchange) : List String := (log.filterMap Exchange.outcome?).map Prod.fst

def Pc.todo : Pc → List String
  | .get todo | .put _ _ todo | .delete _ _ todo => todo

def Pc.pending : Pc → List String
  | .put p _ _ => [p]
  | _ => []

/-- Every project is asked about once, and at most one merge is attempted in it. -/
structure Once (s : State World) : Prop where
  get : asked s.log ++ s.pc.elim [] Pc.todo = projects
  put : (attempted s.log ++ s.pc.elim [] Pc.pending).Sublist (asked s.log)

private theorem scriptStep_once (w : World) (pc : Pc) :
    let r := scriptStep G branch w pc
    asked r.2.2 ++ r.2.1.elim [] Pc.todo = pc.todo ∧
      (attempted r.2.2 ++ r.2.1.elim [] Pc.pending).Sublist (pc.pending ++ asked r.2.2) := by
  cases pc with
  | get todo =>
    cases todo with
    | nil => exact ⟨rfl,List.Sublist.refl _⟩
    | cons p todo =>
      simp only [scriptStep]
      cases chosen branch (G.get w p).1.entries with
      | none => exact ⟨rfl,List.nil_sublist _⟩
      | some mr => exact ⟨rfl,List.Sublist.refl _⟩
  | put p iid todo =>
    simp only [scriptStep]
    split_ifs <;> exact ⟨rfl,List.Sublist.refl _⟩
  | delete p iid todo => exact ⟨rfl,List.Sublist.refl _⟩

theorem step_once {a : Label World} (hs : Once s) (h : step G branch s a = some t) : Once t := by
  cases a with
  | others w =>
    cases h
    exact ⟨hs.get,hs.put⟩
  | script =>
    obtain ⟨pc,hpc,rfl⟩ := Option.map_eq_some_iff.mp h
    obtain ⟨hget,hput⟩ := hs
    rw [hpc, Option.elim_some] at hget hput
    obtain ⟨htodo,hpending⟩ := @scriptStep_once _ G branch s.world pc
    constructor
    · simp only [asked, List.filterMap_append, List.map_append, List.append_assoc] at hget htodo ⊢
      rw [htodo, hget]
    · simp only [asked, attempted, List.filterMap_append, List.map_append, List.append_assoc]
        at hput hpending ⊢
      refine (hpending.append_left _).trans ?_
      rw [← List.append_assoc]
      exact hput.append_right _

/-- The server that stands still and gives the answers of the log. -/
def recorded (log : List Exchange) : Server where
  openRequests p := ((log.filterMap Exchange.answer?).lookup p).getD ⟨[],List.nodup_nil⟩
  put p _ := ((log.filterMap Exchange.outcome?).lookup p).elim .noResponse Prod.snd

theorem nodup_projects : projects.Nodup := by simp [projects]

theorem Once.agreesWith_recorded (h : Once s) : ∀ e ∈ s.log, e.AgreesWith (recorded s.log) := by
  have hasked : (asked s.log).Nodup := (List.nodup_append.mp (h.get ▸ nodup_projects)).1
  have hattempted : (attempted s.log).Nodup := (List.nodup_append.mp (h.put.nodup hasked)).1
  intro e he
  cases e with
  | get p answer =>
    have hlookup := lookup_of_mem hasked (List.mem_filterMap.mpr ⟨_,he,rfl⟩)
    simp [Exchange.AgreesWith, recorded, hlookup]
  | put p iid outcome =>
    have hlookup := lookup_of_mem hattempted (List.mem_filterMap.mpr ⟨_,he,rfl⟩)
    simp [Exchange.AgreesWith, recorded, hlookup]
  | delete p iid => trivial

end Recorded

section Run
variable {World : Type} {G : GitLab World} {branch : String} {w : World} {s t : State World}

/-- The requests that the script can still send, and the end of the loop. -/
def Pc.rank : Pc → ℕ
  | .get todo => 3*todo.length+1
  | .put _ _ todo => 3*todo.length+3
  | .delete _ _ todo => 3*todo.length+2

private theorem scriptStep_rank (w : World) (pc : Pc) :
    (scriptStep G branch w pc).2.1.elim 0 Pc.rank + 1 ≤ pc.rank := by
  cases pc with
  | get todo =>
    cases todo with
    | nil => exact Nat.le_refl _
    | cons p todo =>
      simp only [scriptStep, Option.elim_some]
      cases chosen branch (G.get w p).1.entries <;>
        simp only [Option.elim, Pc.rank, List.length_cons] <;> omega
  | put p iid todo =>
    simp only [scriptStep, Option.elim_some]
    split_ifs <;> simp only [Pc.rank] <;> omega
  | delete p iid todo => exact Nat.le_refl _

def State.rank (s : State World) : ℕ := s.pc.elim 0 Pc.rank

theorem step_rank {a : Label World} (h : step G branch s a = some t) :
    (if a.isScript then 1 else 0) + t.rank ≤ s.rank := by
  cases a with
  | others w =>
    cases h
    exact Nat.le_of_eq (Nat.zero_add _)
  | script =>
    obtain ⟨pc,hpc,rfl⟩ := Option.map_eq_some_iff.mp h
    have hrank := @scriptStep_rank _ G branch s.world pc
    simp only [State.rank, hpc, Option.elim_some, Label.isScript, if_true]
    omega

theorem once_start (w : World) : Once (start w) := ⟨rfl,List.nil_sublist _⟩

theorem atomic_start (w : World) : Atomic branch (start w) := fun _ _ => rfl

theorem Atomic.sent (h : Atomic branch s) (hb : branch ≠ "") {server : Server}
    (hlog : ∀ e ∈ s.log, e.AgreesWith server) : s.sent <+: acceptMergeRequest branch server ∧
      (s.pc = none → s.sent = acceptMergeRequest branch server) := by
  have hsent := h server hlog
  rw [acceptMergeRequest, if_neg hb, ← hsent]
  refine ⟨List.prefix_append _ _,fun hpc => ?_⟩
  rw [hpc, Option.elim_none, List.append_nil]

/-- Whatever becomes of the server between its requests, a call sends a beginning, and at its
end all, of what a call sends to a server that stands still and answers as this call was
answered. It is never blocked, and its loop is over after a bounded number of requests. -/
theorem call_refines (hb : branch ≠ "") {labels : List (Label World)}
    (hrun : run (step G branch) (start w) labels = some t) :
    (∃ server : Server, (∀ e ∈ t.log, e.AgreesWith server) ∧ t.sent <+: acceptMergeRequest branch server ∧
      (t.pc = none → t.sent = acceptMergeRequest branch server)) ∧
    (t.pc ≠ none → (step G branch t .script).isSome) ∧
    labels.countP Label.isScript ≤ 3*projects.length+1 := by
  have honce := run_invariant (fun _ _ _ hs h => step_once hs h) hrun (once_start w)
  have hatomic := run_invariant (fun _ _ _ hs h => step_atomic hs h) hrun (atomic_start w)
  have hrank := countP_add_rank_le (I := fun _ => True) (fun _ _ _ _ _ => trivial)
    (fun _ _ _ _ h => step_rank h) hrun trivial
  have hagrees := honce.agreesWith_recorded
  refine ⟨⟨recorded t.log,hagrees,hatomic.sent hb hagrees⟩,fun hpc => ?_,
    (Nat.le_add_right _ _).trans hrank⟩
  obtain ⟨pc,hpc⟩ := Option.ne_none_iff_exists'.mp hpc
  simp [step, hpc]

end Run

def OpenRequests.without (o : OpenRequests) (iid : Nat) : OpenRequests :=
  ⟨o.entries.filter (·.iid ≠ iid),o.unique.sublist (List.filter_sublist.map _)⟩

/-- A server whose state is the list of the framework; other projects have no open requests,
and every attempt to merge has the same outcome. -/
def frameworkServer (outcome : PutOutcome) : GitLab OpenRequests where
  get w p := (if p = "chaosframework" then w else ⟨[],List.nodup_nil⟩,w)
  put w p iid := (outcome,if p = "chaosframework" ∧ outcome = .performed then w.without iid else w)
  delete w _ _ := w

def threeRequests : OpenRequests := ⟨[⟨3,release⟩,⟨2,release⟩,⟨1,feature⟩],by decide⟩

/-- The newest request is deleted after a refusal, although the list has changed meanwhile. -/
theorem busy_refines : ∃ t server, run (step (frameworkServer .refused) "release") (start threeRequests)
      [.script,.others ⟨[⟨4,feature⟩],by decide⟩,.script,.script] = some t ∧
    t.sent = [.get "chaosframework",.put "chaosframework" 3,.delete "chaosframework" 3] ∧
    t.sent <+: acceptMergeRequest "release" server := by
  obtain ⟨t,hrun,hsent⟩ : ∃ t, run (step (frameworkServer .refused) "release") (start threeRequests)
      [.script,.others ⟨[⟨4,feature⟩],by decide⟩,.script,.script] = some t ∧
      t.sent = [.get "chaosframework",.put "chaosframework" 3,.delete "chaosframework" 3] := ⟨_,rfl,rfl⟩
  obtain ⟨⟨server,-,hbefore,-⟩,-⟩ := call_refines (by decide) hrun
  exact ⟨t,server,hrun,hsent,hbefore⟩

end ChaosBundle.AcceptMergeRequest

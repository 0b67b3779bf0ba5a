import ChaosBundle.Gitlab.Interleaving

/-! Calls of the script while nobody else is at work on the server. -/
namespace ChaosBundle.AcceptMergeRequest
open ListFacts Runs
variable {World : Type} {G : GitLab World} {branch : String} {w : World} {s t : State World}

namespace GitLab

def list (G : GitLab World) (w : World) (p : String) : OpenRequests := (G.get w p).1

/-- To read a list changes none, and a request to one project no list of another. -/
structure Local (G : GitLab World) : Prop where
  get : ∀ w p q, G.list (G.get w p).2 q = G.list w q
  put : ∀ w p iid q, q ≠ p → G.list (G.put w p iid).2 q = G.list w q
  delete : ∀ w p iid q, q ≠ p → G.list (G.delete w p iid) q = G.list w q

/-- Requests to a project take entries off its list, and neither add nor move any. -/
structure TakesOff (G : GitLab World) : Prop where
  put : ∀ w p iid, (G.list (G.put w p iid).2 p).entries.Sublist (G.list w p).entries
  delete : ∀ w p iid, (G.list (G.delete w p iid) p).entries.Sublist (G.list w p).entries

end GitLab

section Alone

/-- The project that the script works on is not ahead of it again. -/
def Pc.Once : Pc → Prop
  | .get todo => todo.Nodup
  | .put p _ todo | .delete p _ todo => (p :: todo).Nodup

/-- The projects ahead are as they were at the start, and so were those behind when they were
asked about. -/
structure AsAtStart (G : GitLab World) (w : World) (s : State World) : Prop where
  answers : ∀ p answer, .get p answer ∈ s.log → answer = G.list w p
  once : ∀ pc, s.pc = some pc → pc.Once
  ahead : ∀ pc, s.pc = some pc → ∀ p ∈ pc.todo, G.list s.world p = G.list w p

private theorem asAtStart_start (w : World) : AsAtStart G w (start w) := by
  refine ⟨nofun,fun pc hpc => ?_,fun _ _ _ _ => rfl⟩
  cases hpc
  exact nodup_projects

private theorem scriptStep_asAtStart (hlocal : G.Local) {v : World} {pc : Pc} (honce : pc.Once)
    (hahead : ∀ p ∈ pc.todo, G.list v p = G.list w p) :
    let r := scriptStep G branch v pc
    (∀ p answer, .get p answer ∈ r.2.2 → answer = G.list w p) ∧
      ∀ pc', r.2.1 = some pc' → pc'.Once ∧ ∀ p ∈ pc'.todo, G.list r.1 p = G.list w p := by
  have hne : ∀ {p q : String} {todo : List String}, (p :: todo).Nodup → q ∈ todo → q ≠ p := by
    rintro p _ todo hnodup hq rfl
    exact (List.nodup_cons.mp hnodup).1 hq
  cases pc with
  | get todo =>
    cases todo with
    | nil => exact ⟨nofun,nofun⟩
    | cons p todo =>
      have hrest : ∀ q ∈ todo, G.list (G.get v p).2 q = G.list w q := fun q hq =>
        (hlocal.get v p q).trans (hahead q (List.mem_cons_of_mem _ hq))
      refine ⟨fun q answer hq => ?_,fun pc' hpc' => ?_⟩
      · cases List.mem_singleton.mp hq
        exact hahead p List.mem_cons_self
      · simp only [scriptStep, Option.some.injEq] at hpc'
        subst hpc'
        cases chosen branch (G.get v p).1.entries with
        | none => exact ⟨(List.nodup_cons.mp honce).2,hrest⟩
        | some mr => exact ⟨honce,hrest⟩
  | put p iid todo =>
    have hrest : ∀ q ∈ todo, G.list (G.put v p iid).2 q = G.list w q := fun q hq =>
      (hlocal.put v p iid q (hne honce hq)).trans (hahead q hq)
    refine ⟨fun q answer hq => by simp [scriptStep] at hq,fun pc' hpc' => ?_⟩
    simp only [scriptStep, Option.some.injEq] at hpc'
    subst hpc'
    split_ifs
    · exact ⟨honce,hrest⟩
    · exact ⟨(List.nodup_cons.mp honce).2,hrest⟩
  | delete p iid todo =>
    refine ⟨fun q answer hq => by simp [scriptStep] at hq,fun pc' hpc' => ?_⟩
    cases hpc'
    exact ⟨(List.nodup_cons.mp honce).2,fun q hq =>
      (hlocal.delete v p iid q (hne honce hq)).trans (hahead q hq)⟩

private theorem step_asAtStart (hlocal : G.Local) (hs : AsAtStart G w s)
    (h : step G branch s .script = some t) : AsAtStart G w t := by
  obtain ⟨pc,hpc,rfl⟩ := Option.map_eq_some_iff.mp h
  obtain ⟨hanswers,hnext⟩ :=
    @scriptStep_asAtStart _ G branch w hlocal s.world pc (hs.once pc hpc) (hs.ahead pc hpc)
  refine ⟨fun p answer hmem => ?_,fun pc' hpc' => (hnext pc' hpc').1,fun pc' hpc' => (hnext pc' hpc').2⟩
  rcases List.mem_append.mp hmem with hmem | hmem
  · exact hs.answers p answer hmem
  · exact hanswers p answer hmem

def runAlone (G : GitLab World) (branch : String) (s : State World) (n : ℕ) : Option (State World) :=
  run (step G branch) s (List.replicate n .script)

theorem runAlone_invariant {I : State World → Prop}
    (hstep : ∀ s t, I s → step G branch s .script = some t → I t)
    {n : ℕ} (hrun : runAlone G branch s n = some t) (hs : I s) : I t := by
  have hlabels : ∀ a ∈ List.replicate n (.script : Label World), a = .script := fun _ ha =>
    (List.mem_replicate.mp ha).2
  refine run_invariant_of_meets ?_ hrun (meets_of_forall hlabels s) hs
  rintro s a t hs rfl h
  exact hstep s t hs h

private theorem runAlone_ends (s : State World) :
    ∃ n ≤ s.rank, ∃ t, runAlone G branch s n = some t ∧ t.pc = none := by
  induction hrank : s.rank using Nat.strong_induction_on generalizing s with
  | h r ih =>
    subst hrank
    cases hpc : s.pc with
    | none => exact ⟨0,Nat.zero_le _,s,rfl,hpc⟩
    | some pc =>
      obtain ⟨u,hu⟩ : ∃ u, step G branch s .script = some u := ⟨_,by rw [step, hpc, Option.map_some]⟩
      have hfall := step_rank hu
      simp only [Label.isScript, if_true] at hfall
      obtain ⟨n,hn,t,hrun,hended⟩ := ih u.rank (by omega) u rfl
      refine ⟨n+1,by omega,t,?_,hended⟩
      rw [runAlone, List.replicate_succ, run_cons, hu]
      exact hrun

/-- What a call has sent at its end, by the lists at the start and the outcomes of its log. -/
theorem sent_of_ended (hb : branch ≠ "") (hlocal : G.Local) {n : ℕ}
    (hrun : runAlone G branch (start w) n = some t) (hended : t.pc = none) :
    (∀ p iid outcome, .put p iid outcome ∈ t.log → (recorded t.log).put p iid = outcome) ∧
      t.sent = acceptMergeRequest branch ⟨G.list w,(recorded t.log).put⟩ := by
  have honce := runAlone_invariant (fun _ _ hs h => step_once hs h) hrun (once_start w)
  have hatomic := runAlone_invariant (fun _ _ hs h => step_atomic hs h) hrun (atomic_start w)
  have hanswers := (runAlone_invariant (fun _ _ => step_asAtStart hlocal) hrun (asAtStart_start w)).answers
  have hrecorded := honce.agreesWith_recorded
  refine ⟨fun p iid outcome hput => hrecorded _ hput,(hatomic.sent hb fun e he => ?_).2 hended⟩
  cases e with
  | get p answer => exact (hanswers p answer he).symm
  | put p iid outcome => exact hrecorded _ he
  | delete p iid => trivial

/-- Alone on the server a call gets to its end, and sends, request by request, what one call
sends to the server as it is at the start, although its own merges change the server meanwhile. -/
theorem alone_sends (hb : branch ≠ "") (hlocal : G.Local) (w : World) :
    ∃ n ≤ 3*projects.length+1, ∃ t put, runAlone G branch (start w) n = some t ∧ t.pc = none ∧
      (∀ p iid outcome, .put p iid outcome ∈ t.log → put p iid = outcome) ∧
      t.sent = acceptMergeRequest branch ⟨G.list w,put⟩ := by
  obtain ⟨n,hn,t,hrun,hended⟩ := @runAlone_ends _ G branch (start w)
  obtain ⟨hput,hsent⟩ := sent_of_ended hb hlocal hrun hended
  exact ⟨n,hn,t,_,hrun,hended,hput,hsent⟩

end Alone

theorem local_frameworkServer (outcome : PutOutcome) : (frameworkServer outcome).Local where
  get _ _ _ := rfl
  put w p iid q hq := by
    simp only [GitLab.list, frameworkServer]
    split_ifs with hframework hp
    · exact absurd (hframework.trans hp.1.symm) hq
    · rfl
    · rfl
  delete _ _ _ _ _ := rfl

private theorem takesOff_frameworkServer (outcome : PutOutcome) :
    (frameworkServer outcome).TakesOff where
  put w p iid := by
    simp only [GitLab.list, frameworkServer]
    split_ifs
    · exact List.filter_sublist
    · exact List.Sublist.refl _
    · exact List.Sublist.refl _
  delete _ _ _ := List.Sublist.refl _

/-- Of two requests from the branch the newest one is accepted. -/
theorem alone_accepts_newest : ∃ n t,
    runAlone (frameworkServer .performed) "release" (start threeRequests) n = some t ∧ t.pc = none ∧
      ∀ iid, .put "chaosframework" iid ∈ t.sent ↔ iid = 3 := by
  obtain ⟨n,-,t,put,hrun,hended,-,hsent⟩ :=
    @alone_sends _ _ "release" (by decide) (local_frameworkServer .performed) threeRequests
  refine ⟨n,t,hrun,hended,fun iid => ?_⟩
  have hacted : acted release ⟨(frameworkServer .performed).list threeRequests,put⟩ "chaosframework" =
    some ⟨3,release⟩ := rfl
  rw [hsent, show "release" = release.text from rfl, mem_acceptMergeRequest]
  simp only [put_mem_checkProject]
  constructor
  · rintro ⟨p,-,rfl,mr,hmr,rfl⟩
    rw [hacted] at hmr
    cases hmr
    rfl
  · rintro rfl
    exact ⟨_,by simp [projects],rfl,_,hacted,rfl⟩

section Repeated

/-- A whole call while nobody else is at work. -/
def Call (G : GitLab World) (branch : BranchName) (w : World) (log : List Exchange) (v : World) : Prop :=
  ∃ n, runAlone G branch.text (start w) n = some ⟨v,none,log⟩

variable {branch : BranchName} {log : List Exchange} {v : World}

private theorem scriptStep_sublist (hlocal : G.Local) (htakes : G.TakesOff) (branch : String)
    (w : World) (pc : Pc) (q : String) : (G.list (scriptStep G branch w pc).1 q).entries.Sublist (G.list w q).entries := by
  cases pc with
  | get todo =>
    cases todo with
    | nil => exact List.Sublist.refl _
    | cons p todo => exact (hlocal.get w p q).symm ▸ List.Sublist.refl _
  | put p iid todo =>
    by_cases hq : q = p
    · exact hq ▸ htakes.put w p iid
    · exact (hlocal.put w p iid q hq).symm ▸ List.Sublist.refl _
  | delete p iid todo =>
    by_cases hq : q = p
    · exact hq ▸ htakes.delete w p iid
    · exact (hlocal.delete w p iid q hq).symm ▸ List.Sublist.refl _

private theorem Call.sublist (hlocal : G.Local) (htakes : G.TakesOff) (h : Call G branch w log v)
    (p : String) : (G.list v p).entries.Sublist (G.list w p).entries := by
  obtain ⟨n,hrun⟩ := h
  refine runAlone_invariant (I := fun s => (G.list s.world p).entries.Sublist (G.list w p).entries)
    (fun s t hs hstep => ?_) hrun (List.Sublist.refl _)
  obtain ⟨pc,-,rfl⟩ := Option.map_eq_some_iff.mp hstep
  exact (scriptStep_sublist hlocal htakes branch.text s.world pc p).trans hs

private theorem Call.put_first (hlocal : G.Local) (h : Call G branch w log v) {p : String} {iid : Nat}
    {outcome : PutOutcome} (hput : .put p iid outcome ∈ log) :
    (G.list w p).entries.head? = some ⟨iid,branch⟩ := by
  obtain ⟨n,hrun⟩ := h
  have hsent : .put p iid ∈ State.sent ⟨v,none,log⟩ := List.mem_map_of_mem hput
  rw [(sent_of_ended branch.nonempty hlocal hrun rfl).2] at hsent
  obtain ⟨q,-,hsent⟩ := mem_acceptMergeRequest.mp hsent
  obtain ⟨rfl,⟨iid,source⟩,hacted,rfl⟩ := put_mem_checkProject.mp hsent
  obtain ⟨hhead,rfl,-⟩ := acted_eq_some.mp hacted
  exact hhead

/-- Call after call, a merge is attempted only for the first request of a list, and of those
that were in front of it at the start none is open any more. -/
theorem first_listed_first (hlocal : G.Local) (htakes : G.TakesOff) {calls : ℕ → World}
    {logs : ℕ → List Exchange} (h : ∀ k, Call G branch (calls k) (logs k) (calls (k+1))) {k : ℕ} {p : String}
    {iid : Nat} {outcome : PutOutcome} (hput : .put p iid outcome ∈ logs k) :
    (G.list (calls k) p).entries.head? = some ⟨iid,branch⟩ ∧
      ∀ mr, [mr,⟨iid,branch⟩].Sublist (G.list (calls 0) p).entries → mr ∉ (G.list (calls k) p).entries := by
  have hhead := (h k).put_first hlocal hput
  have hsublist : (G.list (calls k) p).entries.Sublist (G.list (calls 0) p).entries := by
    clear hput hhead
    induction k with
    | zero => exact List.Sublist.refl _
    | succ k ih => exact ((h k).sublist hlocal htakes p).trans ih
  refine ⟨hhead,fun mr hbefore hmem => ?_⟩
  have hnodup : (G.list (calls 0) p).entries.Nodup := (G.list (calls 0) p).unique.of_map _
  obtain ⟨rest,hrest⟩ := List.head?_eq_some_iff.mp hhead
  have hbehind : mr ∈ rest := by
    rw [hrest] at hmem
    refine (List.mem_cons.mp hmem).resolve_left ?_
    rintro rfl
    exact absurd (hbefore.nodup hnodup) (by simp)
  refine not_sublist_swap hnodup hbefore (List.Sublist.trans ?_ hsublist)
  rw [hrest]
  exact (List.singleton_sublist.mpr hbehind).cons_cons _

end Repeated

/-- The log of a call to a server that merges this request of the framework, or none. -/
def logOf (o : OpenRequests) (iid : Option Nat) : List Exchange :=
  .get "chaosframework" o ::
    iid.elim [] (fun iid => [.put "chaosframework" iid .performed,.delete "chaosframework" iid]) ++
    projects.tail.map fun p => .get p ⟨[],List.nodup_nil⟩

/-- The two requests from `release` are merged, and the one from `feature` stays. -/
def afterCalls : ℕ → OpenRequests
  | 0 => threeRequests
  | 1 => threeRequests.without 3
  | _ => (threeRequests.without 3).without 2

def logs : ℕ → List Exchange
  | 0 => logOf (afterCalls 0) (some 3)
  | 1 => logOf (afterCalls 1) (some 2)
  | _ => logOf (afterCalls 2) none

private theorem call_accepts_first : Call (frameworkServer .performed) release threeRequests
    (logOf threeRequests (some 3)) (threeRequests.without 3) := ⟨32,rfl⟩

private theorem call_accepts_second : Call (frameworkServer .performed) release (threeRequests.without 3)
    (logOf (threeRequests.without 3) (some 2)) ((threeRequests.without 3).without 2) := ⟨32,rfl⟩

private theorem call_accepts_none :
    Call (frameworkServer .performed) release ((threeRequests.without 3).without 2)
      (logOf ((threeRequests.without 3).without 2) none) ((threeRequests.without 3).without 2) := ⟨30,rfl⟩

private theorem calls_three (k : ℕ) :
    Call (frameworkServer .performed) release (afterCalls k) (logs k) (afterCalls (k+1)) := by
  rcases k with _ | _ | k
  · exact call_accepts_first
  · exact call_accepts_second
  · exact call_accepts_none

theorem second_after_first : .put "chaosframework" 2 .performed ∈ logs 1 ∧
    ⟨3,release⟩ ∉ ((frameworkServer .performed).list (afterCalls 1) "chaosframework").entries := by
  have hput : .put "chaosframework" 2 .performed ∈ logs 1 := List.mem_cons_of_mem _ List.mem_cons_self
  refine ⟨hput,?_⟩
  refine (first_listed_first (local_frameworkServer _) (takesOff_frameworkServer _) calls_three hput).2 _ ?_
  exact ((List.nil_sublist _).cons_cons _).cons_cons _

end ChaosBundle.AcceptMergeRequest

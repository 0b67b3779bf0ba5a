import ChaosBundle.Library.Runs
import ChaosBundle.LocalServices.PowerSupplyLogs
import Mathlib.Logic.Function.Basic

/-! `test-powersupply.sh` from the start of its test processes on. The script scans their
logs again and again while they write; each `grep` and each `mv` is one step. -/
namespace ChaosBundle.LocalServices
open Function Glob Runs

inductive Verdict where
  | ok | failed
  deriving DecidableEq

/-- A log line, by the verdict that `grep` finds in it. -/
abbrev Line := Option Verdict

/-- Where the script stands, with the pairs that the current loop has still to visit. -/
inductive Pc where
  | clean (p : Pair) (rest : List Pair) | launch (p : Pair) (rest : List Pair)
  | check
  | grepOk (p : Pair) (rest : List Pair) | moveOk (p : Pair) (rest : List Pair)
  | grepFail (p : Pair) (rest : List Pair) | moveFail (p : Pair)
  | ended (status : Nat)
  deriving DecidableEq

/-- A name of the log directory links to a file; a process keeps the file that it opened.
`counted` lists the pairs behind the counters and `written` the verdicts of this run. -/
structure State where
  pc : Pc
  success : Nat
  errors : Nat
  tot : Nat
  counted : List Pair
  started : List Pair
  link : List Char → Option Nat
  lines : Nat → List Line
  fresh : Nat
  fd : Pair → Option Nat
  written : Pair → Option Verdict

namespace State

def grep (s : State) (v : Verdict) (p : Pair) : Bool :=
  (s.link (logName p)).any fun i => some v ∈ s.lines i

def rm (s : State) (pattern : List Char) : State :=
  {s with link := fun name => if fnMatch pattern name then none else s.link name}

/-- `mv` complains about a missing source and changes nothing. -/
def mv (s : State) (source target : List Char) : State :=
  {s with link := match s.link source with
    | some i => update (update s.link target (some i)) source none
    | none => s.link}

def countOk (s : State) (p : Pair) : State :=
  {s with success := s.success+1, tot := s.tot+1, counted := p :: s.counted}

def countFail (s : State) (p : Pair) : State :=
  {s with errors := s.errors+1, tot := s.tot+1, counted := p :: s.counted}

/-- The process of the pair opens its log, and makes it if it is not there. -/
def openLog (s : State) (p : Pair) : State :=
  match s.link (logName p) with
  | some i => {s with fd := update s.fd p (some i)}
  | none => {s with
      link := update s.link (logName p) (some s.fresh)
      lines := update s.lines s.fresh []
      fd := update s.fd p (some s.fresh)
      fresh := s.fresh+1}

def append (s : State) (p : Pair) (i : Nat) (line : Line) : State :=
  {s with
    lines := update s.lines i (s.lines i ++ [line])
    written := update s.written p (line.or (s.written p))}

end State

def setup : List Pair → Pc
  | [] => .check
  | p :: rest => .clean p rest

def scan : List Pair → Pc
  | [] => .check
  | p :: rest => .grepOk p rest

/-- `good` is the outcome of `run_proc` and of `check_proc`. -/
def scriptStep (nus ncu : Nat) (s : State) (good : Bool) : Option State :=
  match s.pc with
  | .clean p rest => some {s.rm (logFile p ['*']) with pc := .launch p rest}
  | .launch p rest =>
    if good then some {s with started := p :: s.started, pc := setup rest}
    else some {s with pc := .ended 1}
  | .check =>
    if s.tot ≤ nus * ncu then
      if !good then some {s with pc := .ended 1}
      else if s.tot = nus * ncu then some {s with pc := .ended s.errors}
      else some {s with pc := scan (pairs nus ncu)}
    else some {s with pc := .ended s.errors}
  | .grepOk p rest =>
    if s.grep .ok p then some {s.countOk p with pc := .moveOk p rest}
    else some {s with pc := .grepFail p rest}
  | .moveOk p rest => some {s.mv (logName p) (okName p) with pc := .grepFail p rest}
  | .grepFail p rest =>
    if s.grep .failed p then some {s.countFail p with pc := .moveFail p}
    else some {s with pc := scan rest}
  | .moveFail p => some {s.mv (logName p) (failName p) with pc := .ended 1}
  | .ended _ => none

inductive Label where
  | script (good : Bool) | opens (p : Pair) | writes (p : Pair) (line : Line)
  deriving DecidableEq

/-- A process opens its log once, after its start, and writes one verdict at most. -/
def step (nus ncu : Nat) (s : State) : Label → Option State
  | .script good => scriptStep nus ncu s good
  | .opens p => if p ∈ s.started ∧ s.fd p = none then some (s.openLog p) else none
  | .writes p line => match s.fd p with
    | some i => if line = none ∨ s.written p = none then some (s.append p i line) else none
    | none => none

/-- After `stop_proc`: the log directory is as earlier runs left it. -/
def begin (nus ncu : Nat) (link : List Char → Option Nat) (lines : Nat → List Line) (fresh : Nat) :
    State where
  pc := setup (pairs nus ncu)
  success := 0
  errors := 0
  tot := 0
  counted := []
  started := []
  link := link
  lines := lines
  fresh := fresh
  fd := fun _ => none
  written := fun _ => none

section Logs
variable {s t : State} {p q : Pair}

theorem State.rm_link (s : State) (p q : Pair) (ending : List Char) :
    (s.rm (logFile p ['*'])).link (logFile q ending) = if q = p then none else s.link (logFile q ending) := by
  simp [State.rm, rm_logFile]

theorem mv_link {target : List Char} (htarget : ∀ q, target ≠ logName q) (s : State) (p q : Pair) :
    (s.mv (logName p) target).link (logName q) = if q = p then none else s.link (logName q) := by
  by_cases hq : q = p
  · subst hq
    cases hl : s.link (logName q) <;> simp [State.mv, hl]
  · have hne : logName q ≠ logName p := fun h => hq (logFile_inj.mp h).1
    cases hl : s.link (logName p) <;> simp [State.mv, hl, hq, hne, (htarget q).symm]

/-- The stale log of the pair is gone. -/
def Tidy (s : State) (p : Pair) : Prop := p ∈ s.started ∨ ∃ rest, s.pc = .launch p rest

/-- What stands under the name of a log was written by its own process in this run. -/
structure OwnLogs (s : State) : Prop where
  own : ∀ p i, Tidy s p → s.link (logName p) = some i → s.fd p = some i
  opened : ∀ p i, s.fd p = some i → p ∈ s.started ∧ i < s.fresh
  apart : ∀ p q i, s.fd p = some i → s.fd q = some i → p = q
  faithful : ∀ p i v, s.fd p = some i → some v ∈ s.lines i → s.written p = some v

/-- A verdict found under the name of a log is the verdict of its process. -/
theorem OwnLogs.grep (hs : OwnLogs s) (hp : p ∈ s.started) {v : Verdict} (hg : s.grep v p) :
    s.fd p ≠ none ∧ s.link (logName p) ≠ none ∧ s.written p = some v := by
  cases hl : s.link (logName p) with
  | none => simp [State.grep, hl] at hg
  | some i =>
    have hfd := hs.own p i (.inl hp) hl
    have hline : some v ∈ s.lines i := by simpa [State.grep, hl] using hg
    exact ⟨by simp [hfd],by simp,hs.faithful p i v hfd hline⟩

/-- The script touches the links only, and a link that it leaves was there before. -/
structure ScriptEffect (s t : State) : Prop where
  fd : t.fd = s.fd
  lines : t.lines = s.lines
  fresh : t.fresh = s.fresh
  written : t.written = s.written
  started : ∀ p ∈ s.started, p ∈ t.started
  link : ∀ p i, Tidy t p → t.link (logName p) = some i → Tidy s p ∧ s.link (logName p) = some i

private theorem OwnLogs.script (hs : OwnLogs s) (h : ScriptEffect s t) : OwnLogs t where
  own p i hp hl := by
    obtain ⟨hp,hl⟩ := h.link p i hp hl
    rw [h.fd]
    exact hs.own p i hp hl
  opened p i hp := by
    rw [h.fd] at hp
    rw [h.fresh]
    exact ⟨h.started p (hs.opened p i hp).1,(hs.opened p i hp).2⟩
  apart := h.fd ▸ hs.apart
  faithful := by
    rw [h.fd, h.lines, h.written]
    exact hs.faithful

private theorem scriptEffect_of_same (hfd : t.fd = s.fd) (hlines : t.lines = s.lines)
    (hfresh : t.fresh = s.fresh) (hwritten : t.written = s.written) (hstarted : t.started = s.started)
    (hpc : ∀ p rest, t.pc ≠ .launch p rest)
    (hlink : ∀ p i, t.link (logName p) = some i → s.link (logName p) = some i) :
    ScriptEffect s t where
  fd := hfd
  lines := hlines
  fresh := hfresh
  written := hwritten
  started _ hp := hstarted ▸ hp
  link p i hp hl := by
    refine ⟨?_,hlink p i hl⟩
    rcases hp with hp | ⟨rest,hp⟩
    · exact .inl (hstarted ▸ hp)
    · exact absurd hp (hpc p rest)

theorem setup_ne_launch (rest : List Pair) (p : Pair) (rest' : List Pair) :
    setup rest ≠ .launch p rest' := by
  cases rest <;> simp [setup]

private theorem scan_ne_launch (rest : List Pair) (p : Pair) (rest' : List Pair) :
    scan rest ≠ .launch p rest' := by
  cases rest <;> simp [scan]

theorem script_effect {nus ncu : Nat} {good : Bool} (h : scriptStep nus ncu s good = some t) :
    ScriptEffect s t := by
  unfold scriptStep at h
  cases hpc : s.pc with
  | clean p rest =>
    simp only [hpc, Option.some.injEq] at h
    subst h
    refine ⟨rfl,rfl,rfl,rfl,fun _ hp => hp,?_⟩
    intro q i hq hl
    rw [logName, State.rm_link] at hl
    split_ifs at hl with hqp
    refine ⟨?_,hl⟩
    rcases hq with hq | ⟨rest',hq⟩
    · exact .inl hq
    · cases hq
      exact absurd rfl hqp
  | launch p rest =>
    simp only [hpc] at h
    split_ifs at h with hgood
    all_goals
      cases h
    · refine ⟨rfl,rfl,rfl,rfl,fun _ hp => List.mem_cons_of_mem _ hp,?_⟩
      intro q i hq hl
      refine ⟨?_,hl⟩
      rcases hq with hq | ⟨rest',hq⟩
      · rcases List.mem_cons.mp hq with rfl | hq
        · exact .inr ⟨rest,hpc⟩
        · exact .inl hq
      · exact absurd hq (setup_ne_launch rest q rest')
    · exact scriptEffect_of_same rfl rfl rfl rfl rfl (by simp) fun _ _ hl => hl
  | check =>
    simp only [hpc] at h
    split_ifs at h
    all_goals
      cases h
      refine scriptEffect_of_same rfl rfl rfl rfl rfl ?_ fun _ _ hl => hl
    · simp
    · simp
    · exact scan_ne_launch _
    · simp
  | grepOk p rest =>
    simp only [hpc] at h
    split_ifs at h
    all_goals
      cases h
      exact scriptEffect_of_same rfl rfl rfl rfl rfl (by simp) fun _ _ hl => hl
  | moveOk p rest =>
    simp only [hpc, Option.some.injEq] at h
    subst h
    refine scriptEffect_of_same rfl rfl rfl rfl rfl (by simp) fun q i hl => ?_
    rw [mv_link (okName_ne p)] at hl
    split_ifs at hl
    exact hl
  | grepFail p rest =>
    simp only [hpc] at h
    split_ifs at h
    all_goals
      cases h
      refine scriptEffect_of_same rfl rfl rfl rfl rfl ?_ fun _ _ hl => hl
    · simp
    · exact scan_ne_launch _
  | moveFail p =>
    simp only [hpc, Option.some.injEq] at h
    subst h
    refine scriptEffect_of_same rfl rfl rfl rfl rfl (by simp) fun q i hl => ?_
    rw [mv_link (failName_ne p)] at hl
    split_ifs at hl
    exact hl
  | ended status => simp [hpc] at h

/-- A process that opens its log finds none, since the script has removed what was there. -/
theorem OwnLogs.openLog_eq (hs : OwnLogs s) (hp : p ∈ s.started) (hfd : s.fd p = none) :
    s.openLog p = {s with
      link := update s.link (logName p) (some s.fresh)
      lines := update s.lines s.fresh []
      fd := update s.fd p (some s.fresh)
      fresh := s.fresh+1} := by
  cases hl : s.link (logName p) with
  | none => simp [State.openLog, hl]
  | some i => simp [hs.own p i (.inl hp) hl] at hfd

private theorem OwnLogs.openLog (hs : OwnLogs s) (hp : p ∈ s.started) (hfd : s.fd p = none) :
    OwnLogs (s.openLog p) := by
  rw [hs.openLog_eq hp hfd]
  have hold : ∀ q i, s.fd q = some i → q ≠ p ∧ i ≠ s.fresh := fun q i hq =>
    ⟨fun h => by simp [h ▸ hq] at hfd,(hs.opened q i hq).2.ne⟩
  constructor
  · intro q i hq hl
    by_cases hqp : q = p
    · subst hqp
      simpa using hl
    · have hname : logName q ≠ logName p := fun h => hqp (logFile_inj.mp h).1
      simp only [update_of_ne hname] at hl
      simpa [hqp] using hs.own q i hq hl
  · intro q i hq
    by_cases hqp : q = p
    · subst hqp
      simp only [update_self, Option.some.injEq] at hq
      exact ⟨hp,by simp [← hq]⟩
    · simp only [update_of_ne hqp] at hq
      exact ⟨(hs.opened q i hq).1,Nat.lt_succ_of_lt (hs.opened q i hq).2⟩
  · intro q r i hq hr
    by_cases hqp : q = p <;> by_cases hrp : r = p
    · exact hqp.trans hrp.symm
    · simp only [hqp, update_self, update_of_ne hrp, Option.some.injEq] at hq hr
      exact absurd hq.symm (hold r i hr).2
    · simp only [hrp, update_self, update_of_ne hqp, Option.some.injEq] at hq hr
      exact absurd hr.symm (hold q i hq).2
    · simp only [update_of_ne hqp, update_of_ne hrp] at hq hr
      exact hs.apart q r i hq hr
  · intro q i v hq hline
    by_cases hqp : q = p
    · subst hqp
      simp only [update_self, Option.some.injEq] at hq
      simp [← hq] at hline
    · simp only [update_of_ne hqp] at hq
      simp only [update_of_ne (hold q i hq).2] at hline
      exact hs.faithful q i v hq hline

theorem append_written {i : Nat} {line : Line} (hline : line = none ∨ s.written p = none)
    {v : Verdict} (h : s.written q = some v) : (s.append p i line).written q = some v := by
  by_cases hqp : q = p
  · subst hqp
    rcases hline with rfl | hnone
    · simpa [State.append] using h
    · simp [hnone] at h
  · simpa [State.append, hqp] using h

private theorem OwnLogs.append (hs : OwnLogs s) {i : Nat} {line : Line} (hfd : s.fd p = some i)
    (hline : line = none ∨ s.written p = none) : OwnLogs (s.append p i line) := by
  refine ⟨hs.own,hs.opened,hs.apart,?_⟩
  intro q j v hq hv
  change s.fd q = some j at hq
  by_cases hqp : q = p
  · subst hqp
    obtain rfl : i = j := Option.some.inj (hfd.symm.trans hq)
    simp only [State.append, update_self, List.mem_append, List.mem_singleton] at hv
    rcases hv with hv | rfl
    · exact append_written hline (hs.faithful q i v hq hv)
    · simp [State.append]
  · have hji : j ≠ i := fun h => hqp (hs.apart q p i (h ▸ hq) hfd)
    simp only [State.append, update_of_ne hji] at hv
    exact append_written hline (hs.faithful q j v hq hv)

theorem step_ownLogs {nus ncu : Nat} {a : Label} (hs : OwnLogs s)
    (hstep : step nus ncu s a = some t) : OwnLogs t := by
  cases a with
  | script good => exact hs.script (script_effect hstep)
  | opens p =>
    simp only [step] at hstep
    split_ifs at hstep with hp
    cases hstep
    exact hs.openLog hp.1 hp.2
  | writes p line =>
    simp only [step] at hstep
    split at hstep
    · split_ifs at hstep with hline
      cases hstep
      exact hs.append ‹_› hline
    · cases hstep

end Logs

end ChaosBundle.LocalServices

import ChaosBundle.Library.DecimalFields
import ChaosBundle.Library.ShellWords
import ChaosBundle.Library.TextLines
import Mathlib.Data.Nat.Find

/-! `wait-for.sh`: it tries to contact a host until its time is over, and then becomes the
command that its arguments end with. -/
namespace ChaosBundle.Startup
open DecimalFields ShellWords TextLines

abbrev Word := List Char

/-- What the script finds in its environment. `seq` gives the words of `seq $TIMEOUT`, and
`nc` the outcome of the attempts, counted from 0. -/
structure Environment where
  host : Word
  port : Word
  i : Word
  cmdname : Word
  seq : Word → List Word
  nc : Nat → Word → Word → Bool

structure Settings where
  host : Word
  port : Word
  timeout : Word
  quiet : Bool
  deriving DecidableEq

inductive Outcome where
  | exec (command : List Word) | exit (status : Nat)
  deriving DecidableEq

/-- `stderr` has the lines that the script itself prints. -/
structure Result where
  contacts : List (Word × Word)
  stderr : List Word
  outcome : Outcome
  deriving DecidableEq

def defaults (env : Environment) : Settings := ⟨env.host,env.port,['1','5'],false⟩

/-- `cut -d : -f`: a line without the delimiter is printed whole. -/
def cutField (f : Nat) (line : Word) : Word :=
  if ':' ∈ line then ((line.splitOn ':')[f-1]?).getD [] else line

/-- The value of `$(printf ... | cut -d : -f ...)`. -/
def cut (f : Nat) (word : Word) : Word :=
  capture (unlines ((lines (word ++ ['\n'])).map (cutField f)))

def echoerr (quiet : Bool) (text : Word) : List Word := if quiet then [] else [text]

def usage (env : Environment) (message : List Word) (exitcode : Nat) : Result where
  contacts := []
  stderr := message ++
    ["Usage:".toList,
      "  ".toList ++ env.cmdname ++ " host:port [-t timeout] [-- command args]".toList,
      "  -q | --quiet                        Do not output any status messages".toList,
      "  -t TIMEOUT | --timeout=timeout      Timeout in seconds, zero for no timeout".toList,
      "  -- COMMAND ARGS                     Execute command with args after the test finishes".toList]
  outcome := .exit exitcode

def quietLong : Word := ['-','-','q','u','i','e','t']

def timeoutLong : Word := ['-','-','t','i','m','e','o','u','t','=']

def helpLong : Word := ['-','-','h','e','l','p']

/-- The loop over the arguments, with what is left of `$@`. An empty timeout breaks off
before its option is shifted away. -/
def parse (env : Environment) (v : Settings) : List Word → Except Result (Settings × List Word)
  | [] => .ok (v,[])
  | w :: ws =>
    if ':' ∈ w then parse env {v with host := cut 1 w, port := cut 2 w} ws
    else if w = ['-','q'] ∨ w = quietLong then parse env {v with quiet := true} ws
    else if w = ['-','t'] then match ws with
      | [] => .ok ({v with timeout := []},[w])
      | t :: ws' =>
        if t = [] then .ok ({v with timeout := []},w :: t :: ws') else parse env {v with timeout := t} ws'
    else if timeoutLong <+: w then
      parse env {v with timeout := (w.dropWhile (· != '=')).drop 1} ws
    else if w = ['-','-'] then .ok (v,ws)
    else if w = helpLong then .error (usage env [] 0)
    else .error (usage env (echoerr v.quiet ("Unknown argument: ".toList ++ w)) 1)

/-- The attempts for the words of `seq`, and the last of them when all have failed. -/
def attempts (nc : Nat → Bool) : (j : Nat) → (i : Word) → List Word → Nat × Option Word
  | _, i, [] => (0,some i)
  | j, _, i :: is =>
    if nc j then (1,none) else ((attempts nc (j+1) i is).1+1,(attempts nc (j+1) i is).2)

def wait_for (env : Environment) (v : Settings) (command : List Word) : Result :=
  let tried := attempts (fun j => env.nc j v.host v.port) 0 env.i (env.seq v.timeout)
  match tried.2 with
  | none => ⟨List.replicate tried.1 (v.host,v.port),[],if command = [] then .exit 0 else .exec command⟩
  | some i => ⟨List.replicate tried.1 (v.host,v.port),["Operation timed out after ".toList ++ i],.exit 1⟩

/-- Next to an empty operand the test takes these for operators, and fails with an error. -/
def isOperator (operand : Word) : Bool := operand = ['!'] || operand = ['(']

/-- `[ "$HOST" = "" -o "$PORT" = "" ]` -/
def missing (v : Settings) : Bool :=
  (v.host = [] || v.port = []) && !(isOperator v.host || isOperator v.port)

def waitFor (env : Environment) (args : List Word) : Result :=
  match parse env (defaults env) args with
  | .error r => r
  | .ok (v,command) =>
    if missing v then
      usage env (echoerr v.quiet "Error: you need to provide a host and port to test.".toList) 2
    else wait_for env v command

/-- An option, and the ways to write it. -/
inductive Opt where
  | address (host port : Word) | quiet (long : Bool) | timeout (long : Bool) (t : Word)
  deriving DecidableEq

namespace Opt

def words : Opt → List Word
  | .address host port => [host ++ ':' :: port]
  | .quiet long => if long then [quietLong] else [['-','q']]
  | .timeout long t => if long then [timeoutLong ++ t] else [['-','t'],t]

def apply (v : Settings) : Opt → Settings
  | .address host port => {v with host := host, port := port}
  | .quiet _ => {v with quiet := true}
  | .timeout _ t => {v with timeout := t}

/-- A text that is read back as it was written. -/
def Spellable : Opt → Prop
  | .address host port => ':' ∉ host ∧ '\n' ∉ host ∧ ':' ∉ port ∧ '\n' ∉ port
  | .quiet _ => True
  | .timeout long t => if long then ':' ∉ t else t ≠ []

instance (o : Opt) : Decidable o.Spellable := by
  cases o <;> unfold Spellable <;> infer_instance

end Opt

section Parse
variable {env : Environment} {v : Settings} {ws : List Word}

private theorem cutField_address {host port : Word} (hhost : ':' ∉ host) (hport : ':' ∉ port) :
    cutField 1 (host ++ ':' :: port) = host ∧ cutField 2 (host ++ ':' :: port) = port := by
  have hsplit : (host ++ ':' :: port).splitOn ':' = [host,port] := by
    rw [List.splitOn, List.splitOnP_append_cons host port (by simp), List.splitOnP_eq_singleton,
      List.splitOnP_eq_singleton]
    · rfl
    · simpa using fun c hc => (ne_of_mem_of_not_mem hc hport)
    · simpa using fun c hc => (ne_of_mem_of_not_mem hc hhost)
  simp [cutField, hsplit]

private theorem cut_line {word : Word} (f : Nat) (hword : '\n' ∉ word)
    (hfield : '\n' ∉ cutField f word) : cut f word = cutField f word := by
  have hline : lines (word ++ ['\n']) = [word] := lines_cons hword []
  have hlast : (cutField f word).getLast? ≠ some '\n' := fun h => hfield (List.mem_of_getLast? h)
  simp [cut, hline, unlines, capture_line hlast]

private theorem parse_colon {w : Word} (h : ':' ∈ w) :
    parse env v (w :: ws) = parse env {v with host := cut 1 w, port := cut 2 w} ws := by
  cases ws <;> simp [parse, h]

private theorem parse_address {host port : Word} (h : (Opt.address host port).Spellable) :
    parse env v ((host ++ ':' :: port) :: ws) = parse env {v with host := host, port := port} ws := by
  obtain ⟨hhost,hhost',hport,hport'⟩ := h
  obtain ⟨hfirst,hsecond⟩ := cutField_address hhost hport
  have hword : '\n' ∉ host ++ ':' :: port := by simp [hhost', hport']
  rw [parse_colon (by simp), cut_line 1 hword (by rwa [hfirst]), cut_line 2 hword (by rwa [hsecond]),
    hfirst, hsecond]

private theorem parse_quiet (long : Bool) :
    parse env v ((Opt.quiet long).words ++ ws) = parse env {v with quiet := true} ws := by
  cases long <;> cases ws <;> simp [Opt.words, parse, quietLong]

private theorem parse_timeout {t : Word} (ht : t ≠ []) :
    parse env v (['-','t'] :: t :: ws) = parse env {v with timeout := t} ws := by
  simp [parse, quietLong, ht]

private theorem parse_timeoutLong {t : Word} (ht : ':' ∉ t) :
    parse env v ((timeoutLong ++ t) :: ws) = parse env {v with timeout := t} ws := by
  cases ws <;> simp [parse, quietLong, timeoutLong, ht]

private theorem parse_words {o : Opt} (h : o.Spellable) :
    parse env v (o.words ++ ws) = parse env (o.apply v) ws := by
  cases o with
  | address host port => exact parse_address h
  | quiet long => exact parse_quiet long
  | timeout long t =>
    cases long with
    | true => exact parse_timeoutLong h
    | false => exact parse_timeout h

private theorem parse_options {opts : List Opt} (h : ∀ o ∈ opts, o.Spellable) :
    parse env v (opts.flatMap Opt.words ++ ws) = parse env (opts.foldl Opt.apply v) ws := by
  induction opts generalizing v with
  | nil => rfl
  | cons o opts ih =>
    obtain ⟨ho,hopts⟩ := List.forall_mem_cons.mp h
    rw [List.flatMap_cons, List.append_assoc, parse_words ho, ih hopts]
    rfl

/-- What may follow the options. -/
def Trailer (command tail : List Word) : Prop := (command = [] ∧ tail = []) ∨ tail = ['-','-'] :: command

private theorem parse_trailer {command tail : List Word} (h : Trailer command tail) :
    parse env v tail = .ok (v,command) := by
  obtain ⟨rfl,rfl⟩ | rfl := h
  · rfl
  · cases command <;> simp [parse, quietLong, timeoutLong]

/-- The loop prints the usage, with status 0 only for `--help`, or leaves a part of the
arguments for the command. -/
def Ends (env : Environment) (ws : List Word) (r : Except Result (Settings × List Word)) : Prop :=
  (∃ message status, r = .error (usage env message status) ∧ (status = 0 → helpLong ∈ ws)) ∨
  ∃ v command, r = .ok (v,command) ∧ command <:+ ws

private theorem Ends.cons {r : Except Result (Settings × List Word)} (h : Ends env ws r) (w : Word) :
    Ends env (w :: ws) r := by
  obtain ⟨message,status,hr,hhelp⟩ | ⟨v,command,hr,hcommand⟩ := h
  · exact .inl ⟨message,status,hr,fun hs => List.mem_cons_of_mem w (hhelp hs)⟩
  · exact .inr ⟨v,command,hr,hcommand.trans (List.suffix_cons w ws)⟩

private theorem parse_ends (env : Environment) (v : Settings) (ws : List Word) :
    Ends env ws (parse env v ws) := by
  fun_induction parse env v ws with
  | case1 v => exact .inr ⟨v,[],rfl,List.nil_suffix⟩
  | case2 v w ws hw ih => exact ih.cons w
  | case3 v w ws hw hquiet ih => exact ih.cons w
  | case4 v => exact .inr ⟨_,_,rfl,List.suffix_rfl⟩
  | case5 v ws => exact .inr ⟨_,_,rfl,List.suffix_rfl⟩
  | case6 v t ws ht hw hquiet ih => exact (ih.cons t).cons _
  | case7 v w ws hw hquiet hshort htimeout ih => exact ih.cons w
  | case8 v ws => exact .inr ⟨v,ws,rfl,List.suffix_cons _ ws⟩
  | case9 v ws => exact .inl ⟨[],0,rfl,fun _ => List.mem_cons_self⟩
  | case10 v w ws => exact .inl ⟨_,1,rfl,fun h => absurd h Nat.one_ne_zero⟩

end Parse

section Attempts
variable {nc : Nat → Bool} {j : Nat} {i : Word} {is : List Word}

private theorem attempts_none (h : ∀ k < is.length, nc (j+k) = false) :
    attempts nc j i is = (is.length,some (is.getLast?.getD i)) := by
  induction is generalizing j i with
  | nil => rfl
  | cons i' is ih =>
    have hfirst : nc j = false := h 0 (Nat.zero_lt_succ _)
    have hrest := @ih (j+1) i' fun k hk => by
      rw [Nat.add_right_comm]
      exact h (k+1) (Nat.succ_lt_succ hk)
    simp [attempts, hfirst, hrest, List.getLast?_cons]

private theorem attempts_first {k : Nat} (hk : k < is.length) (hcontact : nc (j+k))
    (h : ∀ l < k, nc (j+l) = false) : attempts nc j i is = (k+1,none) := by
  induction k generalizing j i is with
  | zero =>
    obtain ⟨i',is,rfl⟩ := List.exists_cons_of_length_pos hk
    have hcontact : nc j := hcontact
    simp [attempts, hcontact]
  | succ k ih =>
    obtain ⟨i',is,rfl⟩ := List.exists_cons_of_length_pos (Nat.zero_lt_of_lt hk)
    have hfirst : nc j = false := h 0 (Nat.zero_lt_succ _)
    have hrest := @ih (j+1) i' is (Nat.lt_of_succ_lt_succ hk) (by rwa [Nat.add_right_comm]) fun l hl => by
      rw [Nat.add_right_comm]
      exact h (l+1) (Nat.succ_lt_succ hl)
    simp [attempts, hfirst, hrest]

private theorem attempts_cases (nc : Nat → Bool) (i : Word) (is : List Word) :
    (attempts nc 0 i is = (is.length,some (is.getLast?.getD i)) ∧ ∀ k < is.length, nc k = false) ∨
    ∃ k < is.length, attempts nc 0 i is = (k+1,none) ∧ nc k ∧ ∀ l < k, nc l = false := by
  by_cases h : ∃ k, k < is.length ∧ nc k
  · have hfirst := Nat.find_spec h
    have hmin : ∀ l < Nat.find h, nc l = false := fun l hl => by
      have hnot := Nat.find_min h hl
      simpa [lt_trans hl hfirst.1] using hnot
    refine .inr ⟨Nat.find h,hfirst.1,attempts_first hfirst.1 (by simpa using hfirst.2) ?_,hfirst.2,hmin⟩
    simpa using hmin
  · have hall : ∀ k < is.length, nc k = false := fun k hk => by
      simpa using fun hc => h ⟨k,hk,hc⟩
    exact .inl ⟨attempts_none (by simpa using hall),hall⟩

end Attempts

section Run
variable {env : Environment} {args : List Word}

def NoAnswer (env : Environment) (host port : Word) (tries : Nat) : Prop :=
  ∀ k < tries, env.nc k host port = false

/-- The attempt is the first that is answered. -/
def FirstAnswer (env : Environment) (host port : Word) (tries k : Nat) : Prop :=
  k < tries ∧ env.nc k host port ∧ ∀ l < k, env.nc l host port = false

private theorem FirstAnswer.unique {host port : Word} {tries k k' : Nat}
    (h : FirstAnswer env host port tries k) (h' : FirstAnswer env host port tries k') : k = k' := by
  rcases Nat.lt_trichotomy k k' with hlt | heq | hlt
  · exact absurd h.2.1 (by simp [h'.2.2 k hlt])
  · exact heq
  · exact absurd h'.2.1 (by simp [h.2.2 k' hlt])

/-- What the script does to its end once its arguments are read. -/
theorem wait_for_cases (env : Environment) (v : Settings) (command : List Word) :
    (NoAnswer env v.host v.port (env.seq v.timeout).length ∧
      wait_for env v command = ⟨List.replicate (env.seq v.timeout).length (v.host,v.port),
        ["Operation timed out after ".toList ++ (env.seq v.timeout).getLast?.getD env.i],.exit 1⟩) ∨
    ∃ k, FirstAnswer env v.host v.port (env.seq v.timeout).length k ∧
      wait_for env v command = ⟨List.replicate (k+1) (v.host,v.port),[],
        if command = [] then .exit 0 else .exec command⟩ := by
  obtain ⟨htried,hnone⟩ | ⟨k,hk,htried,hcontact,hfirst⟩ :=
    attempts_cases (fun j => env.nc j v.host v.port) env.i (env.seq v.timeout)
  · exact .inl ⟨hnone,by simp [wait_for, htried]⟩
  · exact .inr ⟨k,⟨hk,hcontact,hfirst⟩,by simp [wait_for, htried]⟩

theorem wait_for_answers (env : Environment) (v : Settings) (command : List Word) {tries : Nat}
    (htries : (env.seq v.timeout).length = tries) :
    (NoAnswer env v.host v.port tries → (wait_for env v command).contacts =
      List.replicate tries (v.host,v.port) ∧ (wait_for env v command).outcome = .exit 1) ∧
    ∀ k, FirstAnswer env v.host v.port tries k → (wait_for env v command).contacts =
      List.replicate (k+1) (v.host,v.port) ∧
      (wait_for env v command).outcome = if command = [] then .exit 0 else .exec command := by
  subst htries
  obtain ⟨hnone,hfailed⟩ | ⟨k,hanswer,hdone⟩ := wait_for_cases env v command
  · refine ⟨fun _ => by simp [hfailed],fun k hanswer => ?_⟩
    exact absurd hanswer.2.1 (by simp [hnone k hanswer.1])
  · refine ⟨fun hnone => absurd hanswer.2.1 (by simp [hnone k hanswer.1]),fun k' hanswer' => ?_⟩
    obtain rfl := hanswer.unique hanswer'
    simp [hdone]

/-- Whatever its arguments are, the script becomes a command or ends with 0 only after a
host has answered, and right after its first answer; otherwise it was asked for help. The host
and the port are not empty, unless the other one is taken for an operator. -/
theorem success_after_contact (env : Environment) (args : List Word) :
    (waitFor env args).outcome ≠ .exit 0 ∧ (∀ command, (waitFor env args).outcome ≠ .exec command) ∨
    ((waitFor env args).outcome = .exit 0 ∧ (waitFor env args).contacts = [] ∧ helpLong ∈ args) ∨
    ∃ host port k command, (host ≠ [] ∧ port ≠ [] ∨ isOperator host ∨ isOperator port) ∧ command <:+ args ∧
      (waitFor env args).contacts = List.replicate (k+1) (host,port) ∧ FirstAnswer env host port (k+1) k ∧
      (waitFor env args).outcome = if command = [] then .exit 0 else .exec command := by
  obtain ⟨message,status,hparse,hhelp⟩ | ⟨v,command,hparse,hcommand⟩ := parse_ends env (defaults env) args
  · have hresult : waitFor env args = usage env message status := by simp [waitFor, hparse]
    rw [hresult]
    by_cases hstatus : status = 0
    · exact .inr (.inl ⟨by simp [usage, hstatus],rfl,hhelp hstatus⟩)
    · exact .inl ⟨by simp [usage, hstatus],by simp [usage]⟩
  · by_cases hmissing : missing v
    · have hresult : waitFor env args = usage env
          (echoerr v.quiet "Error: you need to provide a host and port to test.".toList) 2 := by
        simp only [waitFor, hparse, if_pos hmissing]
      rw [hresult]
      exact .inl ⟨by simp [usage],by simp [usage]⟩
    · have hresult : waitFor env args = wait_for env v command := by
        simp only [waitFor, hparse, if_neg hmissing]
      have hoperands : v.host ≠ [] ∧ v.port ≠ [] ∨ isOperator v.host ∨ isOperator v.port := by
        simp only [missing, Bool.and_eq_true, Bool.or_eq_true, decide_eq_true_eq, Bool.not_eq_true',
          Bool.or_eq_false_iff] at hmissing
        grind
      rw [hresult]
      obtain ⟨-,hfailed⟩ | ⟨k,hanswer,hdone⟩ := wait_for_cases env v command
      · exact .inl ⟨by simp [hfailed],by simp [hfailed]⟩
      · exact .inr (.inr ⟨v.host,v.port,k,command,hoperands,hcommand,by simp [hdone],
          ⟨Nat.lt_succ_self k,hanswer.2⟩,by simp [hdone]⟩)

theorem waitFor_options {opts : List Opt} (hopts : ∀ o ∈ opts, o.Spellable) {command tail : List Word}
    (htail : Trailer command tail) {v : Settings} (hv : v = opts.foldl Opt.apply (defaults env))
    (hhost : v.host ≠ []) (hport : v.port ≠ []) :
    waitFor env (opts.flatMap Opt.words ++ tail) = wait_for env v command := by
  rw [waitFor, parse_options hopts, parse_trailer htail, ← hv]
  have hmissing : missing v = false := by simp [missing, hhost, hport]
  simp only [hmissing, Bool.false_eq_true, if_false]

/-- Options in any order and spelling, the last of each kind counting: the script tries
the address as often as `seq` counts, and becomes the command at the first answer. -/
theorem options_followed {opts : List Opt} (hopts : ∀ o ∈ opts, o.Spellable) {command tail : List Word}
    (htail : Trailer command tail) {v : Settings} (hv : v = opts.foldl Opt.apply (defaults env))
    (hhost : v.host ≠ []) (hport : v.port ≠ []) {tries : Nat} (htries : (env.seq v.timeout).length = tries) :
    let r := waitFor env (opts.flatMap Opt.words ++ tail)
    (NoAnswer env v.host v.port tries →
      r.contacts = List.replicate tries (v.host,v.port) ∧ r.outcome = .exit 1) ∧
    ∀ k, FirstAnswer env v.host v.port tries k →
      r.contacts = List.replicate (k+1) (v.host,v.port) ∧
      r.outcome = if command = [] then .exit 0 else .exec command := by
  simp only [waitFor_options hopts htail hv hhost hport]
  exact wait_for_answers env v command htries

end Run

def thirdTime : Environment where
  host := []
  port := []
  i := []
  cmdname := []
  seq t := if t = ['4'] then [['1'],['2'],['3'],['4']] else []
  nc k _ _ := k = 2

theorem third_attempt_runs : (waitFor thirdTime (["a:1".toList,"-q".toList,"db:80".toList,"--timeout=4".toList] ++
      ["--".toList,"ls".toList])).outcome = .exec ["ls".toList] ∧
    (waitFor thirdTime (["a:1".toList,"-q".toList,"db:80".toList,"--timeout=4".toList] ++
      ["--".toList,"ls".toList])).contacts = List.replicate 3 ("db".toList,"80".toList) := by
  have hfollowed := @options_followed thirdTime
    [.address ['a'] ['1'],.quiet false,.address ['d','b'] ['8','0'],.timeout true ['4']] (by decide)
    ["ls".toList] _ (.inr rfl) _ rfl (by decide) (by decide) 4 rfl
  obtain ⟨hcontacts,houtcome⟩ := hfollowed.2 2 ⟨by decide,rfl,by decide⟩
  exact ⟨houtcome,hcontacts⟩

end ChaosBundle.Startup

import ChaosBundle.Library.Getopts
import ChaosBundle.Library.Pathnames

/-! `testio.sh`: its options, and one call of `testDataSetIO` for each number of threads. -/
namespace ChaosBundle.Benchmark
open DecimalFields Getopts ShellWords

structure Config where
  loglevel : Word
  maxsize : Word
  maxthread : Word
  loop : Word
  page_len : Word
  nerror : Word
  dataset_name : Word
  from_thread : Word
  broker_server : Word
  waitfor : Word

def defaults : Config where
  loglevel := []
  maxsize := "8191".toList
  maxthread := "8".toList
  loop := "1000".toList
  page_len := "0".toList
  nerror := "1".toList
  dataset_name := "PERFORMANCE_IO".toList
  from_thread := "1".toList
  broker_server := "localhost:9092".toList
  waitfor := "80".toList

def optstring : Word :=
  ['f',':','e',':','p',':','n',':','m',':','h','l',':','t',':','s',':','g','w',':']

/-- The `case` of the loop over the options; `-h` prints the usage and ends the script. -/
def setOption (c : Config) (o : Found) : Option Config :=
  match o.1 with
  | 'f' => some { c with from_thread := o.2 }
  | 'w' => some { c with waitfor := o.2 }
  | 'e' => some { c with nerror := o.2 }
  | 'm' => some { c with broker_server := o.2 }
  | 'p' => some { c with page_len := o.2 }
  | 'l' => some { c with loop := o.2 }
  | 'n' => some { c with dataset_name := o.2 }
  | 't' => some { c with maxthread := o.2 }
  | 's' => some { c with maxsize := o.2 }
  | 'g' => some { c with loglevel := "enabled".toList }
  | 'h' => none
  | _ => some c

def config (argv : List Word) : Option Config := (getopts optstring none argv).foldlM setOption defaults

/-- The numbers that `seq` prints have neither separators nor patterns in them. -/
abbrev Printed := {w : Word // Plain w}

/-- What the script finds around it; `seq` is left open where an operand is no numeral. -/
structure Host where
  pathnames : Pathnames
  chaosPrefix : Word
  hostname : Word
  date : Word
  chaosPrefix_plain : Plain chaosPrefix
  seqOther : List Word → List Printed

def isNumeral (w : Word) : Bool := w ≠ [] && w.all Char.isDigit

/-- `seq first last` -/
def seq (other : List Word → List Printed) (operands : List Word) : List Printed :=
  match operands with
  | [first,last] =>
    if isNumeral first ∧ isNumeral last then
      let low := Nat.ofDigitChars 10 first 0
      (List.range' low (Nat.ofDigitChars 10 last 0 + 1 - low)).map fun n => ⟨digits n,plain_digits n⟩
    else other operands
  | _ => other operands

/-- One option of a command line with the words that its value has expanded to. -/
structure Argument where
  option : String
  operands : List Word
  deriving DecidableEq

/-- `[ -n ... ]` with unquoted operands: without an operand it tests the text `-n`. -/
def testNonempty : List Word → Bool
  | [] => true
  | [w] => w ≠ []
  | _ => false

section Script
variable (h : Host) (c : Config)

def csvprefix : Word := "testDataSetIO-".toList ++ h.hostname ++ '-' :: h.date

/-- `$CHAOS_PREFIX/log/$csvprefix-$i` with an extension. -/
def logFile (i : Word) (extension : String) : Word :=
  h.chaosPrefix ++ "/log/".toList ++ csvprefix h ++ '-' :: i ++ extension.toList

def consumerOptions : List Argument := [
  ⟨"--msgopt-consumer-kvp=allow.auto.create.topics:true",[]⟩,
  ⟨"--msgopt-consumer-kvp=max.partition.fetch.bytes:15048576",[]⟩,
  ⟨"--msgopt-consumer-kvp=fetch.message.max.bytes:15048576",[]⟩,
  ⟨"--node-uid",["testio".toList]⟩]

def withLog (i : Word) : List Argument :=
  let e := h.pathnames.expand
  consumerOptions ++ [
    ⟨"--dsname",e c.dataset_name⟩, ⟨"--wait",e c.waitfor⟩, ⟨"--points",["0".toList]⟩,
    ⟨"--pointmax",e c.maxsize⟩, ⟨"--nerror",e c.nerror⟩, ⟨"--msg-broker-server",e c.broker_server⟩,
    ⟨"--nthread",e i⟩, ⟨"--pointincr",["2".toList]⟩, ⟨"--loop",e c.loop⟩, ⟨"--page",e c.page_len⟩,
    ⟨"--report",e (logFile h i ".csv")⟩, ⟨"--log-on-file",["1".toList]⟩,
    ⟨"--log-file",e (logFile h i ".log")⟩, ⟨"--log-level",["debug".toList]⟩]

/-- The second command line has no blank between the broker and `--nthread`. -/
def withoutLog (i : Word) : List Argument :=
  let e := h.pathnames.expand
  consumerOptions ++ [
    ⟨"--nerror",e c.nerror⟩, ⟨"--wait",e c.waitfor⟩, ⟨"--dsname",e c.dataset_name⟩,
    ⟨"--points",["0".toList]⟩, ⟨"--pointmax",e c.maxsize⟩,
    ⟨"--msg-broker-server",e (c.broker_server ++ "--nthread".toList) ++ e i⟩,
    ⟨"--pointincr",["2".toList]⟩, ⟨"--loop",e c.loop⟩, ⟨"--page",e c.page_len⟩,
    ⟨"--report",e (logFile h i ".csv")⟩]

def testDataSetIOArguments (i : Word) : List Argument :=
  if testNonempty (h.pathnames.expand c.loglevel) then withLog h c i else withoutLog h c i

/-- The loop from the call number `k`, with the exit codes of the calls. -/
def benchmark (code : ℕ → ℕ) : ℕ → List Word → List (List Argument) × ℕ
  | _, [] => ([],0)
  | k, i :: is =>
    if 0 < code k then ([testDataSetIOArguments h c i],code k)
    else (testDataSetIOArguments h c i :: (benchmark code (k+1) is).1,(benchmark code (k+1) is).2)

/-- What the operands of `seq` have expanded to, the calls, and the status of the script. -/
structure Run where
  seqOperands : List (List Word)
  calls : List (List Argument)
  status : ℕ

def runTests (code : ℕ → ℕ) : Run :=
  let operands := [h.pathnames.expand c.from_thread,h.pathnames.expand c.maxthread]
  let numbers := TextLines.unlines ((seq h.seqOther operands.flatten).map Subtype.val)
  let run := benchmark h c code 0 (h.pathnames.expand (capture numbers))
  ⟨operands,run.1,run.2⟩

/-- The script stops without `CHAOS_PREFIX`. -/
def testio (argv : List Word) (code : ℕ → ℕ) : Run :=
  match h.pathnames.expand h.chaosPrefix with
  | [] => ⟨[],[],1⟩
  | _ => match config argv with
    | none => ⟨[],[],0⟩
    | some c => runTests h c code

end Script

section Vector

inductive Letter where
  | f | e | p | n | m | l | t | s | w
  deriving DecidableEq

def Letter.char : Letter → Char
  | f => 'f' | e => 'e' | p => 'p' | n => 'n' | m => 'm' | l => 'l' | t => 't' | s => 's' | w => 'w'

def Config.get (c : Config) : Letter → Word
  | .f => c.from_thread
  | .e => c.nerror
  | .p => c.page_len
  | .n => c.dataset_name
  | .m => c.broker_server
  | .l => c.loop
  | .t => c.maxthread
  | .s => c.maxsize
  | .w => c.waitfor

/-- An option of the vector; `debug` is `-g`. -/
inductive Opt where
  | value (x : Letter) (v : Word)
  | debug
  deriving DecidableEq

inductive Spells : List Word → List Opt → Prop
  | nil : Spells [] []
  | separate {ws : List Word} {os : List Opt} (x : Letter) (v : Word) :
      Spells ws os → Spells (['-',x.char] :: v :: ws) (.value x v :: os)
  | attached {ws : List Word} {os : List Opt} (x : Letter) (v : Word) :
      v ≠ [] → Spells ws os → Spells (('-' :: x.char :: v) :: ws) (.value x v :: os)
  | debug {ws : List Word} {os : List Opt} : Spells ws os → Spells (['-','g'] :: ws) (.debug :: os)
  | cluster {d : Char} {cs : Word} {ws : List Word} {os : List Opt} :
      d ≠ '-' → Spells (('-' :: d :: cs) :: ws) os → Spells (('-' :: 'g' :: d :: cs) :: ws) (.debug :: os)

def Opt.found : Opt → Found
  | .value x v => (x.char,v)
  | .debug => ('g',[])

def Opt.valueFor (x : Letter) : Opt → Option Word
  | .value y v => if y = x then some v else none
  | .debug => none

/-- The last value of the option, or its default. -/
def inForce (opts : List Opt) (x : Letter) : Word :=
  (opts.filterMap (Opt.valueFor x)).getLastD (defaults.get x)

private theorem Letter.char_ne_dash (x : Letter) : x.char ≠ '-' := by cases x <;> decide

private theorem Letter.arity_char (x : Letter) : arity optstring x.char = some true := by cases x <;> rfl

private theorem getopts_spells {argv : List Word} {opts : List Opt} (h : Spells argv opts) :
    getopts optstring none argv = opts.map Opt.found := by
  induction h with
  | nil => rfl
  | separate x v _ ih => rw [getopts_separate x.char_ne_dash x.arity_char, ih]; rfl
  | attached x v hv _ ih => rw [getopts_attached x.char_ne_dash x.arity_char hv, ih]; rfl
  | debug _ ih => rw [getopts_flag (by decide) rfl, ih]; rfl
  | cluster hd _ ih => rw [getopts_cluster (by decide) rfl hd, ih]; rfl

private theorem setOption_value (c : Config) (x : Letter) (v : Word) :
    ∃ c', setOption c (x.char,v) = some c' ∧ c'.loglevel = c.loglevel ∧
      ∀ y, c'.get y = if x = y then v else c.get y := by
  cases x <;> exact ⟨_,rfl,rfl,fun y => by cases y <;> rfl⟩

private theorem setOption_debug (c : Config) :
    ∃ c', setOption c ('g',[]) = some c' ∧ c'.loglevel = "enabled".toList ∧ ∀ y, c'.get y = c.get y :=
  ⟨_,rfl,rfl,fun y => by cases y <;> rfl⟩

/-- After the loop each variable has the last value of its option. -/
theorem foldlM_setOption (opts : List Opt) (c : Config) :
    ∃ c', (opts.map Opt.found).foldlM setOption c = some c' ∧
      (c'.loglevel = if .debug ∈ opts then "enabled".toList else c.loglevel) ∧
      ∀ x, c'.get x = (opts.filterMap (Opt.valueFor x)).getLastD (c.get x) := by
  induction opts generalizing c with
  | nil => exact ⟨c,rfl,by simp,fun x => rfl⟩
  | cons o opts ih =>
    cases o with
    | value x v =>
      obtain ⟨c₁,hset,hlog,hget⟩ := setOption_value c x v
      obtain ⟨c₂,hfold,hlog₂,hget₂⟩ := ih c₁
      refine ⟨c₂,?_,?_,fun y => ?_⟩
      · rw [List.map_cons, List.foldlM_cons, Opt.found, hset]
        exact hfold
      · rw [hlog₂, hlog]
        simp only [List.mem_cons, reduceCtorEq, false_or]
      · rw [hget₂, hget, List.filterMap_cons, Opt.valueFor]
        split_ifs with hxy
        · rw [List.getLastD_cons]
        · rfl
    | debug =>
      obtain ⟨c₁,hset,hlog,hget⟩ := setOption_debug c
      obtain ⟨c₂,hfold,hlog₂,hget₂⟩ := ih c₁
      refine ⟨c₂,?_,?_,fun y => ?_⟩
      · rw [List.map_cons, List.foldlM_cons, Opt.found, hset]
        exact hfold
      · rw [hlog₂, hlog, if_pos List.mem_cons_self]
        exact ite_self _
      · rw [hget₂, hget, List.filterMap_cons]
        rfl

theorem config_spells {argv : List Word} {opts : List Opt} (h : Spells argv opts) :
    ∃ c, config argv = some c ∧ (c.loglevel = if .debug ∈ opts then "enabled".toList else []) ∧
      ∀ x, c.get x = inForce opts x := by
  rw [config, getopts_spells h]
  exact foldlM_setOption opts defaults

end Vector

end ChaosBundle.Benchmark

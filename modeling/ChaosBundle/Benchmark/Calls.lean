import ChaosBundle.Benchmark.TestIo

/-! The calls of `testDataSetIO` that an argument vector asks for, and those that are made. -/
namespace ChaosBundle.Benchmark
open Getopts ShellWords

section Asked

def operandsOf (args : List Argument) (option : String) : Option (List Word) :=
  (args.find? fun a => a.option = option).map Argument.operands

/-- The option of `testDataSetIO` that takes the value. -/
def Letter.optionName : Letter → Option String
  | .f | .t => none
  | .n => some "--dsname"
  | .w => some "--wait"
  | .s => some "--pointmax"
  | .e => some "--nerror"
  | .m => some "--msg-broker-server"
  | .l => some "--loop"
  | .p => some "--page"

def logOptions : List String := ["--log-on-file","--log-file","--log-level"]

def dropLog (args : List Argument) : List Argument := args.filter fun a => a.option ∉ logOptions

def numbers (h : Host) (opts : List Opt) : List Printed :=
  seq h.seqOther [inForce opts .f,inForce opts .t]

/-- All calls are made and succeed, or all up to the first that fails. -/
def UntilFailure (code : ℕ → ℕ) (total made status : ℕ) : Prop :=
  (made = total ∧ status = 0 ∧ ∀ j < total, code j = 0) ∨
    ∃ k < total, made = k + 1 ∧ status = code k ∧ 0 < code k ∧ ∀ j < k, code j = 0

structure RunsAsAsked (h : Host) (opts : List Opt) (code : ℕ → ℕ) (r : Run) : Prop where
  seqOperands : r.seqOperands = [[inForce opts .f],[inForce opts .t]]
  threads : ∃ made, UntilFailure code (numbers h opts).length made r.status ∧
    r.calls.map (operandsOf · "--nthread") = ((numbers h opts).take made).map fun i => some [i.val]
  values : ∀ args ∈ r.calls, ∀ x name, Letter.optionName x = some name →
    operandsOf args name = some [inForce opts x]
  logged : ∀ args ∈ r.calls, .debug ∈ opts → (operandsOf args "--log-on-file").isSome ∧
    (operandsOf args "--log-file").isSome ∧ operandsOf args "--log-level" = some ["debug".toList]
  quiet : ∀ args ∈ r.calls, .debug ∉ opts → ∀ a ∈ args, a.option ∉ logOptions

/-- Without their logging options the calls are those of every vector that has the same
options apart from `-g`. -/
def DiffersInLogOnly (h : Host) (argv : List Word) (opts : List Opt) (code : ℕ → ℕ) : Prop :=
  ∀ argv' opts', Spells argv' opts' → opts'.filter (· ≠ .debug) = opts.filter (· ≠ .debug) →
    (testio h argv' code).calls.map dropLog = (testio h argv code).calls.map dropLog

/-- The unquoted value is one word, the value itself. -/
def StaysItself (h : Host) (opts : List Opt) (x : Letter) : Prop :=
  h.pathnames.expand (inForce opts x) = [inForce opts x]

end Asked

variable {h : Host} {c : Config}

private theorem testDataSetIOArguments_eq (hlog : c.loglevel = [] ∨ c.loglevel = "enabled".toList)
    (i : Word) : testDataSetIOArguments h c i = withLog h c i := by
  have hplain : Plain "enabled".toList := by decide
  unfold testDataSetIOArguments
  rcases hlog with hlog | hlog <;> rw [hlog]
  · rfl
  · rw [h.pathnames.expand_plain hplain]
    rfl

theorem operandsOf_withLog {x : Letter} {name : String} (hx : x.optionName = some name) (i : Word) :
    operandsOf (withLog h c i) name = some (h.pathnames.expand (c.get x)) := by
  cases x <;> cases hx <;> rfl

private theorem withLog_congr {c' : Config} (hget : ∀ x, c'.get x = c.get x) (i : Word) :
    withLog h c' i = withLog h c i := by
  have hn : c'.dataset_name = c.dataset_name := hget .n
  have hw : c'.waitfor = c.waitfor := hget .w
  have hs : c'.maxsize = c.maxsize := hget .s
  have he : c'.nerror = c.nerror := hget .e
  have hm : c'.broker_server = c.broker_server := hget .m
  have hl : c'.loop = c.loop := hget .l
  have hp : c'.page_len = c.page_len := hget .p
  simp only [withLog, hn, hw, hs, he, hm, hl, hp]

private theorem benchmark_untilFailure (code : ℕ → ℕ) (k : ℕ) (is : List Word) :
    ∃ made, (benchmark h c code k is).1 = (is.take made).map (testDataSetIOArguments h c) ∧
      UntilFailure (fun j => code (k + j)) is.length made (benchmark h c code k is).2 := by
  induction is generalizing k with
  | nil => exact ⟨0,rfl,.inl ⟨rfl,rfl,by simp⟩⟩
  | cons i is ih =>
    by_cases hcode : 0 < code k
    · refine ⟨1,by simp [benchmark, hcode],.inr ⟨0,by simp,rfl,by simp [benchmark, hcode],hcode,by simp⟩⟩
    · have hzero : code k = 0 := by omega
      have hshift : ∀ j, k + 1 + j = k + (j + 1) := fun j => by omega
      obtain ⟨made,hcalls,hmade⟩ := ih (k + 1)
      simp only [UntilFailure, hshift] at hmade
      refine ⟨made + 1,by simp [benchmark, hzero, hcalls],?_⟩
      rcases hmade with ⟨hall,hstatus,hcodes⟩ | ⟨j,hj,hmade,hstatus,hpos,hcodes⟩
      · refine .inl ⟨by simp [hall],by simp [benchmark, hzero, hstatus],fun m hm => ?_⟩
        cases m with
        | zero => exact hzero
        | succ m => exact hcodes m (by simpa using hm)
      · refine .inr ⟨j + 1,by simpa using hj,by rw [hmade],by simpa [benchmark, hzero] using hstatus,
          hpos,fun m hm => ?_⟩
        cases m with
        | zero => exact hzero
        | succ m => exact hcodes m (by omega)

private theorem expand_printed (p : Pathnames) (is : List Printed) :
    p.expand (capture (TextLines.unlines (is.map Subtype.val))) = is.map Subtype.val := by
  rw [Pathnames.expand, fields_capture, fields_unlines]
  · induction is with
    | nil => rfl
    | cons i is ih => rw [List.map_cons, List.flatMap_cons, p.glob_plain _ i.property, ih]; rfl
  · intro l hl
    obtain ⟨i,-,rfl⟩ := List.mem_map.mp hl
    exact ⟨i.property.1,fun ch hch => (i.property.2 ch hch).1⟩

section Spelled
variable {argv : List Word} {opts : List Opt} (hspells : Spells argv opts) (code : ℕ → ℕ)
include hspells

theorem testio_spells : ∃ c : Config, (∀ x, c.get x = inForce opts x) ∧ ∃ made,
    let is := seq h.seqOther
      (h.pathnames.expand (inForce opts .f) ++ h.pathnames.expand (inForce opts .t))
    (testio h argv code).seqOperands =
        [h.pathnames.expand (inForce opts .f),h.pathnames.expand (inForce opts .t)] ∧
      (testio h argv code).calls = (is.take made).map (fun i => withLog h c i.val) ∧
      UntilFailure code is.length made (testio h argv code).status := by
  obtain ⟨c,hc,hlog,hget⟩ := config_spells hspells
  have hlog' : c.loglevel = [] ∨ c.loglevel = "enabled".toList := by
    rw [hlog]
    split_ifs
    · exact .inr rfl
    · exact .inl rfl
  have hf : c.from_thread = inForce opts .f := hget .f
  have ht : c.maxthread = inForce opts .t := hget .t
  have hrun : testio h argv code = runTests h c code := by
    rw [testio, h.pathnames.expand_plain h.chaosPrefix_plain, hc]
  refine ⟨c,hget,?_⟩
  simp only [hrun, runTests, hf, ht, List.flatten_cons, List.flatten_nil, List.append_nil, expand_printed]
  obtain ⟨made,hcalls,hmade⟩ := benchmark_untilFailure (h := h) (c := c) code 0
    ((seq h.seqOther (h.pathnames.expand (inForce opts .f) ++
      h.pathnames.expand (inForce opts .t))).map Subtype.val)
  refine ⟨made,trivial,?_,by simpa using hmade⟩
  rw [hcalls, ← List.map_take, List.map_map]
  exact List.map_congr_left fun i _ => testDataSetIOArguments_eq hlog' i.val

theorem testio_stays (hf : StaysItself h opts .f) (ht : StaysItself h opts .t) :
    ∃ c : Config, (∀ x, c.get x = inForce opts x) ∧ ∃ made,
      (testio h argv code).seqOperands = [[inForce opts .f],[inForce opts .t]] ∧
      (testio h argv code).calls = ((numbers h opts).take made).map (fun i => withLog h c i.val) ∧
      UntilFailure code (numbers h opts).length made (testio h argv code).status := by
  have hrun := testio_spells (h := h) hspells code
  rwa [show h.pathnames.expand (inForce opts .f) = [inForce opts .f] from hf,
    show h.pathnames.expand (inForce opts .t) = [inForce opts .t] from ht] at hrun

end Spelled

private theorem UntilFailure.made_unique {code : ℕ → ℕ} {total made made' status status' : ℕ}
    (h : UntilFailure code total made status) (h' : UntilFailure code total made' status') :
    made = made' := by
  rcases h with ⟨hall,-,hcodes⟩ | ⟨k,hk,hmade,-,hpos,hcodes⟩ <;>
    rcases h' with ⟨hall',-,hcodes'⟩ | ⟨k',hk',hmade',-,hpos',hcodes'⟩
  · omega
  · have := hcodes k' hk'
    omega
  · have := hcodes' k hk
    omega
  · rcases Nat.lt_trichotomy k k' with hlt | heq | hlt
    · have := hcodes' k hlt
      omega
    · omega
    · have := hcodes k' hlt
      omega

private theorem UntilFailure.made_pos {code : ℕ → ℕ} {total made status : ℕ}
    (h : UntilFailure code total made status) (ht : 0 < total) : 0 < made := by
  rcases h with ⟨rfl,-,-⟩ | ⟨k,-,rfl,-,-⟩
  · exact ht
  · exact Nat.succ_pos k

private theorem inForce_congr {opts opts' : List Opt}
    (h : opts'.filter (· ≠ .debug) = opts.filter (· ≠ .debug)) (x : Letter) :
    inForce opts' x = inForce opts x := by
  have hfilter : ∀ os : List Opt, (os.filter (· ≠ .debug)).filterMap (Opt.valueFor x) =
      os.filterMap (Opt.valueFor x) := by
    intro os
    rw [List.filterMap_filter]
    congr 1
    funext o
    cases o <;> simp [Opt.valueFor]
  rw [inForce, inForce, ← hfilter opts', h, hfilter]

private theorem differsInLogOnly {h : Host} {argv : List Word} {opts : List Opt}
    (hspells : Spells argv opts) (code : ℕ → ℕ) : DiffersInLogOnly h argv opts code := by
  intro argv' opts' hspells' hsame
  have hforce := inForce_congr hsame
  obtain ⟨c,hget,made,-,hcalls,hmade⟩ := testio_spells (h := h) hspells code
  obtain ⟨c',hget',made',-,hcalls',hmade'⟩ := testio_spells (h := h) hspells' code
  rw [hforce, hforce] at hcalls' hmade'
  obtain rfl := hmade.made_unique hmade'
  have hc : ∀ i, withLog h c' i = withLog h c i :=
    withLog_congr fun x => by rw [hget', hget, hforce]
  rw [hcalls, hcalls']
  simp only [hc]

section AsAsked
variable {argv : List Word} {opts : List Opt} (hspells : Spells argv opts) {code : ℕ → ℕ}
include hspells

/-- The values in use are the ones that were given, and a call is made only after `-g`. -/
theorem asked_of_runsAsAsked (hr : RunsAsAsked h opts code (testio h argv code)) :
    StaysItself h opts .f ∧ StaysItself h opts .t ∧ (numbers h opts = [] ∨
      .debug ∈ opts ∧ ∀ x : Letter, x.optionName.isSome → StaysItself h opts x) := by
  obtain ⟨hf,ht⟩ : StaysItself h opts .f ∧ StaysItself h opts .t := by
    obtain ⟨_,-,_,hoperands,-⟩ := testio_spells (h := h) hspells code
    simpa [StaysItself] using hoperands.symm.trans hr.seqOperands
  refine ⟨hf,ht,or_iff_not_imp_left.mpr fun hne => ?_⟩
  obtain ⟨c,hget,made,-,hcalls,hmade⟩ := testio_stays hspells code hf ht
  obtain ⟨i,is,his⟩ := List.exists_cons_of_ne_nil hne
  have hpos : 0 < made := hmade.made_pos (by rw [his]; exact Nat.succ_pos _)
  obtain ⟨m,rfl⟩ := Nat.exists_eq_succ_of_ne_zero hpos.ne'
  have hmem : withLog h c i.val ∈ (testio h argv code).calls := by
    rw [hcalls, his]
    exact List.mem_cons_self
  constructor
  · by_contra hquiet
    refine hr.quiet _ hmem hquiet ⟨"--log-on-file",["1".toList]⟩ ?_ (by decide)
    simp [withLog]
  · intro x hx
    obtain ⟨name,hname⟩ := Option.isSome_iff_exists.mp hx
    have hvalue := hr.values _ hmem x name hname
    rw [operandsOf_withLog hname, hget] at hvalue
    exact Option.some.inj hvalue

private theorem runsAsAsked_of_asked (hf : StaysItself h opts .f) (ht : StaysItself h opts .t)
    (hcall : numbers h opts = [] ∨
      .debug ∈ opts ∧ ∀ x : Letter, x.optionName.isSome → StaysItself h opts x) :
    RunsAsAsked h opts code (testio h argv code) := by
  obtain ⟨c,hget,made,hoperands,hcalls,hmade⟩ := testio_stays hspells code hf ht
  have hgiven : ∀ args ∈ (testio h argv code).calls, (.debug ∈ opts ∧
      ∀ x : Letter, x.optionName.isSome → StaysItself h opts x) ∧ ∃ i, args = withLog h c i := by
    intro args hargs
    rw [hcalls] at hargs
    rcases hcall with hnone | hgiven
    · simp [hnone] at hargs
    · obtain ⟨i,-,rfl⟩ := List.mem_map.mp hargs
      exact ⟨hgiven,i.val,rfl⟩
  refine ⟨hoperands,⟨made,hmade,?_⟩,?_,?_,?_⟩
  · rw [hcalls, List.map_map]
    refine List.map_congr_left fun i _ => ?_
    exact congrArg some (h.pathnames.expand_plain i.property)
  · intro args hargs x name hname
    obtain ⟨⟨-,hstays⟩,i,rfl⟩ := hgiven args hargs
    rw [operandsOf_withLog hname, hget]
    exact congrArg some (hstays x (by simp [hname]))
  · intro args hargs _
    obtain ⟨-,i,rfl⟩ := hgiven args hargs
    exact ⟨rfl,rfl,rfl⟩
  · intro args hargs hquiet
    exact absurd (hgiven args hargs).1.1 hquiet

/-- The script runs what was asked for when `-g` was given, or no number of threads is left
to run, and its unquoted values stay as they are. -/
theorem testio_as_asked_iff :
    RunsAsAsked h opts code (testio h argv code) ∧ DiffersInLogOnly h argv opts code ↔
      StaysItself h opts .f ∧ StaysItself h opts .t ∧ (numbers h opts = [] ∨
        .debug ∈ opts ∧ ∀ x : Letter, x.optionName.isSome → StaysItself h opts x) := by
  constructor
  · exact fun hr => asked_of_runsAsAsked hspells hr.1
  · exact fun hcond => ⟨runsAsAsked_of_asked hspells hcond.1 hcond.2.1 hcond.2.2,
      differsInLogOnly hspells code⟩

end AsAsked

def bareHost : Host where
  pathnames := .empty
  chaosPrefix := "/opt/chaos".toList
  hostname := "lab".toList
  date := "2024-01-01-00-00-00".toList
  chaosPrefix_plain := by decide
  seqOther _ := []

theorem testio_with_g_as_asked :
    RunsAsAsked bareHost [.debug] (fun _ => 0) (testio bareHost [['-','g']] fun _ => 0) ∧
      DiffersInLogOnly bareHost [['-','g']] [.debug] fun _ => 0 := by
  have hplain : ∀ x, StaysItself bareHost [.debug] x := fun x =>
    bareHost.pathnames.expand_plain (by cases x <;> decide)
  exact (testio_as_asked_iff (.debug .nil)).mpr
    ⟨hplain .f,hplain .t,.inr ⟨by decide,fun x _ => hplain x⟩⟩

/-- Without options the first call already has the logging options. -/
theorem testio_logs_unasked :
    ¬ (RunsAsAsked bareHost [] (fun _ => 0) (testio bareHost [] fun _ => 0) ∧
      DiffersInLogOnly bareHost [] [] fun _ => 0) := by
  rintro ⟨hr,-⟩
  rcases (asked_of_runsAsAsked .nil hr).2.2 with hnone | ⟨hdebug,-⟩
  · exact absurd hnone (by decide)
  · exact absurd hdebug List.not_mem_nil

end ChaosBundle.Benchmark

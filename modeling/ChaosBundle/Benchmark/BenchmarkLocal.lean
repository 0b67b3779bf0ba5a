import ChaosBundle.Benchmark.Calls
import ChaosBundle.Benchmark.PingBandwidth
import ChaosBundle.LocalServices.Suite

/-! `benchmark-local.sh`: the local services, the bandwidth tests and `testio.sh`, one after
the other on one host. -/
namespace ChaosBundle.Benchmark
open Getopts GuardedScripts ShellWords

namespace BenchmarkLocal

/-- The commands of the script itself, next to those of the scripts that it calls. -/
inductive Command where
  | rm_vfs | mkdir_vfs | stop_webui | sleep | check_mds | testio | mv_png

/-- What the scripts rely on in `common_util.sh`, on one host. Only the scripts that it calls
start unit servers. -/
structure CommonUtil (Host : Type) where
  services : Processes LocalServices.Suite.Starts LocalServices.Suite.Stops Host
  ping : PingBandwidth.CommonUtil Host
  own : Command → Bool → Host → Host
  same : ∀ h, services.runs .us h ↔ ping.runs .us h
  starts_none : ∀ c ok h, ping.runs .us (own c ok h) → ping.runs .us h

/-- What the scripts find in the environment. -/
structure Environment where
  /-- `CHAOS_WEBUI` and `CHAOS_EXTERNAL_MDS` are set -/
  withWebui : Bool
  external : Bool
  chaosMds : Word
  site : Host

/-- How the commands turn out: those of the called scripts by their number, the others by name;
`last` is the status of the last command. -/
structure Outcome where
  services : ℕ → Bool
  ping : ℕ → Bool
  mds : Bool
  code : ℕ → ℕ
  own : Command → Bool
  last : ℕ

structure Report (Host : Type) where
  host : Host
  status : ℕ
  ping : Option (Result (PingBandwidth.State Host))
  testio : Option Run
  /-- the script has got to its last command -/
  finished : Bool

/-- The words of `-m $CHAOS_MDS -l 50 -t 2 -s 1024`. -/
def testioArgs (e : Environment) : List Word :=
  "-m".toList :: e.site.pathnames.expand e.chaosMds ++
    ["-l".toList,"50".toList,"-t".toList,"2".toList,"-s".toList,"1024".toList]

section Script
variable {Host : Type} (util : CommonUtil Host) (e : Environment) (o : Outcome)

def own (c : Command) (h : Host) : Host := util.own c (o.own c) h

/-- `rm -rf $CHAOS_PREFIX/vfs` and `mkdir $CHAOS_PREFIX/vfs` -/
def clearVfs (h : Host) : Host := own util o .mkdir_vfs (own util o .rm_vfs h)

/-- From the bandwidth tests, which have ended with status 0, to the end. -/
def afterPing (p : Result (PingBandwidth.State Host)) : Report Host :=
  let h := util.own .check_mds o.mds (own util o .sleep (own util o .stop_webui p.state.host))
  if o.mds then
    let t := testio e.site (testioArgs e) o.code
    let h := util.own .testio (t.status = 0) h
    if t.status = 0 then
      ⟨clearVfs util o (own util o .mv_png h),o.last,some p,some t,true⟩
    else ⟨h,1,some p,some t,false⟩
  else ⟨h,1,some p,none,false⟩

/-- The called scripts begin where the one before has ended; `exit` without an argument keeps
the status of the bandwidth tests. -/
def benchmarkLocal (h : Host) : Report Host :=
  let h := clearVfs util o h
  let s := run util.services.exec o.services (LocalServices.Suite.testServices e.withWebui) 0 h
  match s.status with
  | some _ => ⟨s.state,1,none,none,false⟩
  | none =>
    let p := run (PingBandwidth.exec util.ping) o.ping (PingBandwidth.script e.external 1000) 0
      ⟨s.state,0,false,false⟩
    let status := p.status.getD p.state.nerr
    if status = 0 then afterPing util e o p else ⟨p.state.host,status,some p,none,false⟩

end Script

def GuardedSucceed {Command : Type} (ok : ℕ → Bool) (script : List (Line Command)) : Prop :=
  ∀ i c cleanup status, script[i]? = some (.must c cleanup status) → ok i

/-- Everything that the scripts look at has succeeded: the guarded commands of the services and
of the bandwidth tests, the bandwidth tests, the metadata server, and `testio` with one and with
two threads. -/
structure AllWell (e : Environment) (o : Outcome) : Prop where
  services : GuardedSucceed o.services (LocalServices.Suite.testServices e.withWebui)
  ping : GuardedSucceed o.ping (PingBandwidth.script e.external 1000)
  mess : ∀ i sched, (PingBandwidth.script e.external 1000)[i]? = some (.act (.mess_client sched)) → o.ping i
  mds : o.mds
  testio : ∀ j < 2, o.code j = 0

/-- Two calls, with the values on the command line of the script and the defaults. -/
structure BothCalls (e : Environment) (mds : Word) (t : Run) : Prop where
  threads : t.calls.map (operandsOf · "--nthread") = [some [['1']],some [['2']]]
  values : ∀ args ∈ t.calls, operandsOf args "--msg-broker-server" = some (e.site.pathnames.expand mds) ∧
    operandsOf args "--loop" = some ["50".toList] ∧ operandsOf args "--pointmax" = some ["1024".toList]

theorem guardedSucceed_iff {Command State : Type} {exec : Command → Bool → State → State} (ok : ℕ → Bool)
    (script : List (Line Command)) (s : State) :
    (run exec ok script 0 s).status = none ↔ GuardedSucceed ok script := by
  have hcompletes := @run_completes_iff _ _ exec ok script 0 s
  simp only [Nat.zero_add] at hcompletes
  exact hcompletes

section Ping
variable {Host : Type} {util : PingBandwidth.CommonUtil Host}

private theorem nerr_eq_zero_iff (ok : ℕ → Bool) (script : List (Line PingBandwidth.Command)) (h : Host)
    (hstatus : (run (PingBandwidth.exec util) ok script 0 ⟨h,0,false,false⟩).status = none) :
    (run (PingBandwidth.exec util) ok script 0 ⟨h,0,false,false⟩).state.nerr = 0 ↔
      ∀ i sched, script[i]? = some (.act (.mess_client sched)) → ok i := by
  rw [PingBandwidth.run_nerr ok _ _ _ hstatus, Nat.zero_add, List.countP_eq_zero]
  constructor
  · intro hnone i sched hline
    have hfailed := hnone (.act (.mess_client sched),i) (List.mk_mem_zipIdx_iff_getElem?.mpr hline)
    simpa [PingBandwidth.failedTest] using hfailed
  · rintro hall ⟨line,i⟩ hmem hfailed
    have hline := List.mk_mem_zipIdx_iff_getElem?.mp hmem
    unfold PingBandwidth.failedTest at hfailed
    split at hfailed
    · rename_i heq
      cases heq
      simp [hall i _ hline] at hfailed
    · cases hfailed

end Ping

def testioOpts (mds : Word) : List Opt :=
  [.value .m mds,.value .l "50".toList,.value .t "2".toList,.value .s "1024".toList]

section Testio
variable {e : Environment} {mds : Word} (hmds : e.site.pathnames.expand e.chaosMds = [mds])
include hmds

private theorem testioArgs_spells : Spells (testioArgs e) (testioOpts mds) := by
  rw [testioArgs, hmds]
  exact .separate .m _ (.separate .l _ (.separate .t _ (.separate .s _ .nil)))

theorem testio_calls (code : ℕ → ℕ) : ∃ c : Config, (∀ x, c.get x = inForce (testioOpts mds) x) ∧ ∃ made,
    (testio e.site (testioArgs e) code).calls = ([['1'],['2']].take made).map (withLog e.site c) ∧
    UntilFailure code 2 made (testio e.site (testioArgs e) code).status := by
  obtain ⟨c,hget,made,-,hcalls,hmade⟩ := testio_spells (h := e.site) (testioArgs_spells hmds) code
  have hexpand : ∀ x : Letter, Plain (inForce (testioOpts mds) x) →
      e.site.pathnames.expand (inForce (testioOpts mds) x) = [inForce (testioOpts mds) x] := fun x hx =>
    e.site.pathnames.expand_plain hx
  rw [hexpand .f (by decide : Plain ['1']), hexpand .t (by decide : Plain ['2'])] at hcalls hmade
  have hseq : (seq e.site.seqOther ([inForce (testioOpts mds) .f] ++ [inForce (testioOpts mds) .t])).map
      Subtype.val = [['1'],['2']] := by
    change (seq e.site.seqOther [['1'],['2']]).map Subtype.val = _
    rw [seq, if_pos (by decide)]
    decide
  refine ⟨c,hget,made,?_,hmade⟩
  rw [hcalls, ← hseq, ← List.map_take, List.map_map]
  rfl

private theorem testio_status_iff (code : ℕ → ℕ) :
    (testio e.site (testioArgs e) code).status = 0 ↔ ∀ j < 2, code j = 0 := by
  obtain ⟨c,-,made,-,hmade⟩ := testio_calls hmds code
  rcases hmade with ⟨-,hstatus,hcodes⟩ | ⟨k,hk,-,hstatus,hpos,-⟩
  · exact ⟨fun _ => hcodes,fun _ => hstatus⟩
  · rw [hstatus]
    exact ⟨fun h => absurd h hpos.ne',fun h => h k hk⟩

private theorem testio_bothCalls {code : ℕ → ℕ}
    (hstatus : (testio e.site (testioArgs e) code).status = 0) :
    BothCalls e mds (testio e.site (testioArgs e) code) := by
  obtain ⟨c,hget,made,hcalls,hmade⟩ := testio_calls hmds code
  have hmade : made = 2 := by
    rcases hmade with ⟨hmade,-,-⟩ | ⟨k,-,-,hcode,hpos,-⟩
    · exact hmade
    · exact absurd (hcode.symm.trans hstatus) hpos.ne'
  rw [hmade] at hcalls
  have hplain : ∀ x : Letter, Plain (inForce (testioOpts mds) x) →
      e.site.pathnames.expand (c.get x) = [inForce (testioOpts mds) x] := fun x hx => by
    rw [hget]
    exact e.site.pathnames.expand_plain hx
  constructor
  · rw [hcalls]
    change [some (e.site.pathnames.expand ['1']),some (e.site.pathnames.expand ['2'])] = _
    rw [e.site.pathnames.expand_plain (by decide), e.site.pathnames.expand_plain (by decide)]
  · intro args hargs
    rw [hcalls] at hargs
    obtain ⟨i,-,rfl⟩ := List.mem_map.mp hargs
    refine ⟨?_,?_,?_⟩
    · rw [operandsOf_withLog (x := .m) rfl, hget]
      rfl
    · rw [operandsOf_withLog (x := .l) rfl, hplain .l (by decide : Plain "50".toList)]
      rfl
    · rw [operandsOf_withLog (x := .s) rfl, hplain .s (by decide : Plain "1024".toList)]
      rfl

end Testio

section Ends
variable {Host : Type} {util : CommonUtil Host} {e : Environment} {o : Outcome} {h : Host} {mds : Word}

/-- A unit server is left only where the bandwidth tests have missed the metadata server. -/
def LeftByPing (util : CommonUtil Host) (r : Report Host) : Prop :=
  util.ping.runs .us r.host → ∃ p, r.ping = some p ∧ p.status = some 1 ∧ p.state.launched ∧ p.state.mdsDead

theorem own_idle (hidle : ¬ util.ping.runs .us h) (c : Command) : ¬ util.ping.runs .us (own util o c h) :=
  mt (util.starts_none c _ h) hidle

theorem clearVfs_idle (hidle : ¬ util.ping.runs .us h) : ¬ util.ping.runs .us (clearVfs util o h) :=
  own_idle (own_idle hidle .rm_vfs) .mkdir_vfs

private theorem afterPing_ends (hmds : e.site.pathnames.expand e.chaosMds = [mds])
    {p : Result (PingBandwidth.State Host)} (hidle : ¬ util.ping.runs .us p.state.host) :
    let r := afterPing util e o p
    (r.finished ↔ o.mds ∧ ∀ j < 2, o.code j = 0) ∧ (r.status = 0 → r.finished) ∧ ¬ util.ping.runs .us r.host ∧
    (r.finished → r.status = o.last ∧ ∃ t, r.testio = some t ∧ BothCalls e mds t) := by
  have hchecked := mt (util.starts_none .check_mds o.mds _)
    (own_idle (o := o) (own_idle (o := o) hidle .stop_webui) .sleep)
  have htested := fun ok => mt (util.starts_none .testio ok _) hchecked
  rw [← testio_status_iff hmds]
  simp only [afterPing]
  by_cases halive : o.mds
  · by_cases hstatus : (testio e.site (testioArgs e) o.code).status = 0
    · simp only [if_pos halive, if_pos hstatus]
      refine ⟨by simp [halive, hstatus],fun _ => trivial,clearVfs_idle (own_idle (htested _) _),fun _ => ?_⟩
      exact ⟨trivial,_,rfl,testio_bothCalls hmds hstatus⟩
    · simp only [if_pos halive, if_neg hstatus]
      exact ⟨by simp [hstatus],nofun,htested _,nofun⟩
  · simp only [if_neg halive]
    exact ⟨by simp [halive],nofun,hchecked,nofun⟩

private theorem ping_wellDone_iff {h : Host} (hidle : ¬ util.ping.runs .us h) (external : Bool)
    (ok : ℕ → Bool) :
    let p := run (PingBandwidth.exec util.ping) ok (PingBandwidth.script external 1000) 0 ⟨h,0,false,false⟩
    (p.status.getD p.state.nerr = 0 ↔ GuardedSucceed ok (PingBandwidth.script external 1000) ∧
      ∀ i sched, (PingBandwidth.script external 1000)[i]? = some (.act (.mess_client sched)) → ok i) ∧
    (p.status.getD p.state.nerr = 0 → ¬ util.ping.runs .us p.state.host) ∧
    (util.ping.runs .us p.state.host → p.status = some 1 ∧ p.state.launched ∧ p.state.mdsDead) := by
  intro p
  obtain ⟨hend,hexit⟩ := @PingBandwidth.triple_script _ util.ping external 1000 ok 0 ⟨h,0,false,false⟩
    ⟨hidle,rfl⟩
  have hcompletes : p.status = none ↔ GuardedSucceed ok (PingBandwidth.script external 1000) :=
    guardedSucceed_iff ok _ _
  cases hstatus : p.status with
  | none =>
    refine ⟨?_,fun _ => (hend hstatus).1,fun hruns => absurd hruns (hend hstatus).1⟩
    rw [and_iff_right (hcompletes.mp hstatus)]
    exact nerr_eq_zero_iff ok (PingBandwidth.script external 1000) h hstatus
  | some status =>
    obtain ⟨rfl,hleft⟩ := hexit status hstatus
    refine ⟨⟨fun h => absurd h Nat.one_ne_zero,fun h => ?_⟩,fun h => absurd h Nat.one_ne_zero,
      fun h => ⟨rfl,hleft h⟩⟩
    have hnone := hcompletes.mpr h.1
    rw [hstatus] at hnone
    cases hnone

/-- The script gets to its end exactly if everything that it looks at has succeeded, and then
`testio` has been called with one and with two threads and no unit server is left. A status of
0 means that it has got there. It leaves a unit server only if the metadata server is gone
after the launch. -/
theorem benchmark_local_ends (hmds : e.site.pathnames.expand e.chaosMds = [mds])
    (hidle : ¬ util.ping.runs .us h) (o : Outcome) :
    let r := benchmarkLocal util e o h
    (r.finished ↔ AllWell e o) ∧ (r.status = 0 → r.finished) ∧ LeftByPing util r ∧
    (r.finished → r.status = o.last ∧ ¬ util.ping.runs .us r.host ∧
      ∃ t, r.testio = some t ∧ BothCalls e mds t) := by
  obtain ⟨hend,hexit⟩ := util.services.triple_spares (@LocalServices.Suite.testServices_spares e.withWebui .us)
    o.services 0 (clearVfs util o h) (mt (util.same _).mp (clearVfs_idle hidle))
  have hservices := @guardedSucceed_iff _ _ util.services.exec o.services
    (LocalServices.Suite.testServices e.withWebui) (clearVfs util o h)
  simp only [benchmarkLocal]
  cases hstatus : (run util.services.exec o.services (LocalServices.Suite.testServices e.withWebui) 0
    (clearVfs util o h)).status with
  | some status =>
    refine ⟨iff_of_false nofun fun hall => ?_,nofun,fun hruns => ?_,nofun⟩
    · have hnone := hservices.mpr hall.services
      rw [hstatus] at hnone
      cases hnone
    · exact absurd ((util.same _).mpr hruns) (hexit status hstatus).2
  | none =>
    obtain ⟨hwell,hstopped,hleft⟩ := ping_wellDone_iff (mt (util.same _).mpr (hend hstatus)) e.external o.ping
    split_ifs with hzero
    · obtain ⟨hfinished,hstatus₂,hidle₂,hcalls⟩ := afterPing_ends (o := o) hmds (hstopped hzero)
      refine ⟨hfinished.trans ⟨fun hrest => ?_,fun hall => ⟨hall.mds,hall.testio⟩⟩,hstatus₂,
        fun hruns => absurd hruns hidle₂,fun h => ⟨(hcalls h).1,hidle₂,(hcalls h).2⟩⟩
      exact ⟨hservices.mp hstatus,(hwell.mp hzero).1,(hwell.mp hzero).2,hrest.1,hrest.2⟩
    · exact ⟨iff_of_false nofun fun hall => hzero (hwell.mpr ⟨hall.ping,hall.mess⟩),fun h => absurd h hzero,
        fun hruns => ⟨_,rfl,hleft hruns⟩,nofun⟩

end Ends

def oneServer : CommonUtil Bool where
  services :=
    { exec := fun c ok h => match c with
        | .launch_us_cu => true
        | .launch_checked => ok
        | .check_proc => h && ok
        | .stop_us => false
        | _ => h
      runs := fun p h => h ∧ p = .us
      started := fun c ok h p => by cases c <;> cases p <;> simp +contextual [LocalServices.Suite.Starts]
      ended := fun c ok h p => by cases c <;> cases p <;> simp +contextual [LocalServices.Suite.Stops] }
  ping := PingBandwidth.oneProcess
  own _ _ h := h
  same h := and_iff_left rfl
  starts_none _ _ _ := id

def labMds : Word := "localhost:5000".toList

def lab : Environment := ⟨false,false,labMds,bareHost⟩

def smooth : Outcome := ⟨fun _ => true,fun _ => true,true,fun _ => 0,fun _ => true,1⟩

theorem smooth_ends : let r := benchmarkLocal oneServer lab smooth false
    r.finished ∧ r.status = 1 ∧ ∃ t, r.testio = some t ∧ BothCalls lab labMds t := by
  intro r
  have hmds : bareHost.pathnames.expand labMds = [labMds] := bareHost.pathnames.expand_plain (by decide)
  obtain ⟨hfinished,-,-,hends⟩ := @benchmark_local_ends _ oneServer lab false labMds hmds nofun smooth
  have hwell : r.finished := hfinished.mpr
    ⟨fun _ _ _ _ _ => rfl,fun _ _ _ _ _ => rfl,fun _ _ _ => rfl,rfl,fun _ _ => rfl⟩
  exact ⟨hwell,(hends hwell).1,(hends hwell).2.2⟩

end BenchmarkLocal
end ChaosBundle.Benchmark

import ChaosBundle.Library.Pathnames
import Mathlib.Data.Bool.AllAny

/-! `chaos_run_configuration.sh` and the `cu*.sh` scripts: every unit that starts is noted in
two arrays, which the last line hands to `monitor_processes`. -/
namespace ChaosBundle.Configuration
open DecimalFields ShellWords

abbrev Word := List Char

structure Launched where
  pid : ℕ
  name : Word
  deriving DecidableEq

/-- A message and the status that the script then ends with. -/
structure Exit where
  message : Word
  status : ℕ
  deriving DecidableEq

structure Arrays where
  procid : List Word
  cuid : List Word

/-- `$name` for an array means its element 0. -/
def scalar (array : List Word) : Word := array.headD []

/-- The units that a run has started, and the arguments that it hands to `monitor_processes`
unless it ends before. -/
structure Run where
  launched : List Launched
  monitored : Except Exit (List Word)

def Run.failed (message : Word) (status : ℕ) : Run := ⟨[],.error ⟨message,status⟩⟩

/-- The arguments of `monitor_processes $procid $cuid`. -/
def monitorProcesses (p : Pathnames) (a : Arrays) : List Word :=
  p.expand (scalar a.procid) ++ p.expand (scalar a.cuid)

section RunConfiguration

/-- What `chaos_run_configuration.sh` finds, and the lines that `ls $confdir/cu*.sh` prints. -/
structure Setup where
  confdir : Word
  isDirectory : Bool
  chaosPrefix : Word
  hasMdsConfig : Bool
  mdsStatus : ℕ
  found : List Word

def cuscripts (s : Setup) : Word := capture (TextLines.unlines s.found)

/-- The body of the loop; `$!` is the pid of the script that was put in the background. -/
def startCu (p : Pathnames) (a : Arrays) (u : Launched) : Arrays :=
  ⟨a.procid ++ p.expand (digits u.pid),a.cuid ++ p.expand u.name⟩

def mdsConfig (s : Setup) : Word := "\"".toList ++ s.confdir ++ "/MDSConfig.json\"".toList

def runConfiguration (p : Pathnames) (s : Setup) (pid : ℕ → ℕ) : Run :=
  if ¬ s.isDirectory then
    .failed "you must provide a valid configuration directory".toList 255
  else if s.chaosPrefix = [] then
    .failed "missing CHAOS_PREFIX environment, probably you miss source the appropiate source chaos_env.sh".toList
      253
  else if ¬ s.hasMdsConfig then
    .failed ("missing MDS configuration file ".toList ++ mdsConfig s) 254
  else if cuscripts s = [] then
    .failed ("nothing to do ".toList ++ cuscripts s) 0
  else if s.mdsStatus ≠ 0 then
    .failed ("Transfer test configuration ".toList ++ mdsConfig s ++ " to MDS".toList) 251
  else
    let units := (p.expand (cuscripts s)).mapIdx fun i cu => ⟨pid i,cu⟩
    ⟨units,.ok (monitorProcesses p (units.foldl (startCu p) ⟨[],[]⟩))⟩

end RunConfiguration

section CuScript

/-- One `launch_us_cu first last "--conf-file ..." UnitServer server` with the name that is
noted, which is quoted and has no pattern in it, and the message for its failure. -/
structure UsLaunch where
  first : ℕ
  last : ℕ
  server : String
  name : Word
  nok : String
  plain : Plain name

/-- The chain of launches; the call number `i` gives `$!`, or fails, which ends the script. -/
def launches (p : Pathnames) (launchUsCu : ℕ → UsLaunch → Option ℕ) : ℕ → List UsLaunch →
    List Launched → Arrays → Run
  | _, [], units, a => ⟨units,.ok (monitorProcesses p a)⟩
  | i, l :: ls, units, a => match launchUsCu i l with
    | some pid => launches p launchUsCu (i+1) ls (units ++ [⟨pid,l.name⟩])
        ⟨a.procid ++ p.expand (digits pid),a.cuid ++ [l.name]⟩
    | none => ⟨units,.error ⟨l.nok.toList,1⟩⟩

def cuScript (p : Pathnames) (launchUsCu : ℕ → UsLaunch → Option ℕ) (ls : List UsLaunch) : Run :=
  launches p launchUsCu 0 ls [] ⟨[],[]⟩

/-- `config/lnf/production/cu3.sh` -/
def productionCu3 : List UsLaunch := [
  ⟨1,1,"BTF/DAQ",['B','T','F','/','D','A','Q'],"US BTF/DAQ",by decide⟩,
  ⟨1,1,"MEA",['M','E','A'],"US MEA",by decide⟩,
  ⟨1,1,"BTF/GLUE",['B','T','F','/','G','L','U','E'],"US BTF/GLUE",by decide⟩,
  ⟨1,1,"BTFSCRAPERS",['B','T','F','S','C','R','A','P','E','R','S'],"BTFSCRAPERS",by decide⟩]

/-- `config/lnf/test/cu2.sh` -/
def testCu2 : List UsLaunch := [
  ⟨1,1,"DAFNE/IMPORT",['D','A','F','N','E','_','I','M','P','O','R','T'],"US DAFNE_IMPORT",by decide⟩,
  ⟨1,1,"ACCUMULATOR/BPM",['A','C','C','U','M','U','L','A','T','O','R','/','B','P','M'],"US BPMSync",
    by decide⟩,
  ⟨1,6,"DAFNE/TRXLINE",['B','T','F','/','D','A','F','N','E','/','T','R','X','L','I','N','E'],
    "BTF/DAFNE/TRXLINE",by decide⟩,
  ⟨1,10,"BENCHMARK_UNIT_1",['B','E','N','C','H','M','A','R','K','_','U','N','I','T','_','1'],
    "BENCHMARK_UNIT_1",by decide⟩]

end CuScript

/-- The arguments are the pids and the names of the units, each once, with the pids in one
order with the names. -/
def HandedOver (units : List Launched) (args : List Word) : Prop :=
  ∃ order : List Launched, order.Perm units ∧
    args.Perm ((order.map fun u => digits u.pid) ++ order.map Launched.name) ∧
    (order.map fun u => digits u.pid).Sublist args ∧ (order.map Launched.name).Sublist args

/-- The monitor is called, with all that has been launched. -/
def Supervised (r : Run) : Prop := ∃ args, r.monitored = .ok args ∧ HandedOver r.launched args

private theorem HandedOver.length_eq {units : List Launched} {args : List Word}
    (h : HandedOver units args) : args.length = units.length + units.length := by
  obtain ⟨order,hperm,hargs,-,-⟩ := h
  rw [hargs.length_eq, List.length_append, List.length_map, List.length_map, hperm.length_eq]

theorem handedOver_singleton {u : Launched} {names : List Word} :
    HandedOver [u] (digits u.pid :: names) ↔ names = [u.name] := by
  constructor
  · rintro ⟨order,hperm,hargs,-,-⟩
    rw [List.perm_singleton.mp hperm] at hargs
    exact List.perm_singleton.mp ((List.perm_cons _).mp hargs)
  · rintro rfl
    exact ⟨[u],.refl _,.refl _,by simp,by simp⟩

section RunConfiguration
variable {p : Pathnames}

private theorem foldl_startCu (units : List Launched) (a : Arrays) :
    units.foldl (startCu p) a =
      ⟨a.procid ++ units.map fun u => digits u.pid,a.cuid ++ units.flatMap fun u => p.expand u.name⟩ := by
  induction units generalizing a with
  | nil => simp
  | cons u units ih => simp [ih, startCu, p.expand_plain (plain_digits u.pid)]

/-- The paths that are found, and those that one of these stands for as a pattern. -/
inductive Matched (p : Pathnames) (found : List Word) : Word → Prop where
  | found {w : Word} : w ∈ found → Matched p found w
  | glob {w path : Word} : Matched p found w → path ∈ p.glob w → Matched p found path

/-- The paths that are found have a slash, and neither they nor those that they match have a
separator. -/
structure Spaceless (p : Pathnames) (found : List Word) : Prop where
  slash : ∀ w ∈ found, '/' ∈ w
  noIfs : ∀ w, Matched p found w → ∀ c ∈ w, isIfs c = false

section Paths
variable {found : List Word} (hs : Spaceless p found) {w : Word} (h : Matched p found w)
include hs h

theorem Matched.slash : '/' ∈ w := by
  induction h with
  | found hw => exact hs.slash _ hw
  | glob _ hpath ih => exact p.glob_slash _ ih _ hpath

theorem Matched.expand : p.expand w = p.glob w :=
  p.expand_of_noIfs (List.ne_nil_of_mem (h.slash hs)) (hs.noIfs w h)

theorem Matched.exists_expand : ∃ path paths, p.expand w = path :: paths := by
  rw [h.expand hs]
  exact List.exists_cons_of_ne_nil (p.glob_ne_nil w)

theorem Matched.of_mem_expand {path : Word} (hpath : path ∈ p.expand w) : Matched p found path :=
  .glob h (h.expand hs ▸ hpath)

end Paths

private theorem expand_cuscripts {s : Setup} (hs : Spaceless p s.found) :
    p.expand (cuscripts s) = s.found.flatMap p.glob := by
  rw [Pathnames.expand, cuscripts, fields_capture, fields_unlines]
  exact fun l hl => ⟨List.ne_nil_of_mem (hs.slash l hl),hs.noIfs l (.found hl)⟩

private theorem matched_cu {s : Setup} (hs : Spaceless p s.found) {cu : Word}
    (h : cu ∈ p.expand (cuscripts s)) : Matched p s.found cu := by
  rw [expand_cuscripts hs] at h
  obtain ⟨w,hw,hcu⟩ := List.mem_flatMap.mp h
  exact .glob (.found hw) hcu

/-- A run that starts a unit starts all of them, and ends with the call. -/
theorem runConfiguration_launched {s : Setup} {pid : ℕ → ℕ} (h : (runConfiguration p s pid).launched ≠ []) :
    runConfiguration p s pid =
      let units := (p.expand (cuscripts s)).mapIdx fun i cu => ⟨pid i,cu⟩
      ⟨units,.ok (monitorProcesses p (units.foldl (startCu p) ⟨[],[]⟩))⟩ := by
  revert h
  unfold runConfiguration
  split_ifs
  all_goals first | exact fun h => absurd rfl h | exact fun _ => rfl

private theorem monitorProcesses_cons {found : List Word} (hs : Spaceless p found) (u : Launched)
    (us : List Launched) (h : Matched p found u.name) :
    monitorProcesses p ((u :: us).foldl (startCu p) ⟨[],[]⟩) =
      digits u.pid :: p.expand ((p.expand u.name).headD []) := by
  obtain ⟨path,paths,hexpand⟩ := h.exists_expand hs
  have hhead : ∀ rest, (p.expand u.name ++ rest).headD [] = (p.expand u.name).headD [] := by
    intro rest
    rw [hexpand]
    rfl
  rw [foldl_startCu, monitorProcesses]
  simp only [scalar, List.nil_append, List.map_cons, List.flatMap_cons, List.headD_cons, hhead,
    p.expand_plain (plain_digits u.pid), List.singleton_append]

def slashless (words : List Word) : ℕ := words.countP fun w => '/' ∉ w

private theorem slashless_pids (units : List Launched) :
    slashless (units.map fun u => digits u.pid) = units.length := by
  have hall : ∀ w ∈ units.map fun u => digits u.pid, decide ('/' ∉ w) := by
    simp only [List.mem_map, forall_exists_index, and_imp, forall_apply_eq_imp_iff₂]
    exact fun u _ => decide_eq_true (notMem_digits rfl)
  rw [slashless, List.countP_eq_length.mpr hall, List.length_map]

private theorem slashless_expand {found : List Word} (hs : Spaceless p found) {w : Word}
    (h : Matched p found w) : slashless (p.expand w) = 0 := by
  apply List.countP_eq_zero.mpr
  intro path hpath
  simpa using (h.of_mem_expand hs hpath).slash hs

/-- Whatever the paths expand to, there is only one pid among the arguments. -/
theorem length_le_one_of_handedOver {found : List Word} (hs : Spaceless p found) {u : Launched}
    {us : List Launched} (h : Matched p found u.name)
    (hover : HandedOver (u :: us) (digits u.pid :: p.expand ((p.expand u.name).headD []))) :
    us = [] := by
  obtain ⟨order,hperm,hargs,-,-⟩ := hover
  have hfirst : Matched p found ((p.expand u.name).headD []) := by
    obtain ⟨path,paths,hexpand⟩ := h.exists_expand hs
    apply h.of_mem_expand hs
    rw [hexpand]
    exact List.mem_cons_self
  have hcount := hargs.countP_eq fun w => decide ('/' ∉ w)
  rw [List.countP_append] at hcount
  have hpids := slashless_pids order
  have hnone := slashless_expand hs hfirst
  have hlength := hperm.length_eq
  unfold slashless at hpids hnone
  rw [List.countP_cons, hnone, hpids, hlength, List.length_cons] at hcount
  have hone : (if decide ('/' ∉ digits u.pid) = true then 1 else 0) ≤ 1 := by split_ifs <;> omega
  exact List.length_eq_zero_iff.mp (by omega)

private theorem runConfiguration_supervised {s : Setup} (hs : Spaceless p s.found) {pid : ℕ → ℕ}
    (hne : (runConfiguration p s pid).launched ≠ []) :
    Supervised (runConfiguration p s pid) ↔
      ∃ cu, p.expand (cuscripts s) = [cu] ∧ p.expand ((p.expand cu).headD []) = [cu] := by
  have hrun := runConfiguration_launched hne
  cases hcus : p.expand (cuscripts s) with
  | nil => simp [hrun, hcus] at hne
  | cons cu cus =>
    have hpath : Matched p s.found cu := matched_cu hs (hcus ▸ List.mem_cons_self)
    simp only [hcus, List.mapIdx_cons] at hrun
    rw [monitorProcesses_cons hs _ _ hpath] at hrun
    rw [hrun]
    constructor
    · rintro ⟨args,hargs,hover⟩
      obtain rfl := Except.ok.inj hargs
      have hnil := length_le_one_of_handedOver hs hpath hover
      have hcus' : cus = [] := List.mapIdx_eq_nil_iff.mp hnil
      simp only [hnil] at hover
      exact ⟨cu,by rw [hcus'],handedOver_singleton.mp hover⟩
    · rintro ⟨v,hv,hname⟩
      obtain ⟨rfl,rfl⟩ := List.cons.inj hv
      exact ⟨_,rfl,handedOver_singleton.mpr hname⟩

end RunConfiguration

section CuScript
variable {p : Pathnames} {launchUsCu : ℕ → UsLaunch → Option ℕ}

/-- What the arrays hold for the units that have been launched. -/
structure Noted (units : List Launched) (a : Arrays) : Prop where
  procid : a.procid = units.map fun u => digits u.pid
  cuid : a.cuid = units.map Launched.name
  plain : ∀ u ∈ units, Plain u.name

private theorem launches_ok {i : ℕ} {ls : List UsLaunch} {units : List Launched} {a : Arrays}
    {args : List Word}
    (hn : Noted units a) (h : (launches p launchUsCu i ls units a).monitored = .ok args) :
    (launches p launchUsCu i ls units a).launched.length = units.length + ls.length ∧
      ∃ a', Noted (launches p launchUsCu i ls units a).launched a' ∧ args = monitorProcesses p a' := by
  induction ls generalizing i units a with
  | nil => exact ⟨rfl,a,hn,(Except.ok.inj h).symm⟩
  | cons l ls ih =>
    cases hlaunch : launchUsCu i l with
    | none => simp [launches, hlaunch] at h
    | some pid =>
      simp only [launches, hlaunch] at h ⊢
      have hnoted : Noted (units ++ [⟨pid,l.name⟩])
          ⟨a.procid ++ p.expand (digits pid),a.cuid ++ [l.name]⟩ := by
        refine ⟨?_,?_,?_⟩
        · rw [p.expand_plain (plain_digits pid), hn.procid, List.map_append]
          rfl
        · rw [hn.cuid, List.map_append]
          rfl
        · exact List.forall_mem_append.mpr ⟨hn.plain,List.forall_mem_singleton.mpr l.plain⟩
      obtain ⟨hlength,hargs⟩ := ih hnoted h
      refine ⟨?_,hargs⟩
      simp only [hlength, List.length_append, List.length_cons, List.length_nil]
      omega

/-- Where the script ends early, a launch is missing. -/
theorem launches_error {i : ℕ} {ls : List UsLaunch} {units : List Launched} {a : Arrays} {e : Exit}
    (h : (launches p launchUsCu i ls units a).monitored = .error e) :
    (launches p launchUsCu i ls units a).launched.length < units.length + ls.length := by
  induction ls generalizing i units a with
  | nil => cases h
  | cons l ls ih =>
    cases hlaunch : launchUsCu i l with
    | none => simp [launches, hlaunch]
    | some pid =>
      simp only [launches, hlaunch] at h ⊢
      have hlength := ih h
      rw [List.length_append, List.length_singleton] at hlength
      rw [List.length_cons]
      omega

theorem cuScript_supervised {ls : List UsLaunch} (hne : (cuScript p launchUsCu ls).launched ≠ []) :
    Supervised (cuScript p launchUsCu ls) ↔ ls.length = 1 := by
  have hpos := List.length_pos_iff.mpr hne
  cases hrun : (cuScript p launchUsCu ls).monitored with
  | error e =>
    have hlength := launches_error hrun
    have hless : (cuScript p launchUsCu ls).launched.length < ls.length := by
      simpa [cuScript] using hlength
    simp only [Supervised, hrun, reduceCtorEq, false_and, exists_false, false_iff]
    omega
  | ok args =>
    obtain ⟨hlength,a,hn,rfl⟩ := launches_ok ⟨rfl,rfl,by simp⟩ hrun
    have hlaunched : (cuScript p launchUsCu ls).launched.length = ls.length := by
      simpa [cuScript] using hlength
    change Noted (cuScript p launchUsCu ls).launched a at hn
    rw [← hlaunched, Supervised, hrun]
    cases hunits : (cuScript p launchUsCu ls).launched with
    | nil => exact absurd hunits hne
    | cons u us =>
      rw [hunits] at hn
      have hargs : monitorProcesses p a = [digits u.pid,u.name] := by
        simp [monitorProcesses, scalar, hn.procid, hn.cuid, p.expand_plain (plain_digits u.pid),
          p.expand_plain (hn.plain u List.mem_cons_self)]
      rw [hargs]
      constructor
      · rintro ⟨_,hcall,hover⟩
        obtain rfl := Except.ok.inj hcall
        have htwo := hover.length_eq
        rw [List.length_cons, List.length_singleton] at htwo
        omega
      · intro hone
        obtain rfl : us = [] := by simpa using hone
        exact ⟨_,rfl,handedOver_singleton.mpr rfl⟩

end CuScript

/-- A run that has started a unit hands all of them to the monitor exactly when there is one to
start, whose path, where it came from a directory, expands to itself. -/
theorem handed_over_iff_single (p : Pathnames) :
    (∀ s pid, Spaceless p s.found → (runConfiguration p s pid).launched ≠ [] →
      (Supervised (runConfiguration p s pid) ↔
        ∃ cu, p.expand (cuscripts s) = [cu] ∧ p.expand ((p.expand cu).headD []) = [cu])) ∧
    ∀ launchUsCu ls, (cuScript p launchUsCu ls).launched ≠ [] →
      (Supervised (cuScript p launchUsCu ls) ↔ ls.length = 1) :=
  ⟨fun _ _ hs hne => runConfiguration_supervised hs hne,fun _ _ hne => cuScript_supervised hne⟩

def oneScript : Setup where
  confdir := ['c','f']
  isDirectory := true
  chaosPrefix := ['/','o','p','t']
  hasMdsConfig := true
  mdsStatus := 0
  found := [['c','f','/','c','u','1','.','s','h']]

private theorem spaceless_oneScript : Spaceless .empty oneScript.found where
  slash := List.forall_mem_singleton.mpr (by decide)
  noIfs w h := by
    induction h with
    | found hw => exact List.mem_singleton.mp hw ▸ List.all_iff_forall_prop.mp rfl
    | glob _ hpath ih => exact List.mem_singleton.mp hpath ▸ ih

theorem one_script_handed_over :
    Supervised (runConfiguration .empty oneScript fun _ => 7) ∧
      Supervised (cuScript .empty (fun _ _ => some 7) [⟨1,1,"MEA",['M','E','A'],"US MEA",by decide⟩]) :=
  ⟨((handed_over_iff_single .empty).1 oneScript (fun _ => 7) spaceless_oneScript
      (List.cons_ne_nil _ _)).mpr ⟨_,rfl,rfl⟩,
    ((handed_over_iff_single .empty).2 (fun _ _ => some 7) [⟨1,1,"MEA",['M','E','A'],"US MEA",by decide⟩]
      (List.cons_ne_nil _ _)).mpr rfl⟩

theorem production_cu3_hands_over_one :
    (cuScript .empty (fun i _ => some (11 + i)) productionCu3).launched.length = 4 ∧
      (cuScript .empty (fun i _ => some (11 + i)) productionCu3).monitored =
        .ok [['1','1'],['B','T','F','/','D','A','Q']] ∧
      ¬ Supervised (cuScript .empty (fun i _ => some (11 + i)) productionCu3) := by
  refine ⟨rfl,rfl,?_⟩
  rw [cuScript_supervised (by rw [Ne, ← List.length_eq_zero_iff]; exact Nat.succ_ne_zero 3)]
  decide

end ChaosBundle.Configuration

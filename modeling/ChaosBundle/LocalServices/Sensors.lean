import ChaosBundle.Library.Directory
import ChaosBundle.Library.Pathnames
import ChaosBundle.LocalServices.DatasetNames
import Mathlib.Data.Bool.AllAny

/-! `test-sensors.sh`: it acquires datasets into one file for each control unit, under a
provisional name that is closed with the last timestamp. -/
namespace ChaosBundle.LocalServices
open Directory Glob ShellWords

/-- The name stays one word where it is not quoted, and the file is in the directory itself. -/
def Single (name : Text) : Prop := Plain name ∧ '/' ∉ name

instance (name : Text) : Decidable (Single name) := inferInstanceAs (Decidable (_ ∧ _))

/-- The answers of the functions of `common_util.sh`, in the order of the calls; `none` is
a failure, and the second text of a dataset its timestamp. The last two are what `>>` and `mv`
do with names that are split, expanded or looked up elsewhere. -/
structure Services where
  launch_us_cu : Bool
  check_proc : Bool
  init_cu : Pair → Bool
  start_cu : Pair → Bool
  get_timestamp_cu : Option Text
  get_dataset_cu : Nat → Pair → Option (Text × Text)
  appendOther : Directory → (name text : Text) → Directory
  renameOther : Directory → (source target : Text) → Directory

structure Acquisition where
  files : Directory
  start_timestamp : Text
  end_timestamp : Text

section Script
variable (sv : Services) (start : Text)

/-- `>> /tmp/name` -/
def appendTo (d : Directory) (name text : Text) : Directory :=
  if Single name then d.append name text else sv.appendOther d name text

/-- `mv /tmp/source /tmp/target` -/
def mv (d : Directory) (source target : Text) : Directory :=
  if Single source ∧ Single target then d.rename source target else sv.renameOther d source target

/-- The inner loops of one round; an error keeps the files that were written. -/
def acquire (cnt : Nat) : List Pair → Directory × Text → Except Directory (Directory × Text)
  | [], a => .ok a
  | p :: ps, (d,_) => match sv.get_dataset_cu cnt p with
    | some (dataset_cu,timestamp_cu) =>
      acquire cnt ps (appendTo sv d (dataName p start ['0']) (echo dataset_cu),timestamp_cu)
    | none => .error d

/-- `while ((cnt<ACQUIRE_S))`, with the number of rounds that are left. -/
def rounds (ps : List Pair) : (cnt left : Nat) → Directory × Text → Except Directory (Directory × Text)
  | _, 0, a => .ok a
  | cnt, left+1, a => (acquire sv start cnt ps a).bind (rounds ps (cnt+1) left)

/-- `mv` gives every file its final name. -/
def closeFiles (stop : Text) (ps : List Pair) (d : Directory) : Directory :=
  ps.foldl (fun d p => mv sv d (dataName p start ['0']) (dataName p start stop)) d

end Script

def testSensors (nus ncu acquire_s : Nat) (sv : Services) (d : Directory) :
    Except Directory Acquisition :=
  if sv.launch_us_cu ∧ ¬ sv.check_proc then .error d
  else if ¬ ∀ p ∈ pairs nus ncu, sv.init_cu p ∧ sv.start_cu p then .error d
  else match sv.get_timestamp_cu with
    | none => .error d
    | some start =>
      (rounds sv start (pairs nus ncu) 0 acquire_s (d.remove dataPattern,[])).map fun (d,stop) =>
        ⟨closeFiles sv start stop (pairs nus ncu) d,start,stop⟩

section Files

theorem single_dataName {start stop : Text} (hs : Decimal start) (hstop : Decimal stop) (p : Pair) :
    Single (dataName p start stop) := by
  have hplain : ∀ c ∈ dataset ++ ['_','-'], (isIfs c = false ∧ c ≠ '*' ∧ c ≠ '?' ∧ c ≠ '[' ∧ c ≠ '\\') ∧
    c ≠ '/' := List.all_iff_forall_prop.mp rfl
  have hchar : ∀ c ∈ dataName p start stop, (isIfs c = false ∧ c ≠ '*' ∧ c ≠ '?' ∧ c ≠ '[' ∧ c ≠ '\\') ∧
      c ≠ '/' := fun c hc => by
    rcases dataName_chars hs hstop hc with hdigit | hc
    · refine ⟨plain_digit hdigit,?_⟩
      rintro rfl
      exact absurd hdigit (by decide)
    · exact hplain c hc
  exact ⟨⟨by simp [dataName],fun c hc => (hchar c hc).1⟩,fun hc => (hchar _ hc).2 rfl⟩

variable {sv : Services} {start : Text} (hs : Decimal start)
include hs

theorem appendTo_open (d : Directory) (p : Pair) (text : Text) :
    appendTo sv d (dataName p start ['0']) text = d.append (dataName p start ['0']) text :=
  if_pos (single_dataName hs (by decide) p)

theorem mv_dataName {stop : Text} (hstop : Decimal stop) (d : Directory) (p : Pair) :
    mv sv d (dataName p start ['0']) (dataName p start stop) =
      d.rename (dataName p start ['0']) (dataName p start stop) :=
  if_pos ⟨single_dataName hs (by decide) p,single_dataName hs hstop p⟩

private theorem acquire_files {cnt : Nat} {ps : List Pair} {a b : Directory × Text}
    (h : acquire sv start cnt ps a = .ok b) (name : Text) :
    name ∈ b.1 ↔ name ∈ a.1 ∨ ∃ p ∈ ps, name = dataName p start ['0'] := by
  induction ps generalizing a with
  | nil =>
    cases h
    simp
  | cons p ps ih =>
    simp only [acquire] at h
    split at h
    · rw [ih h, appendTo_open hs, mem_append]
      simp only [List.exists_mem_cons_iff, or_assoc, or_left_comm]
    · cases h

theorem rounds_files {ps : List Pair} {cnt left : Nat} {a b : Directory × Text}
    (h : rounds sv start ps cnt left a = .ok b) (name : Text) :
    name ∈ b.1 ↔ name ∈ a.1 ∨ (0 < left ∧ ∃ p ∈ ps, name = dataName p start ['0']) := by
  induction left generalizing cnt a with
  | zero =>
    cases h
    simp
  | succ left ih =>
    simp only [rounds, Except.bind] at h
    split at h
    · cases h
    · rename_i c hc
      rw [ih h, acquire_files hs hc]
      simp only [Nat.zero_lt_succ, true_and]
      constructor
      · rintro (h | ⟨-,h⟩)
        · exact h
        · exact .inr h
      · exact .inl

private theorem closeFiles_files {stop : Text} {ps : List Pair} (he : Decimal stop)
    (hstop : stop ≠ ['0'])
    (hnodup : ps.Nodup) {d : Directory} (hd : ∀ p ∈ ps, dataName p start ['0'] ∈ d) (name : Text) :
    name ∈ closeFiles sv start stop ps d ↔ (∃ p ∈ ps, name = dataName p start stop) ∨
      (name ∈ d ∧ ∀ p ∈ ps, name ≠ dataName p start ['0']) := by
  have hdash : '-' ∉ start := hs.notMem rfl
  have hopen : ∀ p q, dataName p start ['0'] ≠ dataName q start stop := fun p q h =>
    hstop ((dataName_inj hdash hdash).mp h).2.2.symm
  induction ps generalizing d with
  | nil => simp [closeFiles]
  | cons p ps ih =>
    obtain ⟨hp,hrest⟩ := List.forall_mem_cons.mp hd
    obtain ⟨hnotMem,hnodup⟩ := List.nodup_cons.mp hnodup
    have hmoved := fun name => @mem_rename d name _ _ (hopen p p) hp
    have hstill : ∀ q ∈ ps, dataName q start ['0'] ∈
        d.rename (dataName p start ['0']) (dataName p start stop) := by
      intro q hq
      refine (hmoved _).mpr (.inr ⟨hrest q hq,fun h => hnotMem ?_⟩)
      exact ((dataName_inj hdash hdash).mp h).1 ▸ hq
    rw [closeFiles, List.foldl_cons, mv_dataName hs he]
    apply (ih hnodup hstill).trans
    rw [hmoved]
    simp only [List.exists_mem_cons_iff, List.forall_mem_cons]
    constructor
    · rintro (h | ⟨rfl | ⟨h,hne⟩,hall⟩)
      · exact .inl (.inr h)
      · exact .inl (.inl rfl)
      · exact .inr ⟨h,hne,hall⟩
    · rintro ((rfl | h) | ⟨h,hne,hall⟩)
      · exact .inr ⟨.inl rfl,fun q _ => (hopen q p).symm⟩
      · exact .inl h
      · exact .inr ⟨.inr ⟨h,hne⟩,hall⟩

end Files

/-- After a completed acquisition the pattern stands for one closed file of each pair. -/
theorem testSensors_files {sv : Services} {nus ncu acquire_s : Nat} {d : Directory} {a : Acquisition}
    (hacquire : 1 ≤ acquire_s) (h : testSensors nus ncu acquire_s sv d = .ok a)
    (hs : Decimal a.start_timestamp) (he : Decimal a.end_timestamp) (hstop : a.end_timestamp ≠ ['0'])
    (name : Text) : (name ∈ a.files ∧ fnMatch dataPattern name) ↔
      ∃ p ∈ pairs nus ncu, name = dataName p a.start_timestamp a.end_timestamp := by
  unfold testSensors at h
  split_ifs at h
  split at h
  · cases h
  rename_i start _
  cases hr : rounds sv start (pairs nus ncu) 0 acquire_s (d.remove dataPattern,[]) with
  | error _ => simp [hr, Except.map] at h
  | ok b =>
    obtain ⟨d',stop⟩ := b
    simp only [hr, Except.map, Except.ok.injEq] at h
    subst h
    simp only at hs he hstop ⊢
    have hfiles := rounds_files hs hr
    have hopened : ∀ p ∈ pairs nus ncu, dataName p start ['0'] ∈ d' := fun p hp =>
      (hfiles _).mpr (.inr ⟨hacquire,p,hp,rfl⟩)
    rw [closeFiles_files hs he hstop (nodup_pairs nus ncu) hopened, hfiles, mem_remove]
    constructor
    · rintro ⟨hclosed | ⟨⟨-,hno⟩ | ⟨-,p,hp,hopen⟩,hnone⟩,hmatch⟩
      · exact hclosed
      · exact absurd hmatch hno
      · exact absurd hopen (hnone p hp)
    · rintro ⟨p,hp,rfl⟩
      exact ⟨.inl ⟨p,hp,rfl⟩,dataName_matches p start stop⟩

end ChaosBundle.LocalServices

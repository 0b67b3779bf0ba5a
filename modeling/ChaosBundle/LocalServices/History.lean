import ChaosBundle.Library.ShellWords
import ChaosBundle.LocalServices.Sensors
import Mathlib.Data.Bool.AllAny
import Mathlib.Data.List.Perm.Basic

/-! `test-history.sh`: one history query for each acquisition file, with arguments that it
reads from the name of the file. -/
namespace ChaosBundle.LocalServices
open DecimalFields Directory Glob ShellWords

/-- The arguments of `get_hdataset_cu`, in their order. -/
structure Request where
  server : Text
  unit : Text
  start : Text
  stop : Text
  file : Text
  deriving DecidableEq

/-- `TEST_UNIT_$us/TEST_CU_$cu` -/
def cuName (us cu : Text) : Text := "TEST_UNIT_".toList ++ us ++ '/' :: ("TEST_CU_".toList ++ cu)

/-- The third group of the expression is taken for the end and the fourth for the start. -/
def request (server l : Text) : Option Request :=
  (bashRematch l).map fun (m1,m2,m3,m4) =>
    {server := server
     unit := cuName m1 m2
     start := m4
     stop := m3
     file := "/tmp/hdataset_".toList ++ m1 ++ '-' :: (m2 ++ '-' :: (m3 ++ '-' :: m4))}

/-- The requests of the loop and its status. Each call is answered by its number. -/
def queries (server : Text) (answer : Nat → Bool) : Nat → List Text → List Request × Nat
  | _, [] => ([],0)
  | i, l :: lista => match request server l with
    | none => queries server answer i lista
    | some r =>
      if answer i then
        let (rs,status) := queries server answer (i+1) lista
        (r :: rs,status)
      else ([r],1)

/-- Pathname expansion below `/tmp`, in the order of the locale. -/
def pathnames (collate : Text → Text → Bool) (d : Directory) (word : Text) : List Text :=
  let name := word.drop tmp.length
  if tmp <+: word ∧ hasPattern name ∧ d.glob name ≠ [] then
    ((d.glob name).mergeSort collate).map (tmp ++ ·)
  else [word]

/-- The words of `$lista`: what `ls` has found, split and expanded once more. -/
def lista (collate : Text → Text → Bool) (d : Directory) : List Text :=
  (((d.glob dataPattern).mergeSort collate).flatMap fun name => fields (tmp ++ name)).flatMap
    (pathnames collate d)

def testHistory (collate : Text → Text → Bool) (server : Text) (answer : Nat → Bool)
    (d : Directory) : List Request × Nat :=
  queries server answer 0 (lista collate d)

/-- One request for each pair, from `start` to `stop`, each with a file of its own. -/
structure OneRequestEach (nus ncu : Nat) (start stop : Text) (requests : List Request) : Prop where
  units : (requests.map (·.unit)).Perm
    ((pairs nus ncu).map fun p => cuName (digits p.1) (digits p.2))
  interval : ∀ r ∈ requests, r.start = start ∧ r.stop = stop
  files : (requests.map (·.file)).Nodup

def requestFor (server start stop : Text) (p : Pair) : Request where
  server := server
  unit := cuName (digits p.1) (digits p.2)
  start := stop
  stop := start
  file := "/tmp/hdataset_".toList ++ digits p.1 ++ '-' :: (digits p.2 ++ '-' :: (start ++ '-' :: stop))

theorem request_dataName {server start stop : Text} (hs : Decimal start) (he : Decimal stop)
    (p : Pair) : request server (tmp ++ dataName p start stop) =
      some (requestFor server start stop p) := by
  simp [request, bashRematch_dataName hs he, requestFor]

private theorem requestFor_file_injective {server start stop : Text} :
    Function.Injective fun p => (requestFor server start stop p).file := by
  intro p q h
  simp only [requestFor, List.append_assoc, List.append_cancel_left_eq] at h
  rw [field_inj (dash_notMem _) (dash_notMem _), field_inj (dash_notMem _) (dash_notMem _)] at h
  exact Prod.ext (digits_injective h.1) (digits_injective h.2.1)

section Queries
variable {start stop : Text} (hs : Decimal start) (he : Decimal stop)
include hs he

private theorem words_dataName {collate : Text → Text → Bool} {d : Directory} (p : Pair) :
    (fields (tmp ++ dataName p start stop)).flatMap (pathnames collate d) =
      [tmp ++ dataName p start stop] := by
  have hplain : ∀ c ∈ tmp ++ dataset ++ ['_','-'], isIfs c = false ∧ hasPattern [c] = false :=
    List.all_iff_forall_prop.mp rfl
  have hdigit : ∀ c : Char, c.isDigit → isIfs c = false ∧ hasPattern [c] = false := fun c hc => by
    obtain ⟨hifs,hstar,hquestion,hbracket,-⟩ := plain_digit hc
    simp [hifs, hasPattern, hstar, hquestion, hbracket]
  have hchar : ∀ c ∈ tmp ++ dataName p start stop, isIfs c = false ∧ hasPattern [c] = false := by
    intro c hc
    rcases List.mem_append.mp hc with hc | hc
    · exact hplain c (List.mem_append_left _ (List.mem_append_left _ hc))
    · refine (dataName_chars hs he hc).elim (hdigit c) fun hc => hplain c ?_
      rw [List.append_assoc]
      exact List.mem_append_right _ hc
  have hpat : hasPattern (dataName p start stop) = false := by
    refine List.any_eq_false.mpr fun c hc => ?_
    simpa [hasPattern] using (hchar c (List.mem_append_right _ hc)).2
  rw [fields_eq (by simp [tmp]) fun c hc => (hchar c hc).1]
  simp [pathnames, hpat]

private theorem queries_prefix (server : Text) (answer : Nat → Bool) (i : Nat) (ps : List Pair) :
    (queries server answer i (ps.map fun p => tmp ++ dataName p start stop)).1 <+:
      ps.map (requestFor server start stop) := by
  induction ps generalizing i with
  | nil => simp [queries]
  | cons p ps ih =>
    simp only [List.map_cons, queries, request_dataName hs he]
    split
    · simpa using ih (i+1)
    · simp

private theorem queries_length (server : Text) (answer : Nat → Bool) (i : Nat) (ps : List Pair) :
    (queries server answer i (ps.map fun p => tmp ++ dataName p start stop)).1.length = ps.length ↔
      ∀ j, j + 1 < ps.length → answer (i+j) := by
  induction ps generalizing i with
  | nil => simp [queries]
  | cons p ps ih =>
    simp only [List.map_cons, queries, request_dataName hs he, List.length_cons]
    split
    · rename_i hi
      rw [List.length_cons, Nat.add_right_cancel_iff, ih (i+1)]
      constructor
      · intro h j hj
        cases j with
        | zero => exact hi
        | succ j => simpa [Nat.add_assoc, Nat.add_comm 1] using h j (by omega)
      · intro h j hj
        simpa [Nat.add_assoc, Nat.add_comm 1] using h (j+1) (by omega)
    · rename_i hi
      cases ps with
      | nil => simp
      | cons q ps =>
        simp only [List.length_nil, List.length_cons]
        constructor
        · intro h
          omega
        · intro h
          exact absurd (h 0 (by omega)) hi

/-- The loop visits one file of each pair, in the order of the locale. -/
theorem lista_eq {nus ncu : Nat} (collate : Text → Text → Bool) {d : Directory}
    (hfiles : ∀ name, (name ∈ d ∧ fnMatch dataPattern name) ↔
      ∃ p ∈ pairs nus ncu, name = dataName p start stop) :
    ∃ ps : List Pair, ps.Perm (pairs nus ncu) ∧
      lista collate d = ps.map fun p => tmp ++ dataName p start stop := by
  have hinj : Function.Injective fun p => dataName p start stop := fun p q h =>
    ((dataName_inj (hs.notMem rfl) (hs.notMem rfl)).mp h).1
  have hperm : ((d.glob dataPattern).mergeSort collate).Perm
      ((pairs nus ncu).map fun p => dataName p start stop) := by
    apply (List.mergeSort_perm _ _).trans
    apply (List.perm_ext_iff_of_nodup (nodup_glob d _) ((nodup_pairs nus ncu).map hinj)).mpr
    intro name
    rw [mem_glob, hfiles, List.mem_map]
    exact ⟨fun ⟨p,hp,h⟩ => ⟨p,hp,h.symm⟩,fun ⟨p,hp,h⟩ => ⟨p,hp,h.symm⟩⟩
  obtain ⟨ps,hsorted,hps⟩ : Relation.Comp (fun l ps => l = ps.map fun p => dataName p start stop)
      List.Perm ((d.glob dataPattern).mergeSort collate) (pairs nus ncu) := by
    rw [List.eq_map_comp_perm]
    exact hperm
  refine ⟨ps,hps,?_⟩
  rw [lista, hsorted, List.flatMap_assoc, List.flatMap_map]
  simp only [words_dataName hs he, List.map_eq_flatMap]

theorem oneRequestEach_iff {nus ncu : Nat} (hnus : 1 ≤ nus) (hncu : 1 ≤ ncu) {d : Directory}
    (hfiles : ∀ name, (name ∈ d ∧ fnMatch dataPattern name) ↔
      ∃ p ∈ pairs nus ncu, name = dataName p start stop)
    (collate : Text → Text → Bool) (server : Text) (answer : Nat → Bool) :
    OneRequestEach nus ncu start stop (testHistory collate server answer d).1 ↔
      stop = start ∧ ∀ i, i + 1 < nus * ncu → answer i := by
  obtain ⟨ps,hps,hlista⟩ := lista_eq hs he collate hfiles
  have hvisited := queries_prefix hs he server answer 0 ps
  have hlength := queries_length hs he server answer 0 ps
  rw [← hlista, hps.length_eq, length_pairs] at hlength
  rw [← hlista] at hvisited
  simp only [Nat.zero_add] at hlength
  constructor
  · intro h
    have hall := h.units.length_eq
    rw [List.length_map, List.length_map, length_pairs] at hall
    refine ⟨?_,hlength.mp hall⟩
    have hpos : 0 < nus * ncu := Nat.mul_pos hnus hncu
    obtain ⟨r,hr⟩ := List.exists_mem_of_length_pos (hall ▸ hpos)
    obtain ⟨p,-,rfl⟩ := List.mem_map.mp (hvisited.subset hr)
    exact (h.interval _ hr).1
  · rintro ⟨hsame,hanswer⟩
    have hall : (testHistory collate server answer d).1 =
        ps.map (requestFor server start stop) := by
      apply hvisited.eq_of_length
      rw [List.length_map, hps.length_eq, length_pairs]
      exact hlength.mpr hanswer
    rw [hall]
    refine ⟨?_,?_,?_⟩
    · rw [List.map_map]
      exact hps.map _
    · intro r hr
      obtain ⟨p,-,rfl⟩ := List.mem_map.mp hr
      exact ⟨hsame,hsame.symm⟩
    · rw [List.map_map]
      exact (hps.nodup_iff.mpr (nodup_pairs nus ncu)).map requestFor_file_injective

end Queries

/-- The history queries invert the names of the acquisition files exactly when the two
timestamps are the same text, since start and end are read the wrong way round, and when no
request but the last fails. -/
theorem history_inverts_iff {nus ncu acquire_s : Nat} {sv : Services} {d d' : Directory}
    {a : Acquisition} (hnus : 1 ≤ nus) (hncu : 1 ≤ ncu) (hacquire : 1 ≤ acquire_s)
    (hrun : testSensors nus ncu acquire_s sv d = .ok a) (hs : Decimal a.start_timestamp)
    (he : Decimal a.end_timestamp) (hne : a.end_timestamp ≠ ['0'])
    (hsame : ∀ name, fnMatch dataPattern name → (name ∈ d' ↔ name ∈ a.files))
    (collate : Text → Text → Bool) (server : Text) (answer : Nat → Bool) :
    OneRequestEach nus ncu a.start_timestamp a.end_timestamp
        (testHistory collate server answer d').1 ↔
      a.end_timestamp = a.start_timestamp ∧ ∀ i, i + 1 < nus * ncu → answer i := by
  refine oneRequestEach_iff hs he hnus hncu (fun name => ?_) collate server answer
  rw [← testSensors_files hacquire hrun hs he hne]
  exact and_congr_left fun hmatch => hsame name hmatch

def answering (start stop : Text) : Services where
  launch_us_cu := true
  check_proc := true
  init_cu _ := true
  start_cu _ := true
  get_timestamp_cu := some start
  get_dataset_cu _ _ := some ([],stop)
  appendOther d _ _ := d
  renameOther d _ _ := d

theorem history_inverts_at_once : ∃ a, testSensors 1 2 1 (answering ['7'] ['7']) ∅ = .ok a ∧
    OneRequestEach 1 2 ['7'] ['7'] (testHistory (fun _ _ => true) [] (fun _ => true) a.files).1 := by
  have hrun : testSensors 1 2 1 (answering ['7'] ['7']) ∅ = .ok ⟨_,['7'],['7']⟩ := rfl
  have hiff := history_inverts_iff (by decide) (by decide) (by decide) hrun (by decide) (by decide)
    (by decide) (fun _ _ => Iff.rfl) (fun _ _ => true) [] (fun _ => true)
  exact ⟨_,hrun,hiff.mpr ⟨rfl,fun _ _ => rfl⟩⟩

/-- An acquisition from 7 to 9 is queried from 9 to 7. -/
theorem history_swaps_timestamps :
    ¬ ∀ a, testSensors 1 1 1 (answering ['7'] ['9']) ∅ = .ok a →
      OneRequestEach 1 1 a.start_timestamp a.end_timestamp
        (testHistory (fun _ _ => true) [] (fun _ => true) a.files).1 := by
  intro hall
  have hfiles := @testSensors_files (answering ['7'] ['9']) 1 1 1 ∅ _ (by decide) rfl (by decide)
    (by decide) (by decide)
  have hone := hall _ rfl
  have hsame := (oneRequestEach_iff (by decide) (by decide) (by decide) (by decide) hfiles
    (fun _ _ => true) [] (fun _ => true)).mp hone
  exact absurd hsame.1 (by decide)

end ChaosBundle.LocalServices

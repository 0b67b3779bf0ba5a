import ChaosBundle.Library.TextLines
import ChaosBundle.LocalServices.Sensors

/-! What is in the acquisition files of `test-sensors.sh`: the datasets of its own control
unit, one line for each round, and nothing of another unit or of an earlier run. -/
namespace ChaosBundle.LocalServices
open Directory Glob ShellWords TextLines

section Content
variable {sv : Services} {start : Text} (hs : Decimal start)
include hs

private theorem acquire_lookup {cnt : Nat} {ps : List Pair} {a b : Directory × Text}
    (h : acquire sv start cnt ps a = .ok b) (hnodup : ps.Nodup) :
    (∀ p ∈ ps, ∃ line, (sv.get_dataset_cu cnt p).map Prod.fst = some line ∧
      (b.1.lookup (dataName p start ['0'])).getD [] =
        (a.1.lookup (dataName p start ['0'])).getD [] ++ echo line) ∧
    ∀ name, (∀ p ∈ ps, name ≠ dataName p start ['0']) → b.1.lookup name = a.1.lookup name := by
  have hdash : '-' ∉ start := hs.notMem rfl
  induction ps generalizing a with
  | nil =>
    cases h
    simp
  | cons p ps ih =>
    obtain ⟨hnotMem,hnodup⟩ := List.nodup_cons.mp hnodup
    simp only [acquire, appendTo_open hs] at h
    split at h
    · rename_i line timestamp_cu hdataset
      obtain ⟨hrest,hother⟩ := ih h hnodup
      have hname : ∀ q ∈ ps, dataName q start ['0'] ≠ dataName p start ['0'] := fun q hq heq =>
        hnotMem (((dataName_inj hdash hdash).mp heq).1 ▸ hq)
      constructor
      · intro q hq
        rcases List.mem_cons.mp hq with rfl | hq
        · refine ⟨line,by rw [hdataset]; rfl,?_⟩
          rw [hother _ fun r hr => (hname r hr).symm, lookup_append, if_pos rfl]
          rfl
        · obtain ⟨line',hline',htext⟩ := hrest q hq
          rw [lookup_append, if_neg (hname q hq)] at htext
          exact ⟨line',hline',htext⟩
      · intro name hne
        obtain ⟨hp,hps⟩ := List.forall_mem_cons.mp hne
        rw [hother name hps, lookup_append, if_neg hp]
    · cases h

private theorem rounds_lookup {ps : List Pair} (hnodup : ps.Nodup) {cnt left : Nat}
    {a b : Directory × Text} (h : rounds sv start ps cnt left a = .ok b) :
    (∀ p ∈ ps, ∃ ds : List Text, ds.length = left ∧
      (∀ i < left, (sv.get_dataset_cu (cnt+i) p).map Prod.fst = ds[i]?) ∧
      (b.1.lookup (dataName p start ['0'])).getD [] =
        (a.1.lookup (dataName p start ['0'])).getD [] ++ ds.flatMap echo) ∧
    ∀ name, (∀ p ∈ ps, name ≠ dataName p start ['0']) → b.1.lookup name = a.1.lookup name := by
  induction left generalizing cnt a with
  | zero =>
    cases h
    refine ⟨fun p _ => ⟨[],rfl,by simp,by simp⟩,fun _ _ => rfl⟩
  | succ left ih =>
    simp only [rounds, Except.bind] at h
    split at h
    · cases h
    · rename_i c hc
      obtain ⟨hround,hsame⟩ := acquire_lookup hs hc hnodup
      obtain ⟨hrest,hother⟩ := ih h
      refine ⟨fun p hp => ?_,fun name hne => (hother name hne).trans (hsame name hne)⟩
      obtain ⟨line,hline,hfirst⟩ := hround p hp
      obtain ⟨ds,hlength,hds,htext⟩ := hrest p hp
      refine ⟨line :: ds,by rw [List.length_cons, hlength],?_,?_⟩
      · intro i hi
        cases i with
        | zero => exact hline
        | succ i =>
          rw [← Nat.add_assoc, Nat.add_right_comm, List.getElem?_cons_succ]
          exact hds i (Nat.lt_of_succ_lt_succ hi)
      · rw [htext, hfirst, List.flatMap_cons, List.append_assoc]

private theorem closeFiles_lookup {stop : Text} (he : Decimal stop) (hstop : stop ≠ ['0'])
    {ps : List Pair} (hnodup : ps.Nodup) {d : Directory} (hd : ∀ p ∈ ps, dataName p start ['0'] ∈ d) :
    (∀ p ∈ ps, (closeFiles sv start stop ps d).lookup (dataName p start stop) =
      d.lookup (dataName p start ['0'])) ∧
    ∀ name, (∀ p ∈ ps, name ≠ dataName p start ['0'] ∧ name ≠ dataName p start stop) →
      (closeFiles sv start stop ps d).lookup name = d.lookup name := by
  have hdash : '-' ∉ start := hs.notMem rfl
  have hopen : ∀ p q, dataName p start ['0'] ≠ dataName q start stop := fun p q h =>
    hstop ((dataName_inj hdash hdash).mp h).2.2.symm
  induction ps generalizing d with
  | nil => simp [closeFiles]
  | cons p ps ih =>
    obtain ⟨hp,hrest⟩ := List.forall_mem_cons.mp hd
    obtain ⟨hnotMem,hnodup⟩ := List.nodup_cons.mp hnodup
    have hmoved := fun name => @lookup_rename d name _ _ (hopen p p) hp
    have hname : ∀ q ∈ ps, ∀ e, dataName q start e ≠ dataName p start e := fun q hq e heq =>
      hnotMem (((dataName_inj hdash hdash).mp heq).1 ▸ hq)
    have hstill : ∀ q ∈ ps, (d.rename (dataName p start ['0']) (dataName p start stop)).lookup
        (dataName q start ['0']) = d.lookup (dataName q start ['0']) := fun q hq => by
      rw [hmoved, if_neg (hopen q p), if_neg (hname q hq ['0'])]
    have hmem : ∀ q ∈ ps, dataName q start ['0'] ∈
        d.rename (dataName p start ['0']) (dataName p start stop) := fun q hq => by
      rw [← AList.lookup_isSome, hstill q hq, AList.lookup_isSome]
      exact hrest q hq
    obtain ⟨hclosed,hother⟩ := ih hnodup hmem
    rw [closeFiles, List.foldl_cons, mv_dataName hs he]
    constructor
    · intro q hq
      rcases List.mem_cons.mp hq with rfl | hq
      · refine (hother _ fun r hr => ⟨(hopen r q).symm,(hname r hr stop).symm⟩).trans ?_
        rw [hmoved, if_pos rfl]
      · exact (hclosed q hq).trans (hstill q hq)
    · intro name hne
      obtain ⟨⟨hsource,htarget⟩,hps⟩ := List.forall_mem_cons.mp hne
      exact (hother name hps).trans (by rw [hmoved, if_neg htarget, if_neg hsource])

omit hs in
/-- After a completed acquisition the file of every pair holds the datasets of that pair,
one line for each round and in their order; no other file has changed. -/
theorem testSensors_contents {nus ncu acquire_s : Nat} {d : Directory} {a : Acquisition}
    (hacquire : 1 ≤ acquire_s) (h : testSensors nus ncu acquire_s sv d = .ok a)
    (hs : Decimal a.start_timestamp) (he : Decimal a.end_timestamp) (hstop : a.end_timestamp ≠ ['0'])
    (hecho : ∀ cnt < acquire_s, ∀ p ∈ pairs nus ncu, ∀ r ∈ sv.get_dataset_cu cnt p,
      isEchoOption r.1 = false) :
    (∀ us < nus, ∀ cu < ncu, ∃ ds : List Text, ds.length = acquire_s ∧
      (∀ cnt < acquire_s, (sv.get_dataset_cu cnt (us,cu)).map Prod.fst = ds[cnt]?) ∧
      a.files.lookup (dataName (us,cu) a.start_timestamp a.end_timestamp) = some (unlines ds)) ∧
    ∀ name, ¬ fnMatch dataPattern name → a.files.lookup name = d.lookup name := by
  unfold testSensors at h
  split_ifs at h
  split at h
  · cases h
  rename_i start _
  cases hr : rounds sv start (pairs nus ncu) 0 acquire_s (d.remove dataPattern,[]) with
  | error _ => simp [hr, Except.map] at h
  | ok b =>
    obtain ⟨d',stop⟩ := b
    simp only [hr, Except.map, Except.ok.injEq] at h
    subst h
    simp only at hs he hstop ⊢
    have hopened : ∀ p ∈ pairs nus ncu, dataName p start ['0'] ∈ d' := fun p hp =>
      (rounds_files hs hr _).mpr (.inr ⟨hacquire,p,hp,rfl⟩)
    obtain ⟨hwritten,hsame⟩ := rounds_lookup hs (nodup_pairs nus ncu) hr
    obtain ⟨hclosed,hother⟩ := closeFiles_lookup hs he hstop (nodup_pairs nus ncu) hopened
    constructor
    · intro us hus cu hcu
      have hp : (us,cu) ∈ pairs nus ncu := mem_pairs.mpr ⟨hus,hcu⟩
      obtain ⟨ds,hlength,hds,htext⟩ := hwritten _ hp
      simp only [Nat.zero_add] at hds
      obtain ⟨text,hlookup⟩ := Option.isSome_iff_exists.mp (AList.lookup_isSome.mpr (hopened _ hp))
      -- The file was removed at the start, so that it holds the datasets of this run only.
      have hremoved : (d.remove dataPattern).lookup (dataName (us,cu) start ['0']) = none := by
        rw [lookup_remove, if_pos (dataName_matches _ _ _)]
      have hlines : ds.flatMap echo = unlines ds := by
        refine List.flatMap_congr fun line hline => echo_eq ?_
        obtain ⟨cnt,hcnt,hget⟩ := List.mem_iff_getElem.mp hline
        have hdataset := hds cnt (hlength ▸ hcnt)
        rw [List.getElem?_eq_getElem hcnt, hget, Option.map_eq_some_iff] at hdataset
        obtain ⟨r,hr,rfl⟩ := hdataset
        exact hecho cnt (hlength ▸ hcnt) _ hp r hr
      simp only [hremoved, hlookup, Option.getD_none, Option.getD_some, List.nil_append, hlines] at htext
      exact ⟨ds,hlength,hds,by rw [hclosed _ hp, hlookup, htext]⟩
    · intro name hmatch
      have hne : ∀ p stop', name ≠ dataName p start stop' := by
        rintro p stop' rfl
        exact hmatch (dataName_matches p start stop')
      rw [hother name fun p _ => ⟨hne p _,hne p _⟩, hsame name fun p _ => hne p _, lookup_remove,
        if_neg hmatch]

end Content

def telling : Services where
  launch_us_cu := true
  check_proc := true
  init_cu _ := true
  start_cu _ := true
  get_timestamp_cu := some ['7']
  get_dataset_cu cnt p := some (DecimalFields.digits cnt ++ DecimalFields.digits p.2,['9'])
  appendOther d _ _ := d
  renameOther d _ _ := d

theorem telling_contents : ∃ a, testSensors 1 2 2 telling ∅ = .ok a ∧
    (a.files.lookup (dataName (0,1) ['7'] ['9'])).map lines = some [['0','1'],['1','1']] := by
  have hrun : testSensors 1 2 2 telling ∅ = .ok ⟨_,['7'],['9']⟩ := rfl
  obtain ⟨ds,hlength,hds,hlookup⟩ :=
    (testSensors_contents (by decide) hrun (by decide) (by decide) (by decide) (by decide)).1
      0 (by decide) 1 (by decide)
  have hfirst : ds = [['0','1'],['1','1']] := by
    refine List.ext_getElem? fun cnt => ?_
    rcases Nat.lt_or_ge cnt 2 with hcnt | hcnt
    · rw [← hds cnt hcnt]
      obtain rfl | rfl : cnt = 0 ∨ cnt = 1 := by omega
      all_goals decide
    · rw [List.getElem?_eq_none (hlength ▸ hcnt), List.getElem?_eq_none hcnt]
  refine ⟨_,hrun,?_⟩
  rw [hlookup, hfirst]
  decide

end ChaosBundle.LocalServices

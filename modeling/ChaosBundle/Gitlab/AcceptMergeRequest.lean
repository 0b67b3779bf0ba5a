import ChaosBundle.Library.ShellWords
import Mathlib.Data.Bool.AllAny
import Mathlib.Data.List.Nodup
import Mathlib.Tactic.SplitIfs

/-! `accept_merge_request.sh`: accept a branch in every project of the bundle. The
server is a parameter; a run is the list of requests that curl sends. -/
namespace ChaosBundle.AcceptMergeRequest
open ShellWords

/-- git admits no empty branch name, and none with a blank or a pattern character. -/
structure BranchName where
  text : String
  nonempty : text ≠ ""
  plain : ∀ c ∈ text.toList, c.isWhitespace = false ∧ c ∉ ['*', '?', '[']
  deriving DecidableEq

structure MergeRequest where
  iid : Nat
  sourceBranch : BranchName
  deriving DecidableEq

/-- The JSON array of a project's open merge requests. The `iid` is unique in a project. -/
structure OpenRequests where
  entries : List MergeRequest
  unique : (entries.map MergeRequest.iid).Nodup

/-- What becomes of a PUT of `merge_requests/<iid>/merge`. -/
inductive PutOutcome where
  | performed
  /-- an HTTP error status -/
  | refused
  | noResponse
  deriving DecidableEq

/-- Without `-f` curl ends with 0 whenever it receives an HTTP response. -/
def PutOutcome.curlStatus : PutOutcome → Nat
  | .performed | .refused => 0
  | .noResponse => 52

structure Server where
  openRequests : String → OpenRequests
  put : String → Nat → PutOutcome

inductive Request where
  | get (project : String)
  | put (project : String) (iid : Nat)
  | delete (project : String) (iid : Nat)
  deriving DecidableEq

def projects : List String :=
  ["chaosframework", "chaos-driver-actuator", "chaos-webgui", "chaos-driver-misc",
    "chaos-example-control-unit", "chaos_bundle_tools", "chaos-common-misc", "chaos-common-debug",
    "chaos-common-modbus", "chaos-common-crest", "chaos-common-vme", "chaos-common-serial",
    "chaos-common-powersupply", "chaos-common-actuators", "chaos-driver-sensors",
    "chaos-common-test", "chaos-driver-daq", "chaos-driver-data_import", "chaos-driver-modbus",
    "chaos-driver-powersupply", "DCS", "common_windows", "chaos-examples",
    "chaos-driver-siemens-s7", "chaos-driver-plc", "chaos-driver-generators", "chaos-driver-crio",
    "chaos-common-labview", "chaos-driver-chaos-mess"]

def isAscii (s : String) : Bool := s.toList.all (·.toNat < 128)

/-- `print` of a unicode string into a pipe: Python 2 encodes as ASCII or fails. -/
def pythonPrint (s : String) : String := if isAscii s then s else ""

/-- `[ -n $SRC ]`: with no word at all the test is of the string `-n` itself, and with
more than one it is an error. -/
def testNonempty (s : String) : Bool := (fields s.toList).length ≤ 1

/-- One project: only the first element of the array is ever looked at. -/
def checkProject (branch : String) (server : Server) (p : String) : List Request :=
  .get p ::
    match (server.openRequests p).entries with
    | [] => []
    | first :: _ =>
      let src := pythonPrint first.sourceBranch.text
      if testNonempty src ∧ src = branch then
        .put p first.iid ::
          if (server.put p first.iid).curlStatus = 0 then [.delete p first.iid] else []
      else []

def acceptMergeRequest (branch : String) (server : Server) : List Request :=
  if branch = "" then [] else projects.flatMap (checkProject branch server)

/-- A merge is attempted for the open requests from the branch, and for no other. -/
def AttemptsExactly (branch : BranchName) (server : Server) (sent : List Request) : Prop :=
  ∀ p iid, .put p iid ∈ sent ↔
    p ∈ projects ∧ ⟨iid,branch⟩ ∈ (server.openRequests p).entries

def DeletesOnlyMerged (server : Server) (sent : List Request) : Prop :=
  ∀ p iid, .delete p iid ∈ sent → server.put p iid = .performed

/-- The request of a project that the script acts on: the first one, if it is from the
branch and its name survives the printing. -/
def acted (branch : BranchName) (server : Server) (p : String) : Option MergeRequest :=
  (server.openRequests p).entries.head?.filter fun mr =>
    mr.sourceBranch = branch ∧ isAscii branch.text

theorem acted_eq_some {branch : BranchName} {server : Server} {p : String} {mr : MergeRequest} :
    acted branch server p = some mr ↔ (server.openRequests p).entries.head? = some mr ∧
      mr.sourceBranch = branch ∧ isAscii branch.text := by
  simp [acted, Option.filter_eq_some_iff]

private theorem testNonempty_pythonPrint (b : BranchName) : testNonempty (pythonPrint b.text) := by
  unfold testNonempty pythonPrint
  split
  · have hne : b.text.toList ≠ [] := by
      simpa using b.nonempty
    have hifs : ∀ c ∈ b.text.toList, isIfs c = false := by
      intro c hc
      have hplain := (b.plain c hc).1
      simp only [Char.isWhitespace, Bool.or_eq_false_iff] at hplain
      simp [isIfs, hplain]
    rw [fields_eq hne hifs]
    rfl
  · decide

/-- What is printed is the given branch only for an ASCII name. -/
theorem pythonPrint_eq_iff (b branch : BranchName) :
    pythonPrint b.text = branch.text ↔ b = branch ∧ isAscii branch.text := by
  have hinj : b.text = branch.text ↔ b = branch := by
    constructor
    · intro h
      cases b; cases branch
      simpa using h
    · exact congrArg _
  unfold pythonPrint
  split
  · rename_i h
    rw [hinj]
    constructor
    · rintro rfl
      exact ⟨rfl,h⟩
    · exact And.left
  · rename_i h
    constructor
    · exact fun he => absurd he.symm branch.nonempty
    · rintro ⟨rfl,ha⟩
      exact absurd ha h

theorem checkProject_eq (branch : BranchName) (server : Server) (p : String) :
    checkProject branch.text server p = .get p ::
      match acted branch server p with
      | none => []
      | some mr => .put p mr.iid ::
          if (server.put p mr.iid).curlStatus = 0 then [.delete p mr.iid] else [] := by
  unfold checkProject acted
  cases (server.openRequests p).entries with
  | nil => rfl
  | cons first rest =>
    simp only [testNonempty_pythonPrint, true_and, pythonPrint_eq_iff, List.head?_cons]
    split_ifs <;> simp [Option.filter, *]

theorem put_mem_checkProject {branch : BranchName} {server : Server} {p q : String} {iid : Nat} :
    .put q iid ∈ checkProject branch.text server p ↔
      q = p ∧ ∃ mr, acted branch server p = some mr ∧ mr.iid = iid := by
  rw [checkProject_eq]
  cases acted branch server p with
  | none => simp
  | some mr =>
    simp only [List.mem_cons, reduceCtorEq, false_or, Request.put.injEq, Option.some.injEq,
      exists_eq_left']
    split_ifs <;> simp [eq_comm]

private theorem delete_mem_checkProject {branch : BranchName} {server : Server} {p q : String}
    {iid : Nat} : .delete q iid ∈ checkProject branch.text server p ↔
      q = p ∧ (∃ mr, acted branch server p = some mr ∧ mr.iid = iid) ∧
        (server.put p iid).curlStatus = 0 := by
  rw [checkProject_eq]
  cases acted branch server p with
  | none => simp
  | some mr =>
    simp only [List.mem_cons, reduceCtorEq, false_or, Option.some.injEq, exists_eq_left']
    split_ifs with h0
    · simp only [List.mem_singleton, Request.delete.injEq]
      constructor
      · rintro ⟨rfl,rfl⟩
        exact ⟨rfl,rfl,h0⟩
      · rintro ⟨rfl,rfl,-⟩
        exact ⟨rfl,rfl⟩
    · simp only [List.not_mem_nil, false_iff, not_and]
      rintro rfl rfl
      exact h0

theorem mem_acceptMergeRequest {branch : BranchName} {server : Server} {r : Request} :
    r ∈ acceptMergeRequest branch.text server ↔
      ∃ p ∈ projects, r ∈ checkProject branch.text server p := by
  rw [acceptMergeRequest, if_neg branch.nonempty, List.mem_flatMap]

private theorem OpenRequests.eq_of_iid (o : OpenRequests) {a b : MergeRequest} (ha : a ∈ o.entries)
    (hb : b ∈ o.entries) (h : a.iid = b.iid) : a = b :=
  List.inj_on_of_nodup_map o.unique ha hb h

/-- Attempts miss exactly the requests behind the head of an array, and all of a branch
whose name cannot be printed. -/
theorem attempts_exactly_iff (branch : BranchName) (server : Server) :
    AttemptsExactly branch server (acceptMergeRequest branch.text server) ↔
      ∀ p ∈ projects, ∀ mr ∈ (server.openRequests p).entries, mr.sourceBranch = branch →
        (server.openRequests p).entries.head? = some mr ∧ isAscii branch.text := by
  have hput (p : String) (iid : Nat) : .put p iid ∈ acceptMergeRequest branch.text server ↔
      p ∈ projects ∧ ∃ mr, acted branch server p = some mr ∧ mr.iid = iid := by
    simp only [mem_acceptMergeRequest, put_mem_checkProject]
    constructor
    · rintro ⟨_,hp,rfl,hmr⟩
      exact ⟨hp,hmr⟩
    · rintro ⟨hp,hmr⟩
      exact ⟨p,hp,rfl,hmr⟩
  constructor
  · intro h p hp mr hmr hbranch
    have hentry : (⟨mr.iid,branch⟩ : MergeRequest) ∈ (server.openRequests p).entries := by
      rw [← hbranch]; exact hmr
    obtain ⟨-,first,hacted,hiid⟩ := (hput p mr.iid).mp ((h p mr.iid).mpr ⟨hp,hentry⟩)
    obtain ⟨hhead,-,hascii⟩ := acted_eq_some.mp hacted
    have hsame := (server.openRequests p).eq_of_iid (List.mem_of_mem_head? hhead) hmr hiid
    exact ⟨hsame ▸ hhead,hascii⟩
  · intro h p iid
    rw [hput]
    apply and_congr_right
    intro hp
    constructor
    · rintro ⟨mr,hacted,rfl⟩
      obtain ⟨hhead,rfl,-⟩ := acted_eq_some.mp hacted
      exact List.mem_of_mem_head? hhead
    · intro hentry
      obtain ⟨hhead,hascii⟩ := h p hp _ hentry rfl
      exact ⟨_,acted_eq_some.mpr ⟨hhead,rfl,hascii⟩,rfl⟩

/-- The script takes a refusal for a merge, since curl ends with 0 for both. -/
theorem deletes_only_merged_iff (branch : BranchName) (server : Server) :
    DeletesOnlyMerged server (acceptMergeRequest branch.text server) ↔
      ∀ p ∈ projects, ∀ mr, acted branch server p = some mr → server.put p mr.iid ≠ .refused := by
  constructor
  · intro h p hp mr hacted hrefused
    have hdelete : .delete p mr.iid ∈ acceptMergeRequest branch.text server := by
      refine mem_acceptMergeRequest.mpr ⟨p,hp,delete_mem_checkProject.mpr ⟨rfl,⟨mr,hacted,rfl⟩,?_⟩⟩
      rw [hrefused]; rfl
    cases hrefused.symm.trans (h p mr.iid hdelete)
  · intro h p iid hdelete
    obtain ⟨q,hq,hdelete⟩ := mem_acceptMergeRequest.mp hdelete
    obtain ⟨rfl,⟨mr,hacted,rfl⟩,hstatus⟩ := delete_mem_checkProject.mp hdelete
    have hnot := h p hq mr hacted
    cases hout : server.put p mr.iid <;> simp_all [PutOutcome.curlStatus]

private theorem entries_head_iff (branch : BranchName) (o : OpenRequests) :
    (∀ mr ∈ o.entries, mr.sourceBranch = branch → o.entries.head? = some mr ∧ isAscii branch.text) ↔
      (∀ mr ∈ o.entries.tail, mr.sourceBranch ≠ branch) ∧
      ∀ mr, o.entries.head? = some mr → mr.sourceBranch = branch → isAscii branch.text := by
  obtain ⟨entries,unique⟩ := o
  cases entries with
  | nil => simp
  | cons first rest =>
    simp only [List.mem_cons, List.head?_cons, Option.some.injEq, List.tail_cons]
    constructor
    · intro h
      refine ⟨fun mr hmr hbranch => ?_,fun mr hfirst hbranch => (h mr (Or.inl hfirst.symm) hbranch).2⟩
      have hfirst := (h mr (Or.inr hmr) hbranch).1
      subst hfirst
      exact (List.nodup_cons.mp unique).1 (List.mem_map_of_mem hmr)
    · rintro ⟨htail,hhead⟩ mr (rfl | hmr) hbranch
      · exact ⟨rfl,hhead _ rfl hbranch⟩
      · exact absurd hbranch (htail mr hmr)

/-- Accepting a branch keeps the merge requests exactly when in every project the
requests from the branch stand at the head of the array, the branch has an ASCII name if
there is one, and the server does not refuse the merge. -/
theorem accept_branch_iff (branch : BranchName) (server : Server) :
    (AttemptsExactly branch server (acceptMergeRequest branch.text server) ∧
      DeletesOnlyMerged server (acceptMergeRequest branch.text server)) ↔
    ∀ p ∈ projects, (∀ mr ∈ (server.openRequests p).entries.tail, mr.sourceBranch ≠ branch) ∧
      ∀ mr, (server.openRequests p).entries.head? = some mr → mr.sourceBranch = branch →
        isAscii branch.text ∧ server.put p mr.iid ≠ .refused := by
  rw [attempts_exactly_iff, deletes_only_merged_iff]
  simp only [entries_head_iff, acted_eq_some]
  constructor
  · rintro ⟨hattempt,hdelete⟩ p hp
    refine ⟨(hattempt p hp).1,fun mr hhead hbranch => ?_⟩
    have hascii := (hattempt p hp).2 mr hhead hbranch
    exact ⟨hascii,hdelete p hp mr ⟨hhead,hbranch,hascii⟩⟩
  · intro h
    refine ⟨fun p hp => ⟨(h p hp).1,fun mr hhead hbranch => ((h p hp).2 mr hhead hbranch).1⟩,?_⟩
    exact fun p hp mr ⟨hhead,hbranch,_⟩ => ((h p hp).2 mr hhead hbranch).2

def release : BranchName := ⟨"release",by decide,List.all_iff_forall_prop.mp rfl⟩
def feature : BranchName := ⟨"feature",by decide,List.all_iff_forall_prop.mp rfl⟩

/-- The framework has two open requests; the one from `release` is the second. Its web
interface has one from `feature`, and every merge is refused. -/
def refusingServer : Server where
  openRequests
    | "chaosframework" => ⟨[⟨1,feature⟩,⟨2,release⟩],by decide⟩
    | "chaos-webgui" => ⟨[⟨7,feature⟩],by decide⟩
    | _ => ⟨[],by decide⟩
  put _ _ := .refused

/-- A request from `release` is passed over, and one from `feature` is deleted unmerged. -/
theorem accept_branch_loses_requests :
    ¬ AttemptsExactly release refusingServer (acceptMergeRequest release.text refusingServer) ∧
      ¬ DeletesOnlyMerged refusingServer (acceptMergeRequest feature.text refusingServer) := by
  constructor
  · intro h
    have hattempt := (h "chaosframework" 2).mpr ⟨by decide,by decide⟩
    exact absurd hattempt (by decide)
  · intro h
    have hdelete := h "chaos-webgui" 7 (by decide)
    cases hdelete

end ChaosBundle.AcceptMergeRequest

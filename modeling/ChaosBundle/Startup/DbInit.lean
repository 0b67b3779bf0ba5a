import ChaosBundle.Library.Glob
import ChaosBundle.Startup.WaitFor

/-! `dbinit.sh`: it sets up the couchbase server and then the mongo server, each after
`wait-for.sh` has contacted it. -/
namespace ChaosBundle.Startup
open Glob ShellWords

/-- What the two calls of `wait-for.sh` find, the files that a pattern stands for, and the
statuses of the commands that are run. -/
structure Site where
  first : Environment
  second : Environment
  pathnames : Word → List Word
  run : List Word → Nat
  mongo : Word → Nat
  pathnames_plain : ∀ w, hasPattern w = false → pathnames w = [w]

inductive Action where
  | contact (host port : Word) | curl (url : List Word)
  | rm | mkdir | cd | clone | mongo (host : List Word) (script : Word)
  deriving DecidableEq

def Site.expand (site : Site) (w : Word) : List Word := (fields w).flatMap site.pathnames

def Outcome.status (run : List Word → Nat) : Outcome → Nat
  | .exec command => run command
  | .exit status => status

def contacts (r : Result) : List Action := r.contacts.map fun (host,port) => .contact host port

/-- The requests to the couchbase server. -/
def couchbase (site : Site) (host : Word) : List Action :=
  ["/node/controller/setupServices","/nodes/self/controller/settings","/settings/web",
    "/pools/default/buckets"].map fun path =>
    .curl (site.expand ("http://".toList ++ host ++ ":8091".toList ++ path.toList))

def lastScript : Word := "chaos_mongodb_script/create_index.js".toList

def scripts : List Word :=
  ["chaos_mongodb_script/drop_collections.js".toList,"chaos_mongodb_script/create_users.js".toList,
    "chaos_mongodb_script/create_collections.js".toList,lastScript]

def mongodb (site : Site) (host : Word) : List Action :=
  [.rm,.mkdir,.cd,.clone] ++ scripts.map fun script => .mongo (site.expand host) script

/-- `$DIR/wait-for.sh $1:8091 -t 120` -/
def waitCall (site : Site) (env : Environment) (host port timeout : Word) : Result :=
  waitFor env (site.expand (host ++ ':' :: port) ++ [['-','t'],timeout])

def couchbasePort : Word := ['8','0','9','1']

def mongoPort : Word := ['2','7','0','1','7']

/-- The actions and the status of the script. -/
def dbinit (site : Site) (h₁ h₂ : Word) : List Action × Nat :=
  let waited₁ := waitCall site site.first h₁ couchbasePort ['1','2','0']
  if waited₁.outcome.status site.run = 0 then
    let waited₂ := waitCall site site.second h₂ mongoPort ['6','0']
    if waited₂.outcome.status site.run = 0 then
      (contacts waited₁ ++ couchbase site h₁ ++ contacts waited₂ ++ mongodb site h₂,site.mongo lastScript)
    else (contacts waited₁ ++ couchbase site h₁ ++ contacts waited₂,1)
  else (contacts waited₁,1)

section Run
variable {site : Site}

/-- A host name that the shell and `wait-for.sh` take as it is. -/
def PlainHost (host : Word) : Prop :=
  host ≠ [] ∧ hasPattern host = false ∧ ∀ c ∈ host, isIfs c = false ∧ c ≠ ':'

instance (host : Word) : Decidable (PlainHost host) :=
  decidable_of_iff (host ≠ [] ∧ hasPattern host = false ∧ host.all fun c => !isIfs c && c != ':')
    (by simp [PlainHost, List.all_eq_true])

private theorem waitCall_eq {env : Environment} {host port timeout : Word} (hhost : PlainHost host)
    (hport : PlainHost port) (htimeout : timeout ≠ []) :
    waitCall site env host port timeout = wait_for env ⟨host,port,timeout,false⟩ [] := by
  have hplain : hasPattern (host ++ ':' :: port) = false := by
    have hleft := hhost.2.1
    have hright := hport.2.1
    simp only [hasPattern] at hleft hright
    simp [hasPattern, hleft, hright]
  have hfields : fields (host ++ ':' :: port) = [host ++ ':' :: port] := by
    refine fields_eq (by simp) fun c hc => ?_
    rcases List.mem_append.mp hc with hc | hc
    · exact (hhost.2.2 c hc).1
    · rcases List.mem_cons.mp hc with rfl | hc
      · rfl
      · exact (hport.2.2 c hc).1
  have hnewline : ∀ {w : Word}, PlainHost w → ':' ∉ w ∧ '\n' ∉ w := fun h =>
    ⟨fun hc => (h.2.2 _ hc).2 rfl,fun hc => by simpa [isIfs] using (h.2.2 _ hc).1⟩
  have hopts : ∀ o ∈ [Opt.address host port,.timeout false timeout], o.Spellable := by
    intro o ho
    simp only [List.mem_cons, List.not_mem_nil, or_false] at ho
    rcases ho with rfl | rfl
    · exact ⟨(hnewline hhost).1,(hnewline hhost).2,hnewline hport⟩
    · exact htimeout
  have hwords : waitCall site env host port timeout = waitFor env
      ([Opt.address host port,.timeout false timeout].flatMap Opt.words ++ []) := by
    simp [waitCall, Site.expand, hfields, site.pathnames_plain _ hplain, Opt.words]
  rw [hwords]
  exact waitFor_options hopts (.inl ⟨rfl,rfl⟩) rfl hhost.1 hport.1

private theorem waitCall_answers {env : Environment} {host port timeout : Word} (hhost : PlainHost host)
    (hport : PlainHost port) (htimeout : timeout ≠ []) {tries : Nat}
    (htries : (env.seq timeout).length = tries) :
    let r := waitCall site env host port timeout
    (NoAnswer env host port tries →
      contacts r = List.replicate tries (.contact host port) ∧ r.outcome.status site.run = 1) ∧
    ∀ k, FirstAnswer env host port tries k →
      contacts r = List.replicate (k+1) (.contact host port) ∧ r.outcome.status site.run = 0 := by
  simp only [waitCall_eq hhost hport htimeout]
  obtain ⟨hnone,hanswered⟩ := wait_for_answers env ⟨host,port,timeout,false⟩ [] htries
  constructor
  · intro h
    obtain ⟨hcontacts,houtcome⟩ := hnone h
    simp [contacts, hcontacts, houtcome, Outcome.status]
  · intro k h
    obtain ⟨hcontacts,houtcome⟩ := hanswered k h
    simp [contacts, hcontacts, houtcome, Outcome.status]

/-- The couchbase server is set up right after its first answer, and the mongo server right
after its own; without an answer the script stops there with status 1. -/
theorem databases_after_contact {h₁ h₂ : Word} (hh₁ : PlainHost h₁) (hh₂ : PlainHost h₂)
    (hseq₁ : (site.first.seq ['1','2','0']).length = 120) (hseq₂ : (site.second.seq ['6','0']).length = 60) :
    (NoAnswer site.first h₁ couchbasePort 120 →
      dbinit site h₁ h₂ = (List.replicate 120 (.contact h₁ couchbasePort),1)) ∧
    ∀ k₁, FirstAnswer site.first h₁ couchbasePort 120 k₁ →
      (NoAnswer site.second h₂ mongoPort 60 → dbinit site h₁ h₂ =
        (List.replicate (k₁+1) (.contact h₁ couchbasePort) ++ couchbase site h₁ ++
          List.replicate 60 (.contact h₂ mongoPort),1)) ∧
      ∀ k₂, FirstAnswer site.second h₂ mongoPort 60 k₂ → dbinit site h₁ h₂ =
        (List.replicate (k₁+1) (.contact h₁ couchbasePort) ++ couchbase site h₁ ++
          List.replicate (k₂+1) (.contact h₂ mongoPort) ++ mongodb site h₂,site.mongo lastScript) := by
  obtain ⟨hnone₁,hanswered₁⟩ := @waitCall_answers site _ _ _ _ hh₁ (show PlainHost couchbasePort by decide)
    (List.cons_ne_nil _ _) _ hseq₁
  obtain ⟨hnone₂,hanswered₂⟩ := @waitCall_answers site _ _ _ _ hh₂ (show PlainHost mongoPort by decide)
    (List.cons_ne_nil _ _) _ hseq₂
  refine ⟨fun h => ?_,fun k₁ h₁ => ⟨fun h => ?_,fun k₂ h₂ => ?_⟩⟩
  · obtain ⟨hcontacts,hstatus⟩ := hnone₁ h
    simp [dbinit, hstatus, hcontacts]
  · obtain ⟨hcontacts₁,hstatus₁⟩ := hanswered₁ k₁ h₁
    obtain ⟨hcontacts₂,hstatus₂⟩ := hnone₂ h
    simp [dbinit, hstatus₁, hcontacts₁, hstatus₂, hcontacts₂]
  · obtain ⟨hcontacts₁,hstatus₁⟩ := hanswered₁ k₁ h₁
    obtain ⟨hcontacts₂,hstatus₂⟩ := hanswered₂ k₂ h₂
    simp [dbinit, hstatus₁, hcontacts₁, hstatus₂, hcontacts₂]

end Run

def couchbaseOnly : Site where
  first := {thirdTime with seq := fun t => List.replicate (Nat.ofDigitChars 10 t 0) []}
  second := {thirdTime with
    seq := fun t => List.replicate (Nat.ofDigitChars 10 t 0) []
    nc := fun _ _ _ => false}
  pathnames w := [w]
  run _ := 0
  mongo _ := 0
  pathnames_plain _ _ := rfl

theorem mongo_untouched : dbinit couchbaseOnly ['a'] ['b'] =
    (List.replicate 3 (.contact ['a'] couchbasePort) ++ couchbase couchbaseOnly ['a'] ++
      List.replicate 60 (.contact ['b'] mongoPort),1) :=
  ((@databases_after_contact couchbaseOnly ['a'] ['b'] (by decide) (by decide) (by decide) (by decide)).2 2
    ⟨by decide,rfl,by decide⟩).1 fun _ _ => rfl

end ChaosBundle.Startup

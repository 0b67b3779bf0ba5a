import ChaosBundle.Library.Ere
import ChaosBundle.Library.Pathnames
import ChaosBundle.Library.ReadLine
import ChaosBundle.Library.Sed
import Mathlib.Data.Bool.AllAny

/-! `webgui_install.sh`: the addresses that are typed at its prompts, and what it does with
them in the Apache directory and with the running server. -/
namespace ChaosBundle.Webgui
open Ere ReadLine Sed ShellWords

abbrev Word := List Char

def isAddressChar (c : Char) : Bool := c.isAlphanum

/-- `^[0-9a-zA-Z]+\.[0-9a-zA-Z]+\.[0-9a-zA-Z]+\.[0-9a-zA-Z]+\:[0-9]+$` -/
def addressPattern : List Item := [
  .plus isAddressChar,.lit '.',.plus isAddressChar,.lit '.',.plus isAddressChar,.lit '.',
  .plus isAddressChar,.lit ':',.plus Char.isDigit]

/-- `## URL: $url malformed` -/
def malformed (url : Word) : Word :=
  ['#','#',' ','U','R','L'] ++ ':' :: (' ' :: (url ++ [' ','m','a','l','f','o','r','m','e'] ++ ['d']))

/-- What `getipport` prints, its status, and the input that is left. The `exit 1` leaves the
subshell that the function runs in. -/
def getipport (defip stdin : Word) : Word × ℕ × Word :=
  let ip := (readVar stdin).1
  let rest := (readVar stdin).2
  if ip = [] then (defip ++ ['\n'],0,rest)
  else if ¬ whole addressPattern ip then (malformed ip ++ ['\n'],1,rest)
  else (ip ++ ['\n'],0,rest)

def defip : Word := ['1','2','7','.','0','.','0','.','1',':','8','0','8','1']

def metadataserver : Word := ['1','2','7','.','0','.','0','.','1',':','5','0','0','0']

/-- `[[ $url =~ (.+)\:(.+) ]]` with the two groups. -/
def bashRematch (url : Word) : Option (Word × Word) :=
  (search [.plus fun _ => true,.lit ':',.plus fun _ => true] url).map fun pieces =>
    (pieces.getD 0 [],pieces.getD 2 [])

/-- The host: its directories, the status of `cp`, the script `chaos.js` in the source
directory, which can be read, and what `sed` prints for other arguments than a plain
substitution. -/
structure Host where
  pathnames : Pathnames
  webdirExists : Bool
  isDirectory : Word → Bool
  cpStatus : Word → ℕ
  chaosJs : Word
  sedOther : List Word → Option Word

def localhost : Word := ['l','o','c','a','l','h','o','s','t',':','8','0','8','1']

/-- `sed s/localhost:8081/$url/ $webdir/webChaos/chaos.js` -/
def sedUrl (h : Host) (url : Word) : Option Word :=
  match h.pathnames.expand ('s' :: '/' :: (localhost ++ '/' :: (url ++ ['/']))) with
  | [w] => match script w with
    | some (pat,rep) => some (substitute pat rep h.chaosJs)
    | none => h.sedOther [w]
  | ws => h.sedOther ws

/-- What the script has done when it ends: the file that `sed` has written with its text, and
the arguments of `CUIserver`. -/
structure Outcome where
  status : ℕ
  split : Option (Word × Word)
  copied : Bool
  chaosJs : Option (Word × Word)
  killed : Bool
  server : Option (List Word)

def stopped (status : ℕ) : Outcome := ⟨status,none,false,none,false,none⟩

/-- `$apache/webChaos/chaos.js` -/
def chaosJsPath (apache : Word) : Word := apache ++ "/webChaos/chaos.js".toList

/-- From the second pattern on, with the port and the two texts for the addresses. -/
def install (h : Host) (apache url metadataserver : Word) (split : Word × Word) : Outcome :=
  let o : Outcome := { stopped 0 with split := some split, copied := true }
  if h.cpStatus apache ≠ 0 then { o with status := 3 }
  else match h.pathnames.expand (chaosJsPath apache) with
    | [path] => match sedUrl h url with
      | none => { o with status := 4, chaosJs := some (path,[]) }
      | some js => { o with
          chaosJs := some (path,js)
          killed := true
          server := some (["--metadata-server".toList] ++ h.pathnames.expand metadataserver ++
            ["--server_port".toList] ++ h.pathnames.expand split.2 ++ ["--log-on-console".toList]) }
    | _ => { o with status := 4 }

def apacheDir (dir : Word) : Word := if dir = [] then "/var/www/html".toList else dir

def webguiInstall (h : Host) (stdin : Word) : Outcome :=
  if ¬ h.webdirExists then stopped 2
  else
    let apache := apacheDir (readVar stdin).1
    if ¬ h.isDirectory apache then stopped 1
    else
      let ui := getipport defip (readVar stdin).2
      let url := capture ui.1
      match bashRematch url with
      | none => stopped 2
      | some split =>
        let metadata := getipport metadataserver ui.2.2
        install h apache url (capture metadata.1) split

section Addresses

/-- Four nonempty words of letters and digits with periods between them, and a port. -/
structure Address where
  l₁ : Word
  l₂ : Word
  l₃ : Word
  l₄ : Word
  d : Word
  words : ∀ l ∈ [l₁,l₂,l₃,l₄], l ≠ [] ∧ ∀ c ∈ l, isAddressChar c
  port : d ≠ [] ∧ ∀ c ∈ d, c.isDigit

namespace Address

def ip (a : Address) : Word := a.l₁ ++ '.' :: (a.l₂ ++ '.' :: (a.l₃ ++ '.' :: a.l₄))

def text (a : Address) : Word := a.ip ++ ':' :: a.d

end Address

/-- The line is empty, or an address from its first to its last character. -/
def Proper (line : Word) : Prop := line = [] ∨ ∃ a : Address, line = a.text

def inForce (line default_ : Word) : Word := if line = [] then default_ else line

/-- The script acts on the two addresses, or stops before it has changed anything. -/
def ActsOnAddressesOnly (h : Host) (stdin line₁ line₂ : Word) : Prop :=
  (Proper line₁ ∧ Proper line₂ → ∃ ip port, ip ++ ':' :: port = inForce line₁ defip ∧
    port ≠ [] ∧ (∀ c ∈ port, c.isDigit) ∧ webguiInstall h stdin =
      ⟨0,some (ip,port),true,some (chaosJsPath (apacheDir (readVar stdin).1),
          substitute localhost (inForce line₁ defip) h.chaosJs),true,
        some ["--metadata-server".toList,inForce line₂ metadataserver,"--server_port".toList,port,
          "--log-on-console".toList]⟩) ∧
  (¬ (Proper line₁ ∧ Proper line₂) → (webguiInstall h stdin).status ≠ 0 ∧
    (webguiInstall h stdin).copied = false ∧ (webguiInstall h stdin).chaosJs = none ∧
    (webguiInstall h stdin).killed = false)

/-- The prompts for the addresses are reached with these two lines typed, and the files of the
source directory can be copied. -/
structure Prompted (h : Host) (stdin line₁ line₂ rest : Word) : Prop where
  webdir : h.webdirExists
  input : (readVar stdin).2 = line₁ ++ '\n' :: (line₂ ++ '\n' :: rest)
  directory : h.isDirectory (apacheDir (readVar stdin).1)
  copies : h.cpStatus (apacheDir (readVar stdin).1) = 0

end Addresses

namespace Address
variable (a : Address)

theorem whole_text : whole addressPattern a.text := by
  have hw := a.words
  simp only [List.mem_cons, List.not_mem_nil, or_false, forall_eq_or_imp, forall_eq] at hw
  obtain ⟨h₁,h₂,h₃,h₄⟩ := hw
  refine whole_iff.mpr ⟨[a.l₁,['.'],a.l₂,['.'],a.l₃,['.'],a.l₄,[':'],a.d],?_,by simp [text, ip]⟩
  have hdot : (Item.lit '.').Fits ['.'] := Item.fits_lit.mpr rfl
  exact .cons (Item.fits_plus.mpr h₁) (.cons hdot (.cons (Item.fits_plus.mpr h₂) (.cons hdot
    (.cons (Item.fits_plus.mpr h₃) (.cons hdot (.cons (Item.fits_plus.mpr h₄)
      (.cons (Item.fits_lit.mpr rfl) (.cons (Item.fits_plus.mpr a.port) .nil))))))))

theorem ip_chars {c : Char} (hc : c ∈ a.ip) : isAddressChar c ∨ c = '.' := by
  have hw := a.words
  simp only [List.mem_cons, List.not_mem_nil, or_false, forall_eq_or_imp, forall_eq] at hw
  obtain ⟨h₁,h₂,h₃,h₄⟩ := hw
  simp only [ip, List.mem_append, List.mem_cons] at hc
  rcases hc with hc | hc | hc | hc | hc | hc | hc
  · exact .inl (h₁.2 c hc)
  · exact .inr hc
  · exact .inl (h₂.2 c hc)
  · exact .inr hc
  · exact .inl (h₃.2 c hc)
  · exact .inr hc
  · exact .inl (h₄.2 c hc)

private theorem colon_notMem_ip : ':' ∉ a.ip := fun h => by
  rcases a.ip_chars h with h | h
  · exact absurd h (by decide)
  · exact absurd h (by decide)

private theorem colon_notMem_port : ':' ∉ a.d := fun h => absurd (a.port.2 _ h) (by decide)

private theorem text_chars {c : Char} (hc : c ∈ a.text) : isAddressChar c ∨ c = '.' ∨ c = ':' := by
  rw [text, List.mem_append, List.mem_cons] at hc
  rcases hc with hc | hc | hc
  · exact (a.ip_chars hc).imp id .inl
  · exact .inr (.inr hc)
  · exact .inl (by simp [isAddressChar, Char.isAlphanum, a.port.2 c hc])

/-- The characters that the shell, `sed` and `read` treat specially are not among them. -/
theorem ne_of_mem {c d : Char} (hc : c ∈ a.text) (hd : isAddressChar d = false) (hdot : d ≠ '.')
    (hcolon : d ≠ ':') : c ≠ d := by
  rintro rfl
  rcases a.text_chars hc with h | h | h
  · simp [hd] at h
  · exact hdot h
  · exact hcolon h

theorem isIfs_of_mem {c : Char} (hc : c ∈ a.text) : isIfs c = false := by
  simp [isIfs, a.ne_of_mem hc (by decide : isAddressChar ' ' = false) (by decide) (by decide),
    a.ne_of_mem hc (by decide : isAddressChar '\t' = false) (by decide) (by decide),
    a.ne_of_mem hc (by decide : isAddressChar '\n' = false) (by decide) (by decide)]

theorem text_ne_nil : a.text ≠ [] := by simp [text]

theorem plain_text : Plain a.text :=
  ⟨a.text_ne_nil,fun _ hc => ⟨a.isIfs_of_mem hc,a.ne_of_mem hc (by decide) (by decide) (by decide),
    a.ne_of_mem hc (by decide) (by decide) (by decide),a.ne_of_mem hc (by decide) (by decide) (by decide),
    a.ne_of_mem hc (by decide) (by decide) (by decide)⟩⟩

theorem plain_port : Plain a.d :=
  ⟨a.port.1,fun c hc => a.plain_text.2 c (by simp [text, hc])⟩

theorem bashRematch_text : bashRematch a.text = some (a.ip,a.d) := by
  have hip : a.ip ≠ [] := by simp [ip]
  have hall : ∀ w : Word, w ≠ [] → (Item.plus fun _ => true).Fits w := fun w hw =>
    Item.fits_plus.mpr ⟨hw,by simp⟩
  have hsearch : search [.plus fun _ => true,.lit ':',.plus fun _ => true] a.text =
      some [a.ip,[':'],a.d] := by
    apply search_whole
    · exact .cons (hall _ hip) (.cons (Item.fits_lit.mpr rfl) (.cons (hall _ a.port.1) .nil))
    · simp [text]
    · intro pieces hfits htext
      rcases hfits with _ | ⟨hx,_ | ⟨hcolon,_ | ⟨hy,_ | _⟩⟩⟩
      rw [Item.fits_lit] at hcolon
      subst hcolon
      simp only [List.flatten_cons, List.flatten_nil, List.append_nil, List.singleton_append, text] at htext
      obtain ⟨rfl,-,rfl⟩ := (List.append_cons_inj_of_notMem a.colon_notMem_ip a.colon_notMem_port).mp htext
      rfl
  rw [bashRematch, hsearch]
  rfl

theorem sedUrl_text (h : Host) : sedUrl h a.text = some (substitute localhost a.text h.chaosJs) := by
  have hrep : ∀ c ∈ a.text, isReplacementChar c := fun c hc => by
    simp [isReplacementChar, a.ne_of_mem hc (by decide : isAddressChar '&' = false) (by decide) (by decide),
      a.ne_of_mem hc (by decide : isAddressChar '\\' = false) (by decide) (by decide),
      a.ne_of_mem hc (by decide : isAddressChar '\n' = false) (by decide) (by decide)]
  have hslash : '/' ∉ a.text := fun hc =>
    absurd rfl (a.ne_of_mem hc (by decide : isAddressChar '/' = false) (by decide) (by decide))
  have hpat : ∀ c ∈ localhost, isPatternChar c := List.all_iff_forall_prop.mp rfl
  have hplain : Plain ('s' :: '/' :: (localhost ++ '/' :: (a.text ++ ['/']))) := by
    have hfront : ∀ c ∈ 's' :: '/' :: (localhost ++ ['/']),
        isIfs c = false ∧ c ≠ '*' ∧ c ≠ '?' ∧ c ≠ '[' ∧ c ≠ '\\' := List.all_iff_forall_prop.mp rfl
    refine ⟨List.cons_ne_nil _ _,fun c hc => ?_⟩
    simp only [List.mem_cons, List.mem_append, List.not_mem_nil, or_false] at hc
    rcases hc with hc | hc | hc | hc | hc | hc
    · exact hfront c (by simp [hc])
    · exact hfront c (by simp [hc])
    · exact hfront c (by simp [hc])
    · exact hfront c (by simp [hc])
    · exact a.plain_text.2 c hc
    · exact hfront c (by simp [hc])
  rw [sedUrl, h.pathnames.expand_plain hplain]
  simp only [script_eq (by decide : localhost ≠ []) hpat hrep hslash]

end Address

/-- The first pattern accepts the addresses and nothing else. -/
theorem whole_addressPattern {s : Word} : whole addressPattern s ↔ ∃ a : Address, s = a.text := by
  constructor
  · intro h
    obtain ⟨pieces,hfits,rfl⟩ := whole_iff.mp h
    rcases hfits with _ | ⟨h₁,_ | ⟨hd₁,_ | ⟨h₂,_ | ⟨hd₂,_ | ⟨h₃,_ | ⟨hd₃,hrest⟩⟩⟩⟩⟩⟩
    rcases hrest with _ | ⟨h₄,_ | ⟨hc,_ | ⟨hp,_ | _⟩⟩⟩
    rw [Item.fits_lit] at hd₁ hd₂ hd₃ hc
    rw [Item.fits_plus] at h₁ h₂ h₃ h₄ hp
    subst hd₁ hd₂ hd₃ hc
    exact ⟨⟨_,_,_,_,_,by simpa using ⟨h₁,h₂,h₃,h₄⟩,hp⟩,by simp [Address.text, Address.ip]⟩
  · rintro ⟨a,rfl⟩
    exact a.whole_text

end ChaosBundle.Webgui

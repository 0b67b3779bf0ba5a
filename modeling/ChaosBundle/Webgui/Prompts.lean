import ChaosBundle.Webgui.Install

/-! The two address prompts of `webgui_install.sh`: what the script goes on with for proper
lines, and that no other line stops it before it copies. -/
namespace ChaosBundle.Webgui
open Ere ReadLine Sed ShellWords

private theorem proper_chars {line : Word} (h : Proper line) :
    ∀ c ∈ line, isIfs c = false ∧ c ≠ '\\' := by
  rcases h with rfl | ⟨a,rfl⟩
  · exact fun c hc => absurd hc List.not_mem_nil
  · exact fun c hc => ⟨a.isIfs_of_mem hc,(a.plain_text.2 c hc).2.2.2.2⟩

private theorem inForce_proper {line : Word} (h : Proper line) (a : Address) :
    ∃ b : Address, inForce line a.text = b.text := by
  rcases h with rfl | ⟨b,rfl⟩
  · exact ⟨a,rfl⟩
  · exact ⟨b,if_neg b.text_ne_nil⟩

private theorem getipport_proper {line : Word} (h : Proper line) (default_ rest : Word) :
    getipport default_ (line ++ '\n' :: rest) = (inForce line default_ ++ ['\n'],0,rest) := by
  rw [getipport, readVar_line (proper_chars h)]
  rcases h with rfl | ⟨a,rfl⟩
  · rfl
  · simp [a.text_ne_nil, a.whole_text, inForce]

theorem capture_text (a : Address) : capture (a.text ++ ['\n']) = a.text := by
  apply capture_line
  intro hlast
  exact absurd rfl (a.ne_of_mem (List.mem_of_getLast? hlast)
    (by decide : isAddressChar '\n' = false) (by decide) (by decide))

private theorem capture_malformed (url : Word) : capture (malformed url ++ ['\n']) = malformed url := by
  apply capture_line
  rw [malformed, ← List.cons_append, ← List.cons_append, ← List.append_assoc, List.getLast?_concat]
  decide

private theorem bashRematch_isSome {x y : Word} (hx : x ≠ []) (hy : y ≠ []) :
    (bashRematch (x ++ ':' :: y)).isSome := by
  rw [bashRematch, Option.isSome_map]
  apply search_isSome
  refine whole_iff.mpr ⟨[x,[':'],y],?_,by simp⟩
  exact .cons (Item.fits_plus.mpr ⟨hx,by simp⟩) (.cons (Item.fits_lit.mpr rfl)
    (.cons (Item.fits_plus.mpr ⟨hy,by simp⟩) .nil))

private theorem bashRematch_address (a : Address) : (bashRematch a.text).isSome := by
  rw [a.bashRematch_text]
  rfl

/-- Whatever is typed, the second pattern accepts what the function has printed: its own error
text has a colon. -/
theorem bashRematch_getipport (a : Address) (stdin : Word) :
    (bashRematch (capture (getipport a.text stdin).1)).isSome := by
  rw [getipport]
  split_ifs with hempty hwhole
  · rw [capture_text]
    exact bashRematch_address a
  · obtain ⟨b,hb⟩ := whole_addressPattern.mp hwhole
    rw [hb, capture_text]
    exact bashRematch_address b
  · rw [capture_malformed]
    exact bashRematch_isSome (List.cons_ne_nil _ _) (List.cons_ne_nil _ _)

theorem install_copied (h : Host) (apache url metadata : Word) (split : Word × Word) :
    (install h apache url metadata split).copied = true := by
  unfold install
  split_ifs
  · rfl
  · split
    · split <;> rfl
    · rfl

def loopback (d : Word) (port : d ≠ [] ∧ ∀ c ∈ d, c.isDigit) : Address where
  l₁ := ['1','2','7']
  l₂ := ['0']
  l₃ := ['0']
  l₄ := ['1']
  d := d
  words := by
    simp only [List.mem_cons, List.not_mem_nil, or_false, forall_eq_or_imp, forall_eq]
    decide
  port := port

theorem defip_address : ∃ a : Address, defip = a.text :=
  ⟨loopback ['8','0','8','1'] ⟨List.cons_ne_nil _ _,List.all_iff_forall_prop.mp rfl⟩,rfl⟩

private theorem metadataserver_address : ∃ a : Address, metadataserver = a.text :=
  ⟨loopback ['5','0','0','0'] ⟨List.cons_ne_nil _ _,List.all_iff_forall_prop.mp rfl⟩,rfl⟩

variable {h : Host} {stdin line₁ line₂ rest : Word}

theorem copied_of_prompted (hready : Prompted h stdin line₁ line₂ rest) :
    (webguiInstall h stdin).copied = true := by
  obtain ⟨a,ha⟩ := defip_address
  have hsplit := bashRematch_getipport a (readVar stdin).2
  rw [← ha] at hsplit
  obtain ⟨split,hsplit⟩ := Option.isSome_iff_exists.mp hsplit
  simp only [webguiInstall, hready.webdir, hready.directory, hsplit, not_true, if_false]
  exact install_copied h _ _ _ split

theorem webguiInstall_proper (hready : Prompted h stdin line₁ line₂ rest) (h₁ : Proper line₁)
    (h₂ : Proper line₂) : ∃ a b : Address, inForce line₁ defip = a.text ∧
      inForce line₂ metadataserver = b.text ∧ webguiInstall h stdin =
        install h (apacheDir (readVar stdin).1) a.text b.text (a.ip,a.d) := by
  obtain ⟨a₀,ha₀⟩ := defip_address
  obtain ⟨b₀,hb₀⟩ := metadataserver_address
  obtain ⟨a,ha⟩ := ha₀ ▸ inForce_proper h₁ a₀
  obtain ⟨b,hb⟩ := hb₀ ▸ inForce_proper h₂ b₀
  refine ⟨a,b,ha,hb,?_⟩
  simp only [webguiInstall, hready.webdir, hready.directory, not_true, if_false, hready.input,
    getipport_proper h₁, ha, capture_text, a.bashRematch_text, getipport_proper h₂, hb]

theorem install_text {apache : Word} (hcopies : h.cpStatus apache = 0) (a b : Address) {path : Word}
    (hpath : h.pathnames.expand (chaosJsPath apache) = [path]) :
    install h apache a.text b.text (a.ip,a.d) =
      ⟨0,some (a.ip,a.d),true,some (path,substitute localhost a.text h.chaosJs),true,
        some ["--metadata-server".toList,b.text,"--server_port".toList,a.d,"--log-on-console".toList]⟩ := by
  simp only [install, hcopies, hpath, a.sedUrl_text h, h.pathnames.expand_plain b.plain_text,
    h.pathnames.expand_plain a.plain_port]
  rfl

private theorem install_ambiguous {apache : Word} (hcopies : h.cpStatus apache = 0) (a b : Address)
    (hpath : ∀ path, h.pathnames.expand (chaosJsPath apache) ≠ [path]) :
    (install h apache a.text b.text (a.ip,a.d)).status = 4 := by
  -- the last branch of the match, by hpath
  simp only [install, hcopies, ne_eq, not_true, if_false]

/-- The script acts on addresses only where both lines are proper and the path of `chaos.js`
stays itself. -/
theorem acts_on_addresses_only_iff (hready : Prompted h stdin line₁ line₂ rest) :
    ActsOnAddressesOnly h stdin line₁ line₂ ↔ (Proper line₁ ∧ Proper line₂) ∧
      h.pathnames.expand (chaosJsPath (apacheDir (readVar stdin).1)) =
        [chaosJsPath (apacheDir (readVar stdin).1)] := by
  constructor
  · intro hacts
    have hproper : Proper line₁ ∧ Proper line₂ := by
      by_contra himproper
      have hcopied := (hacts.2 himproper).2.1
      rw [copied_of_prompted hready] at hcopied
      cases hcopied
    refine ⟨hproper,?_⟩
    obtain ⟨ip,port,-,-,-,hrun⟩ := hacts.1 hproper
    obtain ⟨a,b,-,-,hinstall⟩ := webguiInstall_proper hready hproper.1 hproper.2
    rw [hinstall] at hrun
    by_cases hsingle : ∃ path, h.pathnames.expand (chaosJsPath (apacheDir (readVar stdin).1)) = [path]
    · obtain ⟨path,hpath⟩ := hsingle
      rw [install_text hready.copies a b hpath] at hrun
      have hjs := congrArg Outcome.chaosJs hrun
      rw [hpath, (Prod.mk.inj (Option.some.inj hjs)).1]
    · have hstatus := install_ambiguous hready.copies a b (not_exists.mp hsingle)
      rw [hrun] at hstatus
      cases hstatus
  · rintro ⟨hproper,hpath⟩
    refine ⟨fun _ => ?_,fun himproper => absurd hproper himproper⟩
    obtain ⟨a,b,ha,hb,hinstall⟩ := webguiInstall_proper hready hproper.1 hproper.2
    rw [ha, hb, hinstall, install_text hready.copies a b hpath]
    exact ⟨a.ip,a.d,rfl,a.port.1,a.port.2,rfl⟩

def apacheHost : Host where
  pathnames := .empty
  webdirExists := true
  isDirectory _ := true
  cpStatus _ := 0
  chaosJs := localhost
  sedOther _ := none

theorem prompted_apacheHost (line₁ line₂ : Word) :
    Prompted apacheHost ('\n' :: (line₁ ++ '\n' :: (line₂ ++ '\n' :: []))) line₁ line₂ [] where
  webdir := rfl
  input := by rw [readVar, readChars_newline]
  directory := rfl
  copies := rfl

theorem acts_on_typed_address : ActsOnAddressesOnly apacheHost "\n127.0.0.1:8082\n\n".toList
    "127.0.0.1:8082".toList [] := by
  apply (acts_on_addresses_only_iff (prompted_apacheHost _ _)).mpr
  refine ⟨⟨.inr ⟨loopback ['8','0','8','2'] ?_,rfl⟩,.inl rfl⟩,?_⟩
  · exact ⟨List.cons_ne_nil _ _,List.all_iff_forall_prop.mp rfl⟩
  · rw [readVar, readChars_newline]
    exact Pathnames.empty.expand_plain ⟨List.cons_ne_nil _ _,List.all_iff_forall_prop.mp rfl⟩

/-- The line `x` is no address, and the script copies. -/
theorem copies_at_malformed_address : ¬ ActsOnAddressesOnly apacheHost "\nx\n\n".toList ['x'] [] := by
  intro hacts
  have himproper : ¬ (Proper ['x'] ∧ Proper []) := by
    rintro ⟨hx | ⟨a,ha⟩,-⟩
    · cases hx
    · have hcolon : ':' ∈ ['x'] := ha ▸ (by simp [Address.text] : ':' ∈ a.text)
      exact absurd hcolon (by decide)
  have hcopied := (hacts.2 himproper).2.1
  have hrun := copied_of_prompted (prompted_apacheHost ['x'] [])
  exact absurd (hrun.symm.trans hcopied) (by decide)

end ChaosBundle.Webgui

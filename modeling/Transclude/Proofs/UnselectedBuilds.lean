import Transclude.Build
import Transclude.Proofs.IncludeGraph
import Transclude.Proofs.Revisions

/-! Builds over two versions of a file that differ in words which are not selected. What is selected
of a file, and how far that is moved, is settled before its conditional regions are resolved: words
that no region leaves can still end a section or be the heading that a level is measured from. Where
they do neither, the document does not depend on them. -/

namespace Transclude

def DiffersUnselected (scope : Scope) (file s t : Text) : Prop :=
  t = s ∨ ∃ r : Rewording, r.source = s ∧ r.target = t ∧ r.IsUnselected scope file

theorem DiffersUnselected.preserved {scope : Scope} {file s t : Text}
    (h : DiffersUnselected scope file s t) :
    Run.Preserved (resolveConditionals scope file s) (resolveConditionals scope file t) := by
  rcases h with rfl | ⟨r, rfl, rfl, hr⟩
  · exact .refl _
  · exact fun _ hs => hr.resolved hs

namespace Image

def LeadsTo (tree : Tree) (base : Path) (names : List Text) (i : Image) : Prop :=
  isExternal (normalizeTarget i.target) = false ∧
    tree.follow (targetPath base (normalizeTarget i.target)) = .arrived names

end Image

namespace Expander

/-- Whether an expansion embeds the entry of these names as an image. -/
def Embeds (x : Expander) (entry : Path) (names : List Text) : Prop :=
  ∃ fr s i, x.Reaches entry fr ∧ (x.fillFrame fr).outcome = .ok s ∧
    .found i ∈ Image.pattern.scan s ∧ i.LeadsTo x.workspace.tree fr.base names

/-- Whether other words in a file are out of sight for an expansion of an entry. Where the file is
put in, the same is selected of both versions but for words that the conditional regions drop, and
it is moved by as much. -/
structure Conceals (x : Expander) (v : x.workspace.Revision) (entry : Path) : Prop where
  at_entry : entry.names = v.file.names → v.rewording.IsUnselected x.rootScope entry.toText
  at_site : ∀ {fr argument i t}, x.Reaches entry fr → argument ∈ x.arguments fr →
    Include.parse? argument = some i → x.Opens fr.chain fr.base fr.scope fr.offset i t →
    t.target.names = v.file.names →
    ∃ t', i.siteIn fr.offset t.target v.latter = .ok t' ∧ t'.shift = t.shift ∧
      DiffersUnselected x.rootScope t.target.toText t.body t'.body
  images : x.embedImages → ¬ x.Embeds entry v.file.names

variable {x : Expander} {v : x.workspace.Revision} {entry : Path}

def revised (x : Expander) (v : x.workspace.Revision) : Expander := { x with workspace := v.applied }

theorem embedAll_applied {base : Path} {s : Text}
    (h : ∀ i, .found i ∈ Image.pattern.scan s → ¬ i.LeadsTo x.workspace.tree base v.file.names) :
    Image.embedAll v.applied.tree base s = Image.embedAll x.workspace.tree base s := by
  have hreplace {i : Image} (hi : ¬ i.LeadsTo x.workspace.tree base v.file.names) :
      i.replace v.applied.tree base = i.replace x.workspace.tree base := by
    unfold Image.replace
    dsimp only
    split
    · rfl
    · rename_i hlocal
      have hresolve : v.applied.tree.resolve
          (Image.targetPath base (Image.normalizeTarget i.target)) =
          x.workspace.tree.resolve (Image.targetPath base (Image.normalizeTarget i.target)) := by
        unfold Tree.resolve
        rw [Workspace.Revision.follow_applied]
        split
        · rfl
        · rfl
        · rename_i names hnames
          rw [Workspace.Revision.entryAt?_of_ne fun heq =>
            hi ⟨by simpa using hlocal, heq ▸ hnames⟩]
      rw [hresolve]
  unfold Image.embedAll
  generalize Image.pattern.scan s = chunks at h
  induction chunks with
  | nil => rfl
  | cons chunk rest ih =>
    have hrest := ih fun i hi => h i (List.mem_cons_of_mem chunk hi)
    cases chunk with
    | plain t => rw [Image.replaceChunks, Image.replaceChunks, hrest]
    | found i => rw [Image.replaceChunks, Image.replaceChunks, hrest, hreplace (h i List.mem_cons_self)]

variable {chain : List Path} {scope : Scope} {offset : Int} {i : Include} {placeholders : List Text}

theorem expandTarget_revised_of_none {target : Path} (hc : target ∉ chain)
    (h : x.workspace.tree.entryAt? target.names = none) :
    (x.revised v).expandTarget chain scope offset i placeholders target =
      x.expandTarget chain scope offset i placeholders target := by
  have hnone : (x.revised v).workspace.tree.entryAt? target.names = none :=
    Option.not_isSome_iff_eq_none.1 (by simp [revised, Workspace.Revision.isSome_entryAt?, h])
  have hlookup : (x.revised v).workspace.tree.lookup target = x.workspace.tree.lookup target := by
    rw [Tree.lookup, Tree.lookup, hnone, h, revised, Workspace.Revision.follow_applied]
  unfold expandTarget
  rw [if_neg hc, if_neg hc, h, hnone, hlookup]
  rfl

theorem exists_front_of_read {α : Type} {event : Event} {target : Path} {found : Entry}
    {next : Text → Run α} {a : α} (hentry : x.workspace.tree.entryAt? target.names = some found)
    (h : (Run.emit event >>= fun _ => x.workspace.read target found >>= next).outcome = .ok a) :
    ∃ front, x.workspace.front? target = some front := by
  obtain ⟨-, -, h⟩ := Run.outcome_bind_eq_ok_iff.1 h
  obtain ⟨source, hsource, -⟩ := Run.outcome_bind_eq_ok_iff.1 h
  have hread := (Workspace.read_eq_ok_iff.1 (Run.ext rfl hsource)).2
  exact ⟨_, Workspace.front?_eq_some_iff.2 ⟨found, source, hentry, hread, rfl⟩⟩

/-- What an opened site becomes: the same frame, but for words that are not selected. -/
theorem Conceals.exists_site (h : x.Conceals v entry) {fr : Frame} (hfr : x.Reaches entry fr)
    {argument : Text} (hargument : argument ∈ x.arguments fr)
    (hparse : Include.parse? argument = some i) {t : Site}
    (hopens : x.Opens fr.chain fr.base fr.scope fr.offset i t)
    (hsite : i.siteIn fr.offset t.target t.front = .ok t) :
    ∃ front' t', v.applied.front? t.target = some front' ∧
      i.siteIn fr.offset t.target front' = .ok t' ∧
      t'.frame fr = { t.frame fr with body := t'.body } ∧
      DiffersUnselected x.rootScope t.target.toText t.body t'.body := by
  by_cases hnames : t.target.names = v.file.names
  · obtain ⟨hwas, hbecomes⟩ := Workspace.Revision.front?_of_eq (v := v) hnames
    have hformer : t.front = v.former := Option.some.inj (hopens.front.symm.trans hwas)
    obtain ⟨t', hsite', hshift, hdiffers⟩ := h.at_site hfr hargument hparse hopens hnames
    refine ⟨v.latter, t', hbecomes, hsite', ?_, hdiffers⟩
    have hscope : t'.front.scope = t.front.scope := by
      rw [(Include.siteIn_eq_ok_iff.1 hsite').2.1, hformer]
      rfl
    rw [Site.frame, Site.frame, Include.target_of_siteIn hsite', hshift, hscope]
  · exact ⟨t.front, t, (Workspace.Revision.front?_of_ne hnames).trans hopens.front, hsite, rfl,
      .inl rfl⟩

/-- The step: what an include comes to is preserved if that is so of every site it may open. -/
theorem preserved_expandInclude (h : x.Conceals v entry) {fr : Frame} (hfr : x.Reaches entry fr)
    {argument : Text} (hargument : argument ∈ x.arguments fr)
    (hparse : Include.parse? argument = some i)
    (hinner : ∀ t, x.Opens fr.chain fr.base fr.scope fr.offset i t → ∀ body,
      DiffersUnselected x.rootScope t.target.toText t.body body →
        Run.Preserved (x.expandFrame (t.frame fr))
          ((x.revised v).expandFrame { t.frame fr with body })) :
    Run.Preserved (x.expandInclude fr.chain fr.base fr.scope fr.offset i)
      ((x.revised v).expandInclude fr.chain fr.base fr.scope fr.offset i) := by
  rw [expandInclude_eq, expandInclude_eq]
  refine (Run.Preserved.refl _).bind fun filled hfilled => ?_
  obtain ⟨written, names⟩ := filled
  have hfill := (Run.ofExcept_eq_ok_iff.1 (Run.ext rfl hfilled)).2
  dsimp only
  split
  · exact .refl _
  rename_i hwritten
  change Run.Preserved _ ((x.revised v).expandTarget fr.chain fr.scope fr.offset i names
    (x.workspace.target fr.base written))
  generalize htarget : x.workspace.target fr.base written = target
  by_cases hc : target ∈ fr.chain
  · rw [expandTarget, if_pos hc]
    exact Run.preserved_stop _ _
  cases hentry : x.workspace.tree.entryAt? target.names with
  | none =>
    rw [expandTarget_revised_of_none hc hentry]
    exact .refl _
  | some found =>
    -- Both open the same file; what is put in differs in unselected words at most.
    intro a ha
    obtain ⟨front, hfront⟩ : ∃ front, x.workspace.front? target = some front := by
      rw [expandTarget, if_neg hc, hentry] at ha
      exact exists_front_of_read hentry ha
    rw [expandTarget_of_front hc hfront, Run.outcome_bind_of_ok rfl] at ha
    obtain ⟨t, ht, hback⟩ := Run.outcome_bind_eq_ok_iff.1 ha
    have hsite := (Run.ofExcept_eq_ok_iff.1 (Run.ext rfl ht)).2
    have hopens : x.Opens fr.chain fr.base fr.scope fr.offset i t := by
      subst htarget
      exact opens_of_siteIn hfill hwritten hc hfront hsite
    obtain rfl := Include.target_of_siteIn hsite
    obtain rfl := Option.some.inj (hopens.front.symm.trans hfront)
    obtain ⟨front', t', hfront', hsite', hframe, hdiffers⟩ :=
      h.exists_site hfr hargument hparse hopens hsite
    have hback' := (hinner t hopens t'.body hdiffers).map (i.handBack fr.offset) a hback
    rw [← hframe] at hback'
    rw [expandTarget_of_front (x := x.revised v) hc hfront', Run.outcome_bind_of_ok rfl]
    exact Run.outcome_bind_eq_ok_iff.2 ⟨t', by rw [hsite']; rfl, hback'⟩

/-- The run: what a reached frame comes to is preserved. -/
theorem preserved_expandFrame (h : x.Conceals v entry) {fr : Frame} (hfr : x.Reaches entry fr)
    {body : Text} (hbody : DiffersUnselected x.rootScope (currentFile fr.chain) fr.body body) :
    Run.Preserved (x.expandFrame fr) ((x.revised v).expandFrame { fr with body }) := by
  induction hfr using Reaches.induction_below generalizing body with
  | step fr hfr ih =>
    rw [expandFrame_eq_embed, expandFrame_eq_embed]
    refine Run.Preserved.bind ?_ fun s hs => ?_
    · refine hbody.preserved.bind fun resolved hresolved => ?_
      refine (Token.preserved_pass fun d hd => ?_).bind fun joined _ => .refl _
      cases d with
      | includeFile argument =>
        refine (Run.Preserved.refl _).bind fun i hi => ?_
        have hparse : Include.parse? argument = some i :=
          Include.parse?_of_read (Run.ofExcept_eq_ok_iff.1 (Run.ext rfl hi)).2
        have hargument := mem_arguments hresolved hd
        refine preserved_expandInclude h hfr hargument hparse fun t ht body hbody => ?_
        refine ih hargument hparse ht ?_
        rw [Site.frame, currentFile_concat]
        exact hbody
      | _ => exact .refl _
    · change Run.Preserved (if x.embedImages then _ else _) (if x.embedImages then
        Image.embedAll v.applied.tree fr.base s else _)
      split
      · rename_i himages
        rw [embedAll_applied fun i hi hleads => h.images himages ⟨fr, s, i, hfr, hs, hi, hleads⟩]
        exact .refl _
      · exact .refl _

theorem preserved_expandFile (h : x.Conceals v entry) :
    Run.Preserved (x.expandFile [] entry .empty) ((x.revised v).expandFile [] entry .empty) := by
  intro a ha
  obtain ⟨front, hfront⟩ : ∃ front, x.workspace.front? entry = some front := by
    unfold expandFile at ha
    split at ha
    · cases ha
    · rename_i found hentry
      exact exists_front_of_read hentry ha
  obtain ⟨front', hfront', hraw, hscope, hdiffers⟩ : ∃ front',
      v.applied.front? entry = some front' ∧ front'.raw? = front.raw? ∧
        front'.scope = front.scope ∧
        DiffersUnselected x.rootScope entry.toText front.body front'.body := by
    by_cases hnames : entry.names = v.file.names
    · obtain ⟨hwas, hbecomes⟩ := Workspace.Revision.front?_of_eq (v := v) hnames
      obtain rfl := Option.some.inj (hwas.symm.trans hfront)
      exact ⟨v.latter, hbecomes, rfl, rfl, .inr ⟨v.rewording, rfl, rfl, h.at_entry hnames⟩⟩
    · exact ⟨front, (Workspace.Revision.front?_of_ne hnames).trans hfront, rfl, rfl, .inl rfl⟩
  rw [expandFile_of_front hfront] at ha
  rw [expandFile_of_front (x := x.revised v) hfront', hraw, hscope]
  refine Run.Preserved.map ?_ _ a ha
  exact preserved_expandFrame h (.entry hfront) hdiffers

end Expander

/-- Words that a build does not select have no part in its document, as long as what is selected of
their file for an include, and the level of that, do not hang on them, and the file is not embedded as
an image itself. -/
theorem build_ignores_unselected {w : Workspace} {v : w.Revision} {options : Options} {entry : Path}
    {root : Scope} {document : Text} (hroot : (collect w [] entry .empty).outcome = .ok root)
    (h : (Expander.mk w root options.embedImages).Conceals v entry)
    (hbuild : (build w options entry).outcome = .ok document) :
    (build v.applied options entry).outcome = .ok document := by
  revert document
  change Run.Preserved (build w options entry) (build v.applied options entry)
  refine (Run.Preserved.refl _).bind fun _ _ => ?_
  refine (Workspace.Revision.preserved_collect [] entry .empty).bind fun scope hscope => ?_
  obtain rfl := Except.ok.inj (hroot.symm.trans hscope)
  refine (Run.Preserved.refl _).bind fun _ _ => ?_
  refine (Expander.preserved_expandFile h).bind fun expanded _ => ?_
  exact .refl _

def leveledEntry : String := "---\nx: 0\n---\n\x7b!include(f||##)!\x7d"

def leveled (file : String) : Workspace := .holding [("main", leveledEntry), ("f", file)]

def guarded (words heading : String) : String :=
  "\x7b!if x=1!\x7d" ++ words ++ "\x7b!endif!\x7d" ++ heading

def hiddenHeading (hidden heading : String) (hinert : Text.Inert hidden.text)
    (hclose : ¬ Directive.close <:+: hidden.text)
    (hread : Token.tokenize (Token.join [.found (.ifHolds [' '] "x=1".text)] ++
      ("\nWords\n".text ++ Token.join [.found .endIf, .plain heading.text])) =
        [.found (.ifHolds [' '] "x=1".text)] ++
          (Token.ofText "\nWords\n".text ++ [.found .endIf, .plain heading.text])) : Rewording where
  before := []
  opener := .ifHolds [' '] "x=1".text
  old := "\nWords\n".text
  new := hidden.text
  closer := .endIf
  behind := [.plain heading.text]
  inert_old := ⟨by decide +kernel, fun row => by revert row; decide +kernel⟩
  inert_new := hinert
  closes_no_argument := hclose
  tokenize_join := hread

theorem isUnselected_hiddenHeading {hidden heading : String} {hinert : Text.Inert hidden.text}
    {hclose : ¬ Directive.close <:+: hidden.text} {hread} (file : Text) :
    (hiddenHeading hidden heading hinert hclose hread).IsUnselected
      (.ofList [("x".text, .scalar (some "0".text))]) file :=
  ⟨[.waiting], rfl, rfl⟩

def highHeading : (leveled (guarded "\nWords\n" "\n# Shown")).Revision where
  file := .named "f"
  bytes := Utf8.encode (guarded "\n# Hidden\n" "\n# Shown").text
  rewording := hiddenHeading "\n# Hidden\n" "\n# Shown"
    ⟨by decide +kernel, fun row => by revert row; decide +kernel⟩ (by decide +kernel)
    (by decide +kernel)
  raw? := none
  scope := .empty
  was := by decide +kernel
  becomes := by decide +kernel

def deepHeading : (leveled (guarded "\nWords\n" "\n### Shown")).Revision where
  file := .named "f"
  bytes := Utf8.encode (guarded "\n# Hidden\n" "\n### Shown").text
  rewording := hiddenHeading "\n# Hidden\n" "\n### Shown"
    ⟨by decide +kernel, fun row => by revert row; decide +kernel⟩ (by decide +kernel)
    (by decide +kernel)
  raw? := none
  scope := .empty
  was := by decide +kernel
  becomes := by decide +kernel

def leveledScope : Scope := .ofList [("x".text, .scalar (some "0".text))]

namespace Expander

def leveling : Expander := ⟨leveled (guarded "\nWords\n" "\n# Shown"), leveledScope, false⟩

def levelingFrame : Frame :=
  entryFrame [] (.named "main") (FrontMatter.split leveledEntry.text) .empty

def levelingSite : Site where
  target := .named "f"
  front := highHeading.former
  snippet := ⟨highHeading.rewording.source, some 1⟩
  shift := 1

def levelingTurns : List Turn := [⟨"f||##".text, ⟨"f".text, none, some "##".text⟩, levelingSite⟩]

theorem leveling_turns : leveling.Turns levelingFrame levelingTurns where
  arguments := by decide +kernel
  read := by decide +kernel
  opens := List.forall_mem_singleton.2
    ⟨⟨"f".text, [], Except.ok_of_toOption (by decide +kernel), by decide, by decide +kernel⟩,
      by decide +kernel, by decide +kernel, rfl, Except.ok_of_toOption (by decide +kernel)⟩
  last := by decide +kernel

theorem conceals_highHeading : leveling.Conceals highHeading (.named "main") where
  at_entry h := absurd h (by decide)
  at_site := by
    intro fr argument i t hfr hargument hread hopens hnames
    have hmain : leveling.workspace.front? (.named "main") =
        some (FrontMatter.split leveledEntry.text) := by decide +kernel
    rcases hfr.eq_or_exists_turn hmain leveling_turns with rfl | ⟨turn, hturn, rfl⟩
    · have hmem := leveling_turns.mem_of_opens hargument hread hopens
      obtain ⟨rfl, rfl, rfl⟩ := Turn.mk.inj (List.mem_singleton.1 hmem)
      refine ⟨⟨.named "f", highHeading.latter, ⟨highHeading.latter.body, some 1⟩, 1⟩, ?_, rfl, .inr
        ⟨hiddenHeading "\n## Hidden\n" "\n## Shown"
          ⟨by decide +kernel, fun row => by revert row; decide +kernel⟩ (by decide +kernel)
          (by decide +kernel), by decide +kernel, by decide +kernel,
          isUnselected_hiddenHeading _⟩⟩
      exact Except.bind_eq_ok_iff.2 ⟨⟨highHeading.latter.body, some 1⟩,
        Except.ok_of_toOption (by decide +kernel),
        Except.bind_eq_ok_iff.2 ⟨1, Except.ok_of_toOption (by decide +kernel), rfl⟩⟩
    · change argument ∈ leveling.arguments (turn.site.frame levelingFrame) at hargument
      rw [leveling_turns.last turn hturn] at hargument
      cases hargument
  images := nofun

end Expander

theorem build_ignores_unselected_of_high_heading :
    (build highHeading.applied ⟨none, false, false⟩ (.named "main")).outcome =
      .ok "---\nx: 0\n---\n\n## Shown\n".text :=
  build_ignores_unselected (v := highHeading) (Except.ok_of_toOption (by decide +kernel))
    Expander.conceals_highHeading (Except.ok_of_toOption (by decide +kernel))

/-- A heading that no region leaves is the one that the others are moved by. -/
theorem hidden_heading_moves_others :
    let entry := Path.named "main"
    let options : Options := ⟨none, false, false⟩
    let w := leveled (guarded "\nWords\n" "\n### Shown")
    (collect w [] entry .empty).outcome = .ok leveledScope ∧
      deepHeading.rewording.IsUnselected leveledScope "f".text ∧
      (build w options entry).outcome = .ok "---\nx: 0\n---\n\n## Shown\n".text ∧
      (build deepHeading.applied options entry).outcome =
        .ok "---\nx: 0\n---\n\n#### Shown\n".text :=
  ⟨Except.ok_of_toOption (by decide +kernel), isUnselected_hiddenHeading _,
    Except.ok_of_toOption (by decide +kernel), Except.ok_of_toOption (by decide +kernel)⟩

end Transclude

import Transclude.Proofs.CarriedBlocks
import Transclude.Proofs.ExposedBlocks
import Transclude.Proofs.ShiftedDirectives

/-! The fenced lines of an included file. They reach the entry as they are, and nothing in them has
a part in what else becomes of it, as long as the texts in front of them leave them at the margin
wherever they are read; and at each of these places it takes the margin for that. -/

namespace Transclude

namespace Token

theorem unconditional_iff {s : Text} :
    unconditional (tokenize s) ↔ ∀ d ∈ directives s, d.isMarker = false := by
  unfold unconditional directives
  rw [List.all_eq_true]
  constructor
  · intro h d hd
    obtain ⟨token, htoken, hitem⟩ := List.mem_filterMap.1 hd
    cases token with
    | plain t => cases hitem
    | found e =>
      obtain rfl := Option.some.inj hitem
      simpa using h _ htoken
  · intro h token htoken
    cases token with
    | plain t => rfl
    | found d =>
      have hd := h d (List.mem_filterMap.2 ⟨_, htoken, rfl⟩)
      simpa using hd

theorem unconditional_shift {s : Text} (hr : '\r' ∉ s) (h : unconditional (tokenize s))
    (shift : Int) : unconditional (tokenize (Heading.shift shift s)) := by
  rw [unconditional_iff] at h ⊢
  intro e he
  have hbare := List.mem_map_of_mem (f := Directive.bare) he
  rw [Directive.map_bare_eq (forall₂_directives hr shift)] at hbare
  obtain ⟨d, hd, hkind⟩ := List.mem_map.1 hbare
  rw [← Directive.isMarker_bare, ← hkind, Directive.isMarker_bare]
  exact h d hd

theorem unconditional_block {front : Text} (hf : AtMargin front) {block other : List Text}
    (hb : IsBlock block) (ho : IsBlock other) {rest : Text}
    (h : unconditional (tokenize (front ++ Text.unlines block ++ rest))) :
    unconditional (tokenize (front ++ Text.unlines other ++ rest)) := by
  rw [unconditional_iff, directives_block hf hb] at h
  rw [unconditional_iff, directives_block hf ho]
  exact h

end Token

namespace Site

def moved (t : Site) (s : Text) : Text := if t.shift = 0 then s else Heading.shift t.shift s

def holding (t : Site) (s : Text) : Site := { t with snippet := { t.snippet with body := s } }

variable {t : Site} {front : Text}

theorem atMargin_moved (hf : AtMargin front) : AtMargin (t.moved front) := by
  unfold moved
  split
  · exact hf
  · exact Heading.atMargin_shift hf t.shift

theorem moved_block (hf : AtMargin front) (rest : Text) :
    ∃ behind, ∀ block, IsBlock block →
      t.moved (front ++ Text.unlines block ++ rest) =
        t.moved front ++ Text.unlines block ++ behind := by
  unfold moved
  by_cases hshift : t.shift = 0
  · refine ⟨rest, fun block _ => ?_⟩
    rw [if_pos hshift, if_pos hshift]
  · obtain ⟨behind, hbehind⟩ := Heading.shift_block hf t.shift rest
    refine ⟨behind, fun block hb => ?_⟩
    rw [if_neg hshift, if_neg hshift, hbehind block hb]

theorem unconditional_moved {s : Text} (hr : '\r' ∉ s)
    (h : Token.unconditional (Token.tokenize s)) :
    Token.unconditional (Token.tokenize (t.moved s)) := by
  unfold moved
  split
  · exact h
  · exact Token.unconditional_shift hr h t.shift

end Site

namespace Expander

variable {x : Expander}

def ownFront (x : Expander) (fr : Frame) (front : Text) : Option Text :=
  Token.passedFront (x.putIn fr) front >>= Token.passedFront (x.fillIn fr)

/-- The texts in front of a block of the file at the end of a way that are read behind its includes,
`own` being what stands in front of the block in the file itself. -/
def frontsFrom (x : Expander) (way : List Leg) (last : Leg) (own : Text) : List Text :=
  (Token.passedFront (x.putIn last.inner) (last.site.moved own)).toList ++
    x.fronts (x.ownFront last.inner (last.site.moved own)) (way ++ [last])

def surrounding (x : Expander) (way : List Leg) (last : Leg) (s : Text) : Except Fault Text :=
  x.surround (way ++ [last]) (x.expandFrame ((last.site.holding s).frame last.frame)).outcome

theorem carries_own (hx : x.embedImages = false) (fr : Frame) {front rest : Text}
    (hf : AtMargin front) (hw : ∀ w ∈ Token.passedFront (x.putIn fr) front, AtMargin w)
    (hu : ∀ block, IsBlock block →
      Token.unconditional (Token.tokenize (front ++ Text.unlines block ++ rest))) :
    Carries IsBlock Text.unlines (x.ownFront fr front) fun block =>
      (x.expandFrame { fr with body := front ++ Text.unlines block ++ rest }).outcome := by
  have hboth : Carries IsBlock Text.unlines (x.ownFront fr front) fun block =>
      (Token.pass (x.putIn fr)
        (Token.tokenize (front ++ Text.unlines block ++ rest))).outcome >>= fun joined =>
          (Token.pass (x.fillIn fr) (Token.tokenize joined)).outcome :=
    (Token.carries_pass (x.putIn fr) hf rest).bind fun w hmem behind =>
      Token.carries_pass _ (hw w hmem) behind
  refine hboth.congr fun block hb => ?_
  rw [expandFrame_eq hx, resolveConditionals_of_unconditional (hu block hb), pure_bind,
    Run.outcome_bind]
  rfl

theorem carries_surrounding (hx : x.embedImages = false) {way : List Leg} {last : Leg}
    {own rest : Text} (hf : AtMargin own)
    (hu : ∀ block, IsBlock block → Token.unconditional
      (Token.tokenize (last.site.moved (own ++ Text.unlines block ++ rest))))
    (hw : ∀ w ∈ x.frontsFrom way last own, AtMargin w) :
    ∃ front?, Carries IsBlock Text.unlines front? fun block =>
      x.surrounding way last (own ++ Text.unlines block ++ rest) := by
  obtain ⟨hfirst, hway⟩ := List.forall_mem_append.1 hw
  obtain ⟨behind, hmoved⟩ := last.site.moved_block hf rest
  have hframe (block : List Text) (hb : IsBlock block) :
      (last.site.holding (own ++ Text.unlines block ++ rest)).frame last.frame =
        { last.inner with body := last.site.moved own ++ Text.unlines block ++ behind } := by
    rw [← hmoved block hb]
    rfl
  have hown := carries_own hx last.inner (last.site.atMargin_moved hf)
    (fun w hmem => hfirst w (Option.mem_toList.2 hmem))
    (fun block hb => by rw [← hmoved block hb]; exact hu block hb)
  refine ⟨_, (carries_surround hown hway).congr fun block hb => ?_⟩
  rw [surrounding, hframe block hb]

/-- The fenced lines of a file that is included whole stand in blocks. A block is put in as it is
and has no part in what else becomes of the entry, be that a text or a fault, if every text in front
of it that is read behind the includes leaves it at the margin. Where one does not, a pass finds a
directive in some block and a shift moves a row of some block. -/
theorem expandFile_carries_block (hx : x.embedImages = false) {above : List Path} {entry : Path}
    {inherited : Scope} {front : FrontMatter} (he : x.workspace.front? entry = some front)
    {way : List Leg} {last : Leg}
    (hway : x.Follows (entryFrame above entry front inherited) (way ++ [last]))
    (hwhole : last.directive.heading? = none)
    (hclosed : Fence.openAfter none last.site.front.body.lines = none)
    (hplain : Token.unconditional (Token.tokenize last.site.front.body)) :
    (∀ line kind, (line, kind) ∈ Fence.classify last.site.front.body → kind.inFence →
      ∃ own block behind, last.site.front.body = own ++ Text.unlines block ++ behind ∧
        line ∈ block ∧ IsBlock block ∧ AtMargin own) ∧
    ∀ own block behind, last.site.front.body = own ++ Text.unlines block ++ behind →
      IsBlock block → AtMargin own →
      ((∀ w ∈ x.frontsFrom way last own, AtMargin w) →
        ∃ outcome : Except Fault (Text × Text),
          (∀ other, IsBlock other →
            x.surrounding way last (own ++ Text.unlines other ++ behind) =
              (fun p => p.1 ++ Text.unlines other ++ p.2) <$> outcome) ∧
          (x.expandFile above entry inherited).outcome =
            (fun p => ⟨p.1 ++ Text.unlines block ++ p.2, front.raw?,
              front.scope.inherit inherited⟩) <$> outcome) ∧
      ∀ w ∈ x.frontsFrom way last own, (AtMargin w ↔ Token.Spares w) ∧
        ∀ shift ≠ 0, (AtMargin w ↔ Heading.Spares shift w) := by
  have hlast := includes_of_follows hway
  have hr := Workspace.not_mem_of_front? hlast.opens.front
  have hbody : last.site.snippet.body = last.site.front.body := by
    have hselected := hlast.opens.selected
    rw [hwhole] at hselected
    rw [← Except.ok.inj hselected]
  refine ⟨fun line kind hl hk => exists_block_of_classify hr hclosed hl hk, ?_⟩
  intro own block behind hsplit hblock hf
  refine ⟨fun hw => ?_, fun w _ => ?_⟩
  · obtain ⟨more, hmoved⟩ := last.site.moved_block hf behind
    -- That the body has no markers carries over to the body with any other block in it.
    have hu (other : List Text) (ho : IsBlock other) : Token.unconditional
        (Token.tokenize (last.site.moved (own ++ Text.unlines other ++ behind))) := by
      have hmarkers := last.site.unconditional_moved hr hplain
      rw [hsplit, hmoved block hblock] at hmarkers
      rw [hmoved other ho]
      exact Token.unconditional_block (Site.atMargin_moved hf) hblock ho hmarkers
    obtain ⟨front?, hcarries⟩ := carries_surrounding hx hf hu hw
    obtain ⟨outcome, houtcome⟩ := hcarries.exists_outcome
    refine ⟨outcome, houtcome, ?_⟩
    have hsite : last.site.holding (own ++ Text.unlines block ++ behind) = last.site := by
      rw [← hsplit, ← hbody]
      rfl
    have hstart : (x.expandFrame (entryFrame above entry front inherited)).outcome =
        (fun p => p.1 ++ Text.unlines block ++ p.2) <$> outcome := by
      rw [expandFrame_of_follows hx hway, ← houtcome block hblock, surrounding, hsite]
      rfl
    exact expandFile_of_frame he hstart
  · exact ⟨Token.atMargin_iff_spares, fun shift hshift => Heading.atMargin_iff_spares hshift⟩

def indented : Expander where
  workspace := .holding [
    ("main", "# Top\n\n  \x7b!include(mid||##)!\x7d\nEnd"), ("mid", "# Mid\n\x7b!include(f)!\x7d"),
    ("f", "# F\n~~~\n# kept \x7b!include(none)!\x7d\n~~~\n")]
  rootScope := .empty
  embedImages := false

def wholeFile (body : String) : FrontMatter := ⟨none, .empty, body.text⟩

def indentedEntry : FrontMatter := wholeFile "# Top\n\n  \x7b!include(mid||##)!\x7d\nEnd"

def indentedFirst : Leg where
  frame := entryFrame [] (.named "main") indentedEntry .empty
  before := [.plain "# Top\n\n  ".text]
  directive := ⟨"mid".text, none, some "##".text⟩
  site := ⟨.named "mid", wholeFile "# Mid\n\x7b!include(f)!\x7d",
    ⟨"# Mid\n\x7b!include(f)!\x7d".text, some 1⟩, 1⟩
  after := [.plain "\nEnd".text]

def indentedLast : Leg where
  frame := indentedFirst.inner
  before := [.plain "## Mid\n".text]
  directive := ⟨"f".text, none, none⟩
  site := ⟨.named "f", wholeFile "# F\n~~~\n# kept \x7b!include(none)!\x7d\n~~~\n",
    ⟨"# F\n~~~\n# kept \x7b!include(none)!\x7d\n~~~\n".text, some 1⟩, 0⟩
  after := []

theorem follows_indented :
    indented.Follows (entryFrame [] (.named "main") indentedEntry .empty)
      ([indentedFirst] ++ [indentedLast]) := by
  have hfirst : indented.Includes indentedFirst :=
    includes_of_steps indentedEntry.body "mid||##".text "mid".text [] (by decide +kernel)
  have hlast : indented.Includes indentedLast :=
    includes_of_steps indentedLast.frame.body "f".text "f".text [] (by decide +kernel)
  exact ⟨rfl, hfirst, rfl, hlast, trivial⟩

theorem expandFile_carries_block_of_indented :
    ∃ r, (indented.expandFile [] (.named "main") .empty).outcome = .ok r ∧
      "~~~\n# kept \x7b!include(none)!\x7d\n~~~".text <:+: r.body := by
  have hblock : IsBlock ["~~~".text, "# kept \x7b!include(none)!\x7d".text, "~~~".text] :=
    isBlock_marks (.inr rfl) (List.forall_mem_singleton.2 (by decide))
      (List.forall_mem_singleton.2 (by decide))
  obtain ⟨hcarries, -⟩ := (expandFile_carries_block (x := indented) rfl (by decide +kernel)
    follows_indented rfl (by decide +kernel) (by decide +kernel)).2 "# F\n".text _ ['\n']
      (by decide +kernel) hblock (by decide +kernel)
  obtain ⟨outcome, -, houtcome⟩ := hcarries (by decide +kernel)
  cases outcome with
  | error fault =>
    have hok : (indented.expandFile [] (.named "main") .empty).outcome.isOk := by decide +kernel
    rw [houtcome] at hok
    cases hok
  | ok p => exact ⟨_, houtcome, p.1, p.2, rfl⟩

def itemized : Expander where
  workspace := .holding [
    ("main.md", "- \x7b!include(f.md)!\x7d\n"), ("f.md", "```\n\x7b!var(x)!\x7d\n```\n")]
  rootScope := .ofList [("x".text, .scalar (some "1".text))]
  embedImages := false

def itemizedEntry : FrontMatter := wholeFile "- \x7b!include(f.md)!\x7d\n"

def itemizedOnly : Leg where
  frame := entryFrame [] (.named "main.md") itemizedEntry .empty
  before := [.plain "- ".text]
  directive := ⟨"f.md".text, none, none⟩
  site := ⟨.named "f.md", wholeFile "```\n\x7b!var(x)!\x7d\n```\n",
    ⟨"```\n\x7b!var(x)!\x7d\n```\n".text, none⟩, 0⟩
  after := [.plain ['\n']]

/-- Behind the mark of a list item the block is none, and its second line is expanded. -/
theorem itemized_line_lost :
    itemized.workspace.front? (.named "main.md") = some itemizedEntry ∧
      itemized.Follows (entryFrame [] (.named "main.md") itemizedEntry .empty)
        ([] ++ [itemizedOnly]) ∧
      itemizedOnly.directive.heading? = none ∧
      Fence.openAfter none itemizedOnly.site.front.body.lines = none ∧
      Token.unconditional (Token.tokenize itemizedOnly.site.front.body) ∧
      ("\x7b!var(x)!\x7d".text, .fenced) ∈ Fence.classify itemizedOnly.site.front.body ∧
      ∃ r, (itemized.expandFile [] (.named "main.md") .empty).outcome = .ok r ∧
        ¬ "\x7b!var(x)!\x7d".text <:+: r.body := by
  have honly : itemized.Includes itemizedOnly :=
    includes_of_steps itemizedEntry.body "f.md".text "f.md".text [] (by decide +kernel)
  refine ⟨by decide +kernel, ⟨rfl, honly, trivial⟩, rfl, by decide +kernel, by decide +kernel,
    by decide +kernel, ⟨"- ```\n1\n```\n\n".text, none, .empty⟩,
    Except.ok_of_toOption (by decide +kernel), by decide +kernel⟩

end Expander
end Transclude

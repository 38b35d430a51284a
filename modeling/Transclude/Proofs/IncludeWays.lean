import Transclude.Proofs.BodyPasses
import Transclude.Proofs.IncludeSites

/-! Ways of includes: from a file through one include in it to another file, and on from there. What
a file becomes depends on the file at the end of a way only through what that one becomes. -/

namespace Transclude

/-- A body that is to be expanded, with everything its expansion depends on. -/
structure Frame where
  chain : List Path
  base : Path
  scope : Scope
  offset : Int
  body : Text

namespace Site

def frame (t : Site) (outer : Frame) : Frame where
  chain := outer.chain ++ [t.target]
  base := t.target.parent
  scope := t.front.scope.inherit outer.scope
  offset := outer.offset + t.shift
  body := t.body

end Site

/-- A file on a way, cut at the include through which the way goes on. -/
structure Leg where
  frame : Frame
  before : List Token
  directive : Include
  site : Site
  after : List Token

def Leg.inner (leg : Leg) : Frame := leg.site.frame leg.frame

namespace Expander

variable {x : Expander}

def expandFrame (x : Expander) (fr : Frame) : Run Text :=
  x.expandContent fr.chain fr.base fr.scope fr.offset fr.body

def entryFrame (above : List Path) (entry : Path) (front : FrontMatter) (inherited : Scope) :
    Frame where
  chain := above ++ [entry]
  base := entry.parent
  scope := front.scope.inherit inherited
  offset := 0
  body := front.body

def putIn (x : Expander) (fr : Frame) : Directive → Run Text :=
  includeReplaced (x.expandInclude fr.chain fr.base fr.scope fr.offset)

def fillIn (x : Expander) (fr : Frame) (d : Directive) : Run Text :=
  substituteToken x.rootScope (currentFile fr.chain) (.found d)

/-- Whether a frame has an include between these tokens, and outside fences, that is followed. -/
structure Includes (x : Expander) (leg : Leg) : Prop where
  written : ∃ resolved argument,
    (resolveConditionals x.rootScope (currentFile leg.frame.chain) leg.frame.body).outcome =
        .ok resolved ∧
      Token.tokenize resolved = leg.before ++ .found (.includeFile argument) :: leg.after ∧
      Include.parse? argument = some leg.directive
  opens : x.Opens leg.frame.chain leg.frame.base leg.frame.scope leg.frame.offset leg.directive
    leg.site

/-- Whether a way starts at a frame and each leg of it leads to the next one. -/
def Follows (x : Expander) : Frame → List Leg → Prop
  | _, [] => True
  | fr, leg :: way => leg.frame = fr ∧ x.Includes leg ∧ x.Follows leg.inner way

/-- What a frame becomes when this is what becomes of the next one. -/
def around (x : Expander) (leg : Leg) (inner : Except Fault Text) : Except Fault Text := do
  let a ← (Token.pass (x.putIn leg.frame) leg.before).outcome
  let s ← inner
  let b ← (Token.pass (x.putIn leg.frame) leg.after).outcome
  (Token.pass (x.fillIn leg.frame)
    (Token.tokenize (a ++ leg.directive.handBack leg.frame.offset s ++ b))).outcome

def surround (x : Expander) (way : List Leg) (inner : Except Fault Text) : Except Fault Text :=
  way.foldr x.around inner

theorem includes_of_steps {leg : Leg} (resolved argument written : Text) (names : List Text)
    (h : (resolveConditionals x.rootScope (currentFile leg.frame.chain)
          leg.frame.body).outcome.toOption = some resolved ∧
      Token.tokenize resolved = leg.before ++ .found (.includeFile argument) :: leg.after ∧
      Include.parse? argument = some leg.directive ∧
      (fillTemplate [x.rootScope, leg.frame.scope]
        (leg.frame.chain.getLast?.getD leg.frame.base).toText leg.directive.path).toOption =
          some (written, names) ∧
      written ≠ [] ∧ x.workspace.target leg.frame.base written = leg.site.target ∧
      leg.site.target ∉ leg.frame.chain ∧
      x.workspace.front? leg.site.target = some leg.site.front ∧
      (Heading.select leg.directive.heading? leg.site.front.body).toOption =
        some leg.site.snippet ∧
      (Heading.shiftTo leg.directive.level? (leg.site.snippet.level?.map Int.ofNat)
        leg.frame.offset).toOption = some leg.site.shift) : x.Includes leg := by
  obtain ⟨hresolved, htokens, hread, hfill, hwritten, htarget, hfresh, hfront, hmore⟩ := h
  obtain ⟨hselected, hshifted⟩ := hmore
  exact ⟨⟨resolved, argument, Except.ok_of_toOption hresolved, htokens, hread⟩,
    ⟨written, names, Except.ok_of_toOption hfill, hwritten, htarget⟩, hfresh, hfront,
    Except.ok_of_toOption hselected, Except.ok_of_toOption hshifted⟩

theorem includes_of_follows {fr : Frame} {way : List Leg} {last : Leg}
    (h : x.Follows fr (way ++ [last])) : x.Includes last := by
  induction way generalizing fr with
  | nil => exact h.2.1
  | cons leg way ih => exact ih h.2.2

/-- A frame with everything put in but its images. -/
def fillFrame (x : Expander) (fr : Frame) : Run Text := do
  let resolved ← resolveConditionals x.rootScope (currentFile fr.chain) fr.body
  let joined ← Token.pass (x.putIn fr) (Token.tokenize resolved)
  Token.pass (x.fillIn fr) (Token.tokenize joined)

theorem expandFrame_eq_embed (x : Expander) (fr : Frame) :
    x.expandFrame fr = x.fillFrame fr >>= fun s =>
      if x.embedImages then Image.embedAll x.workspace.tree fr.base s else pure s := by
  have hfill (s : Text) : substitute x.rootScope (currentFile fr.chain) s =
      Token.pass (x.fillIn fr) (Token.tokenize s) := substituteTokens_eq_pass _ _ _
  have hput (tokens : List Token) :
      expandTokens (x.expandInclude fr.chain fr.base fr.scope fr.offset) tokens =
        Token.pass (x.putIn fr) tokens := expandTokens_eq_pass _ _
  simp only [expandFrame, expandContent, expandBody, fillFrame, hfill, hput, bind_assoc]

theorem expandFrame_eq (hx : x.embedImages = false) (fr : Frame) :
    x.expandFrame fr =
      resolveConditionals x.rootScope (currentFile fr.chain) fr.body >>= fun resolved =>
        Token.pass (x.putIn fr) (Token.tokenize resolved) >>= fun joined =>
          Token.pass (x.fillIn fr) (Token.tokenize joined) := by
  rw [expandFrame_eq_embed]
  simp only [hx, Bool.false_eq_true, if_false, bind_pure]
  rfl

theorem fillFrame_of_includes {leg : Leg} (h : x.Includes leg) :
    (x.fillFrame leg.frame).outcome = x.around leg (x.expandFrame leg.inner).outcome := by
  obtain ⟨resolved, argument, hresolved, htokens, hread⟩ := h.written
  have hput : (x.putIn leg.frame (.includeFile argument)).outcome =
      (leg.directive.handBack leg.frame.offset <$> x.expandFrame leg.inner).outcome := by
    rw [putIn, includeReplaced, Include.read, hread]
    exact expandInclude_of_opens h.opens
  rw [fillFrame, Run.outcome_bind_of_ok hresolved, htokens, Token.pass_append]
  simp only [Token.pass, Run.outcome_bind, Run.outcome_map, hput, around]
  cases (Token.pass (x.putIn leg.frame) leg.before).outcome with
  | error fault => rfl
  | ok a =>
    cases (x.expandFrame leg.inner).outcome with
    | error fault => rfl
    | ok s =>
      cases (Token.pass (x.putIn leg.frame) leg.after).outcome with
      | error fault => rfl
      | ok b =>
        exact congrArg
          (fun joined => (Token.pass (x.fillIn leg.frame) (Token.tokenize joined)).outcome)
          (List.append_assoc a _ b).symm

theorem expandFrame_of_includes (hx : x.embedImages = false) {leg : Leg} (h : x.Includes leg) :
    (x.expandFrame leg.frame).outcome = x.around leg (x.expandFrame leg.inner).outcome := by
  have hplain : x.expandFrame leg.frame = x.fillFrame leg.frame := by
    rw [expandFrame_eq_embed]
    simp [hx]
  rw [hplain, fillFrame_of_includes h]

theorem expandFrame_of_follows (hx : x.embedImages = false) {fr : Frame} {way : List Leg}
    {last : Leg} (h : x.Follows fr (way ++ [last])) :
    (x.expandFrame fr).outcome =
      x.surround (way ++ [last]) (x.expandFrame last.inner).outcome := by
  induction way generalizing fr with
  | nil =>
    obtain ⟨rfl, hlast, -⟩ := h
    exact expandFrame_of_includes hx hlast
  | cons leg way ih =>
    obtain ⟨rfl, hg, hway⟩ := h
    rw [expandFrame_of_includes hx hg, ih hway]
    rfl

theorem expandFile_of_frame {above : List Path} {entry : Path} {front : FrontMatter}
    (he : x.workspace.front? entry = some front) {inherited : Scope} {α : Type} {text : α → Text}
    {outcome : Except Fault α}
    (h : (x.expandFrame (entryFrame above entry front inherited)).outcome = text <$> outcome) :
    (x.expandFile above entry inherited).outcome =
      (fun p => ⟨text p, front.raw?, front.scope.inherit inherited⟩) <$> outcome := by
  rw [expandFile_of_front he inherited, Run.outcome_map]
  show (fun s => (⟨s, front.raw?, front.scope.inherit inherited⟩ : Expanded)) <$>
    (x.expandFrame (entryFrame above entry front inherited)).outcome = _
  rw [h]
  cases outcome with
  | error fault => rfl
  | ok p => rfl

end Expander
end Transclude

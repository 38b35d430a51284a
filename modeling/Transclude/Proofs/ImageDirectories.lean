import Transclude.Proofs.CarriedTexts
import Transclude.Proofs.SettledImages

/-! The image references of an included file, where images are embedded. Every file on the way to
the entry looks up the references that are still in the text it puts in, so the nearest directory on
the way settles a reference, be that the directory of its own file or of one that includes it. -/

namespace Transclude

theorem Include.handBack_phrase (i : Include) (offset : Int) (front rest : Text) :
    ∃ behind, ∀ p : Text, p.IsPhrase →
      i.handBack offset (front ++ p ++ rest) = i.handBack offset front ++ p ++ behind :=
  i.handBack_around offset fun _ => Heading.shift_phrase offset front rest

def Frame.last (fr : Frame) (way : List Leg) : Frame := way.foldl (fun _ leg => leg.inner) fr

/-- The directories of the files on a way, from the one at its end outwards. -/
def Frame.directories (fr : Frame) (way : List Leg) : List Path :=
  (fr.last way).base :: (way.map fun leg => leg.frame.base).reverse

namespace Expander

variable {x : Expander}

def finish (x : Expander) (fr : Frame) (joined : Text) : Run Text :=
  Token.pass (x.fillIn fr) (Token.tokenize joined) >>= Image.embedAll x.workspace.tree fr.base

def expandLeft (x : Expander) (fr : Frame) (left : Text) : Run Text :=
  Token.pass (x.putIn fr) (Token.tokenize left) >>= x.finish fr

def encase (x : Expander) (leg : Leg) (inner : Except Fault Text) : Except Fault Text :=
  x.around leg inner >>= fun s => (Image.embedAll x.workspace.tree leg.frame.base s).outcome

def enclose (x : Expander) (way : List Leg) (inner : Except Fault Text) : Except Fault Text :=
  way.foldr x.encase inner

section Frames

variable (hx : x.embedImages)

include hx

theorem expandFrame_of_left {fr : Frame} {left : Text}
    (h : (resolveConditionals x.rootScope (currentFile fr.chain) fr.body).outcome = .ok left) :
    (x.expandFrame fr).outcome = (x.expandLeft fr left).outcome := by
  rw [expandFrame_eq_embed, fillFrame, bind_assoc, Run.outcome_bind_of_ok h, bind_assoc]
  simp only [hx, if_true]
  rfl

theorem expandFrame_eq_encase {leg : Leg} (h : x.Includes leg) :
    (x.expandFrame leg.frame).outcome = x.encase leg (x.expandFrame leg.inner).outcome := by
  rw [expandFrame_eq_embed, Run.outcome_bind, fillFrame_of_includes h]
  simp only [hx, if_true]
  rfl

theorem expandFrame_eq_enclose {fr : Frame} {way : List Leg} (h : x.Follows fr way) :
    (x.expandFrame fr).outcome = x.enclose way (x.expandFrame (fr.last way)).outcome := by
  induction way generalizing fr with
  | nil => rfl
  | cons leg way ih =>
    obtain ⟨rfl, hleg, hway⟩ := h
    rw [expandFrame_eq_encase hx hleg, ih hway]
    rfl

end Frames

def filledFront (x : Expander) (fr : Frame) (joined : Text) : Option Text :=
  (Token.pass (x.fillIn fr) (Token.tokenize joined)).outcome.toOption

def finishedFront (x : Expander) (fr : Frame) (joined : Text) : Option Text :=
  x.filledFront fr joined >>= fun filled =>
    (Image.embedAll x.workspace.tree fr.base filled).outcome.toOption

/-- Whether a text behind the includes of a frame leaves a reference whole that it stands in front
of, while variables are replaced and while images are embedded. -/
structure LeavesWhole (x : Expander) (fr : Frame) (joined : Text) : Prop where
  unfilled : Token.Sealed joined
  filled : ∀ filled ∈ x.filledFront fr joined, Image.Sealed filled

/-- What stands in front of a reference once the first frame of a way is expanded, `front?` being
what stands in front of it at the end of the way. -/
def finishedWay (x : Expander) (front? : Option Text) : List Leg → Option Text
  | [] => front?
  | leg :: way =>
    x.finishedWay front? way >>= fun front =>
      x.joinedFront leg front >>= x.finishedFront leg.frame

def joints (x : Expander) (front? : Option Text) : List Leg → List (Frame × Text)
  | [] => []
  | leg :: way => x.joints front? way ++
      (x.finishedWay front? way >>= x.joinedFront leg).toList.map fun joined => (leg.frame, joined)

def jointsFrom (x : Expander) (fr : Frame) (way : List Leg) (own : Text) : List (Frame × Text) :=
  let joined? := (Token.pass (x.putIn fr) (Token.tokenize own)).outcome.toOption
  (joined?.toList.map fun joined => (fr, joined)) ++ x.joints (joined? >>= x.finishedFront fr) way

/-- Whether a run carries the references that can be looked up from all of `bases`, as they are once
those in `before` have been asked. -/
abbrev CarriesImages (x : Expander) (bases before : List Path) :
    Option Text → (Image → Except Fault Text) → Prop :=
  Carries (Image.Portable x.workspace.tree bases) (Image.settled x.workspace.tree before)

section Passes

variable {bases before : List Path}

theorem carries_pass_reference (x : Expander) (replace : Directive → Run Text) {front : Text}
    (hf : Token.Sealed front) (rest : Text) :
    x.CarriesImages bases before (Token.pass replace (Token.tokenize front)).outcome.toOption
      fun i => (Token.pass replace
        (Token.tokenize (front ++ i.settled x.workspace.tree before ++ rest))).outcome := by
  obtain ⟨behind, hbehind⟩ : ∃ behind : Run Text, ∀ p : Text, p.IsPhrase →
      Token.pass replace (Token.tokenize (front ++ p ++ rest)) =
        Token.pass replace (Token.tokenize front) >>= fun a => (a ++ p ++ ·) <$> behind :=
    Token.exists_pass_phrase hf rest
  apply Carries.of_run
  intro i hi
  rw [hbehind _ (hi.firm.isPhrase_settled x.workspace.tree before)]

theorem carries_embedAll (x : Expander) {base : Path} (hbase : base ∈ bases) {front : Text}
    (hf : Image.Sealed front) (rest : Text) :
    x.CarriesImages bases (before ++ [base])
      (Image.embedAll x.workspace.tree base front).outcome.toOption fun i =>
        (Image.embedAll x.workspace.tree base
          (front ++ i.settled x.workspace.tree before ++ rest)).outcome := by
  set tree := x.workspace.tree
  have hrun (i : Image) (hi : Image.Portable tree bases i) :
      (Image.embedAll tree base (front ++ i.settled tree before ++ rest)).outcome =
        (Image.embedAll tree base front >>= fun a =>
          (a ++ i.settled tree (before ++ [base]) ++ ·) <$>
            Image.embedAll tree base rest).outcome := by
    obtain ⟨j, hj, hfirm, hnext⟩ := Image.exists_settled hi.firm tree before
    obtain ⟨hfollowed, hsettled⟩ := hnext base (hi.followable base hbase)
    rw [← hj, ← hsettled, Image.embedAll_reference hf hfirm.reads, Image.replace_eq hfollowed]
    simp only [pure_bind]
  exact Carries.of_run hrun

theorem carries_finish {fr : Frame} (hbase : fr.base ∈ bases) {joined : Text}
    (h : x.LeavesWhole fr joined) (rest : Text) :
    x.CarriesImages bases (before ++ [fr.base]) (x.finishedFront fr joined) fun i =>
      (x.finish fr (joined ++ i.settled x.workspace.tree before ++ rest)).outcome := by
  have hfilled : x.CarriesImages bases before (x.filledFront fr joined) fun i =>
      (Token.pass (x.fillIn fr)
        (Token.tokenize (joined ++ i.settled x.workspace.tree before ++ rest))).outcome :=
    carries_pass_reference x (x.fillIn fr) h.unfilled rest
  refine (hfilled.bind fun filled hmem behind => ?_).congr fun i _ => Run.outcome_bind _ _
  exact carries_embedAll x hbase (h.filled filled hmem) behind

theorem carries_encase {leg : Leg} (hbase : leg.frame.base ∈ bases) {front? : Option Text}
    {run : Image → Except Fault Text} (h : x.CarriesImages bases before front? run)
    (hleaves : ∀ joined ∈ front? >>= x.joinedFront leg, x.LeavesWhole leg.frame joined) :
    x.CarriesImages bases (before ++ [leg.frame.base])
      (front? >>= fun front => x.joinedFront leg front >>= x.finishedFront leg.frame)
      fun i => x.encase leg (run i) := by
  have hjoined : ∀ front ∈ front?, ∀ joined ∈ x.joinedFront leg front,
      x.LeavesWhole leg.frame joined := by
    intro front hfront joined hmem
    exact hleaves joined (Option.bind_eq_some_iff.2 ⟨front, hfront, hmem⟩)
  have haround : x.CarriesImages bases before
      (front? >>= fun front => x.joinedFront leg front >>= x.filledFront leg.frame)
      fun i => x.around leg (run i) := by
    refine carries_around h (fun front _ rest => ?_) fun front hfront joined hmem rest => ?_
    · obtain ⟨behind, hbehind⟩ := leg.directive.handBack_phrase leg.frame.offset front rest
      exact ⟨behind, fun i hi => hbehind _ (hi.firm.isPhrase_settled _ _)⟩
    · exact carries_pass_reference x _ (hjoined front hfront joined hmem).unfilled rest
  have hembedded : x.CarriesImages bases (before ++ [leg.frame.base])
      ((front? >>= fun front => x.joinedFront leg front >>= x.filledFront leg.frame) >>=
        fun filled => (Image.embedAll x.workspace.tree leg.frame.base filled).outcome.toOption)
      fun i => x.encase leg (run i) := by
    refine haround.bind fun filled hmem behind => ?_
    obtain ⟨front, hfront, hrest⟩ := Option.bind_eq_some_iff.1 hmem
    obtain ⟨joined, hjoin, hfill⟩ := Option.bind_eq_some_iff.1 hrest
    exact carries_embedAll x hbase ((hjoined front hfront joined hjoin).filled filled hfill) behind
  simp only [bind_assoc] at hembedded
  exact hembedded

theorem carries_enclose {way : List Leg} (hbases : ∀ leg ∈ way, leg.frame.base ∈ bases)
    {front? : Option Text} {run : Image → Except Fault Text}
    (h : x.CarriesImages bases before front? run)
    (hleaves : ∀ q ∈ x.joints front? way, x.LeavesWhole q.1 q.2) :
    x.CarriesImages bases (before ++ (way.map fun leg => leg.frame.base).reverse)
      (x.finishedWay front? way) fun i => x.enclose way (run i) := by
  induction way with
  | nil => rwa [List.map_nil, List.reverse_nil, List.append_nil]
  | cons leg way ih =>
    obtain ⟨hbase, hinner⟩ := List.forall_mem_cons.1 hbases
    obtain ⟨hway, hleg⟩ := List.forall_mem_append.1 hleaves
    rw [List.map_cons, List.reverse_cons, ← List.append_assoc]
    refine carries_encase hbase (ih hinner hway) fun joined hjoined => ?_
    exact hleg (leg.frame, joined) (List.mem_map.2 ⟨joined, Option.mem_toList.2 hjoined, rfl⟩)

end Passes

/-- The conditionals of a file leave a text with a reference in it. What stands for the reference in
the entry is settled by the nearest directory from which its target leads to a file, among that of
its own file and those of the files on the way to the entry; it has no part in what else becomes of
the entry, be that a text or a fault. Its own directory settles it exactly if the target leads to a
file from there, or leads to none from the directories of the files that include it. -/
theorem expandFile_settles_reference (hx : x.embedImages) {above : List Path} {entry : Path}
    {inherited : Scope} {front : FrontMatter} (he : x.workspace.front? entry = some front)
    {start : Frame} (hs : start = entryFrame above entry front inherited) {way : List Leg}
    (hway : x.Follows start way) {own rest : Text} {i : Image}
    (hleft : (resolveConditionals x.rootScope (currentFile (start.last way).chain)
      (start.last way).body).outcome = .ok (own ++ i.source ++ rest))
    (hi : Image.Portable x.workspace.tree (start.directories way) i) (hown : Token.Sealed own)
    (hleaves : ∀ q ∈ x.jointsFrom (start.last way) way own, x.LeavesWhole q.1 q.2) :
    (∃ outcome : Except Fault (Text × Text),
      (∀ j, Image.Portable x.workspace.tree (start.directories way) j →
        x.enclose way (x.expandLeft (start.last way) (own ++ j.source ++ rest)).outcome =
          (fun p => p.1 ++ j.settled x.workspace.tree (start.directories way) ++ p.2) <$>
            outcome) ∧
      (x.expandFile above entry inherited).outcome =
        (fun p => ⟨p.1 ++ i.settled x.workspace.tree (start.directories way) ++ p.2, front.raw?,
          front.scope.inherit inherited⟩) <$> outcome) ∧
    (i.settled x.workspace.tree (start.directories way) =
        i.settled x.workspace.tree [(start.last way).base] ↔
      (i.foundAt? x.workspace.tree (start.last way).base).isSome ∨
        ∀ leg ∈ way, i.foundAt? x.workspace.tree leg.frame.base = none) := by
  obtain ⟨hfirst, hjoints⟩ := List.forall_mem_append.1 hleaves
  have hhere : (start.last way).base ∈ start.directories way := List.mem_cons_self
  have hbases : ∀ leg ∈ way, leg.frame.base ∈ start.directories way := by
    intro leg hleg
    refine List.mem_cons_of_mem _ (List.mem_reverse.2 ?_)
    exact List.mem_map.2 ⟨leg, hleg, rfl⟩
  constructor
  · -- In its own file a reference comes as it is written, which is how no directory settles it.
    have hput : x.CarriesImages (start.directories way) []
        (Token.pass (x.putIn (start.last way)) (Token.tokenize own)).outcome.toOption fun j =>
          (Token.pass (x.putIn (start.last way))
            (Token.tokenize (own ++ j.source ++ rest))).outcome :=
      carries_pass_reference x _ hown rest
    have hlast : x.CarriesImages (start.directories way) [(start.last way).base]
        ((Token.pass (x.putIn (start.last way)) (Token.tokenize own)).outcome.toOption >>=
          x.finishedFront (start.last way))
        fun j => (x.expandLeft (start.last way) (own ++ j.source ++ rest)).outcome := by
      refine (hput.bind fun joined hjoined behind => ?_).congr fun j _ => Run.outcome_bind _ _
      refine carries_finish hhere (hfirst (start.last way, joined) ?_) behind
      exact List.mem_map.2 ⟨joined, Option.mem_toList.2 hjoined, rfl⟩
    obtain ⟨outcome, houtcome⟩ := (carries_enclose hbases hlast hjoints).exists_outcome
    refine ⟨outcome, houtcome, ?_⟩
    have hframe : (x.expandFrame start).outcome =
        (fun p => p.1 ++ i.settled x.workspace.tree (start.directories way) ++ p.2) <$>
          outcome := by
      rw [expandFrame_eq_enclose hx hway, expandFrame_of_left hx hleft]
      exact houtcome i hi
    exact expandFile_of_frame he (hs ▸ hframe)
  · rw [Frame.directories, Image.settled_eq_own_iff hi.firm]
    simp only [List.mem_reverse, List.forall_mem_map]

theorem leavesWhole_of_plain {fr : Frame} {joined : Text} (hb : '\x7b' ∉ joined)
    (hr : Fence.openAfter none joined.rows = none →
      Fence.openAfter none joined.rows.dropLast = none)
    (hf : ∀ filled ∈ x.filledFront fr joined, '!' ∉ filled) : x.LeavesWhole fr joined :=
  ⟨Token.sealed_of_not_mem hb hr, fun filled hfilled => Image.sealed_of_not_mem (hf filled hfilled)⟩

def gallery (files : List (String × String)) : Expander where
  workspace := {
    tree := files.foldl (fun tree (path, content) =>
      tree.place (Path.ofText path.text).names (.file (Utf8.encode content.text))) ⟨[]⟩
    here := ⟨.root, []⟩
    settings := .standard }
  rootScope := .empty
  embedImages := true

def logo : Image := ⟨"a".text, [], "logo.png".text, none, []⟩

theorem isFirm_logo : logo.IsFirm := by
  have hwritten : logo.IsWritten :=
    ⟨by decide, rfl, by decide, List.all_eq_true.1 (by decide), by decide, nofun, rfl⟩
  exact ⟨Image.read?_source_append hwritten, Text.runsOn_of_not_mem (by decide), by decide,
    by decide, nofun⟩

def mainFrame (body : String) : Frame :=
  entryFrame [] (.named "main.md") ⟨none, .empty, body.text⟩ .empty

def subLeg (outer : Frame) (before : List Token) (body : String) (after : List Token) : Leg where
  frame := outer
  before := before
  directive := ⟨"sub/f.md".text, none, none⟩
  site := ⟨⟨.root, ["sub".text, "f.md".text]⟩, ⟨none, .empty, body.text⟩, ⟨body.text, none⟩, 0⟩
  after := after

def twoLogos : Expander := gallery [
  ("main.md", "# Top\n\x7b!include(sub/f.md)!\x7d\nEnd"), ("logo.png", "outer"),
  ("sub/f.md", "Our\n![a](logo.png)."), ("sub/logo.png", "inner")]

def twoLogosLeg : Leg :=
  subLeg (mainFrame "# Top\n\x7b!include(sub/f.md)!\x7d\nEnd") [.plain "# Top\n".text]
    "Our\n![a](logo.png)." [.plain "\nEnd".text]

theorem follows_twoLogos :
    twoLogos.Follows (mainFrame "# Top\n\x7b!include(sub/f.md)!\x7d\nEnd") [twoLogosLeg] := by
  have honly : twoLogos.Includes twoLogosLeg :=
    includes_of_steps twoLogosLeg.frame.body "sub/f.md".text "sub/f.md".text [] (by decide +kernel)
  exact ⟨rfl, honly, trivial⟩

theorem expandFile_settles_reference_of_two_logos :
    ∃ r, (twoLogos.expandFile [] (.named "main.md") .empty).outcome = .ok r ∧
      "![a](data:image/png;base64,aW5uZXI=)".text <:+: r.body := by
  have hplain : ∀ q ∈ twoLogos.jointsFrom twoLogosLeg.inner [twoLogosLeg] "Our\n".text,
      '\x7b' ∉ q.2 ∧
        (Fence.openAfter none q.2.rows = none → Fence.openAfter none q.2.rows.dropLast = none) ∧
        ∀ filled ∈ twoLogos.filledFront q.1 q.2, '!' ∉ filled := by decide +kernel
  have hleft : (resolveConditionals twoLogos.rootScope (currentFile twoLogosLeg.inner.chain)
      twoLogosLeg.inner.body).outcome = .ok ("Our\n".text ++ logo.source ++ ".".text) :=
    Except.ok_of_toOption (by decide +kernel)
  obtain ⟨⟨outcome, -, houtcome⟩, -⟩ := expandFile_settles_reference (x := twoLogos) rfl
    (by decide +kernel) rfl follows_twoLogos hleft ⟨isFirm_logo, by decide +kernel⟩
    (Token.sealed_of_not_mem (by decide) (by decide))
    fun q hq => leavesWhole_of_plain (hplain q hq).1 (hplain q hq).2.1 (hplain q hq).2.2
  cases outcome with
  | error fault =>
    have hok : (twoLogos.expandFile [] (.named "main.md") .empty).outcome.isOk := by decide +kernel
    rw [houtcome] at hok
    cases hok
  | ok p =>
    have hsettled : logo.settled twoLogos.workspace.tree
        ((mainFrame "# Top\n\x7b!include(sub/f.md)!\x7d\nEnd").directories [twoLogosLeg]) =
          "![a](data:image/png;base64,aW5uZXI=)".text := by decide +kernel
    exact ⟨_, houtcome, p.1, p.2, by rw [← hsettled]; rfl⟩

def oneLogo : Expander := gallery [
  ("main.md", "\x7b!include(sub/f.md)!\x7d"), ("logo.png", "x"), ("sub/f.md", "![a](logo.png)")]

def oneLogoLeg : Leg :=
  subLeg (mainFrame "\x7b!include(sub/f.md)!\x7d") [] "![a](logo.png)" []

/-- The reference leads nowhere from the directory of its file and is not left as it is written. -/
theorem logo_of_includer_embedded :
    oneLogo.Follows (mainFrame "\x7b!include(sub/f.md)!\x7d") [oneLogoLeg] ∧
      (resolveConditionals oneLogo.rootScope (currentFile oneLogoLeg.inner.chain)
        oneLogoLeg.inner.body).outcome = .ok logo.source ∧
      logo.foundAt? oneLogo.workspace.tree oneLogoLeg.inner.base = none ∧
      ∃ r, (oneLogo.expandFile [] (.named "main.md") .empty).outcome = .ok r ∧
        ¬ logo.source <:+: r.body := by
  have honly : oneLogo.Includes oneLogoLeg :=
    includes_of_steps oneLogoLeg.frame.body "sub/f.md".text "sub/f.md".text [] (by decide +kernel)
  refine ⟨⟨rfl, honly, trivial⟩, Except.ok_of_toOption (by decide +kernel), by decide +kernel,
    ⟨"![a](data:image/png;base64,eA==)".text, none, .empty⟩,
    Except.ok_of_toOption (by decide +kernel), by decide +kernel⟩

end Expander
end Transclude

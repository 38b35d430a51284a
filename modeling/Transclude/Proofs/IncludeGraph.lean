import Transclude.Proofs.IncludeWays
import Transclude.Proofs.RunEvents
import Transclude.Proofs.SettledPaths

/-! The graph of includes as an expansion sees it, next to the one that was collected. They differ
only where the text of a file gains an include path on its way through the passes, or where a
variable in a path is not any more what it was when the collection got there. -/

namespace Transclude

namespace Expander

def arguments (x : Expander) (fr : Frame) : List Text :=
  match (resolveConditionals x.rootScope (currentFile fr.chain) fr.body).outcome with
  | .ok resolved => includeArguments (Token.tokenize resolved)
  | .error _ => []

inductive Reaches (x : Expander) (entry : Path) : Frame → Prop
  | entry {front : FrontMatter} (h : x.workspace.front? entry = some front) :
      Reaches x entry (entryFrame [] entry front .empty)
  | through {fr : Frame} {argument : Text} {i : Include} {t : Site} (hfr : Reaches x entry fr)
      (hargument : argument ∈ x.arguments fr) (hread : Include.parse? argument = some i)
      (hopens : x.Opens fr.chain fr.base fr.scope fr.offset i t) : Reaches x entry (t.frame fr)

def ComputesTarget (x : Expander) (entry target : Path) : Prop :=
  ∃ fr argument i written names, x.Reaches entry fr ∧ argument ∈ x.arguments fr ∧
    Include.parse? argument = some i ∧
    fillTemplate [x.rootScope, fr.scope] (fr.chain.getLast?.getD fr.base).toText i.path =
      .ok (written, names) ∧
    written ≠ [] ∧ x.workspace.target fr.base written = target

/-- Whether every include path left in a frame is an include path of its file as it is read. -/
def KeepsPaths (x : Expander) (entry : Path) : Prop :=
  ∀ fr file front, x.Reaches entry fr → fr.chain.getLast? = some file →
    x.workspace.front? file = some front →
    ∀ path ∈ includePaths (x.arguments fr),
      path ∈ includePaths (includeArguments (Token.tokenize front.body))

variable {x : Expander} {entry : Path} {events : List Event}

/-- Whether a frame belongs to a file that the collection visited. -/
def Visited (x : Expander) (entry : Path) (fr : Frame) : Prop :=
  ∃ chain file inherited front, fr.chain = chain ++ [file] ∧ fr.base = file.parent ∧
    x.workspace.front? file = some front ∧ x.workspace.Visits entry chain file inherited

theorem Visited.exists_followed
    (hroot : collect x.workspace [] entry .empty = ⟨events, .ok x.rootScope⟩)
    (hkeeps : x.KeepsPaths entry) (hsettles : x.workspace.SettlesPaths entry x.rootScope)
    {fr : Frame} (hfr : x.Reaches entry fr) (h : x.Visited entry fr) {argument : Text}
    (hargument : argument ∈ x.arguments fr) {i : Include}
    (hread : Include.parse? argument = some i) :
    ∃ chain file written names, fr.chain = chain ++ [file] ∧ fr.base = file.parent ∧
      x.workspace.Followed entry events chain file i.path written names ∧
      fillTemplate [x.rootScope, fr.scope] (fr.chain.getLast?.getD fr.base).toText i.path =
        .ok (written, names) := by
  obtain ⟨chain, file, inherited, front, hchain, hbase, hfront, hvisits⟩ := h
  have hlast : fr.chain.getLast? = some file := by rw [hchain, List.getLast?_concat]
  have hpath : i.path ∈ includePaths (x.arguments fr) :=
    List.mem_filterMap.2 ⟨argument, hargument, by rw [hread]; rfl⟩
  obtain ⟨written, names, hfollowed, hfill⟩ := hvisits.exists_followed hroot hsettles hfront
    (hkeeps fr file front hfr hlast hfront _ hpath)
  refine ⟨chain, file, written, names, hchain, hbase, hfollowed, ?_⟩
  rw [hlast]
  exact hfill fr.scope

theorem Reaches.visited
    (hroot : collect x.workspace [] entry .empty = ⟨events, .ok x.rootScope⟩)
    (hkeeps : x.KeepsPaths entry) (hsettles : x.workspace.SettlesPaths entry x.rootScope)
    {fr : Frame} (h : x.Reaches entry fr) : x.Visited entry fr := by
  induction h with
  | @entry front h => exact ⟨[], entry, .empty, front, rfl, rfl, h, .entry⟩
  | @through fr argument i t hfr hargument hread hopens ih =>
    obtain ⟨chain, file, written, names, hchain, hbase, hfollowed, hfill⟩ :=
      ih.exists_followed hroot hkeeps hsettles hfr hargument hread
    obtain ⟨written', names', hfill', hwritten, htarget⟩ := hopens.path
    obtain ⟨rfl, rfl⟩ := Prod.mk.inj (Except.ok.inj (hfill.symm.trans hfill'))
    rw [hbase] at htarget
    obtain ⟨e, s, he, -, -⟩ := Workspace.front?_eq_some_iff.1 hopens.front
    have hthere : (x.workspace.tree.entryAt?
        (x.workspace.target file.parent written).names).isSome := by
      rw [htarget, he]
      rfl
    obtain ⟨scope, hvisits⟩ := hfollowed.visits hwritten hthere
    rw [htarget] at hvisits
    exact ⟨chain ++ [file], t.target, scope, t.front, by rw [← hchain]; rfl, rfl, hopens.front,
      hvisits⟩

/-- What an event of an expansion comes to for a collection that was made before it: nothing that
leads to a file is new to it. -/
def Foreseen (x : Expander) (entry : Path) (events : List Event) : Event → Prop
  | .including target => x.workspace.CollectsTarget entry target ∧
    ∀ front, x.workspace.front? target = some front →
      ∀ name, (front.scope.get? name).isSome → (x.rootScope.get? name).isSome
  | .notFound target => x.workspace.CollectsTarget entry target
  | .missing m => .missing m ∈ events
  | _ => True

theorem mem_arguments {fr : Frame} {resolved argument : Text}
    (h : (resolveConditionals x.rootScope (currentFile fr.chain) fr.body).outcome = .ok resolved)
    (hmem : .found (.includeFile argument) ∈ Token.tokenize resolved) :
    argument ∈ x.arguments fr := by
  rw [arguments, h]
  exact List.mem_filterMap.2 ⟨_, hmem, rfl⟩

/-- What holds of a frame if it holds of all that open below it, holds of every frame that is reached.
No file is entered again below itself, so the way down ends. -/
theorem Reaches.induction_below {motive : (fr : Frame) → x.Reaches entry fr → Prop}
    (step : ∀ fr (hfr : x.Reaches entry fr),
      (∀ {argument : Text} {i : Include} {t : Site} (hargument : argument ∈ x.arguments fr)
        (hread : Include.parse? argument = some i)
        (hopens : x.Opens fr.chain fr.base fr.scope fr.offset i t),
        motive (t.frame fr) (hfr.through hargument hread hopens)) → motive fr hfr)
    {fr : Frame} (hfr : x.Reaches entry fr) : motive fr hfr := by
  induction hn : x.workspace.tree.unvisited fr.chain using Nat.strongRecOn generalizing fr with
  | ind n ih =>
    refine step fr hfr fun hargument hread hopens => ?_
    obtain ⟨e, s, he, -, -⟩ := Workspace.front?_eq_some_iff.1 hopens.front
    exact ih _ (hn ▸ Tree.unvisited_lt he hopens.fresh) (hfr.through hargument hread hopens) rfl

structure Turn where
  argument : Text
  directive : Include
  site : Site

/-- Whether a frame goes on by some turns only, and nothing goes on behind these. -/
structure Turns (x : Expander) (fr : Frame) (turns : List Turn) : Prop where
  arguments : x.arguments fr = turns.map Turn.argument
  read : ∀ turn ∈ turns, Include.parse? turn.argument = some turn.directive
  opens : ∀ turn ∈ turns, x.Opens fr.chain fr.base fr.scope fr.offset turn.directive turn.site
  last : ∀ turn ∈ turns, x.arguments (turn.site.frame fr) = []

variable {fr : Frame} {turns : List Turn}

theorem Turns.exists_of_read (h : x.Turns fr turns) {argument : Text} {i : Include}
    (hargument : argument ∈ x.arguments fr) (hread : Include.parse? argument = some i) :
    ∃ t, ⟨argument, i, t⟩ ∈ turns := by
  rw [h.arguments] at hargument
  obtain ⟨turn, hturn, rfl⟩ := List.mem_map.1 hargument
  obtain rfl := Option.some.inj ((h.read turn hturn).symm.trans hread)
  exact ⟨turn.site, hturn⟩

theorem Turns.mem_of_opens (h : x.Turns fr turns) {argument : Text} {i : Include} {t : Site}
    (hargument : argument ∈ x.arguments fr) (hread : Include.parse? argument = some i)
    (hopens : x.Opens fr.chain fr.base fr.scope fr.offset i t) : ⟨argument, i, t⟩ ∈ turns := by
  obtain ⟨u, hturn⟩ := h.exists_of_read hargument hread
  obtain rfl := hopens.unique (h.opens _ hturn)
  exact hturn

theorem Reaches.eq_or_exists_turn {front : FrontMatter}
    (hfront : x.workspace.front? entry = some front)
    (h : x.Turns (entryFrame [] entry front .empty) turns) (hfr : x.Reaches entry fr) :
    fr = entryFrame [] entry front .empty ∨
      ∃ turn ∈ turns, fr = turn.site.frame (entryFrame [] entry front .empty) := by
  induction hfr with
  | entry hother =>
    obtain rfl := Option.some.inj (hfront.symm.trans hother)
    exact .inl rfl
  | through _ hargument hread hopens ih =>
    rcases ih with rfl | ⟨turn, hturn, rfl⟩
    · exact .inr ⟨_, h.mem_of_opens hargument hread hopens, rfl⟩
    · rw [h.last turn hturn] at hargument
      cases hargument

/-- The step: an include of a reached frame leads nowhere that the collection had not seen. -/
theorem emits_expandInclude
    (hroot : collect x.workspace [] entry .empty = ⟨events, .ok x.rootScope⟩)
    (hkeeps : x.KeepsPaths entry) (hsettles : x.workspace.SettlesPaths entry x.rootScope)
    {fr : Frame} (hfr : x.Reaches entry fr) {argument : Text}
    (hargument : argument ∈ x.arguments fr) {i : Include}
    (hread : Include.parse? argument = some i)
    (hinner : ∀ t, x.Opens fr.chain fr.base fr.scope fr.offset i t →
      Run.Emits (x.Foreseen entry events) (x.expandFrame (t.frame fr))) :
    Run.Emits (x.Foreseen entry events)
      (x.expandInclude fr.chain fr.base fr.scope fr.offset i) := by
  obtain ⟨chain, file, written, names, hchain, hbase, hfollowed, hfill⟩ :=
    (hfr.visited hroot hkeeps hsettles).exists_followed hroot hkeeps hsettles hfr hargument hread
  rw [expandInclude_eq, hfill]
  refine Run.Emits.bind (Run.emits_ofExcept _) fun filled hfilled => ?_
  obtain rfl := Except.ok.inj hfilled
  dsimp only
  split
  · exact Run.emits_pure _
  rename_i hwritten
  have hcollects := hfollowed.collectsTarget hwritten
  rw [← hbase] at hcollects
  unfold expandTarget
  split
  · exact Run.emits_stop _
  rename_i hfresh
  split
  · rename_i hnone
    -- The collection met this include too: it reported the target or found something there.
    rcases hfollowed.leads hwritten with ⟨hmissing, hreport⟩ | ⟨found, hfound⟩
    · rw [← hbase] at hmissing hreport
      rw [hmissing, hchain, List.getLast?_concat]
      refine Run.Emits.bind (Run.emits_emit hcollects) fun _ _ => fun event hevent => ?_
      obtain ⟨m, rfl⟩ := Workspace.eq_missing_of_mem hevent
      exact hreport _ hevent
    · rw [Tree.lookup, ← hbase, hnone] at hfound
      dsimp only at hfound
      split at hfound <;> cases hfound
  · rename_i found hentry
    have hthere : (x.workspace.tree.entryAt?
        (x.workspace.target file.parent written).names).isSome := by
      rw [← hbase, hentry]
      rfl
    obtain ⟨scope, hvisits⟩ := hfollowed.visits hwritten hthere
    rw [← hbase] at hvisits
    have hincluding : x.Foreseen entry events (.including (x.workspace.target fr.base written)) :=
      ⟨hcollects, fun front hfront name hname => hvisits.isSome_root hroot hfront hname⟩
    refine (Run.emits_emit hincluding).bind fun _ _ => ?_
    refine (x.workspace.emits_read _ _).bind fun source hsource => ?_
    refine (Run.emits_ofExcept _).bind fun t ht => Run.Emits.map ?_ _
    have hsite := (Run.ofExcept_eq_ok_iff.1 (Run.ext rfl ht)).2
    have hread := (Workspace.read_eq_ok_iff.1 (Run.ext rfl hsource)).2
    have hfront := Workspace.front?_eq_some_iff.2 ⟨_, _, hentry, hread, rfl⟩
    exact hinner t (opens_of_siteIn hfill hwritten hfresh hfront hsite)

/-- The run: all that happens below a reached frame is foreseen. -/
theorem emits_expandFrame (hx : x.embedImages = false)
    (hroot : collect x.workspace [] entry .empty = ⟨events, .ok x.rootScope⟩)
    (hkeeps : x.KeepsPaths entry) (hsettles : x.workspace.SettlesPaths entry x.rootScope)
    {fr : Frame} (hfr : x.Reaches entry fr) :
    Run.Emits (x.Foreseen entry events) (x.expandFrame fr) := by
  induction hfr using Reaches.induction_below with
  | step fr hfr ih =>
    rw [expandFrame_eq hx]
    refine (emits_resolveConditionals (fun _ => trivial) (fun _ => trivial) _ _ _).bind
      fun resolved hresolved => ?_
    refine (Token.emits_pass fun d hd => ?_).bind fun joined _ => Token.emits_pass fun d _ =>
      emits_substituteToken (fun _ _ => trivial) _ _ _
    cases d with
    | includeFile argument =>
      refine (Run.emits_ofExcept _).bind fun i hi => ?_
      have hread : Include.parse? argument = some i :=
        Include.parse?_of_read (Run.ofExcept_eq_ok_iff.1 (Run.ext rfl hi)).2
      have hargument := mem_arguments hresolved hd
      exact emits_expandInclude hroot hkeeps hsettles hfr hargument hread fun _ => ih hargument hread
    | _ => exact Run.emits_pure _

/-- Where no file gains an include path on its way through the passes, and no variable in one is
written otherwise in the end, an expansion follows the graph that was collected: it gets to no
target and no variables but those, and what it misses has been missed before. -/
theorem expandFile_within_collection (hx : x.embedImages = false)
    (hroot : collect x.workspace [] entry .empty = ⟨events, .ok x.rootScope⟩)
    (hkeeps : x.KeepsPaths entry) (hsettles : x.workspace.SettlesPaths entry x.rootScope) :
    (∀ target, x.ComputesTarget entry target → x.workspace.CollectsTarget entry target) ∧
      (∀ front, x.workspace.front? entry = some front →
        ∀ name, (front.scope.get? name).isSome → (x.rootScope.get? name).isSome) ∧
      ∀ event ∈ (x.expandFile [] entry .empty).events, x.Foreseen entry events event := by
  refine ⟨?_, ?_, ?_⟩
  · rintro target ⟨fr, argument, i, written, names, hfr, hargument, hread, hfill, hwritten, rfl⟩
    obtain ⟨chain, file, written', names', -, hbase, hfollowed, hfill'⟩ :=
      (hfr.visited hroot hkeeps hsettles).exists_followed hroot hkeeps hsettles hfr hargument hread
    obtain ⟨rfl, rfl⟩ := Prod.mk.inj (Except.ok.inj (hfill.symm.trans hfill'))
    rw [hbase]
    exact hfollowed.collectsTarget hwritten
  · intro front hfront name hname
    exact Workspace.Visits.entry.isSome_root hroot hfront hname
  · unfold expandFile
    split
    · exact Run.emits_stop _
    rename_i found hentry
    refine (Run.emits_emit trivial).bind fun _ _ => ?_
    refine (x.workspace.emits_read _ _).bind fun source hsource => ?_
    have hread := (Workspace.read_eq_ok_iff.1 (Run.ext rfl hsource)).2
    have hfront := Workspace.front?_eq_some_iff.2 ⟨found, source, hentry, hread, rfl⟩
    exact (emits_expandFrame hx hroot hkeeps hsettles (.entry hfront)).bind fun _ _ =>
      Run.emits_pure _

def translatedEntry : String :=
  "---\nlang: en\n---\n\x7b!if lang=en!\x7d\n\x7b!include(<lang>)!\x7d\n" ++
    "\x7b!endif!\x7d\x7b!include(b)!\x7d"

def translated (fragment : String) (root : Value) : Expander where
  workspace := .holding [("main", translatedEntry), ("en", "Text"), ("b", fragment)]
  rootScope := .ofList [("lang".text, root)]
  embedImages := false

def translation : Expander := translated "More" (.scalar (some "en".text))

def translationFrame : Frame :=
  entryFrame [] (.named "main") (FrontMatter.split translatedEntry.text) .empty

def plainSite (name body : String) : Site where
  target := .named name
  front := ⟨none, .empty, body.text⟩
  snippet := ⟨body.text, none⟩
  shift := 0

def translationTurns : List Turn := [
  ⟨"<lang>".text, ⟨"<lang>".text, none, none⟩, plainSite "en" "Text"⟩,
  ⟨"b".text, ⟨"b".text, none, none⟩, plainSite "b" "More"⟩]

theorem translation_turns : translation.Turns translationFrame translationTurns where
  arguments := by decide +kernel
  read := by decide +kernel
  opens := List.forall_mem_cons.2
    ⟨⟨⟨"en".text, ["lang".text], Except.ok_of_toOption (by decide +kernel), by decide,
      by decide +kernel⟩, by decide +kernel, by decide +kernel, rfl, rfl⟩,
    List.forall_mem_singleton.2 ⟨⟨"b".text, [], Except.ok_of_toOption (by decide +kernel),
      by decide, by decide +kernel⟩, by decide +kernel, by decide +kernel, rfl, rfl⟩⟩
  last := by decide +kernel

theorem expandFile_within_collection_of_translation :
    translation.KeepsPaths (.named "main") ∧
      translation.workspace.SettlesPaths (.named "main") translation.rootScope ∧
      (∀ target, translation.ComputesTarget (.named "main") target →
        translation.workspace.CollectsTarget (.named "main") target) ∧
      ∀ event ∈ (translation.expandFile [] (.named "main") .empty).events,
        translation.Foreseen (.named "main")
          (collect translation.workspace [] (.named "main") .empty).events event := by
  have hroot : collect translation.workspace [] (.named "main") .empty =
      ⟨(collect translation.workspace [] (.named "main") .empty).events,
        .ok translation.rootScope⟩ := Run.ext rfl (Except.ok_of_toOption (by decide +kernel))
  have hkeeps : translation.KeepsPaths (.named "main") := by
    intro fr file front hfr hlast hfront path hpath
    have hmain : translation.workspace.front? (.named "main") =
        some (FrontMatter.split translatedEntry.text) := by decide +kernel
    rcases hfr.eq_or_exists_turn hmain translation_turns with rfl | ⟨turn, hturn, rfl⟩
    · obtain rfl : Path.named "main" = file := Option.some.inj hlast
      obtain rfl := Option.some.inj (hmain.symm.trans hfront)
      revert path
      decide +kernel
    · change path ∈ includePaths (translation.arguments (turn.site.frame translationFrame)) at hpath
      rw [translation_turns.last turn hturn] at hpath
      cases hpath
  have hscalar (name : Text) (items : List (Option Text)) :
      translation.rootScope.get? name ≠ some (.list items) := by
    have hentries : translation.rootScope.entries = [("lang".text, .scalar (some "en".text))] := by
      decide +kernel
    rw [Scope.get?, hentries, List.lookup_cons]
    split
    · rintro ⟨⟩
    · rintro ⟨⟩
  have hsettles := Workspace.settlesPaths_of_scalars hroot
    fun _ _ _ _ _ _ _ _ _ _ name _ items => hscalar name items
  obtain ⟨htargets, -, hevents⟩ := expandFile_within_collection rfl hroot hkeeps hsettles
  exact ⟨hkeeps, hsettles, htargets, hevents⟩

/-- A list that is declared deeper turns the variable into a path of two names, which leads nowhere
although nothing was missing before. -/
theorem list_below_misleads :
    let misled := translated "---\nlang:\n - fr\n---\n" (.list [some "en".text, some "fr".text])
    (collect misled.workspace [] (.named "main") .empty).outcome = .ok misled.rootScope ∧
      ∃ m, Event.missing m ∈ (misled.expandFile [] (.named "main") .empty).events ∧
        Event.missing m ∉ (collect misled.workspace [] (.named "main") .empty).events :=
  ⟨Except.ok_of_toOption (by decide +kernel),
    ⟨"en,fr".text, some "main".text, ["lang".text]⟩, by decide +kernel, by decide +kernel⟩

end Expander
end Transclude

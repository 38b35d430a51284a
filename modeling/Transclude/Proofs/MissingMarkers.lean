import Transclude.Proofs.IncludeGraph
import Transclude.Proofs.LenientFaults

/-! Markers in place of missing includes. An expansion that ends with a value has been through every
frame that it gets to, so each include in them that leads to no file has been noted. -/

namespace Transclude

namespace Run

variable {α β : Type} {events : List Event}

/-- Whether a run ends with a value and all that happens in it is among some events. -/
structure Within (x : Run α) (events : List Event) : Prop where
  ends : ∃ a, x.outcome = .ok a
  among : ∀ event ∈ x.events, event ∈ events

theorem within_self {x : Run α} {a : α} (h : x.outcome = .ok a) : x.Within x.events :=
  ⟨⟨a, h⟩, fun _ hevent => hevent⟩

theorem Within.of_bind {x : Run α} {f : α → Run β} (h : (x >>= f).Within events) :
    ∃ a, x.outcome = .ok a ∧ x.Within events ∧ (f a).Within events := by
  obtain ⟨⟨b, hb⟩, hamong⟩ := h
  obtain ⟨a, ha, hf⟩ := outcome_bind_eq_ok_iff.1 hb
  rw [bind_of_ok ha] at hamong
  exact ⟨a, ha, ⟨⟨a, ha⟩, fun event hevent => hamong event (List.mem_append_left _ hevent)⟩,
    ⟨⟨b, hf⟩, fun event hevent => hamong event (List.mem_append_right _ hevent)⟩⟩

theorem events_map (f : α → β) (x : Run α) : (f <$> x).events = x.events := by
  rw [map_eq_pure_bind]
  cases hx : x.outcome with
  | error fault => rw [bind_of_error hx]
  | ok a => rw [bind_of_ok hx, events_pure, List.append_nil]

theorem within_map_iff {x : Run α} {f : α → β} : (f <$> x).Within events ↔ x.Within events := by
  constructor
  · rintro ⟨⟨b, hb⟩, hamong⟩
    obtain ⟨a, ha, -⟩ := outcome_map_eq_ok_iff.1 hb
    exact ⟨⟨a, ha⟩, events_map f x ▸ hamong⟩
  · rintro ⟨⟨a, ha⟩, hamong⟩
    exact ⟨⟨f a, outcome_map_eq_ok_iff.2 ⟨a, ha, rfl⟩⟩, (events_map f x).symm ▸ hamong⟩

end Run

theorem Token.within_of_pass {replace : Directive → Run Text} {tokens : List Token}
    {events : List Event} {d : Directive} (h : (pass replace tokens).Within events)
    (hd : .found d ∈ tokens) : (replace d).Within events := by
  induction tokens with
  | nil => cases hd
  | cons token rest ih =>
    cases token with
    | plain s => exact ih (Run.within_map_iff.1 h) ((List.mem_cons.1 hd).resolve_left nofun)
    | found other =>
      obtain ⟨s, -, hother, hrest⟩ := h.of_bind
      rcases List.mem_cons.1 hd with heq | hmem
      · obtain rfl := Chunk.found.inj heq
        exact hother
      · exact ih (Run.within_map_iff.1 hrest) hmem

namespace Expander

/-- Whether an include of a frame leads to no file. What is missing is described by `m`. -/
structure Misses (x : Expander) (fr : Frame) (i : Include) (m : MissingInclude) : Prop where
  path : ∃ written,
    fillTemplate [x.rootScope, fr.scope] (fr.chain.getLast?.getD fr.base).toText i.path =
      .ok (written, m.placeholders) ∧ written ≠ [] ∧
    x.workspace.target fr.base written ∉ fr.chain ∧
    x.workspace.tree.lookup (x.workspace.target fr.base written) = .missing ∧
    m.path = x.workspace.display (x.workspace.target fr.base written)
  source : m.source? = fr.chain.getLast?.map x.workspace.display

variable {x : Expander} {entry : Path} {fr : Frame} {i : Include} {m : MissingInclude}
  {events : List Event}

theorem Misses.expandInclude_eq (hw : x.workspace.settings.strictMode = false)
    (h : x.Misses fr i m) : ∃ target,
      x.expandInclude fr.chain fr.base fr.scope fr.offset i =
        ⟨[.notFound target, .missing m], .ok m.marker⟩ := by
  obtain ⟨⟨written, hfill, hwritten, hfresh, hlookup, hpath⟩, hsource⟩ := h
  obtain ⟨path, source?, placeholders⟩ := m
  obtain rfl : path = _ := hpath
  obtain rfl : source? = _ := hsource
  have hnone : x.workspace.tree.entryAt? (x.workspace.target fr.base written).names = none := by
    unfold Tree.lookup at hlookup
    split at hlookup
    · cases hlookup
    · assumption
  refine ⟨x.workspace.target fr.base written, ?_⟩
  rw [Expander.expandInclude_eq, hfill]
  change (if written = [] then pure [] else x.expandTarget _ _ _ _ _ _) = _
  rw [if_neg hwritten, expandTarget, if_neg hfresh, hnone]
  dsimp only
  rw [hlookup]
  change (Run.emit _ >>= fun _ => x.workspace.reportMissing _ _ _) = _
  rw [Workspace.reportMissing_eq hw]
  rfl

/-- The include directives of a frame that has been expanded have been expanded. -/
theorem within_expandInclude (h : (x.expandFrame fr).Within events) {argument : Text}
    (hargument : argument ∈ x.arguments fr) (hread : Include.parse? argument = some i) :
    (x.expandInclude fr.chain fr.base fr.scope fr.offset i).Within events := by
  rw [expandFrame_eq_embed] at h
  obtain ⟨-, -, hfill, -⟩ := h.of_bind
  obtain ⟨resolved, hresolved, -, hrest⟩ := hfill.of_bind
  obtain ⟨-, -, hput, -⟩ := hrest.of_bind
  have hdirective : .found (.includeFile argument) ∈ Token.tokenize resolved := by
    rw [arguments, hresolved] at hargument
    obtain ⟨token, htoken, hsome⟩ := List.mem_filterMap.1 hargument
    split at hsome
    · obtain rfl := Option.some.inj hsome
      exact htoken
    · cases hsome
  have hputIn := Token.within_of_pass hput hdirective
  rw [putIn, includeReplaced, Include.read, hread] at hputIn
  exact hputIn

/-- What an expansion gets to it has expanded, if it ends with a value. -/
theorem Reaches.within (hentry : (x.expandFile [] entry .empty).Within events)
    (h : x.Reaches entry fr) : (x.expandFrame fr).Within events := by
  induction h with
  | @entry front hfront =>
    obtain ⟨found, source, hfound, hread, rfl⟩ := Workspace.exists_read_of_front? hfront
    have hbody : Expanded.body <$> x.expandFile [] entry .empty = _ :=
      body_expandFile hfound .empty
    rw [hread, pure_bind] at hbody
    rw [← Run.within_map_iff, hbody] at hentry
    obtain ⟨-, -, -, hcontent⟩ := hentry.of_bind
    exact hcontent
  | @through fr argument i t hfr hargument hread hopens ih =>
    have hinclude := within_expandInclude ih hargument hread
    rw [expandInclude_eq_of_opens hopens] at hinclude
    obtain ⟨-, -, -, hsite⟩ := hinclude.of_bind
    exact Run.within_map_iff.1 hsite

/-- Whether an expansion of an entry comes to an include that leads to no file, for which it puts a
marker in. -/
def Marks (x : Expander) (entry : Path) (m : MissingInclude) : Prop :=
  ∃ fr argument i, x.Reaches entry fr ∧ argument ∈ x.arguments fr ∧
    Include.parse? argument = some i ∧ x.Misses fr i m

theorem Marks.noted (hw : x.workspace.settings.strictMode = false)
    (hentry : (x.expandFile [] entry .empty).Within events) (h : x.Marks entry m) :
    .missing m ∈ events := by
  obtain ⟨fr, argument, i, hfr, hargument, hread, hmisses⟩ := h
  obtain ⟨target, hmarker⟩ := hmisses.expandInclude_eq hw
  have hwithin := within_expandInclude (hfr.within hentry) hargument hread
  rw [hmarker] at hwithin
  exact hwithin.among _ (List.mem_cons_of_mem _ List.mem_cons_self)

end Expander

end Transclude

import Transclude.Proofs.ConsultedNames
import Transclude.Session

/-! Values that are put into a text. They may look like directives, but what looks for includes and
conditional regions never gets to see them: two expansions whose root scopes agree on the variables
that steer them do the same, step for step, but for the values that they put in. -/

namespace Transclude

def Event.isSubstitution : Event → Bool
  | .substituted _ _ => true
  | _ => false

namespace Run

variable {α β γ δ : Type}

/-- What happens in a run, the values aside that it puts in. -/
def trail (x : Run α) : List Event := x.events.filter (!·.isSubstitution)

/-- Whether two runs, if both end with a value, do the same but for the values that they put in. -/
def Parallel (x : Run α) (y : Run β) : Prop :=
  ∀ a b, x.outcome = .ok a → y.outcome = .ok b → x.trail = y.trail

theorem Parallel.refl (x : Run α) : Parallel x x := fun _ _ _ _ => rfl

theorem trail_bind {x : Run α} {a : α} (h : x.outcome = .ok a) (f : α → Run β) :
    (x >>= f).trail = x.trail ++ (f a).trail := by
  rw [bind_of_ok h]
  exact List.filter_append _ _

theorem Parallel.bind {x : Run α} {y : Run β} {f : α → Run γ} {g : β → Run δ} (h : Parallel x y)
    (hfg : ∀ a b, x.outcome = .ok a → y.outcome = .ok b → Parallel (f a) (g b)) :
    Parallel (x >>= f) (y >>= g) := by
  intro c d hc hd
  obtain ⟨a, ha, hfa⟩ := outcome_bind_eq_ok_iff.1 hc
  obtain ⟨b, hb, hgb⟩ := outcome_bind_eq_ok_iff.1 hd
  rw [trail_bind ha, trail_bind hb, h a b ha hb, hfg a b ha hb c d hfa hgb]

theorem Parallel.bind_same {x : Run α} {f : α → Run γ} {g : α → Run δ}
    (h : ∀ a, x.outcome = .ok a → Parallel (f a) (g a)) : Parallel (x >>= f) (x >>= g) := by
  refine (Parallel.refl x).bind fun a b ha hb => ?_
  obtain rfl := Except.ok.inj (ha.symm.trans hb)
  exact h a ha

theorem Parallel.map {x : Run α} {y : Run β} (h : Parallel x y) (f : α → γ) (g : β → δ) :
    Parallel (f <$> x) (g <$> y) := by
  rw [map_eq_pure_bind, map_eq_pure_bind]
  exact h.bind fun a b _ _ _ _ _ _ => rfl

theorem parallel_of_emits {x : Run α} {y : Run β} (hx : Emits (·.isSubstitution) x)
    (hy : Emits (·.isSubstitution) y) : Parallel x y := by
  have hnone {γ : Type} {z : Run γ} (hz : Emits (·.isSubstitution) z) : z.trail = [] :=
    List.filter_eq_nil_iff.2 fun event hevent => by simp [hz event hevent]
  intro a b _ _
  rw [hnone hx, hnone hy]

end Run

namespace Session

theorem after_eq_of_ok {α : Type} {run : Run α} {a : α} (h : run.outcome = .ok a) :
    fresh.after run = run.trail.foldl observe fresh := by
  have hobserve : (fun s event => if !event.isSubstitution then observe s event else s) =
      observe := by
    funext s event
    cases event <;> rfl
  unfold after Run.trail
  rw [h, List.foldl_filter, hobserve]

end Session

open Run (Parallel)

theorem Token.parallel_pass {replace replace' : Directive → Run Text} {tokens : List Token}
    (h : ∀ d, .found d ∈ tokens → Parallel (replace d) (replace' d)) :
    Parallel (pass replace tokens) (pass replace' tokens) := by
  induction tokens with
  | nil => exact .refl _
  | cons token rest ih =>
    have hrest := ih fun d hd => h d (List.mem_cons_of_mem token hd)
    cases token with
    | plain s => exact hrest.map _ _
    | found d => exact (h d List.mem_cons_self).bind fun s t _ _ => hrest.map _ _

theorem parallel_includeReplaced {expand expand' : Include → Run Text} {d : Directive}
    (h : ∀ argument i, d = .includeFile argument → Include.parse? argument = some i →
      Parallel (expand i) (expand' i)) :
    Parallel (includeReplaced expand d) (includeReplaced expand' d) := by
  cases d with
  | includeFile argument =>
    refine Parallel.bind_same fun i hi => h argument i rfl ?_
    exact Include.parse?_of_read (Run.ofExcept_eq_ok_iff.1 (Run.ext rfl hi)).2
  | _ => exact .refl _

namespace Expander

def under (x : Expander) (root : Scope) : Expander := { x with rootScope := root }

variable {x : Expander} {entry : Path} {root : Scope}

theorem workspace_under : (x.under root).workspace = x.workspace := rfl

section

variable (hagree : ∀ name, x.Consults entry name → root.get? name = x.rootScope.get? name)
include hagree

/-- The step: an include that an expansion comes to is followed alike. -/
theorem parallel_expandInclude {fr : Frame} (hfr : x.Reaches entry fr) {argument : Text}
    (hargument : argument ∈ x.arguments fr) {i : Include} (hread : Include.parse? argument = some i)
    (hinner : ∀ t, x.Opens fr.chain fr.base fr.scope fr.offset i t →
      Parallel (x.expandFrame (t.frame fr)) ((x.under root).expandFrame (t.frame fr))) :
    Parallel (x.expandInclude fr.chain fr.base fr.scope fr.offset i)
      ((x.under root).expandInclude fr.chain fr.base fr.scope fr.offset i) := by
  have hfill : fillTemplate [root, fr.scope] (fr.chain.getLast?.getD fr.base).toText i.path =
      fillTemplate [x.rootScope, fr.scope] (fr.chain.getLast?.getD fr.base).toText i.path :=
    fillTemplate_congr fun name hname =>
      hagree name ⟨fr, hfr, .inr ⟨argument, i, hargument, hread, hname⟩⟩
  -- Both roots name the same target, so from here on the two go the same way.
  rw [expandInclude_eq, expandInclude_eq]
  change Parallel (.ofExcept _ >>= _) (.ofExcept (fillTemplate [root, fr.scope] _ _) >>= _)
  rw [hfill]
  refine Parallel.bind_same fun filled hfilled => ?_
  obtain ⟨written, names⟩ := filled
  have hwas := (Run.ofExcept_eq_ok_iff.1 (Run.ext rfl hfilled)).2
  dsimp only
  split
  · exact .refl _
  rename_i hwritten
  change Parallel (x.expandTarget _ _ _ _ _ (x.workspace.target fr.base written))
    ((x.under root).expandTarget _ _ _ _ _ (x.workspace.target fr.base written))
  unfold expandTarget
  split
  · exact .refl _
  rename_i hfresh
  rw [workspace_under]
  split
  · exact .refl _
  rename_i found hentry
  refine Parallel.bind_same fun _ _ => Parallel.bind_same fun source hsource => ?_
  refine Parallel.bind_same fun t ht => Parallel.map ?_ _ _
  have hsite := (Run.ofExcept_eq_ok_iff.1 (Run.ext rfl ht)).2
  have hread := (Workspace.read_eq_ok_iff.1 (Run.ext rfl hsource)).2
  have hfront := Workspace.front?_eq_some_iff.2 ⟨_, _, hentry, hread, rfl⟩
  exact hinner t (opens_of_siteIn hwas hwritten hfresh hfront hsite)

/-- The run: below a frame that an expansion gets to, the same happens. -/
theorem parallel_expandFrame (hx : x.embedImages = false) {fr : Frame} (hfr : x.Reaches entry fr) :
    Parallel (x.expandFrame fr) ((x.under root).expandFrame fr) := by
  induction hfr using Reaches.induction_below with
  | step fr hfr ih =>
    have hresolve : resolveConditionals root (currentFile fr.chain) fr.body =
        resolveConditionals x.rootScope (currentFile fr.chain) fr.body :=
      resolveConditionals_congr fun name hname => hagree name ⟨fr, hfr, .inl hname⟩
    rw [expandFrame_eq hx, expandFrame_eq (x := x.under root) hx]
    change Parallel _ (resolveConditionals root _ _ >>= _)
    rw [hresolve]
    refine Parallel.bind_same fun resolved hresolved => ?_
    refine (Token.parallel_pass fun d hd => ?_).bind fun joined joined' _ _ => ?_
    · refine parallel_includeReplaced fun argument i hd' hread => ?_
      have hargument := mem_arguments hresolved (hd' ▸ hd)
      exact parallel_expandInclude hagree hfr hargument hread fun _ => ih hargument hread
    · -- Whatever has been put in, what is left to be done is to put in more.
      have hemits (y : Expander) (tokens : List Token) :
          Run.Emits (·.isSubstitution) (Token.pass (y.fillIn fr) tokens) :=
        Token.emits_pass fun d _ => emits_substituteToken (fun _ _ => rfl) _ _ _
      exact Run.parallel_of_emits (hemits x _) (hemits (x.under root) _)

theorem parallel_expandFile (hx : x.embedImages = false) :
    Parallel (x.expandFile [] entry .empty) ((x.under root).expandFile [] entry .empty) := by
  unfold expandFile
  rw [workspace_under]
  split
  · exact .refl _
  rename_i found hentry
  refine Parallel.bind_same fun _ _ => Parallel.bind_same fun source hsource => ?_
  have hread := (Workspace.read_eq_ok_iff.1 (Run.ext rfl hsource)).2
  have hfront := Workspace.front?_eq_some_iff.2 ⟨found, source, hentry, hread, rfl⟩
  exact (parallel_expandFrame hagree hx (.entry hfront)).bind fun _ _ _ _ _ _ _ _ => rfl

end

/-- The values of variables that no condition and no include path asks for cannot steer an expansion.
Whatever they are, the same files are opened, the same arms are kept and the same includes are
missed, all in the same order, and the same diagnostics are recorded. -/
theorem expandFile_steered_by_consulted (hx : x.embedImages = false)
    (hagree : ∀ name, x.Consults entry name → root.get? name = x.rootScope.get? name)
    {expanded other : Expanded} (hexpanded : (x.expandFile [] entry .empty).outcome = .ok expanded)
    (hother : ((x.under root).expandFile [] entry .empty).outcome = .ok other) :
    ((x.under root).expandFile [] entry .empty).events.filter (!·.isSubstitution) =
        (x.expandFile [] entry .empty).events.filter (!·.isSubstitution) ∧
      Session.fresh.after ((x.under root).expandFile [] entry .empty) =
        Session.fresh.after (x.expandFile [] entry .empty) := by
  have htrail := parallel_expandFile hagree hx expanded other hexpanded hother
  refine ⟨htrail.symm, ?_⟩
  rw [Session.after_eq_of_ok hexpanded, Session.after_eq_of_ok hother, htrail]

end Expander

namespace Memo

def mainText : String :=
  "\x7b!if mode=a!\x7d\x7b!include(<dir>)!\x7d\x7b!endif!\x7d\x7b!var(note)!\x7d"

def partText : String := "\x7b!var(note)!\x7d"

def expander : Expander where
  workspace := .holding [("main", mainText), ("part", partText), ("secret", "Secret")]
  rootScope := .ofList [("mode".text, .scalar (some "a".text)),
    ("dir".text, .scalar (some "part".text)), ("note".text, .scalar (some "Plain".text))]
  embedImages := false

def forged : Scope := expander.rootScope.insert "note".text
  (.scalar (some "\x7b!include(secret)!\x7d\x7b!if mode=b!\x7d".text))

def mainFrame : Frame :=
  Expander.entryFrame [] (.named "main") ⟨none, .empty, mainText.text⟩ .empty

def partSite : Site where
  target := .named "part"
  front := ⟨none, .empty, partText.text⟩
  snippet := ⟨partText.text, none⟩
  shift := 0

def turns : List Expander.Turn := [⟨"<dir>".text, ⟨"<dir>".text, none, none⟩, partSite⟩]

theorem main_turns : expander.Turns mainFrame turns where
  arguments := by decide +kernel
  read := by decide +kernel
  opens := List.forall_mem_singleton.2
    ⟨⟨"part".text, ["dir".text], Except.ok_of_toOption (by decide +kernel), by decide,
      by decide +kernel⟩, by decide +kernel, by decide +kernel, rfl, rfl⟩
  last := by decide +kernel

theorem ne_note_of_consults {name : Text} (h : expander.Consults (.named "main") name) :
    name ≠ "note".text := by
  obtain ⟨fr, hfr, hname⟩ := h
  have hmain : expander.workspace.front? (.named "main") = some ⟨none, .empty, mainText.text⟩ := by
    decide +kernel
  rcases hfr.eq_or_exists_turn hmain main_turns with rfl | ⟨turn, hturn, rfl⟩
  · rcases hname with hname | ⟨argument, i, hargument, hread, hname⟩
    · revert name
      decide +kernel
    · obtain ⟨t, hmem⟩ := main_turns.exists_of_read hargument hread
      obtain ⟨rfl, rfl, rfl⟩ := Expander.Turn.mk.inj (List.mem_singleton.1 hmem)
      revert name
      decide +kernel
  · rcases hname with hname | ⟨argument, i, hargument, -, -⟩
    · obtain rfl := List.mem_singleton.1 hturn
      revert name
      decide +kernel
    · change argument ∈ expander.arguments (turn.site.frame mainFrame) at hargument
      rw [main_turns.last turn hturn] at hargument
      cases hargument

theorem steered_by_consulted :
    (∀ name, expander.Consults (.named "main") name →
        forged.get? name = expander.rootScope.get? name) ∧
      ((expander.under forged).expandFile [] (.named "main") .empty).events.filter
          (!·.isSubstitution) =
        [.processing (.named "main"), .kept 0, .including (.named "part")] ∧
      Session.fresh.after ((expander.under forged).expandFile [] (.named "main") .empty) =
        .fresh := by
  have hagree (name : Text) (h : expander.Consults (.named "main") name) :
      forged.get? name = expander.rootScope.get? name := by
    rw [forged, Scope.get?_insert, if_neg (ne_note_of_consults h)]
  have hplain : (expander.expandFile [] (.named "main") .empty).outcome =
      .ok ⟨"PlainPlain".text, none, .empty⟩ := Except.ok_of_toOption (by decide +kernel)
  have hforged : ((expander.under forged).expandFile [] (.named "main") .empty).outcome =
      .ok ⟨"\x7b!include(secret)!\x7d\x7b!if mode=b!\x7d".text ++
        "\x7b!include(secret)!\x7d\x7b!if mode=b!\x7d".text, none, .empty⟩ :=
    Except.ok_of_toOption (by decide +kernel)
  have hsteps : (expander.expandFile [] (.named "main") .empty).events.filter
      (!·.isSubstitution) =
      [.processing (.named "main"), .kept 0, .including (.named "part")] := by
    decide +kernel
  have hsession : Session.fresh.after (expander.expandFile [] (.named "main") .empty) =
      .fresh := by
    decide +kernel
  obtain ⟨htrail, hafter⟩ := Expander.expandFile_steered_by_consulted rfl hagree hplain hforged
  exact ⟨hagree, htrail.trans hsteps, hafter.trans hsession⟩

end Memo

end Transclude

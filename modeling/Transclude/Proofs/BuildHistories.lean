import Transclude.Proofs.RunInversion
import Transclude.Build

/-! One builder in use. Between its builds the files and the options may change and messages may be
recorded, and a build may be cut short anywhere. Each build is what a new builder would make of the
files and options of that time. -/

namespace Transclude

namespace Builder

def reset (b : Builder) : Builder := { b with session := .fresh }

def notice (b : Builder) : Event → Builder
  | .scopeCollected scope => { b with rootScope := scope }
  | event => { b with session := b.session.observe event }

def conclude (b : Builder) : Except Fault Text → Builder
  | .ok _ => b
  | .error (.problem p) => { b with session := b.session.fail p.message }
  | .error fault => { b with session := b.session.record fault.message }

/-- Whether two builders are the same, but for their root scopes unless these are `collected`. -/
structure Agrees (collected : Prop) (b c : Builder) : Prop where
  entry : b.entry = c.entry
  options : b.options = c.options
  session : b.session = c.session
  rootScope : collected → b.rootScope = c.rootScope

variable {b c : Builder} {collected : Prop}

theorem Agrees.after_event (h : Agrees collected b c) (event : Event) :
    Agrees (collected ∨ ∃ scope, event = .scopeCollected scope) (b.notice event)
      (c.notice event) := by
  have hsession : b.session.observe event = c.session.observe event := by rw [h.session]
  cases event with
  | scopeCollected scope => exact ⟨h.entry, h.options, h.session, fun _ => rfl⟩
  | _ =>
    refine ⟨h.entry, h.options, hsession, ?_⟩
    rintro (hcollected | ⟨scope, hscope⟩)
    · exact h.rootScope hcollected
    · cases hscope

theorem Agrees.after_events (h : Agrees collected b c) (events : List Event) :
    Agrees (collected ∨ ∃ scope, .scopeCollected scope ∈ events) (events.foldl notice b)
      (events.foldl notice c) := by
  induction events generalizing b c collected with
  | nil =>
    refine ⟨h.entry, h.options, h.session, ?_⟩
    rintro (hcollected | ⟨scope, hscope⟩)
    · exact h.rootScope hcollected
    · cases hscope
  | cons event events ih =>
    have hrest := ih (h.after_event event)
    refine ⟨hrest.entry, hrest.options, hrest.session, fun hcollected => hrest.rootScope ?_⟩
    rcases hcollected with hcollected | ⟨scope, hscope⟩
    · exact .inl (.inl hcollected)
    · rcases List.mem_cons.1 hscope with hfirst | hlater
      · exact .inl (.inr ⟨scope, hfirst.symm⟩)
      · exact .inr ⟨scope, hlater⟩

theorem Agrees.after_end (h : Agrees collected b c) (outcome : Except Fault Text) :
    Agrees collected (b.conclude outcome) (c.conclude outcome) := by
  cases outcome with
  | ok document => exact h
  | error fault =>
    cases fault <;> exact ⟨h.entry, h.options, by simp only [conclude, h.session], h.rootScope⟩

theorem foldl_notice (b : Builder) (events : List Event) :
    events.foldl notice b =
      { b with
        session := events.foldl Session.observe b.session
        rootScope := scopeAfter b.rootScope events } := by
  induction events generalizing b with
  | nil => rfl
  | cons event events ih => cases event <;> exact ih _

theorem build_eq_conclude (b : Builder) (w : Workspace) :
    (b.build w).1 =
      ((Transclude.build w b.options b.entry).events.foldl notice b.reset).conclude
        (Transclude.build w b.options b.entry).outcome := by
  rw [foldl_notice, Builder.build, sessionOf, Session.after]
  cases (Transclude.build w b.options b.entry).outcome with
  | ok document => rfl
  | error fault => cases fault <;> rfl

end Builder

theorem collected_of_build {w : Workspace} {options : Options} {entry : Path} {document : Text}
    (h : (Transclude.build w options entry).outcome = .ok document) :
    ∃ scope, .scopeCollected scope ∈ (Transclude.build w options entry).events := by
  obtain ⟨-, -, h⟩ := Run.outcome_bind_eq_ok_iff.1 h
  obtain ⟨scope, hscope, h⟩ := Run.outcome_bind_eq_ok_iff.1 h
  refine ⟨scope, ?_⟩
  rw [Transclude.build, Run.bind_of_ok rfl, Run.bind_of_ok hscope, Run.bind_of_ok rfl]
  simp [Run.emit]

/-- What a build shows: how it ended and what was logged, its diagnostics, and its root scope if it
has succeeded. -/
structure BuildView where
  outcome : Except Fault Text
  log : List LogLine
  diagnostics : List Text
  rootScope? : Option Scope

namespace Builder

variable {b c : Builder}

def view (b : Builder) (w : Workspace) : BuildView :=
  let (after, report) := b.build w
  ⟨report.outcome, report.log, after.session.diagnostics,
    report.outcome.toOption.map fun _ => after.rootScope⟩

theorem view_congr (hentry : b.entry = c.entry) (hoptions : b.options = c.options)
    (w : Workspace) : b.view w = c.view w := by
  have hclean : Agrees False b.reset c.reset := ⟨hentry, hoptions, rfl, False.elim⟩
  have hbuilt : Transclude.build w b.options b.entry = Transclude.build w c.options c.entry := by
    rw [hentry, hoptions]
  have hreport : (b.build w).2 = (c.build w).2 := by
    simp only [Builder.build, hbuilt]
  have hagrees := (hclean.after_events
    (Transclude.build w c.options c.entry).events).after_end
      (Transclude.build w c.options c.entry).outcome
  have hafter := b.build_eq_conclude w
  rw [hbuilt] at hafter
  rw [← hafter, ← c.build_eq_conclude w] at hagrees
  have hscope : (b.build w).2.outcome.toOption.map (fun _ => (b.build w).1.rootScope) =
      (c.build w).2.outcome.toOption.map (fun _ => (c.build w).1.rootScope) := by
    rw [hreport]
    cases houtcome : (c.build w).2.outcome with
    | error fault => rfl
    | ok document =>
      have hcollected := collected_of_build (h := houtcome)
      exact congrArg some (hagrees.rootScope (.inr hcollected))
  unfold view
  simp only [hreport, hagrees.session] at hscope ⊢
  rw [hscope]

end Builder

inductive BuilderStep where
  | compile
  | write (names : List Text) (entry : Entry)
  | delete (names : List Text)
  | choose (options : Options)
  | record (message : Text)

structure Workbench where
  workspace : Workspace
  builder : Builder

namespace Workbench

def step (bench : Workbench) : BuilderStep → Workbench
  | .compile => { bench with builder := (bench.builder.build bench.workspace).1 }
  | .write names entry =>
    { bench with workspace.tree := bench.workspace.tree.place names entry }
  | .delete names => { bench with workspace.tree := bench.workspace.tree.erase names }
  | .choose options => { bench with builder.options := options }
  | .record message => { bench with builder.session := bench.builder.session.record message }

def views (bench : Workbench) : List BuilderStep → List BuildView
  | [] => []
  | .compile :: rest => bench.builder.view bench.workspace :: (bench.step .compile).views rest
  | step :: rest => (bench.step step).views rest

end Workbench

structure Surroundings where
  workspace : Workspace
  options : Options

namespace Surroundings

def step (s : Surroundings) : BuilderStep → Surroundings
  | .write names entry => { s with workspace.tree := s.workspace.tree.place names entry }
  | .delete names => { s with workspace.tree := s.workspace.tree.erase names }
  | .choose options => { s with options }
  | .compile | .record _ => s

def freshView (s : Surroundings) (entry : Text) : Except Problem BuildView :=
  (Builder.create s.workspace s.options entry).map (·.view s.workspace)

def freshViews (entry : Text) (s : Surroundings) : List BuilderStep → List (Except Problem BuildView)
  | [] => []
  | .compile :: rest => s.freshView entry :: (s.step .compile).freshViews entry rest
  | step :: rest => (s.step step).freshViews entry rest

end Surroundings

/-- Whether a builder is one for an entry, with the options and files that there are. -/
structure Workbench.Follows (bench : Workbench) (entry : Text) (s : Surroundings) : Prop where
  named : entry ≠ []
  workspace : bench.workspace = s.workspace
  entry : bench.builder.entry = s.workspace.absolute (.ofText entry)
  options : bench.builder.options = s.options

namespace Workbench.Follows

variable {bench : Workbench} {entry : Text} {s : Surroundings}

theorem step (h : bench.Follows entry s) (step : BuilderStep) :
    (bench.step step).Follows entry (s.step step) := by
  obtain ⟨hnamed, hworkspace, hentry, hoptions⟩ := h
  cases step with
  | compile => exact ⟨hnamed, hworkspace, hentry, hoptions⟩
  | record message => exact ⟨hnamed, hworkspace, hentry, hoptions⟩
  | choose options => exact ⟨hnamed, hworkspace, hentry, rfl⟩
  | write names entry =>
    refine ⟨hnamed, ?_, hentry, hoptions⟩
    simp only [Workbench.step, Surroundings.step, hworkspace]
  | delete names =>
    refine ⟨hnamed, ?_, hentry, hoptions⟩
    simp only [Workbench.step, Surroundings.step, hworkspace]

theorem view_eq (h : bench.Follows entry s) :
    .ok (bench.builder.view bench.workspace) = s.freshView entry := by
  have hview : bench.builder.view s.workspace =
      Builder.view ⟨s.workspace.absolute (.ofText entry), s.options, .fresh, .empty⟩ s.workspace :=
    Builder.view_congr h.entry h.options s.workspace
  rw [Surroundings.freshView, Builder.create, if_neg h.named, h.workspace, hview]
  rfl

theorem views_eq (h : bench.Follows entry s) (steps : List BuilderStep) :
    (bench.views steps).map .ok = s.freshViews entry steps := by
  induction steps generalizing bench s with
  | nil => rfl
  | cons step rest ih =>
    have hrest := ih (h.step step)
    cases step with
    | compile =>
      rw [Workbench.views, Surroundings.freshViews, List.map_cons, h.view_eq, hrest]
    | _ => exact hrest

end Workbench.Follows

/-- Every build with one builder shows what a new builder, with a new session, would show for the
files and the options of that time. -/
theorem Builder.views_eq_freshViews {w : Workspace} {options : Options} {entry : Text} {b : Builder}
    (h : Builder.create w options entry = .ok b) (session : Session) (steps : List BuilderStep) :
    (Workbench.views ⟨w, { b with session }⟩ steps).map .ok =
      Surroundings.freshViews entry ⟨w, options⟩ steps := by
  unfold Builder.create at h
  split at h
  · cases h
  · rename_i hnamed
    obtain rfl := Except.ok.inj h
    have hfollows : Workbench.Follows ⟨w, ⟨w.absolute (.ofText entry), options, session, .empty⟩⟩
        entry ⟨w, options⟩ := ⟨hnamed, rfl, rfl, rfl⟩
    exact hfollows.views_eq steps

namespace Workbench

def opening : Workspace := .holding [("main", "---\ntitle: Guide\n---\n\x7b!include(part)!\x7d\n")]

def repairs : List BuilderStep :=
  [.compile, .record "Part is due".text,
    .write ["part".text] (.file (Utf8.encode "\x7b!var(name)!\x7d".text)), .compile,
    .choose ⟨none, true, false⟩,
    .write ["part".text] (.file (Utf8.encode "The \x7b!var(title)!\x7d".text)), .compile]

theorem views_eq_freshViews_of_repairs :
    ∃ b, Builder.create opening ⟨none, false, false⟩ "main".text = .ok b ∧
      (Workbench.views ⟨opening, { b with session := ⟨["Part is due".text]⟩ }⟩ repairs).map .ok =
        Surroundings.freshViews "main".text ⟨opening, ⟨none, false, false⟩⟩ repairs ∧
      (Workbench.views ⟨opening, b⟩ repairs).map (fun v => (v.outcome.toOption, v.diagnostics)) =
        [(some "---\ntitle: Guide\n---\n\n<!-- missing part (from main) -->\n".text,
            ["Included file not found: part (included from main)".text]),
          (none, ["Variable \"name\" is used but not declared or null (referenced in /part).".text]),
          (some "The Guide\n".text, [])] := by
  have hcreate : Builder.create opening ⟨none, false, false⟩ "main".text =
      .ok ⟨opening.absolute (.ofText "main".text), ⟨none, false, false⟩, .fresh, .empty⟩ := rfl
  refine ⟨_, hcreate, Builder.views_eq_freshViews hcreate ⟨["Part is due".text]⟩ repairs, ?_⟩
  decide +kernel

end Workbench

end Transclude

import Transclude.Proofs.MissingMarkers

/-! The diagnostics of a build. If it is not strict they are the notes on missing includes, each made
once, and behind them, if the build was cut short, the message of what ended it. The summary shows
them in that order, and it is logged once, or not at all if there are none. -/

namespace Transclude

open MissingInclude (message)

namespace Session

theorem numbered_eq_mapIdx (start : Nat) (messages : List Text) :
    numbered start messages =
      messages.mapIdx fun i m => Text.ofNat (start + i) ++ ". ".text ++ m := by
  induction messages generalizing start with
  | nil => rfl
  | cons m ms ih =>
    rw [numbered, List.mapIdx_cons, ih]
    have hstart (i : Nat) : start + 1 + i = start + (i + 1) := by omega
    simp only [hstart]
    rfl

end Session

theorem Event.level_pos_of_logLine? {event : Event} {line : LogLine}
    (h : event.logLine? = some line) : 0 < line.level := by
  cases event <;> cases h <;> exact Nat.succ_pos _

theorem filter_level_zero (events : List Event) :
    (events.filterMap Event.logLine?).filter (·.level = 0) = [] := by
  refine List.filter_eq_nil_iff.2 fun line hline => ?_
  obtain ⟨event, -, hevent⟩ := List.mem_filterMap.1 hline
  have hlevel := event.level_pos_of_logLine? hevent
  simpa using Nat.ne_of_gt hlevel

namespace Builder

theorem log_build (b : Builder) (w : Workspace) :
    (b.build w).2.log.filter (·.level = 0) = (b.build w).1.session.report := by
  unfold Builder.build
  dsimp only
  rw [List.filter_append, filter_level_zero, List.nil_append, Session.report]
  split <;> rfl

end Builder

theorem within_of_build {w : Workspace} {options : Options} {entry : Path} {root : Scope}
    {document : Text} (hroot : (collect w [] entry .empty).outcome = .ok root)
    (h : (build w options entry).outcome = .ok document) :
    ((Expander.mk w root options.embedImages).expandFile [] entry .empty).Within
      (build w options entry).events := by
  obtain ⟨-, -, -, hbuild⟩ := (Run.within_self h).of_bind
  obtain ⟨scope, hscope, -, hbuild⟩ := hbuild.of_bind
  obtain rfl := Except.ok.inj (hroot.symm.trans hscope)
  obtain ⟨-, -, -, hbuild⟩ := hbuild.of_bind
  obtain ⟨-, -, hexpand, -⟩ := hbuild.of_bind
  exact hexpand

namespace Builder

/-- The diagnostics of a build that is not strict explain how it ended. They are distinct notes on
missing includes, among them those for all markers in the document, and behind these the message of
the fault, if there is one. The summary numbers them. -/
theorem build_explains_outcome (b : Builder) (w : Workspace)
    (hw : w.settings.strictMode = false) :
    let diagnostics := (b.build w).1.session.diagnostics
    (∃ missed : List MissingInclude, (missed.map message).Nodup ∧
      match (b.build w).2.outcome with
      | .ok _ => diagnostics = missed.map message ∧
          ∀ root, (collect w [] b.entry .empty).outcome = .ok root →
            ∀ m, (Expander.mk w root b.options.embedImages).Marks b.entry m →
              m.message ∈ diagnostics
      | .error fault => diagnostics = missed.map message ++ [fault.message] ∧
          ¬ fault.message.IsMissingNote) ∧
      (b.build w).2.log.filter (·.level = 0) =
        if diagnostics = [] then []
        else
          let headline :=
            "Completed with ".text ++ Text.ofNat diagnostics.length ++ " error(s):".text
          [⟨0, Text.joinWith "\n" (headline :: diagnostics.mapIdx fun i d =>
            Text.ofNat (1 + i) ++ ". ".text ++ d)⟩] := by
  intro diagnostics
  constructor
  · obtain ⟨missed, hnoted, hsession⟩ := exists_noted (Transclude.build w b.options b.entry)
    refine ⟨missed, hnoted.distinct, ?_⟩
    change match (Transclude.build w b.options b.entry).outcome with | .ok _ => _ | .error _ => _
    cases houtcome : (Transclude.build w b.options b.entry).outcome with
    | ok document =>
      rw [houtcome] at hsession
      refine ⟨hsession, fun root hroot m hm => ?_⟩
      have hmissing := hm.noted hw (within_of_build hroot houtcome)
      change m.message ∈ (sessionOf _).diagnostics
      rw [hsession]
      exact hnoted.covers m hmissing
    | error fault =>
      rw [houtcome] at hsession
      exact ⟨hsession, (tolerant_build hw b.options b.entry).not_isMissingNote houtcome⟩
  · rw [log_build, Session.report, Session.summary]
    split
    · rfl
    · rw [Session.numbered_eq_mapIdx]

end Builder

namespace GappedBook

def workspace : Workspace :=
  .holding [("main", "Text\n\x7b!include(part)!\x7d"), ("part", "\x7b!include(gone)!\x7d")]

def builder : Builder := ⟨.named "main", ⟨none, false, false⟩, .fresh, .empty⟩

def expander : Expander := ⟨workspace, .empty, false⟩

def gap : MissingInclude := ⟨"gone".text, some "part".text, []⟩

def mainFront : FrontMatter := ⟨none, .empty, "Text\n\x7b!include(part)!\x7d".text⟩

def mainFrame : Frame := Expander.entryFrame [] (.named "main") mainFront .empty

def partSite : Site where
  target := .named "part"
  front := ⟨none, .empty, "\x7b!include(gone)!\x7d".text⟩
  snippet := ⟨"\x7b!include(gone)!\x7d".text, none⟩
  shift := 0

theorem reaches_part : expander.Reaches (.named "main") (partSite.frame mainFrame) := by
  have hmain : expander.workspace.front? (.named "main") = some mainFront := by decide +kernel
  have hopens : expander.Opens mainFrame.chain mainFrame.base mainFrame.scope mainFrame.offset
      ⟨"part".text, none, none⟩ partSite :=
    ⟨⟨"part".text, [], Except.ok_of_toOption (by decide +kernel), by decide, by decide +kernel⟩,
      by decide +kernel, by decide +kernel, rfl, rfl⟩
  have hargument : "part".text ∈ expander.arguments mainFrame := by decide +kernel
  exact (Expander.Reaches.entry hmain).through hargument (by decide +kernel) hopens

theorem build_explains_outcome_of_gap :
    workspace.settings.strictMode = false ∧
      expander.Marks (.named "main") gap ∧
      gap.message ∈ (builder.build workspace).1.session.diagnostics ∧
      (builder.build workspace).2.log.filter (·.level = 0) =
        [⟨0, "Completed with 1 error(s):\n1. ".text ++ gap.message⟩] := by
  have hmisses : expander.Misses (partSite.frame mainFrame) ⟨"gone".text, none, none⟩ gap :=
    ⟨⟨"gone".text, Except.ok_of_toOption (by decide +kernel), by decide, by decide +kernel,
      by decide +kernel, by decide +kernel⟩, by decide +kernel⟩
  have hmarks : expander.Marks (.named "main") gap :=
    ⟨_, "gone".text, _, reaches_part, by decide +kernel, by decide +kernel, hmisses⟩
  have hroot : (collect workspace [] (.named "main") .empty).outcome = .ok .empty :=
    Except.ok_of_toOption (by decide +kernel)
  obtain ⟨document, hbuild⟩ : ∃ document, (builder.build workspace).2.outcome = .ok document :=
    ⟨_, Except.ok_of_toOption (a := "Text\n<!-- missing gone (from part) -->\n".text)
      (by decide +kernel)⟩
  obtain ⟨⟨missed, -, hexplained⟩, hlog⟩ := Builder.build_explains_outcome builder workspace rfl
  rw [hbuild] at hexplained
  refine ⟨rfl, hmarks, hexplained.2 .empty hroot gap hmarks, ?_⟩
  have hdiagnostics : (builder.build workspace).1.session.diagnostics = [gap.message] := by
    decide +kernel
  rw [hlog, hdiagnostics]
  decide +kernel

end GappedBook

end Transclude

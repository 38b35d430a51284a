import Transclude.Build
import Transclude.Proofs.BodyPasses
import Transclude.Proofs.Sources
import Transclude.Proofs.WalkDepth

/-! Documents in which no directive can start outside fences. Nothing is collected for them but their
own variables, every pass leaves them as they are, and no diagnostics arise. -/

namespace Transclude

namespace Text

/-- Whether nothing in a text looks like the start of a directive. -/
def Bare (s : Text) : Prop := ¬ "\x7b!".text <:+: s

variable {s t : Text} {c : Char}

theorem Bare.of_infix (h : t.Bare) (hs : s <:+: t) : s.Bare := fun hmark => h (hmark.trans hs)

theorem bare_cons_iff : Bare (c :: s) ↔ ¬ (c = '\x7b' ∧ s.head? = some '!') ∧ s.Bare := by
  have hfront : "\x7b!".text <+: c :: s ↔ c = '\x7b' ∧ s.head? = some '!' := by
    have hmark : "\x7b!".text = ['\x7b', '!'] := rfl
    rw [hmark, List.cons_prefix_cons, eq_comm]
    cases s with
    | nil => simp
    | cons d s => simp [List.cons_prefix_cons, eq_comm]
  rw [Bare, List.infix_cons_iff, hfront, not_or]
  rfl

theorem head?_of_head?_unifyEndings (hc : c ≠ '\n') (h : (Tree.unifyEndings s).head? = some c) :
    s.head? = some c := by
  unfold Tree.unifyEndings at h
  split at h
  · exact h
  · exact absurd (Option.some.inj h).symm hc
  · rename_i d rest _
    have hd := Option.some.inj h
    split at hd
    · exact absurd hd.symm hc
    · exact congrArg some hd

theorem Bare.unifyEndings (h : s.Bare) : (Tree.unifyEndings s).Bare := by
  fun_induction Tree.unifyEndings s with
  | case1 => exact h
  | case2 rest ih =>
    have hrest : Bare rest := h.of_infix (List.infix_cons (List.infix_cons (List.infix_refl rest)))
    exact bare_cons_iff.2 ⟨fun hfront => absurd hfront.1 (by decide), ih hrest⟩
  | case3 d rest _ ih =>
    obtain ⟨hfront, hrest⟩ := bare_cons_iff.1 h
    refine bare_cons_iff.2 ⟨?_, ih hrest⟩
    rintro ⟨hd, hnext⟩
    split at hd
    · exact absurd hd (by decide)
    · exact hfront ⟨hd, head?_of_head?_unifyEndings (by decide) hnext⟩

theorem Bare.silent (h : s.Bare) : s.silent := by
  have hkeywords : ∀ k ∈ Directive.keywords, "\x7b!".text <+: k := by decide
  exact silent_iff.2 fun k hk hin => h ((hkeywords k hk).isInfix.trans hin)

theorem infix_of_mem_rows {r : Text} (h : r ∈ s.rows) : r <:+: s := by
  obtain ⟨xs, ys, hs⟩ := List.append_of_mem h
  rw [← unlines_rows s, hs, ← above_append_unlines xs (List.cons_ne_nil r ys),
    ← List.singleton_append, ← unlines_append_below (List.cons_ne_nil r []), ← List.append_assoc]
  refine ⟨above xs, below ys, ?_⟩
  simp [unlines]

/-- Whether everything in a text that looks like the start of a directive is fenced. -/
def Guarded (s : Text) : Prop := ∀ line ∈ Fence.classify s, line.1.Bare ∨ line.2.inFence

end Text

namespace Fence

variable {open? : Option Fence} {line : Text} {ls : List Text}

def Guards (open? : Option Fence) (ls : List Text) : Prop :=
  ∀ line ∈ ls.zip (classesFrom open? ls), line.1.Bare ∨ line.2.inFence

theorem guards_cons_iff : Guards open? (line :: ls) ↔
    (line.Bare ∨ (step open? line).1.inFence) ∧ Guards (step open? line).2 ls :=
  List.forall_mem_cons

theorem guards_of_bare (h : ∀ l ∈ ls, l.Bare) : Guards open? ls :=
  fun line hline => .inl (h line.1 (List.of_mem_zip hline).1)

theorem Guards.quiet (h : Guards open? ls) : quiet open? ls := by
  induction ls generalizing open? with
  | nil => rfl
  | cons line ls ih =>
    obtain ⟨hline, hrest⟩ := guards_cons_iff.1 h
    have hinert : (step open? line).1.inFence || line.silent := by
      rcases hline with hbare | hin
      · rw [hbare.silent, Bool.or_true]
      · rw [hin, Bool.true_or]
    exact Bool.and_eq_true_iff.2 ⟨hinert, ih hrest⟩

end Fence

namespace Text

variable {s : Text}

theorem Guarded.guards (h : s.Guarded) (hr : '\r' ∉ s) : Fence.Guards none s.rows := by
  rw [← lines_eq_rows hr]
  exact h

theorem Bare.guarded (h : s.Bare) (hr : '\r' ∉ s) : s.Guarded := by
  refine Fence.guards_of_bare fun l hl => ?_
  rw [lines_eq_rows hr] at hl
  exact h.of_infix (infix_of_mem_rows hl)

theorem Bare.quiet (h : s.Bare) : Fence.quiet none s.rows := by
  have hguards : Fence.Guards none s.rows :=
    Fence.guards_of_bare fun r hr => h.of_infix (infix_of_mem_rows hr)
  exact hguards.quiet

end Text

namespace Token

theorem plain_of_pass {tokens : List Token} {s : Text}
    (h : (pass (fun d => .fail (.strayMarker d [])) tokens).outcome = .ok s) :
    ∀ t ∈ tokens, ∃ run, t = .plain run := by
  induction tokens generalizing s with
  | nil => exact List.forall_mem_nil _
  | cons token rest ih =>
    cases token with
    | plain run =>
      obtain ⟨u, hu, -⟩ := Run.outcome_map_eq_ok_iff.1 h
      exact List.forall_mem_cons.2 ⟨⟨run, rfl⟩, ih hu⟩
    | found d =>
      obtain ⟨u, hu, -⟩ := Run.outcome_bind_eq_ok_iff.1 h
      cases hu

theorem plain_of_quiet {s : Text} (h : Fence.quiet none s.rows) :
    ∀ t ∈ tokenize s, ∃ run, t = .plain run :=
  plain_of_pass (congrArg Run.outcome (pass_of_quiet _ h))

end Token

theorem includeArguments_of_quiet {s : Text} (h : Fence.quiet none s.rows) :
    includeArguments (Token.tokenize s) = [] := by
  refine List.filterMap_eq_nil_iff.2 fun t ht => ?_
  obtain ⟨run, rfl⟩ := Token.plain_of_quiet h t ht
  rfl

theorem Position.read_eq_step (p : Position) (line : Text) :
    (p.read line).1 = (Fence.step p.fence? line).1 ∧
      (p.read line).2.fence? = (Fence.step p.fence? line).2 := by
  unfold Position.read
  dsimp only
  split <;> exact ⟨rfl, rfl⟩

namespace Harvest

variable {file standard : Text}

theorem opening?_of_bare {line : Text} (h : line.Bare) : opening? line = none := by
  unfold opening?
  cases hafter : line.trim.after? "\x7b!list-add".text with
  | none => rfl
  | some rest =>
    have htrim : line.trim <:+: line :=
      List.IsInfix.trans (List.IsPrefix.isInfix <| Text.trimRight_prefix _)
        (List.dropWhile_suffix _).isInfix
    have hmark : "\x7b!".text <:+: line.trim := by
      rw [Text.after?_eq_some_iff.1 hafter]
      exact ⟨[], "list-add".text ++ rest, rfl⟩
    exact absurd (hmark.trans htrim) h

theorem readFrom_of_guards {p : Position} {lines : List Text} (h : Fence.Guards p.fence? lines) :
    readFrom file standard p none lines = ⟨lines, [], none⟩ := by
  induction lines generalizing p with
  | nil => rfl
  | cons line lines ih =>
    obtain ⟨hline, hrest⟩ := Fence.guards_cons_iff.1 h
    obtain ⟨hclass, hfence⟩ := p.read_eq_step line
    rw [← hclass] at hline
    rw [← hfence] at hrest
    rw [readFrom]
    dsimp only
    rw [ih hrest]
    split
    · rfl
    · rename_i hout
      rw [opening?_of_bare (hline.resolve_right hout)]
      rfl

end Harvest

namespace Table

variable {table : Text → Except Problem Text}

theorem renderTokens_of_plain {tokens : List Token} (h : ∀ t ∈ tokens, ∃ run, t = .plain run) :
    renderTokens table tokens = .ok (Token.join tokens) := by
  induction tokens with
  | nil => rfl
  | cons token rest ih =>
    obtain ⟨⟨run, rfl⟩, hrest⟩ := List.forall_mem_cons.1 h
    rw [renderTokens, ih hrest]
    · rfl
    · nofun

theorem renderLines_of_guards {open? : Option Fence} {lines : List Text}
    (h : Fence.Guards open? lines) : renderLines table open? lines = .ok lines := by
  induction lines generalizing open? with
  | nil => rfl
  | cons line lines ih =>
    obtain ⟨hline, hrest⟩ := Fence.guards_cons_iff.1 h
    rw [renderLines]
    dsimp only
    rw [ih hrest]
    split
    · rfl
    · rename_i hout
      have hplain := Token.plain_of_quiet (hline.resolve_right hout).quiet
      rw [renderTokens_of_plain hplain, Token.join_tokenize]
      rfl

end Table

theorem arrangeLists_of_guarded {s : Text} (h : s.Guarded) (hr : '\r' ∉ s) (file standard : Text) :
    arrangeLists file standard s = pure ([], s) := by
  have hrender : Table.renderAll file standard [] s = .ok s := by
    rw [Table.renderAll, Table.renderLines_of_guards h]
    exact congrArg Except.ok (Text.unlines_lines hr)
  unfold arrangeLists
  rw [Harvest.ofText, Harvest.readFrom_of_guards (p := .start) h]
  have hrun : (Harvest.mk s.lines [] none).run = pure s := by
    rw [Harvest.run, Text.unlines_lines hr]
    rfl
  dsimp only
  rw [hrun, pure_bind]
  dsimp only [Lists.addAll, List.foldl_nil]
  rw [hrender]
  rfl

variable {w : Workspace} {entry : Path} {found : Entry} {s : Text}

namespace Workspace

theorem collect_of_quiet (he : w.tree.entryAt? entry.names = some found)
    (hs : Tree.readEntry entry found = .ok s)
    (hquiet : Fence.quiet none (FrontMatter.split s).body.rows) :
    collect w [] entry .empty = ⟨[.collecting entry], .ok (FrontMatter.split s).scope⟩ := by
  rw [collect_eq_step, collectStep, if_neg List.not_mem_nil, he]
  dsimp only
  rw [read, hs]
  change (Run.emit _ >>= fun _ => pure s >>= _) = _
  rw [pure_bind, includeArguments_of_quiet hquiet]
  rfl

end Workspace

theorem build_of_guarded {options : Options} (hi : options.embedImages = false)
    (he : w.tree.entryAt? entry.names = some found) (hs : Tree.readEntry entry found = .ok s)
    (hguarded : (FrontMatter.split s).body.Guarded) :
    build w options entry =
      ⟨[.building entry, .collecting entry, .scopeCollected (FrontMatter.split s).scope,
          .processing entry, .itemsCollected 0],
        .ok (compose (FrontMatter.split s).scope options (FrontMatter.split s).raw?
          (FrontMatter.split s).body)⟩ := by
  have hr : '\r' ∉ (FrontMatter.split s).body := fun hmem =>
    Tree.not_mem_of_readEntry hs ((FrontMatter.body_suffix s).subset hmem)
  have hquiet := (hguarded.guards hr).quiet
  have hexpand : (Expander.mk w (FrontMatter.split s).scope options.embedImages).expandFile []
      entry .empty = ⟨[.processing entry], .ok ⟨(FrontMatter.split s).body,
        (FrontMatter.split s).raw?, (FrontMatter.split s).scope⟩⟩ := by
    unfold Expander.expandFile
    dsimp only
    rw [he]
    dsimp only
    rw [Workspace.read, hs]
    change (Run.emit _ >>= fun _ => pure s >>= _) = _
    rw [pure_bind, Expander.expandContent, Expander.expandBody_eq_pure hi hquiet, pure_bind]
    rfl
  unfold build
  rw [Workspace.collect_of_quiet he hs hquiet]
  change (Run.emit _ >>= fun _ => Run.mk _ (.ok _) >>= fun scope => _) = _
  rw [Run.bind_of_ok rfl, Run.bind_of_ok rfl, Run.bind_of_ok rfl, hexpand, Run.bind_of_ok rfl]
  dsimp only
  rw [arrangeLists_of_guarded hguarded hr]
  rfl

theorem build_of_bare {options : Options} (hi : options.embedImages = false)
    (he : w.tree.entryAt? entry.names = some found) (hs : Tree.readEntry entry found = .ok s)
    (hbare : (FrontMatter.split s).body.Bare) :
    build w options entry =
      ⟨[.building entry, .collecting entry, .scopeCollected (FrontMatter.split s).scope,
          .processing entry, .itemsCollected 0],
        .ok (compose (FrontMatter.split s).scope options (FrontMatter.split s).raw?
          (FrontMatter.split s).body)⟩ := by
  have hr : '\r' ∉ (FrontMatter.split s).body := fun hmem =>
    Tree.not_mem_of_readEntry hs ((FrontMatter.body_suffix s).subset hmem)
  exact build_of_guarded hi he hs (hbare.guarded hr)

/-- A body passes through a build as it is, but for its layout, if everything in it that looks like
the start of a directive is fenced, and there is nothing to report. -/
theorem Builder.build_of_guarded_body {b : Builder} {w : Workspace} {bytes : List UInt8} {s : Text}
    (hheaders : b.options.skipHeaders = true) (himages : b.options.embedImages = false)
    (hfile : w.tree.entryAt? b.entry.names = some (.file bytes)) (hbytes : Utf8.decode bytes = .ok s)
    (hguarded : (FrontMatter.split (Tree.unifyEndings s)).body.Guarded) :
    (b.build w).2.outcome =
        .ok (Layout.prettify (FrontMatter.split (Tree.unifyEndings s)).body) ∧
      (b.build w).1.session.diagnostics = [] := by
  have hread : Tree.readEntry b.entry (.file bytes) = .ok (Tree.unifyEndings s) := by
    rw [Tree.readEntry, hbytes]
  have hbuild := Transclude.build_of_guarded himages hfile hread hguarded
  constructor
  · change (Transclude.build w b.options b.entry).outcome = _
    rw [hbuild]
    change Except.ok (compose _ _ _ _) = _
    rw [compose, hheaders]
    rfl
  · change (sessionOf (Transclude.build w b.options b.entry)).diagnostics = _
    rw [hbuild]
    rfl

def sampleSource : String :=
  "---\nx: 1\n---\n# Text\n\x7b !var(x)!\x7d\n~~~~\n\x7b!include(nowhere)!\x7d\n~~~\n~~~~\n" ++
    "\n\n- item  \n```\n\x7b!endif!\x7d\n\x7b!list-add\n"

theorem build_of_guarded_body_of_sample :
    let w := Workspace.holding [("main", sampleSource)]
    let b := Builder.mk (.named "main") ⟨none, true, false⟩ .fresh .empty
    (FrontMatter.split (Tree.unifyEndings sampleSource.text)).body.Guarded ∧
      (b.build w).2.outcome = .ok ("# Text\n\x7b !var(x)!\x7d\n~~~~\n\x7b!include(nowhere)!\x7d\n".text ++
        "~~~\n~~~~\n\n- item\n```\n\x7b!endif!\x7d\n\x7b!list-add\n".text) ∧
      (b.build w).1.session.diagnostics = [] := by
  intro w b
  have hguarded : (FrontMatter.split (Tree.unifyEndings sampleSource.text)).body.Guarded := by
    unfold Text.Guarded Text.Bare
    decide +kernel
  have hbytes : Utf8.decode (Utf8.encode sampleSource.text) = .ok sampleSource.text :=
    Except.ok_of_toOption (by decide +kernel)
  obtain ⟨houtcome, hsession⟩ := Builder.build_of_guarded_body (b := b) (w := w) rfl rfl rfl hbytes
    hguarded
  have hlaid : Layout.prettify (FrontMatter.split (Tree.unifyEndings sampleSource.text)).body =
      "# Text\n\x7b !var(x)!\x7d\n~~~~\n\x7b!include(nowhere)!\x7d\n".text ++
        "~~~\n~~~~\n\n- item\n```\n\x7b!endif!\x7d\n\x7b!list-add\n".text := by
    decide +kernel
  rw [hlaid] at houtcome
  exact ⟨hguarded, houtcome, hsession⟩

end Transclude

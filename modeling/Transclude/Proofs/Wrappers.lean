import Transclude.Proofs.ScopeAbsorption
import Transclude.Proofs.ShiftedLines
import Transclude.Proofs.Verdicts

/-! Files that hold a single directive, including another file as it is. Such a file becomes what the
other one becomes, with its variables replaced once more. -/

namespace Transclude

namespace Text

/-- Whether no row of a text starts with a heading mark, blanks aside. -/
def Unmarked (s : Text) : Prop := ∀ row ∈ s.rows, row.trim.head? ≠ some '#'

instance (s : Text) : Decidable s.Unmarked :=
  inferInstanceAs (Decidable (∀ row ∈ s.rows, row.trim.head? ≠ some '#'))

end Text

namespace Heading

theorem level?_eq_none {line : Text} (h : line.trim.head? ≠ some '#') : level? line = none := by
  unfold level?
  cases hbody : line.trim with
  | nil => rfl
  | cons c body =>
    have hc : c ≠ '#' := fun heq => h (by rw [hbody, heq]; rfl)
    simp [hc]

theorem shiftLine_eq_self {line : Text} (h : line.trim.head? ≠ some '#') (shift : Int) :
    shiftLine shift line = line := by
  unfold shiftLine
  split
  · rename_i indent marks rest hparts
    obtain ⟨hindent, -, hmarks, -, -⟩ := marks_of_parts? hparts
    refine absurd ?_ h
    rw [← append_of_parts? hparts, Text.trim_run hindent (by decide) hmarks]
    obtain ⟨m, rfl⟩ := Nat.exists_eq_add_of_le' hmarks
    rfl
  · rfl

theorem shiftLines_eq_self {ls : List Text} (h : ∀ l ∈ ls, l.trim.head? ≠ some '#') (shift : Int)
    (open? : Option Fence) : shiftLines shift open? ls = ls := by
  induction ls generalizing open? with
  | nil => rfl
  | cons l ls ih =>
    obtain ⟨hl, hls⟩ := List.forall_mem_cons.1 h
    rw [shiftLines_cons, ih hls, shiftLine_eq_self hl, ite_self]

theorem shift_eq_self {s : Text} (hr : '\r' ∉ s) (h : s.Unmarked) (k : Int) : shift k s = s := by
  rw [shift, Text.lines_eq_rows hr, shiftLines_eq_self h, Text.unlines_rows]

theorem select_of_unmarked {s : Text} (hr : '\r' ∉ s) (h : s.Unmarked) (title? : Option Text) :
    (∃ p, select title? s = .error p) ∨ select title? s = .ok ⟨s, lowest? s⟩ := by
  have hcut (title : Text) : ∃ p, cutSection title s = .error p := by
    unfold cutSection
    split
    · exact ⟨_, rfl⟩
    · rename_i first rest hfirst
      have hmem : first ∈ Fence.classify s := by
        have hsuffix := List.dropWhile_suffix (l := Fence.classify s)
          fun line => !startsSection title line
        rw [hfirst] at hsuffix
        exact hsuffix.subset List.mem_cons_self
      have hrow : first.1 ∈ s.rows := by
        rw [← Text.lines_eq_rows hr]
        exact (List.of_mem_zip hmem).1
      rw [level?_eq_none (h _ hrow)]
      exact ⟨_, rfl⟩
  unfold select
  split
  · exact .inr rfl
  · exact .inr rfl
  · exact .inl (hcut _)

end Heading

theorem Placeholder.value_of_nearest {root : Scope} {file : Text} {p : Placeholder} {v : Value}
    (h : p.value [root, .empty] file = .ok v) (scope : Scope) :
    p.value [root, scope] file = .ok v := by
  unfold value at h ⊢
  split at h
  · cases h
  · rename_i hname
    rw [if_neg hname]
    cases hroot : root.present? p.name with
    | some u => simpa [hroot] using h
    | none =>
      have hempty : Scope.present? .empty p.name = none := rfl
      simp [hroot, hempty] at h

theorem fillTemplate_of_nearest {root : Scope} {file template : Text} {r : Text × List Text}
    (h : fillTemplate [root, .empty] file template = .ok r) (scope : Scope) :
    fillTemplate [root, scope] file template = .ok r := by
  unfold fillTemplate at h ⊢
  generalize Placeholder.pattern.scan template = chunks at h ⊢
  induction chunks generalizing r with
  | nil => exact h
  | cons chunk rest ih =>
    cases chunk with
    | plain s =>
      obtain ⟨others, hothers, hr⟩ := Except.bind_eq_ok_iff.1 h
      rw [Placeholder.fill, ih hothers]
      exact hr
    | found p =>
      obtain ⟨v, hv, h⟩ := Except.bind_eq_ok_iff.1 h
      obtain ⟨others, hothers, hr⟩ := Except.bind_eq_ok_iff.1 h
      rw [Placeholder.fill, Placeholder.value_of_nearest hv, ih hothers]
      exact hr

namespace Expander

/-- Whether the whole text of a file is one directive, which includes another file as it is. -/
structure Wraps (x : Expander) (wrapper file : Path) (argument : Text) : Prop where
  text : ∃ entry, x.workspace.tree.entryAt? wrapper.names = some entry ∧
    Tree.readEntry wrapper entry = .ok (Directive.includeFile argument).source
  single : Token.tokenize (Directive.includeFile argument).source =
    [.found (.includeFile argument)]
  unmarked : (Directive.includeFile argument).source.Unmarked
  leads : ∃ path written names, Include.parse? argument = some ⟨path, none, none⟩ ∧
    fillTemplate [x.rootScope, .empty] wrapper.toText path = .ok (written, names) ∧
    written ≠ [] ∧ x.workspace.target wrapper.parent written = file
  there : (x.workspace.tree.entryAt? file.names).isSome

namespace Wraps

variable {x : Expander} {wrapper file : Path} {argument : Text}

theorem split_source (argument : Text) :
    FrontMatter.split (Directive.includeFile argument).source =
      ⟨none, .empty, (Directive.includeFile argument).source⟩ := rfl

theorem front (h : x.Wraps wrapper file argument) : x.workspace.front? wrapper =
    some ⟨none, .empty, (Directive.includeFile argument).source⟩ := by
  obtain ⟨entry, hentry, hread⟩ := h.text
  exact Workspace.front?_eq_some_iff.2 ⟨entry, _, hentry, hread, split_source argument⟩

theorem not_mem_return (h : x.Wraps wrapper file argument) :
    '\r' ∉ (Directive.includeFile argument).source := Workspace.not_mem_of_front? h.front

theorem expandContent_source (hx : x.embedImages = false) (h : x.Wraps wrapper file argument)
    (above : List Path) (scope : Scope) (offset : Int) :
    ∃ i placeholders, i.heading? = none ∧ i.level? = none ∧
      x.expandContent (above ++ [wrapper]) wrapper.parent scope offset
          (Directive.includeFile argument).source =
        x.expandTarget (above ++ [wrapper]) scope offset i placeholders file >>=
          substitute x.rootScope wrapper.toText := by
  obtain ⟨path, written, names, hparse, hfill, hwritten, htarget⟩ := h.leads
  refine ⟨⟨path, none, none⟩, names, rfl, rfl, ?_⟩
  have hlast : ((above ++ [wrapper]).getLast?.getD wrapper.parent).toText = wrapper.toText := by
    simp
  have hexpand : x.expandInclude (above ++ [wrapper]) wrapper.parent scope offset
      ⟨path, none, none⟩ =
      x.expandTarget (above ++ [wrapper]) scope offset ⟨path, none, none⟩ names file := by
    rw [expandInclude_eq, hlast, fillTemplate_of_nearest hfill, ← htarget]
    change pure (written, names) >>= _ = _
    rw [pure_bind]
    exact if_neg hwritten
  have hput : includeReplaced (x.expandInclude (above ++ [wrapper]) wrapper.parent scope offset)
      (.includeFile argument) =
      x.expandTarget (above ++ [wrapper]) scope offset ⟨path, none, none⟩ names file := by
    rw [includeReplaced, Include.read, hparse]
    exact hexpand
  rw [expandContent, expandBody_eq hx, resolveConditionals_of_unconditional (by rw [h.single]; rfl),
    pure_bind, h.single, currentFile_concat, Token.pass, hput]
  simp [Token.pass]

/-- An include that leads from below a file back to its wrapper leads on to the file again. -/
theorem verdict_expandTarget_back (hx : x.embedImages = false) (h : x.Wraps wrapper file argument)
    {chain : List Path} (hfile : file ∈ chain) (hwrapper : wrapper ∉ chain) (scope : Scope)
    (offset : Int) (i : Include) (placeholders : List Text) :
    (x.expandTarget chain scope offset i placeholders wrapper).verdict = .error none := by
  -- All that is put in for the wrapper is its include, whose target is in the chain.
  have hsite (t : Site) (ht : i.siteIn offset wrapper
      ⟨none, .empty, (Directive.includeFile argument).source⟩ = .ok t) :
      (i.handBack offset <$> x.expandSite chain scope offset t).verdict = .error none := by
    obtain ⟨htarget, -, hselected, -⟩ := Include.siteIn_eq_ok_iff.1 ht
    have hsnippet : t.snippet.body = (Directive.includeFile argument).source := by
      rcases Heading.select_of_unmarked h.not_mem_return h.unmarked i.heading? with ⟨p, hp⟩ | hall
      · rw [hp] at hselected
        cases hselected
      · rw [hall] at hselected
        exact (congrArg Snippet.body (Except.ok.inj hselected)).symm
    have hbody : t.body = (Directive.includeFile argument).source := by
      rw [Site.body, hsnippet, Heading.shift_eq_self h.not_mem_return h.unmarked, ite_self]
    obtain ⟨j, names, -, -, hback⟩ := h.expandContent_source hx chain (t.front.scope.inherit scope)
      (offset + t.shift)
    have hmem : file ∈ chain ++ [wrapper] := List.mem_append_left _ hfile
    rw [expandSite, htarget, hbody, hback, expandTarget, if_pos hmem]
    rfl
  rw [expandTarget_of_front hwrapper h.front]
  cases ht : i.siteIn offset wrapper ⟨none, .empty, (Directive.includeFile argument).source⟩ with
  | error p => rfl
  | ok t => exact hsite t ht

/-- Below a file it makes no difference to the verdict whether its wrapper led there. -/
theorem verdict_expandInclude_cons (hx : x.embedImages = false)
    (h : x.Wraps wrapper file argument) {chain : List Path} (hfile : file ∈ chain) (base : Path)
    (scope : Scope) (offset : Int) (i : Include) :
    (x.expandInclude (wrapper :: chain) base scope offset i).verdict =
      (x.expandInclude chain base scope offset i).verdict := by
  have hne : chain ≠ [] := List.ne_nil_of_mem hfile
  have hlast : (wrapper :: chain).getLast? = chain.getLast? := List.getLast?_cons_of_ne_nil hne
  rw [expandInclude_eq, expandInclude_eq, hlast]
  refine Run.verdict_bind_congr rfl fun (path, placeholders) => ?_
  dsimp only
  split
  · rfl
  generalize x.workspace.target base path = target
  by_cases hchain : target ∈ chain
  · rw [expandTarget, expandTarget, if_pos hchain, if_pos (List.mem_cons_of_mem wrapper hchain)]
    rfl
  -- Back at the wrapper one chain has its cycle at once, the other with the next include.
  by_cases hback : target = wrapper
  · subst hback
    rw [h.verdict_expandTarget_back hx hfile hchain, expandTarget, if_pos List.mem_cons_self]
    rfl
  have hfresh : target ∉ wrapper :: chain := List.not_mem_cons_of_ne_of_not_mem hback hchain
  rw [expandTarget, expandTarget, if_neg hchain, if_neg hfresh, hlast]
  cases he : x.workspace.tree.entryAt? target.names with
  | none => rfl
  | some entry =>
    refine Run.verdict_bind_congr rfl fun _ => Run.verdict_bind_congr rfl fun source => ?_
    cases ht : i.siteIn offset target (FrontMatter.split source) with
    | error p => rfl
    | ok t =>
      obtain rfl := Include.target_of_siteIn ht
      have hless := Tree.unvisited_lt he hchain
      have hfile' : file ∈ chain ++ [t.target] := List.mem_append_left _ hfile
      have hcurrent : currentFile (wrapper :: chain ++ [t.target]) =
          currentFile (chain ++ [t.target]) := by
        rw [currentFile_concat, currentFile_concat]
      refine Run.verdict_map_congr (verdict_expandBody_congr hx hcurrent (fun j => ?_) _) _
      exact verdict_expandInclude_cons hx h hfile' _ _ _ j
termination_by x.workspace.tree.unvisited chain

theorem exists_verdict_eq (hx : x.embedImages = false) (h : x.Wraps wrapper file argument) :
    ∃ i names, i.heading? = none ∧ i.level? = none ∧
      (Expanded.body <$> x.expandFile [] wrapper .empty).verdict =
        (x.expandTarget [wrapper] .empty 0 i names file >>=
          substitute x.rootScope wrapper.toText).verdict := by
  obtain ⟨entry, hentry, hsource⟩ := h.text
  obtain ⟨i, names, hheading, hlevel, hcontent⟩ := h.expandContent_source hx [] .empty 0
  have hread : x.workspace.read wrapper entry = pure (Directive.includeFile argument).source := by
    rw [Workspace.read, hsource]
  refine ⟨i, names, hheading, hlevel, ?_⟩
  rw [body_expandFile hentry, hread]
  simp only [pure_bind, split_source]
  rw [Run.verdict_bind]
  exact congrArg Run.verdict hcontent

/-- A wrapper becomes what the file becomes with its variables replaced once more. -/
theorem verdict_expandFile (hx : x.embedImages = false) (h : x.Wraps wrapper file argument)
    (hne : file ≠ wrapper) :
    (Expanded.body <$> x.expandFile [] wrapper .empty).verdict =
      ((Expanded.body <$> x.expandFile [] file .empty) >>=
        substitute x.rootScope wrapper.toText).verdict := by
  obtain ⟨entry, hentry⟩ := Option.isSome_iff_exists.1 h.there
  obtain ⟨i, names, hheading, hlevel, hwrapper⟩ := h.exists_verdict_eq hx
  have hfresh : file ∉ [wrapper] := by simpa using hne
  rw [hwrapper, body_expandFile hentry, expandTarget, if_neg hfresh, hentry]
  refine Run.verdict_bind_congr (Run.verdict_bind_congr rfl fun _ => ?_) fun _ => rfl
  refine Run.verdict_bind_congr rfl fun source => ?_
  -- The whole file is selected, and neither it nor what becomes of it is moved.
  have hsite : i.siteIn 0 file (FrontMatter.split source) =
      .ok ⟨file, FrontMatter.split source, ⟨(FrontMatter.split source).body,
        Heading.lowest? (FrontMatter.split source).body⟩, 0⟩ := by
    rw [Include.siteIn, hheading, hlevel]
    rfl
  have hback : i.handBack 0 = id := by
    funext s
    exact if_neg fun hmoves => hmoves.2 rfl
  rw [hsite]
  change (pure _ >>= fun t => i.handBack 0 <$> x.expandSite [wrapper] .empty 0 t).verdict = _
  rw [pure_bind, hback, id_map]
  refine verdict_expandBody_congr hx ?_ (fun j => ?_) _
  · rw [currentFile_concat, currentFile_concat]
  · exact h.verdict_expandInclude_cons hx (List.mem_singleton.2 rfl) _ _ _ j

theorem verdict_expandFile_self (hx : x.embedImages = false)
    (h : x.Wraps wrapper wrapper argument) :
    (Expanded.body <$> x.expandFile [] wrapper .empty).verdict = .error none := by
  obtain ⟨i, names, -, -, hwrapper⟩ := h.exists_verdict_eq hx
  rw [hwrapper, expandTarget, if_pos List.mem_cons_self]
  rfl

end Wraps

/-- Whether two expansions end with the same text, or both with a problem. -/
def Agree (a b : Run Expanded) : Prop :=
  (∃ e e', a.outcome = .ok e ∧ b.outcome = .ok e' ∧ e.body = e'.body) ∨
    ((∃ p, a.outcome = .error (.problem p)) ∧ ∃ p, b.outcome = .error (.problem p))

theorem agree_of_ok {a b : Run Expanded} {e : Expanded} (hb : b.outcome = .ok e) :
    Agree a b ↔ (Expanded.body <$> a).verdict = .ok e.body := by
  rw [Run.verdict_eq_ok_iff, Run.outcome_map_eq_ok_iff]
  constructor
  · rintro (⟨r, r', ha, hb', hbody⟩ | ⟨-, p, hp⟩)
    · obtain rfl := Except.ok.inj (hb.symm.trans hb')
      exact ⟨r, ha, hbody⟩
    · rw [hb] at hp
      cases hp
  · rintro ⟨r, ha, hbody⟩
    exact .inl ⟨r, e, ha, hb, hbody⟩

theorem agree_of_problem {a b : Run Expanded} {p : Problem} (hb : b.outcome = .error (.problem p)) :
    Agree a b ↔ (Expanded.body <$> a).verdict = .error none := by
  rw [Run.verdict_eq_problem_iff, Run.outcome_map]
  constructor
  · rintro (⟨r, r', -, hb', -⟩ | ⟨⟨q, hq⟩, -⟩)
    · rw [hb] at hb'
      cases hb'
    · exact ⟨q, by rw [hq]; rfl⟩
  · rintro ⟨q, hq⟩
    cases ha : a.outcome with
    | ok r =>
      rw [ha] at hq
      cases hq
    | error fault =>
      rw [ha] at hq
      obtain rfl := Except.error.inj hq
      exact .inr ⟨⟨q, ha⟩, p, hb⟩

variable {x : Expander} {wrapper file : Path} {argument : Text}

/-- A file and its wrapper agree exactly if the file fails with a problem, or else what it becomes
stays as it is when its variables are replaced once more. -/
theorem wrapper_agrees_iff (hx : x.embedImages = false) (h : x.Wraps wrapper file argument) :
    Agree (x.expandFile [] wrapper .empty) (x.expandFile [] file .empty) ↔
      (∃ p, (x.expandFile [] file .empty).outcome = .error (.problem p)) ∨
      ∃ e, (x.expandFile [] file .empty).outcome = .ok e ∧
        (substitute x.rootScope wrapper.toText e.body).outcome = .ok e.body := by
  have hwrapper (hne : file ≠ wrapper) := h.verdict_expandFile hx hne
  cases hfile : (x.expandFile [] file .empty).outcome with
  | ok e =>
    have hbody : (Expanded.body <$> x.expandFile [] file .empty).outcome = .ok e.body := by
      rw [Run.outcome_map, hfile]
      rfl
    -- A wrapper that includes itself is never expanded without a problem.
    have hne : file ≠ wrapper := by
      rintro rfl
      have hself := h.verdict_expandFile_self hx
      rw [Run.verdict_eq_ok_iff.2 hbody] at hself
      cases hself
    rw [agree_of_ok hfile, hwrapper hne, Run.verdict_bind, Run.verdict_eq_ok_iff.2 hbody]
    change (substitute x.rootScope wrapper.toText e.body).verdict = _ ↔ _
    rw [Run.verdict_eq_ok_iff]
    constructor
    · exact fun hsame => .inr ⟨e, rfl, hsame⟩
    · rintro (⟨p, hp⟩ | ⟨r, hr, hsame⟩)
      · cases hp
      · obtain rfl := Except.ok.inj hr
        exact hsame
  | error fault =>
    have hbody : (Expanded.body <$> x.expandFile [] file .empty).outcome = .error fault := by
      rw [Run.outcome_map, hfile]
      rfl
    by_cases hproblem : ∃ p, fault = .problem p
    · obtain ⟨p, rfl⟩ := hproblem
      refine iff_of_true ((agree_of_problem hfile).2 ?_) (.inl ⟨p, rfl⟩)
      have hnone := Run.verdict_eq_problem_iff.2 ⟨p, hbody⟩
      by_cases hne : file = wrapper
      · subst hne
        exact hnone
      · rw [hwrapper hne]
        exact Run.verdict_bind_of_problem hnone _
    · -- A fault of another kind agrees with nothing.
      refine iff_of_false ?_ ?_
      · rintro (⟨r, r', -, hr, -⟩ | ⟨-, p, hp⟩)
        · rw [hfile] at hr
          cases hr
        · rw [hfile] at hp
          exact hproblem ⟨p, Except.error.inj hp⟩
      · rintro (⟨p, hp⟩ | ⟨r, hr, -⟩)
        · exact hproblem ⟨p, Except.error.inj hp⟩
        · cases hr

def wrapping (value : String) : Expander where
  workspace := .holding [("w.md", "\x7b!include(f.md)!\x7d"), ("f.md", "\x7b!var(x)!\x7d")]
  rootScope := .ofList [("x".text, .scalar (some value.text)), ("y".text, .scalar (some "2".text))]
  embedImages := false

theorem wraps_wrapping (value : String) :
    (wrapping value).Wraps (.named "w.md") (.named "f.md") "f.md".text := by
  have hscan : Placeholder.pattern.scan "f.md".text = [.plain "f.md".text] := by decide +kernel
  refine ⟨⟨.file (Utf8.encode "\x7b!include(f.md)!\x7d".text), rfl, by decide +kernel⟩,
    by decide +kernel, by decide +kernel,
    ⟨"f.md".text, "f.md".text, [], by decide +kernel, ?_, by decide +kernel, rfl⟩, rfl⟩
  rw [fillTemplate, hscan]
  rfl

theorem wrapper_agrees_of_plain_value :
    Agree ((wrapping "1").expandFile [] (.named "w.md") .empty)
      ((wrapping "1").expandFile [] (.named "f.md") .empty) :=
  (wrapper_agrees_iff rfl (wraps_wrapping "1")).2
    (.inr ⟨⟨"1".text, none, .empty⟩, Except.ok_of_toOption (by decide +kernel),
      Except.ok_of_toOption (by decide +kernel)⟩)

/-- A value with the form of a directive is put in as it is, and replaced itself one file up. -/
theorem wrapper_replaces_value_again :
    (wrapping "\x7b!var(y)!\x7d").Wraps (.named "w.md") (.named "f.md") "f.md".text ∧
      (∃ e, ((wrapping "\x7b!var(y)!\x7d").expandFile [] (.named "f.md") .empty).outcome = .ok e ∧
        e.body = "\x7b!var(y)!\x7d".text) ∧
      (∃ e, ((wrapping "\x7b!var(y)!\x7d").expandFile [] (.named "w.md") .empty).outcome = .ok e ∧
        e.body = "2".text) ∧
      ¬ Agree ((wrapping "\x7b!var(y)!\x7d").expandFile [] (.named "w.md") .empty)
        ((wrapping "\x7b!var(y)!\x7d").expandFile [] (.named "f.md") .empty) := by
  have hfile : ((wrapping "\x7b!var(y)!\x7d").expandFile [] (.named "f.md") .empty).outcome =
      .ok ⟨"\x7b!var(y)!\x7d".text, none, .empty⟩ := Except.ok_of_toOption (by decide +kernel)
  have hwrapper : ((wrapping "\x7b!var(y)!\x7d").expandFile [] (.named "w.md") .empty).outcome =
      .ok ⟨"2".text, none, .empty⟩ := Except.ok_of_toOption (by decide +kernel)
  refine ⟨wraps_wrapping _, ⟨_, hfile, rfl⟩, ⟨_, hwrapper, rfl⟩, fun hagree => ?_⟩
  have hbody := Run.verdict_eq_ok_iff.1 ((agree_of_ok hfile).1 hagree)
  rw [Run.outcome_map, hwrapper] at hbody
  exact absurd (Except.ok.inj hbody) (by decide)

end Expander
end Transclude

import Transclude.Placeholder
import Transclude.Proofs.TokenPasses
import Transclude.Session

/-! The groups of a path template, from an opening bracket to the next closing one. All of them are
filled in but those with nothing inside, and the first that cannot be filled in decides what goes
wrong. -/

namespace Transclude

namespace Placeholder

variable {scopes : List Scope} {file s t u : Text} {p : Placeholder}
  {chunks : List (Chunk Placeholder)}

/-- The groups of a template and the texts around them. A bracket that none closes is text. -/
def groups (s : Text) : List (Chunk Placeholder) :=
  match hopen : Text.cut? ['<'] s with
  | none => [.plain s]
  | some (before, rest) =>
    match hclose : Text.cut? ['>'] rest with
    | none => [.plain s]
    | some (inner, behind) =>
      have : behind.length < s.length := by
        have hs := congrArg List.length (Text.append_of_cut? hopen)
        have hrest := congrArg List.length (Text.append_of_cut? hclose)
        simp only [List.length_append, List.length_singleton] at hs hrest
        omega
      .plain before :: .found ⟨inner⟩ :: groups behind
termination_by s.length

/-- What is wrong with a group: it names nothing, or no scope has a value for its name. -/
def fault? (scopes : List Scope) (file : Text) (p : Placeholder) : Option Problem :=
  if p.name = [] then some (.emptyPlaceholder file)
  else if ∀ scope ∈ scopes, scope.present? p.name = none then some (.undefinedVariable p.name file)
  else none

def replacement (scopes : List Scope) (p : Placeholder) : Text :=
  ((scopes.findSome? fun scope => scope.present? p.name).map Value.render).getD []

def items (chunks : List (Chunk Placeholder)) : List Placeholder := chunks.filterMap Chunk.item?

/-- What some chunks are resolved to: the first group that is wrong decides, and if there is none,
each group is replaced and its name is noted. -/
def answer (scopes : List Scope) (file : Text) (chunks : List (Chunk Placeholder)) :
    Except Problem (Text × List Text) :=
  match (items chunks).findSome? (fault? scopes file) with
  | some problem => .error problem
  | none => .ok (Chunk.sources (replacement scopes) chunks, (items chunks).map name)

def empty : Placeholder := ⟨[]⟩

/-- An empty group taken as text. -/
def spelled : Chunk Placeholder → Chunk Placeholder
  | .found p => if p = empty then .plain p.source else .found p
  | .plain s => .plain s

theorem value_eq (scopes : List Scope) (file : Text) (p : Placeholder) :
    (∃ problem, p.fault? scopes file = some problem ∧ p.value scopes file = .error problem) ∨
      ∃ v, p.fault? scopes file = none ∧ p.value scopes file = .ok v ∧
        p.replacement scopes = v.render := by
  unfold fault? value
  by_cases hname : p.name = []
  · rw [if_pos hname, if_pos hname]
    exact .inl ⟨_, rfl, rfl⟩
  · rw [if_neg hname, if_neg hname]
    cases hfound : scopes.findSome? fun scope => scope.present? p.name with
    | none =>
      rw [if_pos (List.findSome?_eq_none_iff.1 hfound)]
      exact .inl ⟨_, rfl, rfl⟩
    | some v =>
      have hsome : ¬ ∀ scope ∈ scopes, scope.present? p.name = none := fun hnone => by
        rw [List.findSome?_eq_none_iff.2 hnone] at hfound
        cases hfound
      rw [if_neg hsome]
      exact .inr ⟨v, rfl, rfl, by rw [replacement, hfound]; rfl⟩

theorem fill_eq_answer (scopes : List Scope) (file : Text) (chunks : List (Chunk Placeholder)) :
    fill scopes file chunks = answer scopes file chunks := by
  induction chunks with
  | nil => rfl
  | cons chunk rest ih =>
    cases chunk with
    | plain s =>
      have hitems : items (.plain s :: rest) = items rest := rfl
      rw [fill, ih, answer, answer, hitems]
      cases (items rest).findSome? (fault? scopes file) <;> rfl
    | found p =>
      have hitems : items (.found p :: rest) = p :: items rest := rfl
      rw [fill, ih, answer, answer, hitems, List.findSome?_cons]
      rcases value_eq scopes file p with ⟨problem, hfault, hvalue⟩ | ⟨v, hfault, hvalue, hrender⟩
      · rw [hfault, hvalue]
        rfl
      · rw [hfault, hvalue]
        cases (items rest).findSome? (fault? scopes file) with
        | some problem => rfl
        | none =>
          rw [Chunk.sources_cons, Chunk.source, hrender]
          rfl

theorem fill_plain (s : Text) : fill scopes file (.plain s :: chunks) =
    (fun a => (s ++ a.1, a.2)) <$> fill scopes file chunks := by
  rw [fill]
  cases fill scopes file chunks <;> rfl

theorem fill_pushText (s : Text) : fill scopes file (Chunk.pushText s chunks) =
    (fun a => (s ++ a.1, a.2)) <$> fill scopes file chunks := by
  fun_cases Chunk.pushText s chunks with
  | case1 t rest =>
    rw [fill_plain, fill_plain]
    cases fill scopes file rest with
    | error problem => rfl
    | ok a => exact congrArg (fun path => Except.ok (path, a.2)) (List.append_assoc s t a.1)
  | case2 => exact fill_plain s

theorem fill_cons_congr {c : Chunk Placeholder} {xs ys : List (Chunk Placeholder)}
    (h : fill scopes file xs = fill scopes file ys) :
    fill scopes file (c :: xs) = fill scopes file (c :: ys) := by
  cases c with
  | plain s => rw [fill, fill, h]
  | found p => rw [fill, fill, h]

theorem read?_of_ne {c : Char} (hc : c ≠ '<') (s : Text) : pattern.read? (c :: s) = none := by
  change read? (c :: s) = none
  unfold read?
  split
  · rename_i heq
    exact absurd (List.cons.inj heq).1 hc
  · rfl

theorem fill_scan_append (hs : '<' ∉ s) (t : Text) :
    fill scopes file (pattern.scan (s ++ t)) =
      (fun a => (s ++ a.1, a.2)) <$> fill scopes file (pattern.scan t) := by
  induction s with
  | nil =>
    cases hfill : fill scopes file (pattern.scan t) <;> simp [hfill]
  | cons c s ih =>
    have hc : c ≠ '<' := (List.ne_of_not_mem_cons hs).symm
    rw [List.cons_append, pattern.scan_cons (read?_of_ne hc _), fill_pushText,
      ih (List.not_mem_of_not_mem_cons hs)]
    cases fill scopes file (pattern.scan t) <;> rfl

theorem fill_scan_open (hs : '>' ∉ s) : fill scopes file (pattern.scan s) = .ok (s, []) := by
  induction s with
  | nil =>
    rw [pattern.scan_nil]
    rfl
  | cons c s ih =>
    have hread : pattern.read? (c :: s) = none := by
      by_cases hc : c = '<'
      · subst hc
        change read? ('<' :: s) = none
        cases hcut : Text.cut? ['>'] s with
        | none => rw [read?, hcut]
        | some halves =>
          have hs' := (Text.cut?_singleton_iff.1 hcut).1
          exact absurd (hs' ▸ List.mem_append_right _ List.mem_cons_self)
            (List.not_mem_of_not_mem_cons hs)
      · exact read?_of_ne hc s
    rw [pattern.scan_cons hread, fill_pushText, ih (List.not_mem_of_not_mem_cons hs)]
    rfl

theorem fill_scan_group {inner : Text} (hi : '>' ∉ inner) (behind : Text) :
    fill scopes file (pattern.scan ('<' :: (inner ++ '>' :: behind))) =
      fill scopes file (spelled (.found ⟨inner⟩) :: pattern.scan behind) := by
  have hcut : Text.cut? ['>'] (inner ++ '>' :: behind) = some (inner, behind) :=
    Text.cut?_singleton_iff.2 ⟨rfl, hi⟩
  cases inner with
  | nil =>
    have hread : pattern.read? ('<' :: '>' :: behind) = none := by
      change read? ('<' :: '>' :: behind) = none
      rw [List.nil_append] at hcut
      rw [read?, hcut]
    rw [List.nil_append, pattern.scan_cons hread,
      pattern.scan_cons (read?_of_ne (by decide) behind), fill_pushText, fill_pushText]
    change _ = fill scopes file (.plain ['<', '>'] :: _)
    rw [fill_plain]
    cases fill scopes file (pattern.scan behind) <;> rfl
  | cons c inner =>
    have hread : pattern.read? ('<' :: (c :: inner ++ '>' :: behind)) =
        some (⟨c :: inner⟩, behind) := by
      change read? ('<' :: (c :: inner ++ '>' :: behind)) = _
      rw [read?, hcut]
    rw [pattern.scan_of_read? hread]
    rfl

theorem fill_scan_eq (s : Text) :
    fill scopes file (pattern.scan s) = fill scopes file ((groups s).map spelled) := by
  fun_induction groups s with
  | case1 s hopen =>
    have hbrackets := Text.cut?_singleton_eq_none_iff.1 hopen
    rw [← List.append_nil s, fill_scan_append hbrackets, pattern.scan_nil, List.append_nil]
    exact (fill_plain s).symm
  | case2 s before rest hopen hclose =>
    obtain ⟨rfl, hbefore⟩ := Text.cut?_singleton_iff.1 hopen
    have hrest : '>' ∉ '<' :: rest := by
      simpa using Text.cut?_singleton_eq_none_iff.1 hclose
    rw [fill_scan_append hbefore, fill_scan_open hrest, List.map_singleton, spelled, fill_plain]
    exact congrArg (fun path => Except.ok (path, [])) (List.append_nil _).symm
  | case3 s before rest hopen inner behind hclose hlt ih =>
    obtain ⟨rfl, hbefore⟩ := Text.cut?_singleton_iff.1 hopen
    obtain ⟨rfl, hinner⟩ := Text.cut?_singleton_iff.1 hclose
    rw [fill_scan_append hbefore, fill_scan_group hinner, List.map_cons, List.map_cons]
    change _ = fill scopes file (.plain before :: _)
    rw [fill_plain, fill_cons_congr ih]

theorem items_map_spelled (chunks : List (Chunk Placeholder)) :
    items (chunks.map spelled) = (items chunks).filter (· ≠ empty) := by
  induction chunks with
  | nil => rfl
  | cons chunk rest ih =>
    cases chunk with
    | plain s => exact ih
    | found p =>
      change items (spelled (.found p) :: _) = (p :: items rest).filter _
      by_cases hp : p = empty
      · rw [spelled, if_pos hp, List.filter_cons_of_neg (by simp [hp])]
        exact ih
      · rw [spelled, if_neg hp, List.filter_cons_of_pos (by simp [hp]), ← ih]
        rfl

theorem map_spelled_of_not_mem (h : empty ∉ items chunks) : chunks.map spelled = chunks := by
  induction chunks with
  | nil => rfl
  | cons chunk rest ih =>
    cases chunk with
    | plain s => rw [List.map_cons, ih h, spelled]
    | found p =>
      have hp : p ≠ empty := fun heq => h (heq ▸ List.mem_cons_self)
      rw [List.map_cons, ih (List.not_mem_of_not_mem_cons h), spelled, if_neg hp]

theorem fault?_empty : empty.fault? scopes file = some (.emptyPlaceholder file) := rfl

theorem name_eq_nil_iff : p.name = [] ↔ p.fault? scopes file = some (.emptyPlaceholder file) := by
  unfold fault?
  by_cases hname : p.name = []
  · rw [if_pos hname]
    exact iff_of_true hname rfl
  · rw [if_neg hname]
    refine iff_of_false hname fun hfault => ?_
    split at hfault <;> cases hfault

theorem findSome?_filter_eq_some_iff {ps : List Placeholder} {problem : Problem} :
    (ps.filter (· ≠ empty)).findSome? (fault? scopes file) = some problem ↔
      ∃ before g behind, ps = before ++ g :: behind ∧ g ≠ empty ∧
        g.fault? scopes file = some problem ∧
        ∀ p ∈ before, p ≠ empty → p.fault? scopes file = none := by
  constructor
  · intro h
    obtain ⟨front, g, rest, hsplit, hfault, hnone⟩ := List.findSome?_eq_some_iff.1 h
    obtain ⟨xs, ys, rfl, rfl, hrest⟩ := List.filter_eq_append_iff.1 hsplit
    obtain ⟨zs, behind, rfl, hempty, hg, -⟩ := List.filter_eq_cons_iff.1 hrest
    refine ⟨xs ++ zs, g, behind, (List.append_assoc xs zs _).symm, of_decide_eq_true hg, hfault, ?_⟩
    intro p hp hne
    rcases List.mem_append.1 hp with hp | hp
    · exact hnone p (List.mem_filter.2 ⟨hp, decide_eq_true hne⟩)
    · exact absurd (decide_eq_true hne) (hempty p hp)
  · rintro ⟨before, g, behind, rfl, hg, hfault, hnone⟩
    have hsplit : (before ++ g :: behind).filter (· ≠ empty) =
        before.filter (· ≠ empty) ++ g :: behind.filter (· ≠ empty) := by
      rw [List.filter_append, List.filter_cons_of_pos (by simpa using hg)]
    refine List.findSome?_eq_some_iff.2 ⟨_, g, _, hsplit, hfault, fun p hp => ?_⟩
    obtain ⟨hp, hne⟩ := List.mem_filter.1 hp
    exact hnone p hp (of_decide_eq_true hne)

theorem findSome?_of_empty {before behind : List Placeholder} (hmem : empty ∈ before)
    (hnone : ∀ p ∈ before, p ≠ empty → p.fault? scopes file = none) :
    (before ++ behind).findSome? (fault? scopes file) = some (.emptyPlaceholder file) := by
  induction before with
  | nil => cases hmem
  | cons p before ih =>
    obtain ⟨hp, hrest⟩ := List.forall_mem_cons.1 hnone
    rw [List.cons_append, List.findSome?_cons]
    by_cases hempty : p = empty
    · rw [hempty, fault?_empty]
    · rw [hp hempty]
      exact ih ((List.mem_cons.1 hmem).resolve_left fun heq => hempty heq.symm) hrest

/-- Taking empty groups as text makes no difference exactly if there are none, or the first of the
others that is wrong has none of them in front of it or is blank. -/
theorem answer_spelled_eq_iff :
    answer scopes file (chunks.map spelled) = answer scopes file chunks ↔
      empty ∉ items chunks ∨
        ∃ before g behind, items chunks = before ++ g :: behind ∧ g ≠ empty ∧
          g.fault? scopes file ≠ none ∧
          (∀ p ∈ before, p ≠ empty → p.fault? scopes file = none) ∧
          (empty ∉ before ∨ g.name = []) := by
  constructor
  · intro h
    by_cases hmem : empty ∈ items chunks
    · rw [answer, answer, items_map_spelled] at h
      cases hlive : ((items chunks).filter (· ≠ empty)).findSome? (fault? scopes file) with
      | none =>
        -- The empty group is wrong, so there is an error on one side only.
        cases hfirst : (items chunks).findSome? (fault? scopes file) with
        | none => cases List.findSome?_eq_none_iff.1 hfirst empty hmem
        | some problem =>
          rw [hlive, hfirst] at h
          cases h
      | some problem =>
        obtain ⟨before, g, behind, hsplit, hg, hfault, hnone⟩ :=
          findSome?_filter_eq_some_iff.1 hlive
        refine .inr ⟨before, g, behind, hsplit, hg, by rw [hfault]; exact nofun, hnone, ?_⟩
        by_cases hbefore : empty ∈ before
        · rw [hlive, hsplit, findSome?_of_empty hbefore hnone] at h
          rw [name_eq_nil_iff, hfault]
          exact .inr (congrArg some (Except.error.inj h))
        · exact .inl hbefore
    · exact .inl hmem
  · rintro (hmem | ⟨before, g, behind, hsplit, hg, hfault, hnone, hfirst⟩)
    · rw [map_spelled_of_not_mem hmem]
    · obtain ⟨problem, hproblem⟩ := Option.ne_none_iff_exists'.1 hfault
      have hlive := findSome?_filter_eq_some_iff.2 ⟨before, g, behind, hsplit, hg, hproblem, hnone⟩
      have hall : (items chunks).findSome? (fault? scopes file) = some problem := by
        by_cases hbefore : empty ∈ before
        · have hname : g.name = [] := hfirst.resolve_left (not_not_intro hbefore)
          have hblank : g.fault? scopes file = some (.emptyPlaceholder file) :=
            name_eq_nil_iff.1 hname
          rw [hsplit, findSome?_of_empty hbefore hnone, ← hblank, hproblem]
        · refine List.findSome?_eq_some_iff.2 ⟨before, g, behind, hsplit, hproblem, fun p hp => ?_⟩
          exact hnone p hp fun heq => hbefore (heq ▸ hp)
      rw [answer, answer, items_map_spelled, hlive, hall]

/-- A path template is resolved by its groups, from the left to the right, those with nothing inside
being text: the first group whose name is empty or without a value ends it, with the problem of that
group as the only diagnostic, and otherwise each of them is replaced by the value that the first
scope has for it. So it is resolved as if the empty groups counted exactly if there are none, or the
first of the others that is wrong has none of them in front of it or is blank. -/
theorem fillTemplate_by_groups (scopes : List Scope) (file template : Text) (session : Session) :
    fillTemplate scopes file template = answer scopes file ((groups template).map spelled) ∧
      (session.after (Run.ofExcept (fillTemplate scopes file template))).diagnostics =
        session.diagnostics ++ ((((items (groups template)).filter (· ≠ empty)).findSome?
          (fault? scopes file)).map Problem.message).toList ∧
      (fillTemplate scopes file template = answer scopes file (groups template) ↔
        empty ∉ items (groups template) ∨
          ∃ before g behind, items (groups template) = before ++ g :: behind ∧ g ≠ empty ∧
            g.fault? scopes file ≠ none ∧
            (∀ p ∈ before, p ≠ empty → p.fault? scopes file = none) ∧
            (empty ∉ before ∨ g.name = [])) := by
  have heq : fillTemplate scopes file template =
      answer scopes file ((groups template).map spelled) := by
    rw [fillTemplate, fill_scan_eq, fill_eq_answer]
  refine ⟨heq, ?_, by rw [heq, answer_spelled_eq_iff]⟩
  rw [heq, answer, items_map_spelled]
  cases ((items (groups template)).filter (· ≠ empty)).findSome? (fault? scopes file) with
  | some problem => rfl
  | none => exact (List.append_nil _).symm

/-- A group with nothing inside is kept as it is, though its name is no less empty than that of a
blank one. -/
theorem empty_group_is_kept :
    fillTemplate [] "main.md".text "<>".text = .ok ("<>".text, []) ∧
      answer [] "main.md".text (groups "<>".text) = .error (.emptyPlaceholder "main.md".text) ∧
      fillTemplate [] "main.md".text "< >".text = .error (.emptyPlaceholder "main.md".text) := by
  have hempty : groups "<>".text = [.plain [], .found empty, .plain []] := by decide +kernel
  have hblank : groups "< >".text = [.plain [], .found ⟨[' ']⟩, .plain []] := by decide +kernel
  refine ⟨?_, ?_, ?_⟩
  · rw [fillTemplate, fill_scan_eq, hempty]
    rfl
  · rw [hempty]
    rfl
  · rw [fillTemplate, fill_scan_eq, hblank]
    rfl

end Placeholder
end Transclude

import Transclude.Proofs.BodyPasses
import Transclude.Proofs.IncludeSites
import Transclude.Proofs.ShiftedLines

/-! Chains of files in which each includes the next on a line of its own. The text of a chain is put
together from the lines of its files, each shifted by what the includes above it ask for. -/

namespace Transclude

/-- The lines of some files, outermost first. All but the last are cut around the argument of an
include directive, which names the level for the next file or none. -/
inductive IncludeChain where
  | last (file : Path) (lines : List Text)
  | link (file : Path) (before : List Text) (argument : Text) (level? : Option Nat)
    (after : List Text) (next : IncludeChain)
deriving Repr

namespace IncludeChain

def file : IncludeChain → Path
  | .last file _ => file
  | .link file _ _ _ _ _ => file

def lines : IncludeChain → List Text
  | .last _ ls => ls
  | .link _ before argument _ after _ =>
    before ++ (Directive.includeFile argument).source :: after

def whole : IncludeChain → List Text
  | .last _ ls => ls
  | .link _ before _ _ after next => before ++ next.whole ++ after

def lowest? (c : IncludeChain) : Option Nat :=
  ((Fence.classesFrom none c.lines).filterMap LineClass.level?).min?

/-- The shift that takes the first file to a level from where its includer stands. -/
def shiftTo (c : IncludeChain) (level : Nat) (offset : Int) : Int :=
  level + offset - (c.lowest?.map Int.ofNat).getD (offset + 1)

/-- The lines of all files as an expansion arranges them. Those of the first one are shifted by
`shift`, and `offset` is what its include is computed from; a file without a level is shifted once
what it includes is in place. -/
def arranged (offset shift : Int) : IncludeChain → List Text
  | .last _ ls => Heading.shiftLines shift none ls
  | .link _ before _ (some level) after next =>
    let own := next.shiftTo level offset
    Heading.shiftLines shift none before ++ next.arranged (offset + own) own ++
      Heading.shiftLines shift none after
  | .link _ before _ none after next =>
    Heading.shiftLines shift none before ++
      Heading.shiftLines offset none (next.arranged offset 0) ++
      Heading.shiftLines shift none after

end IncludeChain

/-- Whether the include directive with an argument leads from a file to a target that is included
whole, at a level if there is one. -/
structure Expander.Leads (x : Expander) (above : List Path) (scope : Scope) (file : Path)
    (argument : Text) (level? : Option Nat) (target : Path) : Prop where
  source : Directive.read? (Directive.includeFile argument).source =
    some (.includeFile argument, [])
  followed : ∃ i ∈ Include.parse? argument, i.heading? = none ∧
    i.level?.map Heading.namedLevel? = level?.map some ∧
    ∃ filled ∈ (fillTemplate [x.rootScope, scope] file.toText i.path).toOption,
      filled.1 ≠ [] ∧ x.workspace.target file.parent filled.1 = target
  fresh : target ∉ above ++ [file]

namespace IncludeChain

/-- Whether the files of a chain, reached through `above` with some variables inherited, have these
lines and hold no directive but those includes, neither by themselves nor once they are joined. -/
def Holds (x : Expander) : List Path → Scope → IncludeChain → Prop
  | _, _, .last file ls =>
    ∃ front ∈ x.workspace.front? file, front.body.lines = ls ∧ Fence.quiet none ls
  | above, inherited, .link file before argument level? after next =>
    ∃ front ∈ x.workspace.front? file,
      front.body.lines = before ++ (Directive.includeFile argument).source :: after ∧
      Fence.openAfter none before = none ∧ Fence.quiet none before ∧ Fence.quiet none after ∧
      Fence.quiet none (before ++ next.whole ++ after) ∧
      x.Leads above (front.scope.inherit inherited) file argument level? next.file ∧
      next.Holds x (above ++ [file]) (front.scope.inherit inherited)

instance {x : Expander} {above : List Path} {scope : Scope} {file : Path} {argument : Text}
    {level? : Option Nat} {target : Path} :
    Decidable (x.Leads above scope file argument level? target) :=
  decidable_of_iff (_ ∧ _ ∧ _)
    ⟨fun h => ⟨h.1, h.2.1, h.2.2⟩, fun h => ⟨h.source, h.followed, h.fresh⟩⟩

instance decidableHolds (x : Expander) : (above : List Path) → (inherited : Scope) →
    (c : IncludeChain) → Decidable (c.Holds x above inherited)
  | _, _, .last file ls =>
    inferInstanceAs (Decidable (∃ front ∈ x.workspace.front? file,
      front.body.lines = ls ∧ Fence.quiet none ls))
  | above, inherited, .link file before argument level? after next =>
    have (scope : Scope) := decidableHolds x (above ++ [file]) scope next
    inferInstanceAs (Decidable (∃ front ∈ x.workspace.front? file,
      front.body.lines = before ++ (Directive.includeFile argument).source :: after ∧
      Fence.openAfter none before = none ∧ Fence.quiet none before ∧ Fence.quiet none after ∧
      Fence.quiet none (before ++ next.whole ++ after) ∧
      x.Leads above (front.scope.inherit inherited) file argument level? next.file ∧
      next.Holds x (above ++ [file]) (front.scope.inherit inherited)))

variable {x : Expander} {c : IncludeChain} {above : List Path} {inherited : Scope}

theorem exists_front (h : c.Holds x above inherited) :
    ∃ front, x.workspace.front? c.file = some front ∧ front.body.lines = c.lines := by
  cases c with
  | last file ls =>
    obtain ⟨front, hfront, hlines, -⟩ := h
    exact ⟨front, hfront, hlines⟩
  | link file before argument level? after next =>
    obtain ⟨front, hfront, hlines, -⟩ := h
    exact ⟨front, hfront, hlines⟩

theorem unbroken_lines (h : c.Holds x above inherited) : Text.Unbroken c.lines ∧ c.lines ≠ [] := by
  obtain ⟨front, hfront, hlines⟩ := exists_front h
  have hno := Workspace.not_mem_of_front? hfront
  rw [← hlines]
  exact ⟨Text.unbroken_lines hno, Text.lines_ne_nil _⟩

theorem arranged_ne_nil (h : c.Holds x above inherited) (offset shift : Int) :
    c.arranged offset shift ≠ [] := by
  induction c generalizing above inherited offset shift with
  | last file ls => exact Heading.shiftLines_ne_nil (unbroken_lines h).2 shift none
  | link file before argument level? after next ih =>
    obtain ⟨front, -, -, -, -, -, -, -, hnext⟩ := h
    intro hnil
    cases level? with
    | some level =>
      rw [arranged, List.append_eq_nil_iff, List.append_eq_nil_iff] at hnil
      exact ih hnext _ _ hnil.1.2
    | none =>
      rw [arranged, List.append_eq_nil_iff, List.append_eq_nil_iff] at hnil
      exact Heading.shiftLines_ne_nil (ih hnext _ _) offset none hnil.1.2

theorem unbroken_arranged (h : c.Holds x above inherited) (offset shift : Int) :
    Text.Unbroken (c.arranged offset shift) := by
  induction c generalizing above inherited offset shift with
  | last file ls => exact Heading.unbroken_shiftLines (unbroken_lines h).1 shift none
  | link file before argument level? after next ih =>
    have hlines := (unbroken_lines h).1
    rw [lines, Text.unbroken_append] at hlines
    have hbefore := Heading.unbroken_shiftLines hlines.1 shift none
    have hafter := Heading.unbroken_shiftLines (List.forall_mem_cons.1 hlines.2).2 shift none
    obtain ⟨front, -, -, -, -, -, -, -, hnext⟩ := h
    cases level? with
    | some level =>
      rw [arranged, Text.unbroken_append, Text.unbroken_append]
      exact ⟨⟨hbefore, ih hnext _ _⟩, hafter⟩
    | none =>
      rw [arranged, Text.unbroken_append, Text.unbroken_append]
      exact ⟨⟨hbefore, Heading.unbroken_shiftLines (ih hnext _ _) offset none⟩, hafter⟩

theorem alike_arranged (c : IncludeChain) (offset shift : Int) :
    List.Forall₂ Alike c.whole (c.arranged offset shift) := by
  induction c generalizing offset shift with
  | last file ls => exact Alike.shiftLines shift none ls
  | link file before argument level? after next ih =>
    have hbefore := Alike.shiftLines shift none before
    have hafter := Alike.shiftLines shift none after
    cases level? with
    | some level => exact List.rel_append (List.rel_append hbefore (ih _ _)) hafter
    | none =>
      have hmoved := Alike.shiftLines offset none (next.arranged offset 0)
      have hinner := Alike.trans_forall₂ (ih offset 0) hmoved
      exact List.rel_append (List.rel_append hbefore hinner) hafter

def moveTo (c : IncludeChain) (level? : Option Nat) (offset : Int) : Int :=
  (level?.map fun level => c.shiftTo level offset).getD 0

theorem shiftTo_eq (c : IncludeChain) (level : Nat) (offset : Int) :
    level + offset - ((c.lowest?.map Int.ofNat).filter (· ≠ 0)).getD (offset + 1) =
      c.shiftTo level offset := by
  rw [shiftTo]
  cases hc : c.lowest? with
  | none => rfl
  | some lowest =>
    have hmem := List.min?_mem hc
    obtain ⟨kind, hin, hkind⟩ := List.mem_filterMap.1 hmem
    cases kind with
    | heading level =>
      obtain rfl := Option.some.inj hkind
      obtain ⟨hlow, -⟩ := Heading.bounds_of_mem_classesFrom hin
      -- A lowest level of zero would count as none.
      have hne : Int.ofNat level ≠ 0 := by
        intro hzero
        have := Int.ofNat_eq_zero.1 hzero
        omega
      rw [Option.map_some, Option.filter_some, if_pos (by simpa using hne)]
    | plain => cases hkind
    | fence => cases hkind
    | fenced => cases hkind

theorem exists_site {file : Path} {argument : Text} {level? : Option Nat} {scope : Scope}
    (hl : x.Leads above scope file argument level? c.file)
    (hc : c.Holds x (above ++ [file]) scope) {front : FrontMatter}
    (hf : x.workspace.front? c.file = some front) (offset : Int) :
    ∃ i t, Include.parse? argument = some i ∧
      x.Opens (above ++ [file]) file.parent scope offset i t ∧
      t.target = c.file ∧ t.front = front ∧ t.shift = c.moveTo level? offset ∧
      t.body = Text.unlines (Heading.shiftLines t.shift none c.lines) ∧
      (i.level?.getD [] = [] ↔ level? = none) := by
  obtain ⟨⟨template, _, spec?⟩, hparse, rfl, hspec, ⟨written, names⟩, hfill, hwritten, htarget⟩ :=
    hl.followed
  obtain ⟨front', hfront, hlines⟩ := exists_front hc
  obtain rfl := Option.some.inj (hf.symm.trans hfront)
  have hno := Workspace.not_mem_of_front? hfront
  refine ⟨⟨template, none, spec?⟩, ⟨c.file, front, ⟨front.body, Heading.lowest? front.body⟩,
    c.moveTo level? offset⟩, hparse, ⟨⟨written, names, ?_, hwritten, htarget⟩, hl.fresh, hfront,
    rfl, ?_⟩, rfl, rfl, rfl, ?_, ?_⟩
  · rw [List.getLast?_append]
    exact Except.ok_of_toOption hfill
  · have hlowest : Heading.lowest? front.body = c.lowest? := by
      rw [Heading.lowest?, Heading.levels, hlines, lowest?]
    rw [hlowest]
    cases level? with
    | none =>
      obtain rfl : spec? = none := Option.map_eq_none_iff.1 hspec
      rfl
    | some level =>
      obtain ⟨spec, rfl, hnamed⟩ := Option.map_eq_some_iff.1 hspec
      cases spec with
      | nil => cases hnamed
      | cons mark rest =>
        simp only [Heading.shiftTo, hnamed]
        exact congrArg Except.ok (shiftTo_eq c level offset)
  · -- With no shift the text is put in as it is, without being taken apart into lines.
    rw [Site.body]
    dsimp only
    split
    · rename_i hzero
      rw [hzero, Heading.shiftLines_zero, ← hlines, Text.unlines_lines hno]
    · rw [Heading.shift, hlines]
  · cases level? with
    | none =>
      obtain rfl : spec? = none := Option.map_eq_none_iff.1 hspec
      exact ⟨fun _ => rfl, fun _ => rfl⟩
    | some level =>
      obtain ⟨spec, rfl, hnamed⟩ := Option.map_eq_some_iff.1 hspec
      cases spec with
      | nil => cases hnamed
      | cons mark rest =>
        refine ⟨fun hnil => ?_, fun hnone => ?_⟩
        · have hcons : mark :: rest = [] := hnil
          cases hcons
        · cases hnone

theorem handBack_unlines (i : Include) (offset : Int) {ls : List Text} (h : Text.Unbroken ls)
    (hne : ls ≠ []) :
    i.handBack offset (Text.unlines ls) =
      Text.unlines (if i.level?.getD [] = [] then Heading.shiftLines offset none ls else ls) := by
  rw [Include.handBack]
  by_cases hlevel : i.level?.getD [] = []
  · by_cases hoffset : offset = 0
    · rw [if_neg fun hboth => hboth.2 hoffset, if_pos hlevel, hoffset, Heading.shiftLines_zero]
    · rw [if_pos ⟨hlevel, hoffset⟩, if_pos hlevel, Heading.shift_unlines h hne]
  · rw [if_neg fun hboth => hlevel hboth.1, if_neg hlevel]

theorem shiftLines_include {before : List Text} (h : Fence.openAfter none before = none)
    (argument : Text) (after : List Text) (shift : Int) :
    Heading.shiftLines shift none (before ++ (Directive.includeFile argument).source :: after) =
      Heading.shiftLines shift none before ++
        (Directive.includeFile argument).source :: Heading.shiftLines shift none after := by
  have hline : Heading.shiftLine shift (Directive.includeFile argument).source =
      (Directive.includeFile argument).source := rfl
  rw [Heading.shiftLines_append, h, Heading.shiftLines_cons, Fence.step_of_brace rfl, hline]
  rfl

/-- Expanding the first file of a chain, whose headings have been shifted already, puts the chain
together as the offsets have it that add up on the way. -/
theorem expandContent_eq_arranged (hx : x.embedImages = false) (h : c.Holds x above inherited)
    {front : FrontMatter} (hf : x.workspace.front? c.file = some front) (offset shift : Int) :
    (x.expandContent (above ++ [c.file]) c.file.parent (front.scope.inherit inherited) offset
      (Text.unlines (Heading.shiftLines shift none c.lines))).outcome =
      .ok (Text.unlines (c.arranged offset shift)) := by
  induction c generalizing above inherited front offset shift with
  | last file ls =>
    obtain ⟨hlines, hne⟩ := unbroken_lines h
    obtain ⟨-, -, -, hquiet⟩ := h
    refine Expander.expandBody_of_quiet hx ?_
    rw [Text.rows_unlines_of_unbroken (Heading.unbroken_shiftLines hlines shift none)
      (Heading.shiftLines_ne_nil hne shift none)]
    exact Alike.quiet (Alike.shiftLines shift none ls) Fence.real_none hquiet
  | link file before argument level? after next ih =>
    have hunbroken := Heading.unbroken_shiftLines (unbroken_lines h).1 shift none
    have hwhole := unbroken_arranged h offset shift
    have halike := alike_arranged (.link file before argument level? after next) offset shift
    obtain ⟨front', hfront, -, hopen, hbefore, hafter, hquiet, hleads, hnext⟩ := h
    obtain rfl := Option.some.inj (hf.symm.trans hfront)
    obtain ⟨front', hfront', -⟩ := exists_front hnext
    obtain ⟨i, t, hparse, hopens, htarget, rfl, hshift, hbody, hlevel⟩ :=
      exists_site hleads hnext hfront' offset
    have hsite : (x.expandSite (above ++ [file]) (front.scope.inherit inherited) offset t).outcome =
        .ok (Text.unlines (next.arranged (offset + t.shift) t.shift)) := by
      rw [Expander.expandSite, htarget, hbody]
      exact ih hnext hfront' _ _
    -- What is put in for the include is made of lines, also where it has been shifted once more.
    obtain ⟨inner, harranged, hne, hinner⟩ : ∃ inner,
        arranged offset shift (.link file before argument level? after next) =
          Heading.shiftLines shift none before ++ inner ++ Heading.shiftLines shift none after ∧
        inner ≠ [] ∧
        i.handBack offset (Text.unlines (next.arranged (offset + t.shift) t.shift)) =
          Text.unlines inner := by
      have hback := handBack_unlines i offset
        (unbroken_arranged hnext (offset + t.shift) t.shift) (arranged_ne_nil hnext _ _)
      cases level? with
      | some level =>
        have hmoved : t.shift = next.shiftTo level offset := hshift
        rw [if_neg fun hnil => nomatch hlevel.1 hnil] at hback
        refine ⟨_, ?_, arranged_ne_nil hnext _ _, hback⟩
        rw [arranged, hmoved]
      | none =>
        have hmoved : t.shift = 0 := hshift
        rw [if_pos (hlevel.2 rfl)] at hback
        refine ⟨_, ?_, Heading.shiftLines_ne_nil (arranged_ne_nil hnext _ _) offset none, hback⟩
        rw [arranged, hmoved, Int.add_zero]
    have hjoined : Text.above (Heading.shiftLines shift none before) ++ Text.unlines inner ++
        Text.below (Heading.shiftLines shift none after) =
        Text.unlines (arranged offset shift (.link file before argument level? after next)) := by
      rw [harranged, Text.above_append_unlines _ hne, Text.unlines_append_below (by simp [hne])]
    rw [← hjoined, lines, shiftLines_include hopen]
    rw [lines, shiftLines_include hopen] at hunbroken
    refine Expander.expandBody_of_line hx hleads.source hparse ?_ ?_ ?_ ?_ ?_ ?_
    · exact Alike.quiet (Alike.shiftLines shift none before) Fence.real_none hbefore
    · rw [Heading.openAfter_shiftLines Fence.real_none, hopen]
    · exact Alike.quiet (Alike.shiftLines shift none after) Fence.real_none hafter
    · exact fun l hl => (hunbroken l hl).1
    · rw [← hinner]
      refine (Expander.expandInclude_of_opens hopens).trans ?_
      exact Run.outcome_map_eq_ok_iff.2 ⟨_, hsite, rfl⟩
    · rw [hjoined, Text.rows_unlines_of_unbroken hwhole (by simp [harranged, hne])]
      exact Alike.quiet halike Fence.real_none hquiet

theorem expandFile_eq_arranged (hx : x.embedImages = false) (h : c.Holds x above inherited) :
    ∃ r, (x.expandFile above c.file inherited).outcome = .ok r ∧
      r.body = Text.unlines (c.arranged 0 0) := by
  obtain ⟨front, hfront, hlines⟩ := exists_front h
  have hbody : front.body = Text.unlines (Heading.shiftLines 0 none c.lines) := by
    rw [Heading.shiftLines_zero, ← hlines,
      Text.unlines_lines (Workspace.not_mem_of_front? hfront)]
  have hcontent := expandContent_eq_arranged hx h hfront 0 0
  rw [← hbody] at hcontent
  refine ⟨⟨_, front.raw?, front.scope.inherit inherited⟩, ?_, rfl⟩
  rw [Expander.expandFile_of_front hfront]
  exact Run.outcome_map_eq_ok_iff.2 ⟨_, hcontent, rfl⟩

/-- Whether every file that is put in closes the fences it opens. -/
def Closed : IncludeChain → Prop
  | .last _ _ => True
  | .link _ _ _ _ _ next => Fence.openAfter none next.lines = none ∧ next.Closed

def outline (offset shift : Int) : IncludeChain → List (Nat × Text)
  | .last _ ls => (Heading.outlineFrom none ls).map (Heading.moved shift)
  | .link _ before _ (some level) after next =>
    let own := next.shiftTo level offset
    (Heading.outlineFrom none before).map (Heading.moved shift) ++
      next.outline (offset + own) own ++
      (Heading.outlineFrom none after).map (Heading.moved shift)
  | .link _ before _ none after next =>
    (Heading.outlineFrom none before).map (Heading.moved shift) ++
      (next.outline offset 0).map (Heading.moved offset) ++
      (Heading.outlineFrom none after).map (Heading.moved shift)

def written : IncludeChain → List (Nat × Text)
  | .last _ ls => Heading.outlineFrom none ls
  | .link _ before _ _ after next =>
    Heading.outlineFrom none before ++ next.written ++ Heading.outlineFrom none after

theorem length_outline (c : IncludeChain) (offset shift : Int) :
    (c.outline offset shift).length = c.written.length := by
  induction c generalizing offset shift with
  | last file ls => simp [outline, written]
  | link file before argument level? after next ih =>
    cases level? with
    | some level => simp [outline, written, ih]
    | none => simp [outline, written, ih]

theorem append_around_iff {α : Type} {a a' b b' c c' : List α} (ha : a.length = a'.length)
    (hb : b.length = b'.length) :
    a ++ b ++ c = a' ++ b' ++ c' ↔ a ++ c = a' ++ c' ∧ b = b' := by
  constructor
  · intro h
    obtain ⟨hab, rfl⟩ := List.append_inj h (by simp [ha, hb])
    obtain ⟨rfl, rfl⟩ := List.append_inj hab ha
    exact ⟨rfl, rfl⟩
  · rintro ⟨h, rfl⟩
    obtain ⟨rfl, rfl⟩ := List.append_inj h ha
    rfl

theorem openAfter_include {before : List Text} (h : Fence.openAfter none before = none)
    (argument : Text) (after : List Text) :
    Fence.openAfter none (before ++ (Directive.includeFile argument).source :: after) =
      Fence.openAfter none after := by
  rw [Fence.openAfter_append, h, Fence.openAfter, List.foldl_cons, Fence.step_of_brace rfl]
  rfl

theorem openAfter_arranged (h : c.Holds x above inherited) (hc : c.Closed)
    (offset shift : Int) :
    Fence.openAfter none (c.arranged offset shift) = Fence.openAfter none c.lines := by
  induction c generalizing above inherited offset shift with
  | last file ls => exact Heading.openAfter_shiftLines Fence.real_none shift ls
  | link file before argument level? after next ih =>
    obtain ⟨front, -, -, hopen, -, -, -, -, hnext⟩ := h
    have hinner (offset shift : Int) :
        Fence.openAfter none (next.arranged offset shift) = none :=
      (ih hnext hc.2 offset shift).trans hc.1
    rw [lines, openAfter_include hopen]
    cases level? with
    | some level =>
      rw [arranged, Fence.openAfter_append, Fence.openAfter_append,
        Heading.openAfter_shiftLines Fence.real_none, hopen, hinner,
        Heading.openAfter_shiftLines Fence.real_none]
    | none =>
      rw [arranged, Fence.openAfter_append, Fence.openAfter_append,
        Heading.openAfter_shiftLines Fence.real_none, hopen,
        Heading.openAfter_shiftLines Fence.real_none, hinner,
        Heading.openAfter_shiftLines Fence.real_none]

theorem outlineFrom_arranged (h : c.Holds x above inherited) (hc : c.Closed)
    (offset shift : Int) :
    Heading.outlineFrom none (c.arranged offset shift) = c.outline offset shift := by
  induction c generalizing above inherited offset shift with
  | last file ls => exact Heading.outlineFrom_shiftLines Fence.real_none shift ls
  | link file before argument level? after next ih =>
    obtain ⟨front, -, -, hopen, -, -, -, -, hnext⟩ := h
    have hinner (offset shift : Int) :
        Fence.openAfter none (next.arranged offset shift) = none :=
      (openAfter_arranged hnext hc.2 offset shift).trans hc.1
    have hbefore : Fence.openAfter none (Heading.shiftLines shift none before) = none := by
      rw [Heading.openAfter_shiftLines Fence.real_none, hopen]
    cases level? with
    | some level =>
      rw [arranged, Heading.outlineFrom_append, Heading.outlineFrom_append, Fence.openAfter_append,
        hbefore, hinner, Heading.outlineFrom_shiftLines Fence.real_none,
        Heading.outlineFrom_shiftLines Fence.real_none, ih hnext hc.2, outline]
    | none =>
      rw [arranged, Heading.outlineFrom_append, Heading.outlineFrom_append, Fence.openAfter_append,
        hbefore, Heading.openAfter_shiftLines Fence.real_none, hinner,
        Heading.outlineFrom_shiftLines Fence.real_none,
        Heading.outlineFrom_shiftLines Fence.real_none,
        Heading.outlineFrom_shiftLines Fence.real_none, ih hnext hc.2, outline]

theorem outline_of_arranged (h : c.Holds x above inherited) (hc : c.Closed)
    (offset shift : Int) :
    Heading.outline (Text.unlines (c.arranged offset shift)) =
      c.outline offset shift := by
  rw [Heading.outline, Text.lines_unlines (unbroken_arranged h offset shift)
    (arranged_ne_nil h offset shift), outlineFrom_arranged h hc]

end IncludeChain
end Transclude

import Transclude.Proofs.IncludeChains

/-! Levels asked for along a chain. Each is meant from where the headings of the includer have landed,
but is computed from the sum of the shifts so far, each of which holds the one before it already. The
two differ from the third level on. -/

namespace Transclude
namespace IncludeChain

/-- Whether every file but the first is asked for at a level. -/
def Leveled : IncludeChain → Prop
  | .last _ _ => True
  | .link _ _ _ level? _ next => level?.isSome ∧ next.Leveled

/-- A heading at a level that may lie out of the bounds. -/
def raised (net : Int) (heading : Nat × Text) : Int × Text := (heading.1 + net, heading.2)

/-- The headings of all files at the levels where they are due: `net` above those in the first file,
and in each other one as far as its level takes it from where its includer stands. -/
def due (net : Int) : IncludeChain → List (Int × Text)
  | .last _ ls => (Heading.outlineFrom none ls).map (raised net)
  | .link _ before _ (some level) after next =>
    (Heading.outlineFrom none before).map (raised net) ++ next.due (next.shiftTo level net) ++
      (Heading.outlineFrom none after).map (raised net)
  | .link _ before _ none after next =>
    (Heading.outlineFrom none before).map (raised net) ++ next.due net ++
      (Heading.outlineFrom none after).map (raised net)

def InRange (net : Int) (c : IncludeChain) : Prop :=
  ∀ heading ∈ c.due net, 1 ≤ heading.1 ∧ heading.1 ≤ 6

/-- Whether a shift takes some headings where another one would: it is the same, or it errs beyond
the bound at which all of them are due. -/
def Lands (shift net : Int) (headings : List (Nat × Text)) : Prop :=
  shift = net ∨ (net < shift ∧ ∀ heading ∈ headings, heading.1 + net = 6) ∨
    (shift < net ∧ ∀ heading ∈ headings, heading.1 + net = 1)

/-- Whether every file lands where it is due, although its shift is computed from `offset` and not
from the net shift of its includer. -/
def Faithful (offset shift net : Int) : IncludeChain → Prop
  | .last _ ls => Lands shift net (Heading.outlineFrom none ls)
  | .link _ before _ level? after next =>
    Lands shift net (Heading.outlineFrom none before ++ Heading.outlineFrom none after) ∧
      ∀ level ∈ level?, next.Faithful (offset + next.shiftTo level offset)
        (next.shiftTo level offset) (next.shiftTo level net)

theorem map_moved_eq_iff {shift net : Int} {headings : List (Nat × Text)}
    (hb : ∀ heading ∈ headings, 1 ≤ (heading.1 : Int) + net ∧ (heading.1 : Int) + net ≤ 6) :
    (headings.map (Heading.moved shift)).map (raised 0) = headings.map (raised net) ↔
      Lands shift net headings := by
  have hone : ∀ heading ∈ headings, raised 0 (Heading.moved shift heading) = raised net heading ↔
      shift = net ∨ (net < shift ∧ (heading.1 : Int) + net = 6) ∨
        (shift < net ∧ (heading.1 : Int) + net = 1) := by
    intro heading hmem
    have := hb heading hmem
    simp only [raised, Heading.moved, Heading.clamp, Prod.mk.injEq, and_true]
    omega
  rw [List.map_map, List.map_inj_left, Lands]
  constructor
  · intro h
    have hall (heading : Nat × Text) (hmem : heading ∈ headings) :=
      (hone heading hmem).1 (h heading hmem)
    rcases Int.lt_trichotomy shift net with hlt | heq | hgt
    · refine .inr (.inr ⟨hlt, fun heading hmem => ?_⟩)
      have := hall heading hmem
      omega
    · exact .inl heq
    · refine .inr (.inl ⟨hgt, fun heading hmem => ?_⟩)
      have := hall heading hmem
      omega
  · intro h heading hmem
    refine (hone heading hmem).2 ?_
    rcases h with heq | ⟨hgt, hall⟩ | ⟨hlt, hall⟩
    · exact .inl heq
    · exact .inr (.inl ⟨hgt, hall heading hmem⟩)
    · exact .inr (.inr ⟨hlt, hall heading hmem⟩)

theorem length_due (c : IncludeChain) (net : Int) : (c.due net).length = c.written.length := by
  induction c generalizing net with
  | last file ls => simp [due, written]
  | link file before argument level? after next ih =>
    cases level? with
    | some level => simp [due, written, ih]
    | none => simp [due, written, ih]

theorem outline_eq_due_iff {c : IncludeChain} (hl : c.Leveled) {net : Int} (hr : c.InRange net)
    (offset shift : Int) :
    (c.outline offset shift).map (raised 0) = c.due net ↔ c.Faithful offset shift net := by
  induction c generalizing offset shift net with
  | last file ls => exact map_moved_eq_iff (List.forall_mem_map.1 hr)
  | link file before argument level? after next ih =>
    obtain ⟨hsome, hnext⟩ := hl
    obtain ⟨level, rfl⟩ := Option.isSome_iff_exists.1 hsome
    rw [InRange, due, List.forall_mem_append, List.forall_mem_append] at hr
    obtain ⟨⟨hbefore, hinner⟩, hafter⟩ := hr
    have hown : ∀ heading ∈ Heading.outlineFrom none before ++ Heading.outlineFrom none after,
        1 ≤ (heading.1 : Int) + net ∧ (heading.1 : Int) + net ≤ 6 :=
      List.forall_mem_append.2 ⟨List.forall_mem_map.1 hbefore, List.forall_mem_map.1 hafter⟩
    -- The next file is shifted from `offset`, but due from where this one stands.
    have hrest := ih hnext hinner (offset + next.shiftTo level offset) (next.shiftTo level offset)
    rw [outline, due, Faithful, ← map_moved_eq_iff hown]
    simp only [List.map_append, Option.mem_some_iff, forall_eq']
    rw [← hrest]
    exact append_around_iff (by simp) (by simp [length_outline, length_due])

/-- A chain of files that are each asked for at a level is put together with every heading moved as
`outline` says. All headings are where they are due exactly if every file lands there. -/
theorem expandFile_eq_due_iff (x : Expander) (hx : x.embedImages = false) (c : IncludeChain)
    (above : List Path) (inherited : Scope) (h : c.Holds x above inherited) (hl : c.Leveled)
    (hr : c.InRange 0) :
    ∃ r, (x.expandFile above c.file inherited).outcome = .ok r ∧
      r.body = Text.unlines (c.arranged 0 0) ∧
      (c.Closed → Heading.outline r.body = c.outline 0 0) ∧
      ((c.outline 0 0).map (raised 0) = c.due 0 ↔ c.Faithful 0 0 0) := by
  obtain ⟨r, hr', hbody⟩ := expandFile_eq_arranged hx h
  refine ⟨r, hr', hbody, fun hc => ?_, outline_eq_due_iff hl hr 0 0⟩
  rw [hbody, outline_of_arranged h hc]

def steep : IncludeChain :=
  .link (.named "main") [] "a||##".text (some 2) [] <|
    .link (.named "a") ["# A".text] "b||#".text (some 1) [] <|
      .link (.named "b") ["# B".text] "c||#".text (some 1) [] <| .last (.named "c") ["# C".text]

def steepFiles : Expander where
  workspace := .holding [
    ("main", "\x7b!include(a||##)!\x7d"), ("a", "# A\n\x7b!include(b||#)!\x7d"),
    ("b", "# B\n\x7b!include(c||#)!\x7d"), ("c", "# C")]
  rootScope := .empty
  embedImages := false

theorem holds_steep : steep.Holds steepFiles [] .empty ∧ steep.Leveled ∧ steep.InRange 0 := by
  refine ⟨by decide +kernel, ⟨rfl, rfl, rfl, trivial⟩, ?_⟩
  change ∀ heading ∈ steep.due 0, 1 ≤ heading.1 ∧ heading.1 ≤ 6
  decide +kernel

theorem expandFile_eq_due_iff_of_steep :
    ∃ r, (steepFiles.expandFile [] (.named "main") .empty).outcome = .ok r ∧
      r.body = "## A\n## B\n### C".text := by
  obtain ⟨hholds, hleveled, hrange⟩ := holds_steep
  obtain ⟨r, hr, hbody, -⟩ :=
    expandFile_eq_due_iff steepFiles rfl steep [] .empty hholds hleveled hrange
  refine ⟨r, hr, hbody.trans ?_⟩
  decide +kernel

/-- The third file is due at the second level like the two above it, and stands at the third. -/
theorem outline_steep_ne_due :
    steep.Holds steepFiles [] .empty ∧ steep.Leveled ∧ steep.InRange 0 ∧ steep.Closed ∧
      ∃ r, (steepFiles.expandFile [] (.named "main") .empty).outcome = .ok r ∧
        (Heading.outline r.body).map (raised 0) ≠ steep.due 0 := by
  obtain ⟨hholds, hleveled, hrange⟩ := holds_steep
  have hclosed : steep.Closed :=
    ⟨by decide +kernel, by decide +kernel, by decide +kernel, trivial⟩
  exact ⟨hholds, hleveled, hrange, hclosed, ⟨"## A\n## B\n### C".text, none, .empty⟩,
    Except.ok_of_toOption (by decide +kernel), by decide +kernel⟩

end IncludeChain
end Transclude

import Mathlib.Data.List.TakeWhile
import Transclude.Heading.Section
import Transclude.Proofs.ClassedLines
import Transclude.Proofs.RunInversion

/-! Sections cut out of a document. A section starts where no fence is open, so its lines are classed
by themselves as they are in the document, and it is found again in its own text. -/

namespace Transclude

namespace Heading

variable {title s : Text} {level : Nat}

/-- Whether the first unfenced line of a document that reads like the title is a heading. -/
structure Begins (title s : Text) (before : List (Text × LineClass)) (first : Text) (level : Nat)
    (behind : List (Text × LineClass)) : Prop where
  classify_eq : Fence.classify s = before ++ (first, .heading level) :: behind
  reads : first.trim = title.trim
  earliest : ∀ line ∈ before, line.2.inFence = false → line.1.trim ≠ title.trim

def AllBelow (level : Nat) (run : List (Text × LineClass)) : Prop :=
  ∀ line ∈ run, ∀ other, line.2 = .heading other → level < other

theorem allBelow_iff {run : List (Text × LineClass)} :
    AllBelow level run ↔ ∀ line ∈ run, staysBelow level line := by
  refine forall₂_congr fun line _ => ?_
  obtain ⟨text, kind⟩ := line
  cases kind <;> simp [staysBelow]

/-- The lines in front of the first one that is a heading at the level or above are the longest run
without such a heading. -/
theorem prefix_takeWhile {run behind : List (Text × LineClass)} (h : run <+: behind)
    (hrun : AllBelow level run) : run <+: behind.takeWhile (staysBelow level) := by
  obtain ⟨more, rfl⟩ := h
  rw [List.takeWhile_append_of_pos (allBelow_iff.1 hrun)]
  exact List.prefix_append _ _

theorem startsSection_iff {line : Text × LineClass} :
    startsSection title line ↔ line.2.inFence = false ∧ line.1.trim = title.trim := by
  simp [startsSection]

theorem Begins.level? {before behind : List (Text × LineClass)} {first : Text}
    (h : Begins title s before first level behind) : Heading.level? first = some level := by
  refine Fence.level?_of_mem (s := s) ?_
  rw [h.classify_eq]
  exact List.mem_append_right _ List.mem_cons_self

theorem Begins.dropWhile {before behind : List (Text × LineClass)} {first : Text}
    (h : Begins title s before first level behind) :
    ((Fence.classify s).dropWhile fun line => !startsSection title line) =
      (first, .heading level) :: behind := by
  have hbefore : ∀ line ∈ before, !startsSection title line := by
    intro line hline
    have hearly := h.earliest line hline
    rw [Bool.not_eq_true', ← Bool.not_eq_true, startsSection_iff]
    exact fun hstarts => hearly hstarts.1 hstarts.2
  have hfirst : startsSection title (first, .heading level) := startsSection_iff.2 ⟨rfl, h.reads⟩
  rw [h.classify_eq, List.dropWhile_append_of_pos hbefore,
    List.dropWhile_cons_of_neg (by simp [hfirst])]

theorem cutSection_of_begins {before behind : List (Text × LineClass)} {first : Text}
    (h : Begins title s before first level behind) :
    cutSection title s = .ok
      ⟨Text.unlines (first :: (behind.takeWhile (staysBelow level)).map (·.1)), some level⟩ := by
  unfold cutSection
  rw [h.dropWhile]
  dsimp only
  rw [h.level?]
  rfl

theorem exists_of_dropWhile {first : Text × LineClass} {behind : List (Text × LineClass)}
    (h : ((Fence.classify s).dropWhile fun line => !startsSection title line) = first :: behind) :
    ∃ before, Fence.classify s = before ++ first :: behind ∧ startsSection title first ∧
      ∀ line ∈ before, startsSection title line = false := by
  refine ⟨(Fence.classify s).takeWhile fun line => !startsSection title line, ?_, ?_, ?_⟩
  · rw [← h, List.takeWhile_append_dropWhile]
  · have hstop := List.head?_dropWhile_not (fun line => !startsSection title line)
      (Fence.classify s)
    rw [h] at hstop
    simpa using hstop
  · intro line hline
    have hpassed := List.mem_takeWhile_imp hline
    simpa using hpassed

theorem exists_begins {snippet : Snippet} (h : cutSection title s = .ok snippet) :
    ∃ before first level behind, Begins title s before first level behind := by
  unfold cutSection at h
  split at h
  · cases h
  · rename_i found behind hfound
    obtain ⟨first, kind⟩ := found
    obtain ⟨before, hsplit, hstarts, hbefore⟩ := exists_of_dropWhile hfound
    obtain ⟨hkind, hreads⟩ := startsSection_iff.1 hstarts
    split at h
    · cases h
    · rename_i level hlevel
      obtain ⟨xs, ys, -, -, hrest⟩ := Fence.exists_of_classifyFrom_eq_append hsplit
      obtain ⟨-, -, hclass, -, -⟩ := Fence.exists_of_classifyFrom_eq_cons hrest.symm hkind
      obtain rfl : kind = .heading level := by
        rw [hclass] at hkind ⊢
        exact (Fence.step_eq_heading_iff hkind).2 hlevel
      refine ⟨before, first, level, behind, hsplit, hreads, fun line hline hprose hread => ?_⟩
      have hpassed := hbefore line hline
      rw [startsSection_iff.2 ⟨hprose, hread⟩] at hpassed
      cases hpassed

theorem classify_section (hr : '\r' ∉ s) {before below after : List (Text × LineClass)}
    {first : Text} (h : Begins title s before first level (below ++ after)) :
    Fence.classify (Text.unlines (first :: below.map (·.1))) =
      (first, .heading level) :: below := by
  obtain ⟨xs, ys, hlines, -, hrest⟩ := Fence.exists_of_classifyFrom_eq_append h.classify_eq
  obtain ⟨zs, rfl, hkind, hbehind, hnext⟩ := Fence.exists_of_classifyFrom_eq_cons hrest.symm rfl
  obtain ⟨us, vs, rfl, rfl, -⟩ := Fence.exists_of_classifyFrom_eq_append hbehind.symm
  have hunbroken := Text.unbroken_lines hr
  rw [hlines, ← List.cons_append, Text.unbroken_append, Text.unbroken_append] at hunbroken
  rw [Fence.map_fst_classifyFrom, Fence.classify_eq,
    Text.lines_unlines hunbroken.2.1 (List.cons_ne_nil _ _), Fence.classifyFrom_cons, hnext, hkind]

theorem eq_around_section (hr : '\r' ∉ s) {before below after : List (Text × LineClass)}
    {first : Text} (h : Begins title s before first level (below ++ after)) :
    s = Text.above (before.map (·.1)) ++ Text.unlines (first :: below.map (·.1)) ++
      Text.below (after.map (·.1)) := by
  have hlines := congrArg (List.map Prod.fst) h.classify_eq
  rw [Fence.classify_eq, Fence.map_fst_classifyFrom, List.map_append, List.map_cons,
    List.map_append] at hlines
  have hwhole := Text.unlines_lines hr
  rw [hlines] at hwhole
  rw [Text.above_append_unlines _ (List.cons_ne_nil _ _), Text.unlines_append_below (by simp)]
  simpa using hwhole.symm

/-- A section is cut exactly if the first unfenced line that reads like the title is a heading. It is
the longest run of lines from there on without another heading at its level or above, the document is
that run with the lines above and below it, the classes of its lines are the same by themselves, and
the same title cuts all of it out of itself. -/
theorem cutSection_longest_run (hr : '\r' ∉ s) (title : Text) :
    ((∃ snippet, cutSection title s = .ok snippet) ↔
      ∃ before first level behind, Begins title s before first level behind) ∧
    ∀ before first level behind, Begins title s before first level behind →
      ∃ below after, behind = below ++ after ∧ AllBelow level below ∧
        (∀ run, run <+: behind → AllBelow level run → run <+: below) ∧
        ∃ body, body = Text.unlines (first :: below.map (·.1)) ∧
          cutSection title s = .ok ⟨body, some level⟩ ∧
          s = Text.above (before.map (·.1)) ++ body ++ Text.below (after.map (·.1)) ∧
          Fence.classify body = (first, .heading level) :: below ∧
          cutSection title body = .ok ⟨body, some level⟩ := by
  refine ⟨⟨fun ⟨_, h⟩ => exists_begins h, fun ⟨_, _, _, _, h⟩ => ⟨_, cutSection_of_begins h⟩⟩, ?_⟩
  intro before first level behind h
  have hsplit := List.takeWhile_append_dropWhile (p := staysBelow level) (l := behind)
  have hbelow : AllBelow level (behind.takeWhile (staysBelow level)) :=
    allBelow_iff.2 fun line hline => List.mem_takeWhile_imp hline
  refine ⟨_, _, hsplit.symm, hbelow, fun run => prefix_takeWhile, _, rfl, cutSection_of_begins h, ?_⟩
  rw [← hsplit] at h
  have hclasses := classify_section hr h
  refine ⟨eq_around_section hr h, hclasses, ?_⟩
  have hself : Begins title (Text.unlines
      (first :: (behind.takeWhile (staysBelow level)).map (·.1))) [] first level
      (behind.takeWhile (staysBelow level)) :=
    ⟨hclasses, h.reads, fun line hline => absurd hline List.not_mem_nil⟩
  have hcut := cutSection_of_begins hself
  rwa [List.takeWhile_eq_self_iff.2 (allBelow_iff.1 hbelow)] at hcut

def installGuide : Text :=
  "# Guide\n\x60\x60\x60\n## Install\n\x60\x60\x60\n  ## Install\ntext\n### Linux\n## Usage\nuse".text

theorem cutSection_longest_run_of_guide : '\r' ∉ installGuide ∧
    Begins "## Install ".text installGuide
      [("# Guide".text, .heading 1), ("\x60\x60\x60".text, .fence), ("## Install".text, .fenced),
        ("\x60\x60\x60".text, .fence)] "  ## Install".text 2
      [("text".text, .plain), ("### Linux".text, .heading 3), ("## Usage".text, .heading 2),
        ("use".text, .plain)] ∧
    ∃ body, cutSection "## Install ".text installGuide = .ok ⟨body, some 2⟩ ∧
      body = "  ## Install\ntext\n### Linux".text ∧
      cutSection "## Install ".text body = .ok ⟨body, some 2⟩ := by
  have hr : '\r' ∉ installGuide := by decide +kernel
  have hbegins : Begins "## Install ".text installGuide
      [("# Guide".text, .heading 1), ("\x60\x60\x60".text, .fence), ("## Install".text, .fenced),
        ("\x60\x60\x60".text, .fence)] "  ## Install".text 2
      [("text".text, .plain), ("### Linux".text, .heading 3), ("## Usage".text, .heading 2),
        ("use".text, .plain)] :=
    ⟨by decide +kernel, by decide +kernel, by decide +kernel⟩
  refine ⟨hr, hbegins, ?_⟩
  obtain ⟨below, after, -, -, -, body, -, hcut, -, -, hself⟩ :=
    (cutSection_longest_run hr "## Install ".text).2 _ _ _ _ hbegins
  have hbody : cutSection "## Install ".text installGuide =
      .ok ⟨"  ## Install\ntext\n### Linux".text, some 2⟩ :=
    Except.ok_of_toOption (by decide +kernel)
  rw [hbody] at hcut
  exact ⟨body, hbody.trans hcut, (congrArg Snippet.body (Except.ok.inj hcut)).symm, hself⟩

end Heading
end Transclude

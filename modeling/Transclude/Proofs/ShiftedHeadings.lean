import Transclude.Proofs.MarkedLines
import Transclude.Proofs.SectionCuts
import Transclude.Proofs.TidyRows

/-! The headings of a shifted text. Each line keeps its place, and its class but for the level. The
headings that move are those indented by at most three blanks; with them move the marks without a
title, which are no headings. -/

namespace Transclude
namespace Heading

/-- What a shift makes of a line and its class. -/
inductive Moves (shift : Int) : Text × LineClass → Text × LineClass → Prop
  | heading (m : MarkedLine) : m.title ≠ [] → m.indent.length ≤ 3 →
      Moves shift (m.text, .heading m.marks)
        ((m.moved shift).text, .heading (clamp (m.marks + shift)))
  /-- A heading that is indented too far to be moved. -/
  | indented (m : MarkedLine) : m.title ≠ [] → 3 < m.indent.length →
      Moves shift (m.text, .heading m.marks) (m.text, .heading m.marks)
  /-- Marks that no title follows. -/
  | untitled (m : MarkedLine) : m.title = [] → m.indent.length ≤ 3 →
      Moves shift (m.text, .plain) ((m.moved shift).text, .plain)
  | plain (line : Text) : (∀ m : MarkedLine, m.indent.length ≤ 3 → m.text ≠ line) →
      Moves shift (line, .plain) (line, .plain)
  | fenced (line : Text) (kind : LineClass) : kind.inFence →
      Moves shift (line, kind) (line, kind)

def IsShallow (line : Text) : Prop := line.spanBlanks.1.length ≤ 3

instance (line : Text) : Decidable (IsShallow line) := inferInstanceAs (Decidable (_ ≤ _))

def AllShallow (s : Text) : Prop :=
  ∀ line ∈ Fence.classify s, line.2.level?.isSome → IsShallow line.1

instance (s : Text) : Decidable (AllShallow s) :=
  inferInstanceAs (Decidable (∀ line ∈ Fence.classify s, _ → _))

theorem isShallow_text {m : MarkedLine} : IsShallow m.text ↔ m.indent.length ≤ 3 := by
  rw [IsShallow, m.spanBlanks_text]

variable {shift : Int} {s line : Text}

theorem shiftLine_of_unmarked (h : ∀ m : MarkedLine, m.indent.length ≤ 3 → m.text ≠ line) :
    shiftLine shift line = line := by
  cases hparts : parts? line with
  | none => exact shiftLine_of_no_parts hparts shift
  | some parts =>
    obtain ⟨m, hm, hshallow⟩ := exists_of_parts? hparts
    exact absurd hm (h m hshallow)

theorem moves_prose (hk : (Fence.step none line).1.inFence = false) :
    Moves shift (line, (Fence.step none line).1)
      (shiftLine shift line, (Fence.step none (shiftLine shift line)).1) := by
  have hk' : (Fence.step none (shiftLine shift line)).1.inFence = false :=
    (Fence.step_shiftLine Fence.real_none shift line).2.trans hk
  rw [Fence.step_of_prose hk, Fence.step_of_prose hk']
  cases hlevel : level? line with
  | some level =>
    obtain ⟨m, rfl, rfl, htitle⟩ := exists_of_level? hlevel
    rw [m.shiftLine_text]
    by_cases hshallow : m.indent.length ≤ 3
    · have hkept : (m.moved shift).title ≠ [] := htitle
      rw [if_pos hshallow, (m.moved shift).level?_text, if_neg hkept]
      exact .heading m htitle hshallow
    · rw [if_neg hshallow, hlevel]
      exact .indented m htitle (Nat.lt_of_not_le hshallow)
  | none =>
    by_cases hmarked : ∃ m : MarkedLine, m.indent.length ≤ 3 ∧ m.text = line
    · obtain ⟨m, hshallow, rfl⟩ := hmarked
      have htitle : m.title = [] := by
        rw [m.level?_text] at hlevel
        by_contra hne
        rw [if_neg hne] at hlevel
        cases hlevel
      have hkept : (m.moved shift).title = [] := htitle
      rw [m.shiftLine_text, if_pos hshallow, (m.moved shift).level?_text, if_pos hkept]
      exact .untitled m htitle hshallow
    · have hunmarked : ∀ m : MarkedLine, m.indent.length ≤ 3 → m.text ≠ line :=
        fun m hshallow heq => hmarked ⟨m, hshallow, heq⟩
      rw [shiftLine_of_unmarked hunmarked, hlevel]
      exact .plain line hunmarked

theorem forall₂_moves {open? : Option Fence} (ho : Fence.Real open?) (shift : Int)
    (ls : List Text) : List.Forall₂ (Moves shift) (Fence.classifyFrom open? ls)
      (Fence.classifyFrom open? (shiftLines shift open? ls)) := by
  induction ls generalizing open? with
  | nil => exact .nil
  | cons line ls ih =>
    obtain ⟨hstate, -⟩ := step_shifted ho shift line
    rw [shiftLines_cons, Fence.classifyFrom_cons, Fence.classifyFrom_cons, hstate]
    refine .cons ?_ (ih (Fence.real_step ho line))
    by_cases hk : (Fence.step open? line).1.inFence
    · rw [if_pos hk]
      exact .fenced line _ hk
    · obtain ⟨rfl, -⟩ := Fence.step_of_not_inFence hk
      rw [if_neg hk]
      exact moves_prose (by simpa using hk)

theorem forall₂_classify (hr : '\r' ∉ s) (shift : Int) :
    List.Forall₂ (Moves shift) (Fence.classify s) (Fence.classify (Heading.shift shift s)) := by
  rw [Fence.classify_eq, Fence.classify_eq, lines_shift hr]
  exact forall₂_moves Fence.real_none shift s.lines

theorem levels_eq (s : Text) : levels s = (Fence.classify s).filterMap fun line => line.2.level? := by
  have hclasses : (Fence.classify s).map Prod.snd = Fence.classesFrom none s.lines :=
    List.map_snd_zip (Fence.length_classesFrom none s.lines).le
  rw [levels, ← hclasses, List.filterMap_map]
  rfl

def movedLevel? (shift : Int) (line : Text × LineClass) : Option Nat :=
  line.2.level?.map fun level : Nat => if IsShallow line.1 then clamp (level + shift) else level

theorem Moves.level? {x y : Text × LineClass} (h : Moves shift x y) :
    y.2.level? = movedLevel? shift x := by
  cases h with
  | heading m _ hshallow =>
    exact congrArg some (if_pos (isShallow_text.2 hshallow)).symm
  | indented m _ hdeep =>
    have hnot : ¬ IsShallow m.text := fun h => Nat.not_le_of_lt hdeep (isShallow_text.1 h)
    exact congrArg some (if_neg hnot).symm
  | untitled m _ _ => rfl
  | plain line _ => rfl
  | fenced line kind hk =>
    cases kind with
    | plain => cases hk
    | heading level => cases hk
    | fence => rfl
    | fenced => rfl

theorem filterMap_level?_of_moves {xs ys : List (Text × LineClass)}
    (h : List.Forall₂ (Moves shift) xs ys) :
    ys.filterMap (fun line => line.2.level?) = xs.filterMap (movedLevel? shift) := by
  induction h with
  | nil => rfl
  | cons hmoves _ ih => rw [List.filterMap_cons, List.filterMap_cons, hmoves.level?, ih]

theorem levels_shift (hr : '\r' ∉ s) (shift : Int) :
    levels (Heading.shift shift s) = (Fence.classify s).filterMap (movedLevel? shift) := by
  rw [levels_eq]
  exact filterMap_level?_of_moves (forall₂_classify hr shift)

theorem levels_shift_of_allShallow (hr : '\r' ∉ s) (h : AllShallow s) (shift : Int) :
    levels (Heading.shift shift s) = (levels s).map fun level : Nat => clamp (level + shift) := by
  rw [levels_shift hr, levels_eq, List.map_filterMap]
  refine List.filterMap_congr fun line hline => ?_
  have hshallow := h line hline
  unfold movedLevel?
  cases hlevel : line.2.level? with
  | none => rfl
  | some level =>
    rw [hlevel] at hshallow
    exact congrArg some (if_pos (hshallow rfl))

theorem min?_map_clamp (shift : Int) (ls : List Nat) :
    (ls.map fun level : Nat => clamp (level + shift)).min? =
      ls.min?.map fun level : Nat => clamp (level + shift) := by
  cases hmin : ls.min? with
  | none =>
    rw [List.min?_eq_none_iff] at hmin
    rw [hmin]
    rfl
  | some least =>
    obtain ⟨hmem, hleast⟩ := List.min?_eq_some_iff.1 hmin
    refine List.min?_eq_some_iff.2 ⟨List.mem_map.2 ⟨least, hmem, rfl⟩, fun level hlevel => ?_⟩
    obtain ⟨former, hformer, rfl⟩ := List.mem_map.1 hlevel
    have hle := hleast former hformer
    dsimp only [clamp]
    omega

theorem trim_moved {m : MarkedLine} (htitle : m.title ≠ []) (hshallow : m.indent.length ≤ 3) :
    (shiftLine shift m.text.trim).trim = (shiftLine shift m.text).trim := by
  have hrest : m.rest.allBlank = false :=
    Bool.eq_false_iff.2 fun h => htitle (m.rest_allBlank_iff.1 h)
  have hblank : m.rest.trimRight.head?.any Text.isBlank := by
    rw [Text.head?_trimRight hrest]
    exact m.head?_rest
  have hparts : parts? ([] ++ List.replicate m.marks '#' ++ m.rest.trimRight) = _ :=
    parts?_marks (show Text.allBlank [] from rfl) m.marks_bounds.1 (head?_ne_mark hblank)
  rw [if_pos ⟨hblank, Nat.zero_le 3, m.marks_bounds.2⟩, List.nil_append, ← m.trim_text] at hparts
  have hmarks : 1 ≤ clamp (m.marks + shift) := (clamp_bounds _).1
  rw [shiftLine_of_parts? hparts, m.shiftLine_text, if_pos hshallow, (m.moved shift).trim_text,
    Text.trim_run (show Text.allBlank [] from rfl) (by decide) hmarks, Text.trimRight_trimRight]
  rfl

theorem not_mem_section {c : Char} (hc : c ∉ s) (hr : '\r' ∉ s) {title first : Text} {level : Nat}
    {before below after : List (Text × LineClass)}
    (h : Begins title s before first level (below ++ after)) :
    c ∉ Text.unlines (first :: below.map (·.1)) := by
  intro hmem
  rw [eq_around_section hr h] at hc
  exact hc (List.mem_append_left _ (List.mem_append_right _ hmem))

theorem exists_classify_shift (hr : '\r' ∉ s) {first : Text} {level : Nat}
    {below : List (Text × LineClass)} (h : Fence.classify s = (first, .heading level) :: below)
    (hshallow : IsShallow first) (shift : Int) :
    ∃ (m : MarkedLine) (lines : List (Text × LineClass)), m.text = first ∧ m.title ≠ [] ∧
      m.indent.length ≤ 3 ∧ Fence.classify (Heading.shift shift s) =
        ((m.moved shift).text, .heading (clamp (level + shift))) :: lines := by
  have hmoves := forall₂_classify hr shift
  rw [h] at hmoves
  generalize Fence.classify (Heading.shift shift s) = shifted at hmoves
  cases hmoves with
  | cons hfirst _ =>
    cases hfirst with
    | heading m htitle hthree => exact ⟨m, _, rfl, htitle, hthree, rfl⟩
    | indented m _ hdeep => exact absurd (isShallow_text.1 hshallow) (Nat.not_le_of_lt hdeep)
    | fenced _ _ hk => cases hk

/-- The section under a heading that moves is moved with it: the shifted title cuts it out of the
shifted section, at the level that the shift gives. -/
theorem exists_cutSection_shift (hr : '\r' ∉ s) {title first : Text} {level : Nat}
    {before behind : List (Text × LineClass)} (h : Begins title s before first level behind)
    (hshallow : IsShallow first) (shift : Int) :
    ∃ snippet moved, cutSection title s = .ok snippet ∧ snippet.level? = some level ∧
      cutSection (shiftLine shift title.trim) (Heading.shift shift snippet.body) = .ok moved ∧
      moved.level? = some (clamp (level + shift)) := by
  have hcut := cutSection_of_begins h
  have hsplit := List.takeWhile_append_dropWhile (p := staysBelow level) (l := behind)
  have hreads := h.reads
  rw [← hsplit] at h
  obtain ⟨m, lines, rfl, htitle, hthree, hclasses⟩ :=
    exists_classify_shift (not_mem_section hr hr h) (classify_section hr h) hshallow shift
  have hreads' : (m.moved shift).text.trim = (shiftLine shift title.trim).trim := by
    rw [← hreads, trim_moved htitle hthree, m.shiftLine_text, if_pos hthree]
  have hmoved := cutSection_of_begins
    ⟨hclasses, hreads', fun line hline => absurd hline List.not_mem_nil⟩
  exact ⟨_, _, hcut, rfl, hmoved, rfl⟩

/-- The lines of a shifted text are those of the text, each with its class. A heading that is
indented by at most three blanks moves to the level that the shift gives within the bounds, and keeps
its indentation, its gap and its title; one that is indented by more stays as it is, and its title is
read with the marks. Marks that no title follows are plain and stay plain, but are moved. The lowest
level moves with the headings, as does the level of a section, if they are not indented too far. -/
theorem shift_moves_headings (hr : '\r' ∉ s) (shift : Int) :
    List.Forall₂ (Moves shift) (Fence.classify s) (Fence.classify (Heading.shift shift s)) ∧
    (∀ line level, (line, .heading level) ∈ Fence.classify s →
      ∃ m : MarkedLine, m.text = line ∧ m.marks = level ∧ m.title ≠ [] ∧
        title line = if m.indent.length ≤ 3 then m.title.trim else line.trim) ∧
    lowest? (Heading.shift shift s) = ((Fence.classify s).filterMap (movedLevel? shift)).min? ∧
    (AllShallow s → lowest? (Heading.shift shift s) =
      (lowest? s).map fun level : Nat => clamp (level + shift)) ∧
    ∀ title before first level behind, Begins title s before first level behind →
      IsShallow first → ∃ snippet moved, cutSection title s = .ok snippet ∧
        snippet.level? = some level ∧
        cutSection (shiftLine shift title.trim) (Heading.shift shift snippet.body) = .ok moved ∧
        moved.level? = some (clamp (level + shift)) := by
  refine ⟨forall₂_classify hr shift, fun line level hline => ?_, ?_, fun h => ?_, ?_⟩
  · obtain ⟨m, rfl, hmarks, htitle⟩ := exists_of_level? (Fence.level?_of_mem hline)
    exact ⟨m, rfl, hmarks, htitle, m.title_text⟩
  · rw [lowest?, levels_shift hr]
  · rw [lowest?, levels_shift_of_allShallow hr h, min?_map_clamp, ← lowest?]
  · exact fun title before first level behind h hshallow =>
      exists_cutSection_shift hr h hshallow shift

def uneven : Text :=
  "## A\nsee\n  ##\tB \n\x60\x60\x60\n# C\n\x60\x60\x60\n     ### D\n### \n# E".text

theorem shift_moves_headings_of_uneven : '\r' ∉ uneven ∧ ¬ AllShallow uneven ∧
    List.Forall₂ (Moves 1) (Fence.classify uneven) (Fence.classify (Heading.shift 1 uneven)) ∧
    Heading.shift 1 uneven =
      "### A\nsee\n  ###\tB \n\x60\x60\x60\n# C\n\x60\x60\x60\n     ### D\n#### \n## E".text ∧
    lowest? uneven = some 1 ∧ lowest? (Heading.shift 1 uneven) = some 2 ∧
    lowest? (Heading.shift 6 uneven) = some 3 ∧
    AllShallow "  ## A\n###### B".text ∧
    lowest? (Heading.shift 3 "  ## A\n###### B".text) = some 5 ∧
    ∃ snippet moved, cutSection "##\tB".text uneven = .ok snippet ∧ snippet.level? = some 2 ∧
      cutSection "####\tB".text (Heading.shift 2 snippet.body) = .ok moved ∧
      moved.level? = some 4 := by
  have hr : '\r' ∉ uneven := by decide +kernel
  have hr' : '\r' ∉ "  ## A\n###### B".text := by decide +kernel
  have hflush : AllShallow "  ## A\n###### B".text := by decide +kernel
  have hbegins : Begins "##\tB".text uneven [("## A".text, .heading 2), ("see".text, .plain)]
      "  ##\tB ".text 2 [("\x60\x60\x60".text, .fence), ("# C".text, .fenced),
        ("\x60\x60\x60".text, .fence), ("     ### D".text, .heading 3), ("### ".text, .plain),
        ("# E".text, .heading 1)] :=
    ⟨by decide +kernel, by decide +kernel, by decide +kernel⟩
  obtain ⟨hmoves, -, hlowest, -, -⟩ := shift_moves_headings hr 1
  obtain ⟨-, -, hfar, -, -⟩ := shift_moves_headings hr 6
  obtain ⟨-, -, -, hall, -⟩ := shift_moves_headings hr' 3
  obtain ⟨-, -, -, -, hsection⟩ := shift_moves_headings hr 2
  obtain ⟨snippet, moved, hcut, hlevel, hagain, hmoved⟩ :=
    hsection _ _ _ _ _ hbegins (by decide +kernel)
  have htitle : shiftLine 2 ("##\tB".text).trim = "####\tB".text := by decide +kernel
  rw [htitle] at hagain
  exact ⟨hr, by decide +kernel, hmoves, by decide +kernel, by decide +kernel,
    hlowest.trans (by decide +kernel), hfar.trans (by decide +kernel), hflush,
    (hall hflush).trans (by decide +kernel), snippet, moved, hcut, hlevel, hagain, hmoved⟩

/-- A heading that is indented by four blanks has a level, which no shift moves, and its title is read
with the mark. Marks without a title are no heading, but are moved. -/
theorem indented_heading_stays : '\r' ∉ "    # A\n# ".text ∧
    Fence.classify "    # A\n# ".text = [("    # A".text, .heading 1), ("# ".text, .plain)] ∧
    Fence.classify (Heading.shift 1 "    # A\n# ".text) =
      [("    # A".text, .heading 1), ("## ".text, .plain)] ∧
    title "    # A".text = "# A".text ∧
    lowest? (Heading.shift 1 "    # A\n# ".text) ≠
      (lowest? "    # A\n# ".text).map fun level : Nat => clamp (level + 1) := by
  decide +kernel

end Heading
end Transclude

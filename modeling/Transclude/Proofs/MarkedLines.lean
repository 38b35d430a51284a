import Transclude.Proofs.DirectiveReads
import Transclude.Proofs.HeadingMoves

/-! Lines that start with marks, taken apart into indentation, marks, gap and title. Such a line has
a level if it has a title, however far it is indented; it is moved by a shift if it is indented by at
most three blanks, with or without a title. -/

namespace Transclude
namespace Heading

/-- A run of one to six marks with a gap behind it. The title starts behind the gap, if there is
one. -/
structure MarkedLine where
  indent : Text
  marks : Nat
  gap : Text
  title : Text
  indent_blank : indent.allBlank
  marks_bounds : 1 ≤ marks ∧ marks ≤ 6
  gap_ne_nil : gap ≠ []
  gap_blank : gap.allBlank
  title_head : ∀ c ∈ title.head?, Text.isBlank c = false

namespace MarkedLine

variable (m : MarkedLine)

def rest : Text := m.gap ++ m.title

def text : Text := m.indent ++ List.replicate m.marks '#' ++ m.rest

def moved (shift : Int) : MarkedLine where
  __ := m
  marks := clamp (m.marks + shift)
  marks_bounds := clamp_bounds _

theorem head?_rest : m.rest.head?.any Text.isBlank := by
  obtain ⟨c, gap, hgap⟩ := List.exists_cons_of_ne_nil m.gap_ne_nil
  have hc := List.all_eq_true.1 m.gap_blank c (hgap ▸ List.mem_cons_self)
  simpa [rest, hgap] using hc

theorem rest_allBlank_iff : m.rest.allBlank ↔ m.title = [] := by
  have hgap := m.gap_blank
  unfold Text.allBlank at hgap
  rw [rest, Text.allBlank, List.all_append, hgap, Bool.true_and]
  cases htitle : m.title with
  | nil => simp
  | cons c title =>
    have hc := m.title_head c (htitle ▸ rfl)
    simp [hc]

theorem level?_text : level? m.text = if m.title = [] then none else some m.marks := by
  have hlevel := level?_marks m.indent_blank m.marks_bounds.1 (head?_ne_mark m.head?_rest)
  rw [text, hlevel]
  by_cases htitle : m.title = []
  · have hblank := m.rest_allBlank_iff.2 htitle
    rw [if_pos htitle, if_neg fun h => by simp [hblank] at h]
  · have hblank : m.rest.allBlank = false :=
      Bool.eq_false_iff.2 fun h => htitle (m.rest_allBlank_iff.1 h)
    rw [if_neg htitle, if_pos ⟨m.head?_rest, hblank, m.marks_bounds.2⟩]

theorem parts?_text :
    parts? m.text = if m.indent.length ≤ 3 then some (m.indent, m.marks, m.rest) else none := by
  have hparts := parts?_marks m.indent_blank m.marks_bounds.1 (head?_ne_mark m.head?_rest)
  rw [text, hparts]
  by_cases hshallow : m.indent.length ≤ 3
  · rw [if_pos hshallow, if_pos ⟨m.head?_rest, hshallow, m.marks_bounds.2⟩]
  · rw [if_neg hshallow, if_neg fun h => hshallow h.2.1]

theorem shiftLine_text (shift : Int) :
    shiftLine shift m.text = if m.indent.length ≤ 3 then (m.moved shift).text else m.text := by
  unfold shiftLine
  rw [parts?_text]
  by_cases hshallow : m.indent.length ≤ 3
  · rw [if_pos hshallow, if_pos hshallow]
    rfl
  · rw [if_neg hshallow, if_neg hshallow]

theorem title_text :
    Heading.title m.text = if m.indent.length ≤ 3 then m.title.trim else m.text.trim := by
  unfold Heading.title
  rw [parts?_text]
  by_cases hshallow : m.indent.length ≤ 3
  · rw [if_pos hshallow, if_pos hshallow]
    exact Text.trim_blank_append m.gap_blank m.title
  · rw [if_neg hshallow, if_neg hshallow]

theorem spanBlanks_text : m.text.spanBlanks.1 = m.indent := by
  have hmarks : ∀ c ∈ (List.replicate m.marks '#' ++ m.rest).head?, Text.isBlank c = false := by
    obtain ⟨n, hn⟩ := Nat.exists_eq_add_of_le' m.marks_bounds.1
    rw [hn, List.replicate_succ]
    rintro _ ⟨⟩
    decide
  have hspan := Text.spanBlanks_eq_iff.2 ⟨List.append_assoc _ _ _, m.indent_blank, hmarks⟩
  exact congrArg Prod.fst hspan

theorem trim_text : m.text.trim = List.replicate m.marks '#' ++ m.rest.trimRight :=
  Text.trim_run m.indent_blank (by decide) m.marks_bounds.1 m.rest

end MarkedLine

variable {line indent rest : Text} {marks : Nat}

theorem exists_marked (hi : indent.allBlank) (hm : 1 ≤ marks ∧ marks ≤ 6)
    (hr : rest.head?.any Text.isBlank) : ∃ m : MarkedLine,
      m.indent = indent ∧ m.marks = marks ∧ m.rest = rest := by
  have hgap : rest.takeWhile Text.isBlank ≠ [] := by
    cases rest with
    | nil => cases hr
    | cons c rest => simpa using hr
  have htitle : ∀ c ∈ (rest.dropWhile Text.isBlank).head?, Text.isBlank c = false := by
    intro c hc
    have hstop := List.head?_dropWhile_not Text.isBlank rest
    rw [Option.mem_def.1 hc] at hstop
    simpa using hstop
  refine ⟨⟨indent, marks, rest.takeWhile Text.isBlank, rest.dropWhile Text.isBlank, hi, hm, hgap,
    List.all_eq_true.2 fun c hc => List.mem_takeWhile_imp hc, htitle⟩, rfl, rfl, ?_⟩
  exact List.takeWhile_append_dropWhile

theorem exists_of_parts? (h : parts? line = some (indent, marks, rest)) :
    ∃ m : MarkedLine, m.text = line ∧ m.indent.length ≤ 3 := by
  obtain ⟨hi, hthree, hone, hsix, hblank⟩ := marks_of_parts? h
  obtain ⟨m, rfl, rfl, rfl⟩ := exists_marked hi ⟨hone, hsix⟩ hblank
  exact ⟨m, append_of_parts? h, hthree⟩

theorem head?_of_level? (h : level? line = some marks) : line.trimLeft.head? = some '#' := by
  have hne : (line.trim.takeWhile (· = '#')).length ≠ 0 := by
    unfold level? at h
    grind
  obtain ⟨rest, htrim⟩ : ∃ rest, line.trim = '#' :: rest := by
    cases htrim : line.trim with
    | nil => simp [htrim] at hne
    | cons c rest =>
      by_cases hc : c = '#'
      · exact ⟨rest, by rw [hc]⟩
      · simp [htrim, hc] at hne
  obtain ⟨more, hmore⟩ := Text.trimRight_prefix line.trimLeft
  rw [Text.trim] at htrim
  rw [← hmore, htrim]
  rfl

theorem exists_of_level? (h : level? line = some marks) :
    ∃ m : MarkedLine, m.text = line ∧ m.marks = marks ∧ m.title ≠ [] := by
  obtain ⟨run, rest, hrun, hline, hstop⟩ := exists_marks (head?_of_level? h)
  have hindent : Text.allBlank (line.takeWhile Text.isBlank) :=
    List.all_eq_true.2 fun c hc => List.mem_takeWhile_imp hc
  have hwhole : line.takeWhile Text.isBlank ++ List.replicate run '#' ++ rest = line := by
    rw [List.append_assoc, ← hline, Text.trimLeft, List.takeWhile_append_dropWhile]
  have hlevel := level?_marks hindent hrun hstop
  rw [hwhole, h] at hlevel
  split at hlevel
  · rename_i hcond
    obtain ⟨hblank, htitle, hsix⟩ := hcond
    obtain ⟨m, hi, hm, hrest⟩ := exists_marked hindent ⟨hrun, hsix⟩ hblank
    refine ⟨m, ?_, hm.trans (Option.some.inj hlevel).symm, fun hnil => ?_⟩
    · rw [MarkedLine.text, hi, hm, hrest, hwhole]
    · rw [← m.rest_allBlank_iff, hrest, htitle] at hnil
      cases hnil
  · cases hlevel

end Heading
end Transclude

import Mathlib.Data.List.Forall2
import Transclude.Proofs.Outlines
import Transclude.Proofs.StretchedMarks

/-! Lines that were shifted: they join to the text that a shift yields, and where fences and
directives start is as before. -/

namespace Transclude

namespace Text

def Unbroken (ls : List Text) : Prop := ∀ l ∈ ls, '\n' ∉ l ∧ '\r' ∉ l

theorem unbroken_append {xs ys : List Text} : Unbroken (xs ++ ys) ↔ Unbroken xs ∧ Unbroken ys :=
  List.forall_mem_append

theorem unbroken_lines {s : Text} (h : '\r' ∉ s) : Unbroken s.lines := by
  intro l hl
  rw [lines_eq_rows h] at hl
  refine ⟨not_mem_of_mem_rows hl, fun hr => ?_⟩
  rw [← unlines_rows s] at h
  exact h (mem_unlines hl hr)

theorem mem_of_mem_dropReturn {s : Text} {c : Char} (h : c ∈ dropReturn s) : c ∈ s := by
  unfold dropReturn at h
  split at h
  · exact List.dropLast_subset s h
  · exact h

theorem length_lines (s : Text) : s.lines.length = s.rows.length := by
  have hdrop (ls : List Text) : (dropReturns ls).length = ls.length := by
    fun_induction dropReturns ls with
    | case1 => rfl
    | case2 => rfl
    | case3 line next rest ih =>
      rw [List.length_cons, ih]
      rfl
  exact hdrop s.rows

theorem not_mem_lines (s : Text) : ∀ l ∈ s.lines, '\n' ∉ l := by
  have hdrop (ls : List Text) (h : ∀ l ∈ ls, '\n' ∉ l) : ∀ l ∈ dropReturns ls, '\n' ∉ l := by
    fun_induction dropReturns ls with
    | case1 => exact h
    | case2 => exact h
    | case3 line next rest ih =>
      obtain ⟨hline, hrest⟩ := List.forall_mem_cons.1 h
      exact List.forall_mem_cons.2 ⟨fun hmem => hline (mem_of_mem_dropReturn hmem), ih hrest⟩
  exact hdrop s.rows fun l hl => not_mem_of_mem_rows hl

theorem lines_ne_nil (s : Text) : s.lines ≠ [] := by
  rw [← List.length_pos_iff, length_lines]
  exact List.length_pos_iff.2 (rows_ne_nil s)

theorem rows_unlines_of_unbroken {ls : List Text} (h : Unbroken ls) (hne : ls ≠ []) :
    rows (unlines ls) = ls :=
  rows_unlines hne fun l hl => (h l hl).1

theorem lines_unlines {ls : List Text} (h : Unbroken ls) (hne : ls ≠ []) :
    (unlines ls).lines = ls := by
  rw [lines, ← rows, rows_unlines_of_unbroken h hne]
  exact dropReturns_eq_self fun l hl => (h l hl).2

end Text

namespace Heading

theorem not_mem_shiftLine {c : Char} (hc : c ≠ '#') {line : Text} (h : c ∉ line) (shift : Int) :
    c ∉ shiftLine shift line := by
  cases hp : parts? line with
  | none =>
    rw [shiftLine_of_no_parts hp]
    exact h
  | some parts =>
    obtain ⟨indent, marks, rest⟩ := parts
    rw [shiftLine_of_parts? hp]
    rw [← append_of_parts? hp] at h
    simp only [List.mem_append, List.mem_replicate, not_or] at h ⊢
    exact ⟨⟨h.1.1, fun hmem => hc hmem.2⟩, h.2⟩

theorem not_mem_shiftLines {c : Char} (hc : c ≠ '#') {ls : List Text} (h : ∀ l ∈ ls, c ∉ l)
    (shift : Int) (open? : Option Fence) : ∀ l ∈ shiftLines shift open? ls, c ∉ l := by
  induction ls generalizing open? with
  | nil => exact h
  | cons line ls ih =>
    obtain ⟨hline, hls⟩ := List.forall_mem_cons.1 h
    rw [shiftLines_cons]
    refine List.forall_mem_cons.2 ⟨?_, ih hls _⟩
    by_cases hin : (Fence.step open? line).1.inFence
    · rw [if_pos hin]
      exact hline
    · rw [if_neg hin]
      exact not_mem_shiftLine hc hline shift

theorem unbroken_shiftLines {ls : List Text} (h : Text.Unbroken ls) (shift : Int)
    (open? : Option Fence) : Text.Unbroken (shiftLines shift open? ls) := fun l hl =>
  ⟨not_mem_shiftLines (by decide) (fun l hl => (h l hl).1) shift open? l hl,
    not_mem_shiftLines (by decide) (fun l hl => (h l hl).2) shift open? l hl⟩

theorem shift_unlines {ls : List Text} (h : Text.Unbroken ls) (hne : ls ≠ []) (shift : Int) :
    Heading.shift shift (Text.unlines ls) = Text.unlines (shiftLines shift none ls) := by
  rw [Heading.shift, Text.lines_unlines h hne]

theorem shiftLines_ne_nil {ls : List Text} (hne : ls ≠ []) (shift : Int) (open? : Option Fence) :
    shiftLines shift open? ls ≠ [] := by
  rw [← List.length_pos_iff, length_shiftLines]
  exact List.length_pos_iff.2 hne

theorem rows_shift (shift : Int) (s : Text) :
    (Heading.shift shift s).rows = shiftLines shift none s.lines := by
  refine Text.rows_unlines (shiftLines_ne_nil (Text.lines_ne_nil s) shift none) ?_
  exact not_mem_shiftLines (by decide) (Text.not_mem_lines s) shift none

theorem lines_shift {s : Text} (hr : '\r' ∉ s) (shift : Int) :
    (Heading.shift shift s).lines = shiftLines shift none s.lines := by
  rw [Heading.shift]
  exact Text.lines_unlines (unbroken_shiftLines (Text.unbroken_lines hr) shift none)
    (shiftLines_ne_nil (Text.lines_ne_nil s) shift none)

theorem length_rows_shift (shift : Int) (s : Text) :
    (Heading.shift shift s).rows.length = s.rows.length := by
  rw [rows_shift, length_shiftLines, Text.length_lines]

end Heading

/-- Whether a line opens and closes the same fences as another, and starts no directive unless
that does. -/
structure Alike (line other : Text) : Prop where
  step : ∀ open?, Fence.Real open? → (Fence.step open? other).2 = (Fence.step open? line).2 ∧
    (Fence.step open? other).1.inFence = (Fence.step open? line).1.inFence
  silent : line.silent → other.silent

namespace Alike

theorem refl (line : Text) : Alike line line := ⟨fun _ _ => ⟨rfl, rfl⟩, id⟩

theorem trans {a b c : Text} (hab : Alike a b) (hbc : Alike b c) : Alike a c where
  step open? h :=
    ⟨(hbc.step open? h).1.trans (hab.step open? h).1,
      (hbc.step open? h).2.trans (hab.step open? h).2⟩
  silent h := hbc.silent (hab.silent h)

theorem trans_forall₂ {xs ys zs : List Text} (hxy : List.Forall₂ Alike xs ys)
    (hyz : List.Forall₂ Alike ys zs) : List.Forall₂ Alike xs zs := by
  induction hxy generalizing zs with
  | nil => exact hyz
  | cons hab _ ih =>
    cases hyz with
    | cons hbc hrest => exact .cons (hab.trans hbc) (ih hrest)

theorem shiftLine (shift : Int) (line : Text) : Alike line (Heading.shiftLine shift line) :=
  ⟨fun _ h => Fence.step_shiftLine h shift line,
    fun h => (Stretched.shiftLine shift line).silent ▸ h⟩

theorem shiftLines (shift : Int) (open? : Option Fence) (ls : List Text) :
    List.Forall₂ Alike ls (Heading.shiftLines shift open? ls) := by
  induction ls generalizing open? with
  | nil => exact .nil
  | cons line ls ih =>
    rw [Heading.shiftLines_cons]
    refine .cons ?_ (ih _)
    by_cases hin : (Fence.step open? line).1.inFence
    · rw [if_pos hin]
      exact refl line
    · rw [if_neg hin]
      exact shiftLine shift line

theorem quiet {open? : Option Fence} {xs ys : List Text} (h : List.Forall₂ Alike xs ys)
    (ho : Fence.Real open?) (hq : Fence.quiet open? xs) : Fence.quiet open? ys := by
  induction h generalizing open? with
  | nil => exact hq
  | cons hline hrest ih =>
    rename_i line other ls others
    simp only [Fence.quiet, Bool.and_eq_true, Bool.or_eq_true] at hq ⊢
    obtain ⟨hnext, hin⟩ := hline.step open? ho
    rw [hnext, hin]
    exact ⟨hq.1.imp_right hline.silent, ih (Fence.real_step ho line) hq.2⟩

end Alike
end Transclude

import Transclude.Proofs.ClassedLines
import Transclude.Proofs.IncludeSites

/-! One shift after another. The lines that a shift has moved have the same parts as before, so two
shifts are one by their sum wherever no bound between them loses a level. -/

namespace Transclude
namespace Heading

variable {a b : Int} {s : Text}

/-- Whether a shift moves no line of a text beyond the bounds of one and six marks. -/
def StaysWithin (shift : Int) (s : Text) : Prop :=
  ∀ line ∈ Fence.classify s, line.2.inFence = false →
    ∀ parts ∈ parts? line.1, 1 ≤ parts.2.1 + shift ∧ parts.2.1 + shift ≤ 6

instance (shift : Int) (s : Text) : Decidable (StaysWithin shift s) :=
  inferInstanceAs (Decidable (∀ line ∈ Fence.classify s, _ → ∀ parts ∈ parts? line.1, _))

/-- Whether two shifts move a line as far as one by their sum. -/
def Sums (a b : Int) (line : Text) : Prop :=
  ∀ parts ∈ parts? line, clamp (clamp (parts.2.1 + a) + b) = clamp (parts.2.1 + (a + b))

theorem sums_of_same_sign (h : 0 ≤ a ∧ 0 ≤ b ∨ a ≤ 0 ∧ b ≤ 0) (line : Text) : Sums a b line := by
  rintro ⟨indent, marks, rest⟩ hparts
  obtain ⟨-, -, hone, hsix, -⟩ := marks_of_parts? hparts
  dsimp only [clamp]
  omega

theorem sums_of_bounds {line : Text}
    (h : ∀ parts ∈ parts? line, 1 ≤ parts.2.1 + a ∧ parts.2.1 + a ≤ 6) : Sums a b line := by
  intro parts hparts
  have hbounds := h parts hparts
  unfold clamp
  omega

theorem parts?_shiftLine (shift : Int) (line : Text) :
    parts? (shiftLine shift line) =
      (parts? line).map fun (indent, marks, rest) => (indent, clamp (marks + shift), rest) := by
  cases hparts : parts? line with
  | none =>
    rw [shiftLine_of_no_parts hparts]
    exact hparts
  | some parts =>
    obtain ⟨indent, marks, rest⟩ := parts
    obtain ⟨hindent, hthree, -, -, hblank⟩ := marks_of_parts? hparts
    obtain ⟨hone, hsix⟩ := clamp_bounds (marks + shift)
    rw [shiftLine_of_parts? hparts, parts?_marks hindent hone (head?_ne_mark hblank),
      if_pos ⟨hblank, hthree, hsix⟩]
    rfl

theorem shiftLine_shiftLine {line : Text} (h : Sums a b line) :
    shiftLine b (shiftLine a line) = shiftLine (a + b) line := by
  have hmoved := parts?_shiftLine a line
  cases hparts : parts? line with
  | none =>
    rw [shiftLine_of_no_parts hparts, shiftLine_of_no_parts hparts, shiftLine_of_no_parts hparts]
  | some parts =>
    obtain ⟨indent, marks, rest⟩ := parts
    rw [hparts] at hmoved
    rw [shiftLine_of_parts? hmoved, shiftLine_of_parts? hparts, h _ hparts]

theorem shiftLines_shiftLines {open? : Option Fence} (ho : Fence.Real open?) {ls : List Text}
    (h : ∀ line ∈ Fence.classifyFrom open? ls, line.2.inFence = false → Sums a b line.1) :
    shiftLines b open? (shiftLines a open? ls) = shiftLines (a + b) open? ls := by
  induction ls generalizing open? with
  | nil => rfl
  | cons line ls ih =>
    rw [Fence.classifyFrom_cons] at h
    obtain ⟨hstate, hin⟩ := step_shifted ho a line
    obtain ⟨hline, hls⟩ := List.forall_mem_cons.1 h
    have hrest := ih (Fence.real_step ho line) hls
    rw [shiftLines_cons, shiftLines_cons, shiftLines_cons, hstate, hin, hrest]
    congr 1
    by_cases hfenced : (Fence.step open? line).1.inFence
    · rw [if_pos hfenced, if_pos hfenced, if_pos hfenced]
    · rw [if_neg hfenced, if_neg hfenced, if_neg hfenced]
      exact shiftLine_shiftLine (hline (by simpa using hfenced))

theorem shift_shift (hr : '\r' ∉ s)
    (h : ∀ line ∈ Fence.classify s, line.2.inFence = false → Sums a b line.1) :
    Heading.shift b (Heading.shift a s) = Heading.shift (a + b) s := by
  rw [Heading.shift, lines_shift hr, shiftLines_shiftLines Fence.real_none h, ← Heading.shift]

theorem shift_zero (hr : '\r' ∉ s) : Heading.shift 0 s = s := by
  rw [Heading.shift, shiftLines_zero, Text.unlines_lines hr]

/-- Two shifts in one direction are a shift by their sum, and so are any two of which the first stays
within the bounds; it is undone by the opposite shift. A shift by nothing changes nothing, so the text
that an include puts in is what its shift makes of the snippet, also where none is made. -/
theorem shifts_add_up (hr : '\r' ∉ s) (a b : Int) :
    (0 ≤ a ∧ 0 ≤ b ∨ a ≤ 0 ∧ b ≤ 0 →
      Heading.shift b (Heading.shift a s) = Heading.shift (a + b) s) ∧
    (StaysWithin a s → Heading.shift b (Heading.shift a s) = Heading.shift (a + b) s) ∧
    (StaysWithin a s → Heading.shift (-a) (Heading.shift a s) = s) ∧
    Heading.shift 0 s = s ∧
    ∀ t : Site, t.snippet.body = s → t.body = Heading.shift t.shift s := by
  have hwithin (b : Int) (h : StaysWithin a s) :
      Heading.shift b (Heading.shift a s) = Heading.shift (a + b) s :=
    shift_shift hr fun line hline hkind => sums_of_bounds (h line hline hkind)
  refine ⟨?_, hwithin b, ?_, shift_zero hr, ?_⟩
  · intro hsign
    exact shift_shift hr fun line _ _ => sums_of_same_sign hsign line.1
  · intro h
    rw [hwithin (-a) h, Int.add_right_neg, shift_zero hr]
  · rintro t rfl
    unfold Site.body
    split
    · rename_i hzero
      rw [hzero, shift_zero hr]
    · rfl

def layered : Text := "# A\n  ###\tB\n\x60\x60\x60\n###### C\n\x60\x60\x60\n##### \n".text

theorem shifts_add_up_of_layered : '\r' ∉ layered ∧ StaysWithin 1 layered ∧
    Heading.shift 1 layered ≠ layered ∧ Heading.shift (-1) (Heading.shift 1 layered) = layered ∧
    Heading.shift (-1) (Heading.shift 2 layered) ≠ Heading.shift 1 layered ∧
    Heading.shift 4 (Heading.shift 3 layered) = Heading.shift 7 layered ∧
    Heading.shift (-3) (Heading.shift 1 layered) = Heading.shift (-2) layered ∧
    Heading.shift 0 layered = layered := by
  have hr : '\r' ∉ layered := by decide +kernel
  have hwithin : StaysWithin 1 layered := by decide +kernel
  obtain ⟨hsame, -, -, hzero, -⟩ := shifts_add_up hr 3 4
  obtain ⟨-, hsum, hback, -, -⟩ := shifts_add_up hr 1 (-3)
  exact ⟨hr, hwithin, by decide +kernel, hback hwithin, by decide +kernel, hsame (by decide),
    hsum hwithin, hzero⟩

end Heading
end Transclude

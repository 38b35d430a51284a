import Mathlib.Data.List.TakeWhile
import Transclude.Heading.Shift
import Transclude.Proofs.Rows

/-! What a shift does to the lines of a text. Fences stay where they are, and of the headings at the
margin each keeps what stands behind its marks. -/

namespace Transclude
namespace Heading

variable {indent rest : Text} {marks : Nat}

theorem takeWhile_marks (hr : rest.head? ≠ some '#') :
    (List.replicate marks '#' ++ rest).takeWhile (· = '#') = List.replicate marks '#' := by
  induction marks with
  | zero => cases rest <;> simp_all
  | succ m ih => simpa [List.replicate_succ] using ih

theorem drop_marks : (List.replicate marks '#' ++ rest).drop marks = rest := by
  exact List.drop_left' (by simp)

theorem level?_marks (hi : indent.allBlank) (hm : 1 ≤ marks) (hr : rest.head? ≠ some '#') :
    level? (indent ++ List.replicate marks '#' ++ rest) =
      if rest.head?.any Text.isBlank ∧ rest.allBlank = false ∧ marks ≤ 6 then some marks
      else none := by
  have htrimmed : rest.trimRight.head? ≠ some '#' := by
    by_cases hb : rest.allBlank
    · simp [Text.trimRight_eq_nil_iff.2 hb]
    · rwa [Text.head?_trimRight (by simpa using hb)]
  unfold level?
  dsimp only
  rw [Text.trim_run hi (by decide) hm, takeWhile_marks htrimmed, List.length_replicate, drop_marks]
  by_cases hb : rest.allBlank
  · simp [Text.trimRight_eq_nil_iff.2 hb, hb]
  · have hhead := Text.head?_trimRight (s := rest) (by simpa using hb)
    rw [← hhead]
    cases hcut : rest.trimRight with
    | nil => exact absurd (Text.trimRight_eq_nil_iff.1 hcut) hb
    | cons c u => simp [hb, hm]

theorem parts?_marks (hi : indent.allBlank) (hm : 1 ≤ marks) (hr : rest.head? ≠ some '#') :
    parts? (indent ++ List.replicate marks '#' ++ rest) =
      if rest.head?.any Text.isBlank ∧ indent.length ≤ 3 ∧ marks ≤ 6 then
        some (indent, marks, rest)
      else none := by
  obtain ⟨m, rfl⟩ := Nat.exists_eq_add_of_le' hm
  have hstop : (List.replicate (m + 1) '#' ++ rest).takeWhile Text.isBlank = [] := by
    rw [List.replicate_succ, List.cons_append, List.takeWhile_cons_of_neg (by decide)]
  have hspan : Text.spanBlanks (indent ++ List.replicate (m + 1) '#' ++ rest) =
      (indent, List.replicate (m + 1) '#' ++ rest) := by
    have hall : ∀ c ∈ indent, Text.isBlank c := List.all_eq_true.1 hi
    have hgo : (List.replicate (m + 1) '#' ++ rest).dropWhile Text.isBlank =
        List.replicate (m + 1) '#' ++ rest := by
      rw [List.replicate_succ, List.cons_append, List.dropWhile_cons_of_neg (by decide)]
    rw [Text.spanBlanks, List.append_assoc, List.takeWhile_append_of_pos hall,
      List.dropWhile_append_of_pos hall, hstop, hgo, List.append_nil]
  unfold parts?
  rw [hspan]
  dsimp only
  rw [takeWhile_marks hr, List.length_replicate, drop_marks]
  cases rest with
  | nil => simp
  | cons c u => simp [hm]

theorem exists_marks {line : Text} (h : line.head? = some '#') :
    ∃ marks rest, 1 ≤ marks ∧ line = List.replicate marks '#' ++ rest ∧ rest.head? ≠ some '#' := by
  have hall : line.takeWhile (· = '#') =
      List.replicate (line.takeWhile (· = '#')).length '#' := by
    refine List.eq_replicate_iff.2 ⟨rfl, fun c hc => ?_⟩
    simpa using List.mem_takeWhile_imp hc
  refine ⟨(line.takeWhile (· = '#')).length, line.dropWhile (· = '#'), ?_, ?_, ?_⟩
  · cases line with
    | nil => simp at h
    | cons c line =>
      obtain rfl : c = '#' := by simpa using h
      simp
  · rw [← hall]
    exact List.takeWhile_append_dropWhile.symm
  · have hstop := List.head?_dropWhile_not (fun c => decide (c = '#')) line
    intro heq
    simp [heq] at hstop

theorem marks_of_parts? {line : Text} (h : parts? line = some (indent, marks, rest)) :
    indent.allBlank ∧ indent.length ≤ 3 ∧ 1 ≤ marks ∧ marks ≤ 6 ∧
      rest.head?.any Text.isBlank := by
  have hindent : line.spanBlanks.1.allBlank :=
    List.all_eq_true.2 fun c hc => List.mem_takeWhile_imp hc
  unfold parts? at h
  generalize line.spanBlanks = halves at h hindent
  obtain ⟨i, body⟩ := halves
  dsimp only at h
  split at h
  · rename_i c u hrest
    split at h
    · rename_i hcut
      obtain ⟨rfl, hmore⟩ := Prod.mk.inj (Option.some.inj h)
      obtain ⟨rfl, rfl⟩ := Prod.mk.inj hmore
      refine ⟨hindent, hcut.2.1, hcut.2.2.1, hcut.2.2.2, ?_⟩
      rw [hrest]
      exact hcut.1
    · cases h
  · cases h

theorem head?_ne_mark (h : rest.head?.any Text.isBlank) : rest.head? ≠ some '#' := by
  intro heq
  rw [heq] at h
  exact absurd h (by decide)

theorem shiftLine_of_parts? {line : Text} (h : parts? line = some (indent, marks, rest))
    (shift : Int) :
    shiftLine shift line = indent ++ List.replicate (clamp (marks + shift)) '#' ++ rest := by
  unfold shiftLine
  rw [h]

theorem shiftLine_of_no_parts {line : Text} (h : parts? line = none) (shift : Int) :
    shiftLine shift line = line := by
  unfold shiftLine
  rw [h]

def margin? (line : Text) : Option (Nat × Text) :=
  if line.head? = some '#' then (level? line).map fun level => (level, line.drop level) else none

theorem margin?_marks (hm : 1 ≤ marks) (hr : rest.head? ≠ some '#') :
    margin? (List.replicate marks '#' ++ rest) =
      if rest.head?.any Text.isBlank ∧ rest.allBlank = false ∧ marks ≤ 6 then some (marks, rest)
      else none := by
  have hlevel : level? (List.replicate marks '#' ++ rest) = _ :=
    level?_marks (show Text.allBlank [] from rfl) hm hr
  have hhead : (List.replicate marks '#' ++ rest).head? = some '#' := by
    obtain ⟨m, rfl⟩ := Nat.exists_eq_add_of_le' hm
    rfl
  rw [margin?, if_pos hhead, hlevel]
  split
  · rw [Option.map_some, drop_marks]
  · rfl

theorem margin?_of_indent {c : Char} (hc : Text.isBlank c) (line : Text) :
    margin? (c :: line) = none := by
  refine if_neg fun heq => ?_
  obtain rfl : c = '#' := by simpa using heq
  exact absurd hc (by decide)

theorem margin?_shiftLine (shift : Int) (line : Text) :
    margin? (shiftLine shift line) =
      (margin? line).map fun (level, title) => (clamp (level + shift), title) := by
  cases hp : parts? line with
  | none =>
    -- A heading at the margin would have parts, whatever its level.
    have hnone : margin? line = none := by
      by_cases hhead : line.head? = some '#'
      · obtain ⟨marks, rest, hm, rfl, hr⟩ := exists_marks hhead
        have hparts : parts? (List.replicate marks '#' ++ rest) = _ :=
          parts?_marks (show Text.allBlank [] from rfl) hm hr
        rw [hp] at hparts
        rw [margin?_marks hm hr, if_neg]
        rintro ⟨hblank, -, hsix⟩
        rw [if_pos ⟨hblank, Nat.zero_le 3, hsix⟩] at hparts
        cases hparts
      · exact if_neg hhead
    rw [shiftLine_of_no_parts hp, hnone]
    rfl
  | some parts =>
    obtain ⟨indent, marks, rest⟩ := parts
    obtain ⟨hi, -, hm, hsix, hblank⟩ := marks_of_parts? hp
    have hr := head?_ne_mark hblank
    rw [shiftLine_of_parts? hp, ← append_of_parts? hp]
    cases indent with
    | cons c indent =>
      have hc : Text.isBlank c := List.all_eq_true.1 hi c List.mem_cons_self
      rw [List.cons_append, List.cons_append, List.cons_append, List.cons_append,
        margin?_of_indent hc, margin?_of_indent hc]
      rfl
    | nil =>
      obtain ⟨hlow, hhigh⟩ := clamp_bounds (marks + shift)
      rw [List.nil_append, List.nil_append, margin?_marks hlow hr, margin?_marks hm hr]
      by_cases hrest : rest.allBlank = false
      · rw [if_pos ⟨hblank, hrest, hhigh⟩, if_pos ⟨hblank, hrest, hsix⟩]
        rfl
      · rw [if_neg fun h => hrest h.2.1, if_neg fun h => hrest h.2.1]
        rfl

end Heading

namespace Fence

/-- Whether an open fence, if there is one, can have been opened by a line. -/
def Real (open? : Option Fence) : Prop :=
  ∀ fence, open? = some fence → (fence.mark = '\x60' ∨ fence.mark = '~') ∧ fence.length ≠ 0

theorem real_none : Real none := fun _ h => nomatch h

theorem real_step {open? : Option Fence} (h : Real open?) (line : Text) :
    Real (step open? line).2 := by
  intro fence hf
  unfold step at hf
  cases open? with
  | some g =>
    dsimp only at hf
    split at hf
    · cases hf
    · exact h fence hf
  | none =>
    dsimp only at hf
    split at hf
    · rename_i g ho
      obtain rfl := Option.some.inj hf
      unfold opening? at ho
      split at ho
      · cases ho
      · dsimp only at ho
        split at ho
        · rename_i hcut
          obtain rfl := Option.some.inj ho
          exact ⟨hcut.1, by dsimp only; omega⟩
        · cases ho
    · split at hf <;> cases hf

theorem real_openAfter {open? : Option Fence} (h : Real open?) (ls : List Text) :
    Real (openAfter open? ls) := by
  induction ls generalizing open? with
  | nil => exact h
  | cons line ls ih => exact ih (real_step h line)

theorem step_of_mark {line : Text} (hl : line.trim.head? = some '#') {open? : Option Fence}
    (h : Real open?) :
    (step open? line).2 = open? ∧ (step open? line).1.inFence = open?.isSome := by
  cases open? with
  | some fence =>
    have hopen : fence.closedBy line = false := by
      obtain ⟨hfence, hlength⟩ := h fence rfl
      have hmark : fence.mark ≠ '#' := by
        rcases hfence with heq | heq <;> rw [heq] <;> decide
      obtain ⟨n, hn⟩ := Nat.exists_eq_succ_of_ne_zero hlength
      obtain ⟨rest, hrest⟩ : ∃ rest, line.trim = '#' :: rest := by
        cases ht : line.trim with
        | nil => simp [ht] at hl
        | cons c rest => exact ⟨rest, by simp_all⟩
      rw [closedBy, hrest, hn, Text.startsWith, List.replicate_succ, Text.after?_cons,
        if_neg (Ne.symm hmark)]
      rfl
    simp [step, hopen, LineClass.inFence]
  | none =>
    have hopen : opening? line = none := by
      unfold opening?
      split
      · rfl
      · rename_i c rest ht
        obtain rfl : c = '#' := by simpa [ht] using hl
        exact if_neg fun hcut => absurd hcut.1 (by decide)
    unfold step
    rw [hopen]
    cases Heading.level? line <;> exact ⟨rfl, rfl⟩

theorem step_shiftLine {open? : Option Fence} (h : Real open?) (shift : Int) (line : Text) :
    (step open? (Heading.shiftLine shift line)).2 = (step open? line).2 ∧
      (step open? (Heading.shiftLine shift line)).1.inFence = (step open? line).1.inFence := by
  cases hp : Heading.parts? line with
  | none =>
    rw [Heading.shiftLine_of_no_parts hp]
    exact ⟨rfl, rfl⟩
  | some parts =>
    obtain ⟨indent, marks, rest⟩ := parts
    obtain ⟨hi, -, hm, -, -⟩ := Heading.marks_of_parts? hp
    have hhead (m : Nat) (hm : 1 ≤ m) :
        (indent ++ List.replicate m '#' ++ rest).trim.head? = some '#' := by
      rw [Text.trim_run hi (by decide) hm]
      obtain ⟨k, rfl⟩ := Nat.exists_eq_add_of_le' hm
      rfl
    obtain ⟨hstate, hin⟩ := step_of_mark (hhead marks hm) h
    obtain ⟨hstate', hin'⟩ :=
      step_of_mark (hhead _ (Heading.clamp_bounds (marks + shift)).1) h
    rw [Heading.shiftLine_of_parts? hp, ← Heading.append_of_parts? hp]
    exact ⟨hstate'.trans hstate.symm, hin'.trans hin.symm⟩

end Fence
end Transclude

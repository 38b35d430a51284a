import Transclude.Proofs.HeadingMoves

/-! The outline of a text: its headings at the margin, fenced code aside. A shift moves the outline
level by level and leaves the fences where they are. -/

namespace Transclude
namespace Heading

def outlineFrom (open? : Option Fence) : List Text → List (Nat × Text)
  | [] => []
  | line :: rest =>
    let (kind, next) := Fence.step open? line
    (if kind.inFence then [] else (margin? line).toList) ++ outlineFrom next rest

/-- The headings at the margin of a text, each with what stands behind its marks. -/
def outline (s : Text) : List (Nat × Text) := outlineFrom none s.lines

def moved (shift : Int) (heading : Nat × Text) : Nat × Text :=
  (clamp (heading.1 + shift), heading.2)

theorem outlineFrom_append (open? : Option Fence) (xs ys : List Text) :
    outlineFrom open? (xs ++ ys) =
      outlineFrom open? xs ++ outlineFrom (Fence.openAfter open? xs) ys := by
  induction xs generalizing open? with
  | nil => rfl
  | cons x xs ih =>
    have hnext := ih (Fence.step open? x).2
    simp only [List.cons_append, outlineFrom, hnext, List.append_assoc]
    rfl

theorem shiftLines_cons (shift : Int) (open? : Option Fence) (line : Text) (ls : List Text) :
    shiftLines shift open? (line :: ls) =
      (if (Fence.step open? line).1.inFence then line else shiftLine shift line) ::
        shiftLines shift (Fence.step open? line).2 ls := rfl

theorem shiftLines_append (shift : Int) (open? : Option Fence) (xs ys : List Text) :
    shiftLines shift open? (xs ++ ys) =
      shiftLines shift open? xs ++ shiftLines shift (Fence.openAfter open? xs) ys := by
  induction xs generalizing open? with
  | nil => rfl
  | cons x xs ih =>
    have hnext := ih (Fence.step open? x).2
    simp only [List.cons_append, shiftLines, hnext]
    rfl

theorem shiftLines_zero (open? : Option Fence) (ls : List Text) : shiftLines 0 open? ls = ls := by
  induction ls generalizing open? with
  | nil => rfl
  | cons line ls ih => simp only [shiftLines, shiftLine_zero, ite_self, ih]

theorem step_shifted {open? : Option Fence} (h : Fence.Real open?) (shift : Int) (line : Text) :
    let line' := if (Fence.step open? line).1.inFence then line else shiftLine shift line
    (Fence.step open? line').2 = (Fence.step open? line).2 ∧
      (Fence.step open? line').1.inFence = (Fence.step open? line).1.inFence := by
  intro line'
  by_cases hin : (Fence.step open? line).1.inFence = true
  · have hline : line' = line := if_pos hin
    rw [hline]
    exact ⟨rfl, rfl⟩
  · have hline : line' = shiftLine shift line := if_neg hin
    rw [hline]
    exact Fence.step_shiftLine h shift line

theorem openAfter_shiftLines {open? : Option Fence} (h : Fence.Real open?) (shift : Int)
    (ls : List Text) :
    Fence.openAfter open? (shiftLines shift open? ls) = Fence.openAfter open? ls := by
  induction ls generalizing open? with
  | nil => rfl
  | cons line ls ih =>
    have hstate := (step_shifted h shift line).1
    have hnext := ih (Fence.real_step h line)
    simp only [Fence.openAfter, shiftLines, List.foldl_cons] at hnext ⊢
    rw [hstate, hnext]

theorem outlineFrom_shiftLines {open? : Option Fence} (h : Fence.Real open?) (shift : Int)
    (ls : List Text) :
    outlineFrom open? (shiftLines shift open? ls) = (outlineFrom open? ls).map (moved shift) := by
  induction ls generalizing open? with
  | nil => rfl
  | cons line ls ih =>
    obtain ⟨hstate, hin⟩ := step_shifted h shift line
    have hnext := ih (Fence.real_step h line)
    simp only [outlineFrom, shiftLines, List.map_append] at hnext ⊢
    rw [hstate, hin, hnext]
    congr 1
    by_cases hfenced : (Fence.step open? line).1.inFence = true
    · rw [if_pos hfenced, if_pos hfenced]
      rfl
    · rw [if_neg hfenced, if_neg hfenced, if_neg hfenced, margin?_shiftLine]
      cases margin? line <;> rfl

theorem bounds_of_mem_outlineFrom {open? : Option Fence} {ls : List Text} {heading : Nat × Text}
    (h : heading ∈ outlineFrom open? ls) : 1 ≤ heading.1 ∧ heading.1 ≤ 6 := by
  induction ls generalizing open? with
  | nil => exact absurd h List.not_mem_nil
  | cons line ls ih =>
    simp only [outlineFrom, List.mem_append] at h
    rcases h with h | h
    · by_cases hin : (Fence.step open? line).1.inFence = true
      · rw [if_pos hin] at h
        exact absurd h List.not_mem_nil
      · rw [if_neg hin] at h
        have hmargin : margin? line = some heading := Option.mem_toList.1 h
        unfold margin? at hmargin
        split at hmargin
        · obtain ⟨level, hlevel, rfl⟩ := Option.map_eq_some_iff.1 hmargin
          exact level?_bounds hlevel
        · cases hmargin
    · exact ih h

theorem bounds_of_mem_classesFrom {open? : Option Fence} {ls : List Text} {level : Nat}
    (h : .heading level ∈ Fence.classesFrom open? ls) : 1 ≤ level ∧ level ≤ 6 := by
  induction ls generalizing open? with
  | nil => exact absurd h List.not_mem_nil
  | cons line ls ih =>
    rcases List.mem_cons.1 h with h | h
    · unfold Fence.step at h
      cases open? with
      | some fence =>
        dsimp only at h
        split at h <;> cases h
      | none =>
        dsimp only at h
        split at h
        · cases h
        · split at h
          · rename_i hlevel
            obtain rfl := LineClass.heading.inj h
            exact level?_bounds hlevel
          · cases h
    · exact ih h

/-- Shifts in the same direction add up, even where they meet a bound. -/
theorem moved_moved {a b : Int} (h : 0 ≤ a ∧ 0 ≤ b ∨ a ≤ 0 ∧ b ≤ 0) {heading : Nat × Text}
    (hl : 1 ≤ heading.1 ∧ heading.1 ≤ 6) :
    moved a (moved b heading) = moved (b + a) heading := by
  refine Prod.ext ?_ rfl
  simp only [moved, clamp]
  omega

end Heading
end Transclude

import Transclude.Text.Blank

/-! Heading levels: what makes a line a heading, and the run of marks that names a level. -/

namespace Transclude.Heading

/-- The level of a heading line: one to six marks and then a blank, whatever surrounds them. -/
def level? (line : Text) : Option Nat :=
  let body := line.trim
  let marks := (body.takeWhile (· = '#')).length
  match body.drop marks with
  | c :: _ => if Text.isBlank c ∧ 1 ≤ marks ∧ marks ≤ 6 then some marks else none
  | [] => none

/-- The level that a run of one to six marks names, blanks around it aside. -/
def namedLevel? (spec : Text) : Option Nat :=
  let body := spec.trim
  if body.all (· = '#') ∧ 1 ≤ body.length ∧ body.length ≤ 6 then some body.length else none

def clamp (level : Int) : Nat := (max 1 (min 6 level)).toNat

theorem level?_bounds {line : Text} {n : Nat} (h : level? line = some n) : 1 ≤ n ∧ n ≤ 6 := by
  unfold level? at h
  grind

theorem clamp_bounds (level : Int) : 1 ≤ clamp level ∧ clamp level ≤ 6 := by
  unfold clamp
  omega

theorem clamp_of_bounds {n : Nat} (h : 1 ≤ n ∧ n ≤ 6) : clamp n = n := by
  unfold clamp
  omega

end Transclude.Heading

import Transclude.Fence.Basic

/-! Moving headings to other levels. Only unfenced lines indented by at most three blanks move; the
indentation, the blanks behind the marks and the title stay as they are. -/

namespace Transclude.Heading

/-- A heading line in three parts: its indentation, the number of marks, and the rest, which
starts with a blank. -/
def parts? (line : Text) : Option (Text × Nat × Text) :=
  let (indent, body) := line.spanBlanks
  let marks := (body.takeWhile (· = '#')).length
  let rest := body.drop marks
  match rest with
  | c :: _ =>
    if Text.isBlank c ∧ indent.length ≤ 3 ∧ 1 ≤ marks ∧ marks ≤ 6 then some (indent, marks, rest)
    else none
  | [] => none

def shiftLine (shift : Int) (line : Text) : Text :=
  match parts? line with
  | some (indent, marks, rest) => indent ++ List.replicate (clamp (marks + shift)) '#' ++ rest
  | none => line

def shiftLines (shift : Int) (open? : Option Fence) : List Text → List Text
  | [] => []
  | line :: rest =>
    let (kind, next) := Fence.step open? line
    (if kind.inFence then line else shiftLine shift line) :: shiftLines shift next rest

def shift (shift : Int) (s : Text) : Text := Text.unlines (shiftLines shift none s.lines)

/-- The title of a heading line without its marks, as far as they stand near the margin. -/
def title (line : Text) : Text :=
  match parts? line with
  | some (_, _, rest) => rest.trim
  | none => line.trim

def levels (s : Text) : List Nat := (Fence.classesFrom none s.lines).filterMap LineClass.level?

def lowest? (s : Text) : Option Nat := (levels s).min?

@[simp] theorem length_shiftLines (shift : Int) (open? : Option Fence) (ls : List Text) :
    (shiftLines shift open? ls).length = ls.length := by
  induction ls generalizing open? with
  | nil => rfl
  | cons line ls ih => simp [shiftLines, ih]

theorem append_of_parts? {line indent rest : Text} {marks : Nat}
    (h : parts? line = some (indent, marks, rest)) :
    indent ++ List.replicate marks '#' ++ rest = line := by
  have hrun (body : Text) : List.replicate (body.takeWhile (· = '#')).length '#' ++
      body.drop (body.takeWhile (· = '#')).length = body := by
    induction body with
    | nil => rfl
    | cons c body ih => by_cases hc : c = '#' <;> simp_all [List.replicate_succ]
  unfold parts? at h
  have hs := Text.spanBlanks_append line
  generalize line.spanBlanks = halves at h hs
  obtain ⟨i, body⟩ := halves
  have := hrun body
  grind

theorem shiftLine_zero (line : Text) : shiftLine 0 line = line := by
  unfold shiftLine
  split
  · rename_i indent marks rest h
    have hb : 1 ≤ marks ∧ marks ≤ 6 := by unfold parts? at h; grind
    rw [Int.add_zero, clamp_of_bounds hb, append_of_parts? h]
  · rfl

end Transclude.Heading

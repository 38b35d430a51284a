import Transclude.Text.Blank

/-! Lines of a text. A line ends at a line feed, and a carriage return right before it belongs to
the ending. -/

namespace Transclude.Text

def dropReturn (line : Text) : Text :=
  if line.getLast? = some '\r' then line.dropLast else line

/-- Takes the carriage return off every line but the last, which has no ending. -/
def dropReturns : List Text → List Text
  | [] => []
  | [line] => [line]
  | line :: next :: rest => dropReturn line :: dropReturns (next :: rest)

def lines (s : Text) : List Text := dropReturns (s.splitOn '\n')

def unlines (ls : List Text) : Text := ['\n'].intercalate ls

/-- Gives every line but the last its line feed back, and drops the last if it is empty. -/
def endLines : List Text → List Text
  | [] => []
  | [line] => if line = [] then [] else [line]
  | line :: next :: rest => (line ++ ['\n']) :: endLines (next :: rest)

def endedLines (s : Text) : List Text := endLines (s.splitOn '\n')

theorem dropReturn_eq_self {line : Text} (h : '\r' ∉ line) : dropReturn line = line := by
  rw [dropReturn, if_neg]
  exact fun hl => h (List.mem_of_getLast? hl)

theorem dropReturns_eq_self {ls : List Text} (h : ∀ l ∈ ls, '\r' ∉ l) : dropReturns ls = ls := by
  fun_induction dropReturns ls <;> simp_all [dropReturn_eq_self]

theorem unlines_splitOn (s : Text) : unlines (s.splitOn '\n') = s := List.intercalate_splitOn '\n'

@[simp] theorem flatten_endedLines (s : Text) : (endedLines s).flatten = s := by
  have h (ls : List Text) : (endLines ls).flatten = unlines ls := by
    fun_induction endLines ls <;> simp_all [unlines, List.intercalate]
  rw [endedLines, h, unlines_splitOn]

theorem mem_unlines {ls : List Text} {l : Text} {c : Char} (hl : l ∈ ls) (hc : c ∈ l) :
    c ∈ unlines ls := by
  induction ls with
  | nil => simp at hl
  | cons a ls ih =>
    cases ls with
    | nil => simp_all [unlines, List.intercalate]
    | cons b ls =>
      rcases List.mem_cons.1 hl with rfl | hl
      · simp [unlines, List.intercalate, hc]
      · have := ih hl
        simp_all [unlines, List.intercalate]

theorem unlines_lines {s : Text} (h : '\r' ∉ s) : unlines (lines s) = s := by
  rw [lines, dropReturns_eq_self, unlines_splitOn]
  intro l hl hr
  exact h (unlines_splitOn s ▸ mem_unlines hl hr)

end Transclude.Text

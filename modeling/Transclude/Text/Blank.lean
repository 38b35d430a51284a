import Transclude.Text.Basic

/-! Blank characters, and the trimming of them. The class is that of the separators of spaces, lines
and paragraphs together with the blank controls; joiners and the byte-order mark are not in it. -/

namespace Transclude.Text

def blankRanges : List (Nat × Nat) := [
    (0x9, 0xD), (0x1C, 0x20), (0x85, 0x85), (0xA0, 0xA0), (0x1680, 0x1680), (0x2000, 0x200A),
    (0x2028, 0x2029), (0x202F, 0x202F), (0x205F, 0x205F), (0x3000, 0x3000)]

def isBlank (c : Char) : Bool := inRanges blankRanges c

def allBlank (s : Text) : Bool := s.all isBlank

def trimLeft (s : Text) : Text := s.dropWhile isBlank

def trimRight (s : Text) : Text := (s.reverse.dropWhile isBlank).reverse

def trim (s : Text) : Text := trimRight (trimLeft s)

def spanBlanks (s : Text) : Text × Text := (s.takeWhile isBlank, s.dropWhile isBlank)

/-- The maximal runs of characters that are not blank. -/
def words (s : Text) : List Text := (s.splitOnP isBlank).filter (· ≠ [])

theorem spanBlanks_append (s : Text) : (spanBlanks s).1 ++ (spanBlanks s).2 = s :=
  List.takeWhile_append_dropWhile

theorem trimLeft_eq_nil_iff {s : Text} : trimLeft s = [] ↔ s.allBlank := by
  induction s with
  | nil => simp [trimLeft, allBlank]
  | cons c s ih => by_cases h : isBlank c <;> simp_all [trimLeft, allBlank]

theorem trimRight_eq_nil_iff {s : Text} : trimRight s = [] ↔ s.allBlank := by
  rw [trimRight, List.reverse_eq_nil_iff, ← trimLeft, trimLeft_eq_nil_iff, allBlank, allBlank,
    List.all_reverse]

theorem getLast?_trimRight {s : Text} {c : Char} (h : (trimRight s).getLast? = some c) :
    isBlank c = false := by
  rw [trimRight, List.getLast?_reverse] at h
  have := List.head?_dropWhile_not isBlank s.reverse
  simp_all

end Transclude.Text

import Transclude.Fence.Basic

/-! The final layout of a document: one kind of line ending, nothing blank at the ends of lines, no
two blank lines in a row outside fences, and one line feed at the end. -/

namespace Transclude.Layout

/-- Drops blank lines behind blank lines, but for those in fences. `blank` tells whether the last
line that was kept is a blank one. -/
def collapseLines (open? : Option Fence) (blank : Bool) : List Text → List Text
  | [] => []
  | line :: rest =>
    let (kind, next) := Fence.step open? line
    if kind.inFence then line :: collapseLines next false rest
    else if line.allBlank && blank then collapseLines next true rest
    else line :: collapseLines next line.allBlank rest

/-- Keeps one of several blank lines. Lines end at line feeds only. -/
def collapse (s : Text) : Text := Text.unlines (collapseLines none false (s.splitOn '\n'))

def joinEndings : Text → Text
  | [] => []
  | '\r' :: '\n' :: rest => '\n' :: joinEndings rest
  | c :: rest => c :: joinEndings rest

def trimLines (s : Text) : Text := Text.unlines ((s.splitOn '\n').map Text.trimRight)

def endOnce (s : Text) : Text := (s.reverse.dropWhile (· = '\n')).reverse ++ ['\n']

/-- Lays out a document; an empty one stays empty. -/
def prettify (s : Text) : Text :=
  if s = [] then [] else endOnce (collapse (trimLines (joinEndings s)))

theorem prettify_eq_nil_iff {s : Text} : prettify s = [] ↔ s = [] := by
  unfold prettify
  split <;> simp_all [endOnce]

end Transclude.Layout

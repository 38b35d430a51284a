import Transclude.Heading.Shift
import Transclude.Problem

/-! Selecting part of a document: the whole body, or the section under one heading. -/

namespace Transclude

structure Snippet where
  body : Text
  level? : Option Nat
deriving DecidableEq, Repr

namespace Heading

def startsSection (title : Text) (line : Text × LineClass) : Bool :=
  !line.2.inFence && line.1.trim = title.trim

def staysBelow (level : Nat) (line : Text × LineClass) : Bool :=
  match line.2 with
  | .heading other => level < other
  | _ => true

/-- The section whose heading line reads like the title. It ends before the next heading of the
same or a smaller level. -/
def cutSection (title s : Text) : Except Problem Snippet :=
  match (Fence.classify s).dropWhile fun line => !startsSection title line with
  | [] => .error (.sectionNotFound title)
  | first :: rest =>
    match level? first.1 with
    | none => .error (.sectionNotHeading title)
    | some level =>
      let kept := rest.takeWhile (staysBelow level)
      .ok ⟨Text.unlines ((first :: kept).map (·.1)), some level⟩

def select (title? : Option Text) (s : Text) : Except Problem Snippet :=
  match title? with
  | none | some [] => .ok ⟨s, lowest? s⟩
  | some title => cutSection title s

/-- How far a snippet has to move to stand at the level that is asked for. `offset` is the shift
that the includers have applied already; a snippet without a level counts as one below it. -/
def shiftTo (spec? : Option Text) (reference? : Option Int) (offset : Int) : Except Problem Int :=
  match spec? with
  | none | some [] => .ok 0
  | some spec =>
    match namedLevel? spec with
    | none => .error (.invalidLevel spec)
    | some target => .ok (target + offset - (reference?.filter (· ≠ 0)).getD (offset + 1))

end Heading
end Transclude

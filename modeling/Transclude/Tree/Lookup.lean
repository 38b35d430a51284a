import Transclude.Text.Utf8
import Transclude.Tree.Basic

/-! Looking up a path. It leads to an entry or to none, unless it is too long to be followed. -/

namespace Transclude

/-- The number of bytes in a name may not exceed this. -/
def nameLimit : Nat := 255

/-- The number of bytes in a whole path has to stay below this. -/
def pathLimit : Nat := 4096

inductive Walk where
  | blocked
  | tooLong
  | arrived (names : List Text)
deriving DecidableEq, Repr

inductive Lookup where
  | missing
  | tooLong
  | found (entry : Entry)
deriving DecidableEq, Repr

namespace Tree

/-- Follows names downwards from a directory. Every name, `..` too, needs a directory to leave. -/
def walk (t : Tree) (here : List Text) : List Text → Walk
  | [] => .arrived here
  | name :: rest =>
    match t.entryAt? here with
    | some .directory =>
      if name = Path.parentName then walk t here.dropLast rest
      else if nameLimit < (Utf8.encode name).length then .tooLong
      else walk t (here ++ [name]) rest
    | _ => .blocked

/-- Whether a zero stands in a path, which then names nothing. -/
def holdsZero (p : Path) : Bool := decide ('\x00' ∈ p.names.flatten)

def follow (t : Tree) (p : Path) : Walk :=
  if holdsZero p then .blocked
  else if pathLimit ≤ (Utf8.encode p.toText).length then .tooLong
  else t.walk [] p.names

/-- Looks up a path that holds no `..`. -/
def lookup (t : Tree) (p : Path) : Lookup :=
  match t.entryAt? p.names with
  | some entry => .found entry
  | none => if t.follow p = .tooLong then .tooLong else .missing

/-- Looks up a path in which `..` leaves the directory it stands behind. -/
def resolve (t : Tree) (p : Path) : Lookup :=
  match t.follow p with
  | .blocked => .missing
  | .tooLong => .tooLong
  | .arrived names =>
    match t.entryAt? names with
    | some entry => .found entry
    | none => .missing

end Tree
end Transclude

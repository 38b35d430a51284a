import Transclude.Text.Basic

/-! File paths. Reading a path drops empty names and `.`; only `absolute` takes `..` away, and it
does so without looking at any file. -/

namespace Transclude

/-- Where the names of a path start. Exactly two leading slashes are told apart from one. -/
inductive Anchor where
  | here
  | root
  | doubleRoot
deriving DecidableEq, Repr

structure Path where
  anchor : Anchor
  names : List Text
deriving DecidableEq, Repr

namespace Path

def parentName : Text := ['.', '.']

def namesOf (s : Text) : List Text :=
  (s.splitOn '/').filter fun name => name ≠ [] ∧ name ≠ ['.']

def anchorOf : Text → Anchor
  | '/' :: '/' :: '/' :: _ => .root
  | '/' :: '/' :: _ => .doubleRoot
  | '/' :: _ => .root
  | _ => .here

def ofText (s : Text) : Path := ⟨anchorOf s, namesOf s⟩

def toText (p : Path) : Text :=
  match p.anchor, p.names with
  | .here, [] => ['.']
  | .here, names => Text.joinWith "/" names
  | .root, names => '/' :: Text.joinWith "/" names
  | .doubleRoot, names => '/' :: '/' :: Text.joinWith "/" names

def join (base p : Path) : Path :=
  match p.anchor with
  | .here => { base with names := base.names ++ p.names }
  | _ => p

def parent (p : Path) : Path := { p with names := p.names.dropLast }

/-- Lets each `..` take the name before it away; at the root there is nothing to take. -/
def settle (names : List Text) : List Text :=
  names.foldl (fun kept name => if name = parentName then kept.dropLast else kept ++ [name]) []

def absolute (here p : Path) : Path :=
  let full := here.join p
  { full with names := settle full.names }

def wayTo : (start target : List Text) → List Text
  | a :: start, b :: target =>
    if a = b then wayTo start target
    else List.replicate (start.length + 1) parentName ++ b :: target
  | start, target => List.replicate start.length parentName ++ target

def relativeTo (start target : Path) : Path := ⟨.here, wayTo start.names target.names⟩

/-- The ending of the last name from its last dot on. A dot in front or at the end makes none. -/
def extension (p : Path) : Text :=
  let name := p.names.getLast?.getD []
  let ending := (name.reverse.takeWhile (· ≠ '.')).reverse
  if ending = [] ∨ name.length ≤ ending.length + 1 then [] else '.' :: ending

end Path
end Transclude

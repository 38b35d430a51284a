import Transclude.Tree.Lookup
import Transclude.Tree.Source

/-! Writing a file together with the directories that lead to it. -/

namespace Transclude.Tree

/-- Whether some names lead through a file, which has nothing below it. -/
def passesFile (t : Tree) (here : List Text) : List Text → Bool
  | [] => false
  | name :: rest =>
    match t.entryAt? (here ++ [name]) with
    | some (.file _) => rest ≠ []
    | _ => t.passesFile (here ++ [name]) rest

def ensureDirectory (t : Tree) (p : Path) : Except PathError Tree :=
  match h : t.entryAt? p.names with
  | some .directory => .ok t
  | some (.file _) => .error (.alreadyExists p)
  | none =>
    if holdsZero p then .error .zeroInName
    else if t.follow p = .tooLong then .error (.nameTooLong p)
    else if t.passesFile [] p.names then .error (.notDirectory p)
    else
      have : p.names ≠ [] := fun hn => by simp [entryAt?, hn] at h
      match t.ensureDirectory p.parent with
      | .error e => .error e
      | .ok t =>
        -- Only now can the way be followed as far as the last name.
        if t.follow p = .tooLong then .error (.nameTooLong p) else .ok (t.put p.names .directory)
termination_by p.names.length
decreasing_by
  have := List.length_pos_iff.2 this
  simp only [Path.parent, List.length_dropLast]
  omega

def write (t : Tree) (target : Path) (bytes : List UInt8) : Except PathError Tree :=
  match t.ensureDirectory target.parent with
  | .error e => .error e
  | .ok t =>
    match t.lookup target with
    | .found .directory => .error (.isDirectory target)
    | .tooLong => .error (.nameTooLong target)
    | .found (.file _) => .ok (t.put target.names (.file bytes))
    | .missing =>
      if holdsZero target then .error .zeroInName else .ok (t.put target.names (.file bytes))

/-- The files of `new` below a directory that are not the same in `old`. -/
def changedFiles (old new : Tree) (below : List Text) : List (List Text × List UInt8) :=
  new.entries.filterMap fun (names, entry) =>
    match entry with
    | .file bytes =>
      if below.isPrefixOf names && decide (old.entryAt? names ≠ some entry) then
        some (names.drop below.length, bytes)
      else none
    | .directory => none

end Transclude.Tree

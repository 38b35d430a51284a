import Transclude.Text.Scan
import Transclude.Run

/-! Placeholders in include paths: a name between angle brackets stands for the value of a
variable. Text that is put in is not searched again. -/

namespace Transclude

/-- The text between a bracket and the next closing one; there has to be some. -/
structure Placeholder where
  inner : Text
deriving DecidableEq, Repr

namespace Placeholder

def source (p : Placeholder) : Text := '<' :: p.inner ++ ['>']

def name (p : Placeholder) : Text := p.inner.trim

def read? : Text → Option (Placeholder × Text)
  | '<' :: s =>
    match Text.cut? ['>'] s with
    | none | some ([], _) => none
    | some (inner, rest) => some (⟨inner⟩, rest)
  | _ => none

theorem source_of_read? {s rest : Text} {p : Placeholder} (h : read? s = some (p, rest)) :
    p.source ++ rest = s := by
  unfold read? at h
  split at h
  · split at h
    · simp at h
    · simp at h
    · rename_i hc
      have := Text.append_of_cut? hc
      simp_all [source]
      grind
  · simp at h

def pattern : Pattern Placeholder where
  read? := read?
  source := source
  source_append := source_of_read?
  source_ne_nil _ := by simp [source]

def value (scopes : List Scope) (file : Text) (p : Placeholder) : Except Problem Value :=
  if p.name = [] then .error (.emptyPlaceholder file)
  else
    match scopes.findSome? fun scope => scope.present? p.name with
    | none => .error (.undefinedVariable p.name file)
    | some v => .ok v

def fill (scopes : List Scope) (file : Text) :
    List (Chunk Placeholder) → Except Problem (Text × List Text)
  | [] => .ok ([], [])
  | .plain s :: rest => do
    let (path, names) ← fill scopes file rest
    return (s ++ path, names)
  | .found p :: rest => do
    let v ← p.value scopes file
    let (path, names) ← fill scopes file rest
    return (v.render ++ path, p.name :: names)

end Placeholder

/-- Resolves a path template. The names of the variables that were put in come with the path. -/
def fillTemplate (scopes : List Scope) (file template : Text) : Except Problem (Text × List Text) :=
  Placeholder.fill scopes file (Placeholder.pattern.scan template)

end Transclude

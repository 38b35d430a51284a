import Transclude.Line
import Transclude.Scope

/-! The lines between the marks of a front matter, each declaring a variable or an item of a list. -/

namespace Transclude.FrontMatter

def unquote (value : Text) : Text :=
  match value with
  | [] => []
  | mark :: rest =>
    if (mark = '"' ∨ mark = '\'') ∧ rest.getLast? = some mark then rest.dropLast else value

def item? (line : Text) : Option Text :=
  match line.spanBlanks with
  | ([], _) => none
  | (_, body) =>
    match body with
    | '-' :: rest =>
      let (gap, value) := Text.spanBlanks rest
      if gap = [] then none else some (unquote value)
    | _ => none

/-- The declarations read so far. `open?` is a name that stood without a value, and the items
found below it. -/
structure Reading where
  scope : Scope
  open? : Option (Text × List Text)
deriving DecidableEq, Repr

namespace Reading

def start : Reading := ⟨.empty, none⟩

/-- The scope once no more items follow; a name without any stands for the empty text. -/
def close (r : Reading) : Scope :=
  match r.open? with
  | none => r.scope
  | some (name, []) => r.scope.insert name (.scalar (some []))
  | some (name, items) => r.scope.insert name (.list (items.map some))

/-- Reads a line that is no item. Lines without a colon or a name declare nothing. -/
def declare (r : Reading) (line : Text) : Reading :=
  match Text.cut? [':'] line with
  | none => ⟨r.close, none⟩
  | some (name, value) =>
    if name.allBlank then ⟨r.close, none⟩
    else if value.allBlank then ⟨r.close, some (name.trim, [])⟩
    else ⟨r.close.insert name.trim (.scalar (some (unquote value.trim))), none⟩

def step (r : Reading) (line : Text) : Reading :=
  if line.allBlank then r
  else
    match r.open?, item? line with
    | some (name, items), some item => ⟨r.scope, some (name, items ++ [item])⟩
    | _, _ => r.declare line

end Reading

def scopeOf (block : Text) : Scope := (block.lines.foldl Reading.step .start).close

end Transclude.FrontMatter

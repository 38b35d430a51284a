import Transclude.Text.Blank

/-! Records captured from a document, their named attributes, and the lists they are kept in. -/

namespace Transclude

/-- Named values in the order in which the names were first given. -/
abbrev Fields (α : Type) := List (Text × α)

namespace Fields

variable {α : Type}

def get? (fields : Fields α) (name : Text) : Option α := fields.lookup name

/-- Gives a name a value; a name that is there already keeps its place. -/
def set (name : Text) (v : α) : Fields α → Fields α
  | [] => [(name, v)]
  | (other, w) :: rest =>
    if other = name then (other, v) :: rest else (other, w) :: set name v rest

def names (fields : Fields α) : List Text := fields.map (·.1)

theorem get?_set (name other : Text) (v : α) (fields : Fields α) :
    (set name v fields).get? other = if other = name then some v else fields.get? other := by
  induction fields with
  | nil => grind [set, get?]
  | cons f fields ih => grind [set, get?]

end Fields

/-- A record and where it stood: the titles of the headings around it, and the anchor of the
innermost one. -/
structure Item where
  attributes : Fields Text
  trail : Text
  anchor : Text
deriving DecidableEq, Repr

abbrev Lists := Fields (List Item)

namespace Lists

def items (lists : Lists) (name : Text) : List Item := (lists.lookup name).getD []

def add (lists : Lists) (name : Text) (item : Item) : Lists :=
  Fields.set name (items lists name ++ [item]) lists

def addAll (lists : Lists) (added : List (Text × Item)) : Lists :=
  added.foldl (fun lists (name, item) => add lists name item) lists

def size (lists : Lists) : Nat := (lists.flatMap fun (_, items) => items).length

theorem items_add (lists : Lists) (name other : Text) (item : Item) :
    items (add lists name item) other =
      if other = name then items lists name ++ [item] else items lists other := by
  have := Fields.get?_set name other (items lists name ++ [item]) lists
  unfold Fields.get? at this
  unfold add items
  rw [items] at this
  rw [this]
  split <;> simp

end Lists
end Transclude

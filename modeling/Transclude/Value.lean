import Transclude.Text.Basic

/-! Values of variables: one item or a list of them. -/

namespace Transclude

/-- A variable holds one item or a list of them; an item may be absent. -/
inductive Value where
  | scalar (item : Option Text)
  | list (items : List (Option Text))
deriving DecidableEq, Repr

namespace Value

def itemText (item : Option Text) : Text := item.getD "None".text

def items : Value → List (Option Text)
  | .scalar item => [item]
  | .list items => items

def isList : Value → Bool
  | .scalar _ => false
  | .list _ => true

def isNull (v : Value) : Bool := v = .scalar none

def render (v : Value) : Text :=
  match v with
  | .scalar item => itemText item
  | .list items => Text.joinWith "," (items.map itemText)

/-- Keeps the first of the items that are written alike, `seen` being those written before. -/
def distinctFrom (seen : List Text) : List (Option Text) → List (Option Text)
  | [] => []
  | item :: rest =>
    if itemText item ∈ seen then distinctFrom seen rest
    else item :: distinctFrom (itemText item :: seen) rest

def union (first second : List (Option Text)) : List (Option Text) :=
  distinctFrom [] (first ++ second)

/-- A value declared deeper in the tree, met by one declared nearer its root: lists are united, and
of two scalars the nearer one stands. -/
def inherit (deeper nearer : Value) : Value :=
  if deeper.isList || nearer.isList then .list (union deeper.items nearer.items) else nearer

end Value
end Transclude

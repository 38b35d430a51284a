import Transclude.Text.AsciiFold

/-! Anchors for headings. The first heading with some base form gets that form as its anchor, and
each further one a number behind it. -/

namespace Transclude

/-- How often each base form has been used. -/
structure Anchors where
  counts : List (Text × Nat)
deriving DecidableEq, Repr

namespace Anchors

def fresh : Anchors := ⟨[]⟩

/-- The base form of a title: folded, with hyphens for blanks. A title of which nothing is left
has a form of its own. -/
def baseForm (title : Text) : Text :=
  match Text.joinWith "-" (Text.words (Text.fold title)) with
  | [] => "section".text
  | form => form

def count (a : Anchors) (form : Text) : Nat := (a.counts.lookup form).getD 0

def increment (form : Text) : List (Text × Nat) → List (Text × Nat)
  | [] => [(form, 1)]
  | (other, n) :: rest =>
    if other = form then (other, n + 1) :: rest else (other, n) :: increment form rest

def next (a : Anchors) (title : Text) : Text × Anchors :=
  let form := baseForm title
  let anchor :=
    match a.count form with
    | 0 => form
    | n => form ++ '-' :: Text.ofNat n
  (anchor, ⟨increment form a.counts⟩)

def ofTitles (a : Anchors) : List Text → List Text
  | [] => []
  | title :: rest => (a.next title).1 :: (a.next title).2.ofTitles rest

theorem lookup_increment (form other : Text) (counts : List (Text × Nat)) :
    ((increment form counts).lookup other).getD 0 =
      (counts.lookup other).getD 0 + if other = form then 1 else 0 := by
  induction counts with
  | nil => grind [increment]
  | cons c counts ih => grind [increment]

theorem count_next (a : Anchors) (title form : Text) :
    (a.next title).2.count form = a.count form + if form = baseForm title then 1 else 0 :=
  lookup_increment _ _ _

end Anchors
end Transclude

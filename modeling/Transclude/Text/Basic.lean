/-! Documents and names are texts: lists of code points. This module holds cutting, splitting and
joining. -/

namespace Transclude

abbrev Text := List Char

end Transclude

def String.text (s : String) : Transclude.Text := s.toList

namespace Transclude.Text

instance : LawfulBEq Text := inferInstance

def inRanges (ranges : List (Nat × Nat)) (c : Char) : Bool :=
  ranges.any fun (first, last) => first ≤ c.toNat && c.toNat ≤ last

/-- What follows `lead`, if the text starts with it. -/
def after? (s lead : Text) : Option Text :=
  if lead <+: s then some (s.drop lead.length) else none

/-- The text before and after the first occurrence of `mark`. -/
def cut? (mark : Text) : (s : Text) → Option (Text × Text)
  | [] => if mark = [] then some ([], []) else none
  | c :: s =>
    match after? (c :: s) mark with
    | some rest => some ([], rest)
    | none => (cut? mark s).map fun (before, rest) => (c :: before, rest)

def startsWith (s lead : Text) : Bool := (s.after? lead).isSome

def contains (s mark : Text) : Bool := (cut? mark s).isSome

def joinWith (separator : String) (parts : List Text) : Text :=
  separator.text.intercalate parts

def ofNat (n : Nat) : Text := Nat.toDigits 10 n

def ofInt (n : Int) : Text := if n < 0 then '-' :: ofNat n.natAbs else ofNat n.natAbs

theorem after?_eq_some_iff {s lead rest : Text} : s.after? lead = some rest ↔ s = lead ++ rest := by
  constructor
  · intro h
    obtain ⟨hlead, hrest⟩ := Option.ite_none_right_eq_some.1 h
    rw [← Option.some.inj hrest, List.prefix_iff_eq_append.1 hlead]
  · rintro rfl
    simp [after?]

@[simp] theorem after?_nil (s : Text) : s.after? [] = some s := after?_eq_some_iff.2 rfl

theorem after?_cons (c a : Char) (s lead : Text) :
    after? (c :: s) (a :: lead) = if c = a then s.after? lead else none := by
  by_cases hc : c = a
  · simp [after?, hc]
  · simp [after?, hc, Ne.symm hc]

@[simp] theorem after?_append (lead rest : Text) : after? (lead ++ rest) lead = some rest :=
  after?_eq_some_iff.2 rfl

theorem append_of_cut? {mark s before rest : Text} (h : cut? mark s = some (before, rest)) :
    before ++ mark ++ rest = s := by
  induction s generalizing before with
  | nil =>
    by_cases hm : mark = []
    · simp_all [cut?]
    · simp [cut?, hm] at h
  | cons c s ih =>
    unfold cut? at h
    split at h
    · rename_i r hr
      obtain ⟨rfl, rfl⟩ := Prod.mk.inj (Option.some.inj h)
      simpa using (after?_eq_some_iff.1 hr).symm
    · obtain ⟨⟨b, r⟩, hc, heq⟩ := Option.map_eq_some_iff.1 h
      obtain ⟨rfl, rfl⟩ := Prod.mk.inj heq
      simpa using ih hc

end Transclude.Text

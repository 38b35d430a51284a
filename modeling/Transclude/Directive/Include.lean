import Transclude.Text.Blank

/-! The argument of an include directive: a path, then optionally a section and a level, with bars
between them. -/

namespace Transclude

structure Include where
  path : Text
  /-- The heading line of the section that is wanted; the whole file otherwise. -/
  heading? : Option Text
  /-- The run of marks naming the level that is wanted. -/
  level? : Option Text
deriving DecidableEq, Repr

namespace Include

/-- The trimmed segments of an argument. Only the first two bars separate. -/
def segments (argument : Text) : Text × Option Text × Option Text :=
  match Text.cut? ['|'] argument with
  | none => (argument.trim, none, none)
  | some (path, rest) =>
    match Text.cut? ['|'] rest with
    | none => (path.trim, some rest.trim, none)
    | some (heading, level) => (path.trim, some heading.trim, some level.trim)

/-- Reads an argument; empty segments count as absent, but the path has to be there. -/
def parse? (argument : Text) : Option Include :=
  match segments argument with
  | (path, heading?, level?) =>
    if path = [] then none
    else some ⟨path, heading?.filter (· ≠ []), level?.filter (· ≠ [])⟩

def argument (i : Include) : Text :=
  match i.heading?, i.level? with
  | none, none => i.path
  | some heading, none => i.path ++ '|' :: heading
  | none, some level => i.path ++ '|' :: '|' :: level
  | some heading, some level => i.path ++ '|' :: heading ++ '|' :: level

end Include
end Transclude

import Transclude.FrontMatter.Declarations

/-! Front matter: a block between two `---` lines at the head of a file, declaring variables. It is
split off its file, and written again for a scope. -/

namespace Transclude

structure FrontMatter where
  /-- The block as it stands in the file, with the byte-order mark and the line ending after it. -/
  raw? : Option Text
  scope : Scope
  body : Text
deriving DecidableEq, Repr

namespace FrontMatter

def byteOrderMark : Char := '\uFEFF'

def fenceMark : Text := "---".text

def ending? : Text → Option (Text × Text)
  | '\n' :: rest => some (['\n'], rest)
  | '\r' :: '\n' :: rest => some (['\r', '\n'], rest)
  | _ => none

def closing? (s : Text) : Option (Text × Text) :=
  match ending? s with
  | none => none
  | some (before, s) =>
    match s.after? fenceMark with
    | none => none
    | some [] => some (before ++ fenceMark, [])
    | some s => (ending? s).map fun (behind, rest) => (before ++ fenceMark ++ behind, rest)

def cutBlock? : Text → Option (Text × Text × Text)
  | [] => none
  | c :: s =>
    match closing? (c :: s) with
    | some (closing, rest) => some ([], closing, rest)
    | none => (cutBlock? s).map fun (block, others) => (c :: block, others)

def dropMark (s : Text) : Text × Text :=
  match s with
  | [] => ([], [])
  | c :: rest => if c = byteOrderMark then ([c], rest) else ([], s)

def split (s : Text) : FrontMatter :=
  let (mark, working) := dropMark s
  match (working.after? fenceMark).bind ending? with
  | none => ⟨none, .empty, s⟩
  | some (first, rest) =>
    match cutBlock? rest with
    | none => ⟨none, .empty, s⟩
    | some (block, closing, rest) =>
      let (gap, body) := (ending? rest).getD ([], rest)
      ⟨some (mark ++ fenceMark ++ first ++ block ++ closing ++ gap), scopeOf block, body⟩

/-- The line ending that a sample uses: the longer one as soon as it occurs. -/
def endingOf (sample : Text) : Text :=
  if sample.contains ['\r', '\n'] then ['\r', '\n'] else ['\n']

def declaration (name : Text) : Value → List Text
  | .scalar item => [name ++ ": ".text ++ Value.itemText item]
  | .list items => (name ++ ":".text) :: items.map fun item => "  - ".text ++ Value.itemText item

/-- Writes a scope as a block with a blank line behind it, in the style of the block `raw?`. An
empty scope leaves that block as it was. -/
def render (scope : Scope) (raw? : Option Text) : Text :=
  let raw := raw?.getD []
  if scope.entries = [] then raw
  else
    let ending := endingOf raw
    let declarations := scope.entries.flatMap fun (name, v) => declaration name v
    (dropMark raw).1 ++ fenceMark ++ ending ++ ending.intercalate declarations ++ ending
      ++ fenceMark ++ ending ++ ending

theorem append_of_ending? {s ending rest : Text} (h : ending? s = some (ending, rest)) :
    ending ++ rest = s := by
  unfold ending? at h
  split at h <;> simp_all <;> grind

theorem append_of_closing? {s closing rest : Text} (h : closing? s = some (closing, rest)) :
    closing ++ rest = s := by
  unfold closing? at h
  split at h
  · simp at h
  · rename_i before s' hb
    rw [← append_of_ending? hb]
    split at h
    · simp at h
    · rename_i ha
      simp_all [Text.after?_eq_some_iff]
    · rename_i s'' _ ha
      obtain ⟨⟨b, r⟩, hr, heq⟩ := Option.map_eq_some_iff.1 h
      have := append_of_ending? hr
      simp_all [Text.after?_eq_some_iff]
      grind

theorem append_of_cutBlock? {s block closing rest : Text}
    (h : cutBlock? s = some (block, closing, rest)) : block ++ closing ++ rest = s := by
  induction s generalizing block with
  | nil => simp [cutBlock?] at h
  | cons c s ih =>
    unfold cutBlock? at h
    split at h
    · rename_i hc
      have := append_of_closing? hc
      grind
    · obtain ⟨⟨b, o⟩, hr, heq⟩ := Option.map_eq_some_iff.1 h
      grind

end FrontMatter
end Transclude

import Transclude.Fence.Basic
import Transclude.Heading.Anchor
import Transclude.Heading.Shift
import Transclude.Listing.Item
import Transclude.Run

/-! Taking records out of a document. A block opens on a line of its own outside fences and closes
at the next closing line; its lines leave the document and count neither as headings nor as
fences. -/

namespace Transclude

structure Crumb where
  level : Nat
  title : Text
  anchor : Text
deriving DecidableEq, Repr

/-- What the lines read so far leave behind. The crumbs are given innermost first. -/
structure Position where
  fence? : Option Fence
  crumbs : List Crumb
  anchors : Anchors
  /-- The number of the next line. -/
  line : Nat
deriving DecidableEq, Repr

namespace Position

def start : Position := ⟨none, [], .fresh, 1⟩

def enter (p : Position) (level : Nat) (title : Text) : Position :=
  let (anchor, anchors) := p.anchors.next title
  { p with
    crumbs := ⟨level, title, anchor⟩ :: p.crumbs.dropWhile (level ≤ ·.level)
    anchors }

def read (p : Position) (line : Text) : LineClass × Position :=
  let (kind, fence?) := Fence.step p.fence? line
  let next := { p with fence?, line := p.line + 1 }
  match kind with
  | .heading level => (kind, next.enter level (Heading.title line))
  | _ => (kind, next)

def skip (p : Position) : Position := { p with line := p.line + 1 }

def trail (p : Position) : Text := Text.joinWith " / " (p.crumbs.reverse.map (·.title))

def anchor (p : Position) : Text := (p.crumbs.head?.map (·.anchor)).getD []

def item (p : Position) (attributes : Fields Text) : Item := ⟨attributes, p.trail, p.anchor⟩

end Position

structure OpenItem where
  list : Text
  /-- The number of its opening line. -/
  line : Nat
  body : List Text
deriving DecidableEq, Repr

/-- What a document yields: the lines that stay, the records with their lists, and the problem that
ended the reading early. -/
structure Harvest where
  kept : List Text
  items : List (Text × Item)
  problem? : Option Problem
deriving DecidableEq, Repr

namespace Harvest

def inListName (c : Char) : Bool := c ≠ '\x7d' && c ≠ '!' && !Text.isBlank c

/-- The name on the opening line of a block, empty if it has none; `none` for any other line. -/
def opening? (line : Text) : Option Text :=
  match line.trim.after? "\x7b!list-add".text with
  | none => none
  | some rest =>
    let (gap, body) := rest.spanBlanks
    let name := if gap = [] then [] else body.takeWhile inListName
    let behind := Text.trimLeft (body.drop name.length)
    if behind = [] ∨ behind = "!\x7d".text then some name else none

def closes (line : Text) : Bool := line.trim = "!\x7d".text

def addAttributes (file : Text) (attributes : Fields Text) (line : Int) :
    List Text → Except Problem (Fields Text)
  | [] => .ok attributes
  | s :: rest =>
    if s.allBlank then addAttributes file attributes (line + 1) rest
    else
      match Text.cut? [':'] s with
      | none => .error (.attributeWithoutColon s.trim line file)
      | some (name, value) =>
        if name.allBlank then .error (.attributeWithoutName line file)
        else addAttributes file (attributes.set name.trim value.trim) (line + 1) rest

def keep (line : Text) (h : Harvest) : Harvest := { h with kept := line :: h.kept }

def addItem (list : Text) (item : Item) (h : Harvest) : Harvest :=
  { h with items := (list, item) :: h.items }

/-- Reads on from a position, in a block if one is open. `standard` is the list of the blocks that
name none. -/
def readFrom (file standard : Text) (p : Position) (open? : Option OpenItem) : List Text → Harvest
  | [] => ⟨[], [], open?.map fun o => .unclosedItem o.line file⟩
  | line :: rest =>
    match open? with
    | some o =>
      if closes line then
        match addAttributes file [] (o.line + 1) o.body with
        | .error problem => ⟨[], [], some problem⟩
        | .ok attributes =>
          (readFrom file standard p.skip none rest).addItem o.list (p.item attributes)
      else readFrom file standard p.skip (some { o with body := o.body ++ [line] }) rest
    | none =>
      let (kind, next) := p.read line
      if kind.inFence then (readFrom file standard next none rest).keep line
      else
        match opening? line with
        | none => (readFrom file standard next none rest).keep line
        | some name =>
          let list := if name = [] then standard else name
          readFrom file standard next (some ⟨list, p.line, []⟩) rest

def ofText (file standard s : Text) : Harvest := readFrom file standard .start none s.lines

def run (h : Harvest) : Run Text :=
  ⟨h.items.map fun (list, item) => .itemAdded list item.attributes,
    match h.problem? with
    | some problem => .error (.problem problem)
    | none => .ok (Text.unlines h.kept)⟩

end Harvest
end Transclude

import Transclude.Directive.Token
import Transclude.Listing.Item
import Transclude.Problem
import Transclude.Text.LowerCase

/-! Tables of the items in a list. Every row has one cell for each column, whatever the values are:
bars are escaped and line endings become breaks. -/

namespace Transclude

structure Column where
  field : Text
  label : Text
deriving DecidableEq, Repr

inductive TableOption where
  | word (value : Text)
  | table (columns : List Column)
deriving DecidableEq, Repr

namespace Column

/-- Reads `field:label`; without a label the field names itself. -/
def parse (file entry : Text) : Except Problem Column :=
  match Text.cut? [':'] entry with
  | none => .ok ⟨entry.trim, entry.trim⟩
  | some (field, label) =>
    if field.allBlank then .error (.columnWithoutField entry file)
    else .ok ⟨field.trim, if label.allBlank then field.trim else label.trim⟩

/-- Reads column definitions with commas between them; empty ones are passed over. -/
def parseAll (file s : Text) : Except Problem (List Column) :=
  if s = [] then .error (.noColumns file)
  else (((s.splitOn ',').map Text.trim).filter (· ≠ [])).mapM (parse file)

/-- One column for each attribute of some items, in the order of first mention. -/
def ofItems (items : List Item) : List Column :=
  (items.flatMap fun item => item.attributes.names).foldl
    (fun columns name => if ⟨name, name⟩ ∈ columns then columns else columns ++ [⟨name, name⟩]) []

end Column

namespace TableOption

def addAll (file : Text) (options : Fields TableOption) :
    List Text → Except Problem (Fields TableOption)
  | [] => .ok options
  | part :: rest =>
    if part = [] then addAll file options rest
    else
      match Text.cut? ['='] part with
      | none => .error (.optionWithoutEquals part file)
      | some (name, value) =>
        let key := name.trim.lower
        if key = [] then .error (.optionWithoutName file)
        else if key = "columns".text then
          match Column.parseAll file value.trim with
          | .error e => .error e
          | .ok columns => addAll file (options.set key (.table columns)) rest
        else addAll file (options.set key (.word value.trim)) rest

/-- Reads the options of a table: names, case aside, and values, with bars between them. -/
def parse (file argument : Text) : Except Problem (Fields TableOption) :=
  addAll file [] ((argument.splitOn '|').map Text.trim)

def list? (options : Fields TableOption) : Option Text :=
  match options.get? "list".text with
  | some (.word name) => if name = [] then none else some name
  | _ => none

def columns (options : Fields TableOption) : List Column :=
  match options.get? "columns".text with
  | some (.table columns) => columns
  | _ => []

end TableOption

namespace Table

def escapeCell : Text → Text
  | [] => []
  | '\r' :: '\n' :: rest => "<br>".text ++ escapeCell rest
  | c :: rest =>
    (if c = '|' then ['\\', '|'] else if c = '\n' then "<br>".text else [c]) ++ escapeCell rest

/-- The value of an item in one field. The field `path` links to where the item stood, even if the
item has an attribute of that name. -/
def cellValue (field : Text) (item : Item) : Text :=
  if field = "path".text then
    if item.trail = [] then []
    else if item.anchor = [] then item.trail
    else "[".text ++ item.trail ++ "](#".text ++ item.anchor ++ ")".text
  else (item.attributes.get? field).getD []

def row (cells : List Text) : Text := "| ".text ++ Text.joinWith " | " cells ++ " |".text

def rows (columns : List Column) (items : List Item) : List Text :=
  row (columns.map fun column => escapeCell column.label)
    :: row (columns.map fun _ => "---".text)
    :: items.map fun item =>
      row (columns.map fun column => escapeCell (cellValue column.field item))

/-- The table for an argument. Nothing is shown without columns, and a note if there are no items. -/
def render (file standard : Text) (lists : Lists) (argument : Text) : Except Problem Text :=
  match TableOption.parse file argument with
  | .error e => .error e
  | .ok options =>
    let list := (TableOption.list? options).getD standard
    let items := lists.items list
    let given := TableOption.columns options
    let columns := if given = [] then Column.ofItems items else given
    if columns = [] then .ok []
    else if items = [] then .ok ("_No items in list \"".text ++ list ++ "\"._".text)
    else .ok (Text.unlines (rows columns items))

def renderTokens (table : Text → Except Problem Text) : List Token → Except Problem Text
  | [] => .ok []
  | .found (.listTable argument) :: rest => do
    let s ← table argument
    let others ← renderTokens table rest
    return s ++ others
  | token :: rest => do
    let others ← renderTokens table rest
    return token.source ++ others

/-- Renders the tables on each line outside fences by itself. -/
def renderLines (table : Text → Except Problem Text) (open? : Option Fence) :
    List Text → Except Problem (List Text)
  | [] => .ok []
  | line :: rest => do
    let (kind, next) := Fence.step open? line
    let s ← if kind.inFence then .ok line else renderTokens table (Token.tokenize line)
    let others ← renderLines table next rest
    return s :: others

def renderAll (file standard : Text) (lists : Lists) (s : Text) : Except Problem Text :=
  (renderLines (render file standard lists) none s.lines).map Text.unlines

theorem length_rows (columns : List Column) (items : List Item) :
    (rows columns items).length = items.length + 2 := by
  simp [rows]

end Table
end Transclude

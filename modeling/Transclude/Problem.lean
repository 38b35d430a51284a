import Transclude.Directive.Basic
import Transclude.Tree.Source

/-! The causes that abort a build, and the words for each. A missing include is a cause only in
strict mode; otherwise it is noted and a marker takes its place. -/

namespace Transclude

structure MissingInclude where
  path : Text
  source? : Option Text
  /-- The variables whose values were put into the path. -/
  placeholders : List Text
deriving DecidableEq, Repr

namespace MissingInclude

def describe (before path : Text) (source? : Option Text) (link behind : Text) : Text :=
  match source? with
  | none | some [] => before ++ path
  | some file => before ++ path ++ link ++ file ++ behind

def message (m : MissingInclude) : Text :=
  let place := describe "Included file not found: ".text m.path m.source? " (included from ".text
    ")".text
  if m.placeholders = [] then place
  else place ++ " please check the variable ".text ++ Text.joinWith ", " m.placeholders
    ++ " value.".text

def marker (m : MissingInclude) : Text :=
  describe "<!-- missing ".text m.path m.source? " (from ".text ")".text ++ " -->".text

end MissingInclude

/-- Why a build stops. `file` is the name of the document that is being read. -/
inductive Problem where
  | noEntry
  | fileNotFound (p : Path)
  | unreadable (display : Text) (e : ReadError)
  | circularInclude (chain : List Path)
  | missingInclude (m : MissingInclude)
  | includeWithoutPath (argument : Text)
  | emptyPlaceholder (file : Text)
  | emptyVariable (file : Text)
  | undefinedVariable (name file : Text)
  | invalidLevel (spec : Text)
  | sectionNotFound (title : Text)
  | sectionNotHeading (title : Text)
  | conditionWithoutEquals (condition file : Text)
  | conditionWithoutName (file : Text)
  | undefinedCondition (name file : Text)
  | missingEndIf (file : Text)
  | markerAfterElse (marker : Directive) (file : Text)
  | strayMarker (marker : Directive) (file : Text)
  | unclosedItem (line : Nat) (file : Text)
  | attributeWithoutColon (entry : Text) (line : Int) (file : Text)
  | attributeWithoutName (line : Int) (file : Text)
  | optionWithoutEquals (option file : Text)
  | optionWithoutName (file : Text)
  | noColumns (file : Text)
  | columnWithoutField (column file : Text)
deriving DecidableEq, Repr

namespace Problem

def inDoubleQuotes (s : Text) : Text := '"' :: s ++ ['"']

def message : Problem → Text
  | .noEntry => "An entry markdown file must be provided.".text
  | .fileNotFound p => "File not found: ".text ++ p.toText
  | .unreadable display e => "Cannot read ".text ++ display ++ ": ".text ++ e.message
  | .circularInclude chain =>
    "Circular include detected: ".text ++ Text.joinWith " -> " (chain.map Path.toText)
  | .missingInclude m => m.message
  | .includeWithoutPath argument =>
    "Invalid include directive ".text ++ inDoubleQuotes argument
      ++ ". A file path is required.".text
  | .emptyPlaceholder file => "Invalid variable name in include path (".text ++ file ++ ").".text
  | .emptyVariable file => "Invalid variable name in ".text ++ file
  | .undefinedVariable name file =>
    "Variable ".text ++ inDoubleQuotes name
      ++ " is used but not declared or null (referenced in ".text ++ file ++ ").".text
  | .invalidLevel spec =>
    "Invalid level ".text ++ inDoubleQuotes spec ++ " in include directive.".text
  | .sectionNotFound title =>
    "Section ".text ++ inDoubleQuotes title ++ " not found in included file.".text
  | .sectionNotHeading title =>
    "Section ".text ++ inDoubleQuotes title ++ " is not a valid markdown heading.".text
  | .conditionWithoutEquals condition file =>
    "Invalid conditional expression ".text ++ inDoubleQuotes condition ++ " in ".text ++ file
      ++ ". Expected \"\x7b!if name=value!\x7d\".".text
  | .conditionWithoutName file =>
    "Conditional block is missing a variable name in ".text ++ file ++ ".".text
  | .undefinedCondition name file =>
    "Variable ".text ++ inDoubleQuotes name
      ++ " is not defined in the entry document (referenced in ".text ++ file ++ ").".text
  | .missingEndIf file =>
    "Missing \x7b!endif!\x7d for conditional in ".text ++ file ++ ".".text
  | .markerAfterElse marker file =>
    "Unexpected ".text ++ marker.source ++ " after \x7b!else!\x7d in ".text ++ file ++ ".".text
  | .strayMarker marker file =>
    "Unexpected ".text ++ marker.source ++ " without opening \x7b!if...!\x7d in ".text ++ file
      ++ ".".text
  | .unclosedItem line file =>
    "Missing \"!\x7d\" for list-add starting at line ".text ++ Text.ofNat line ++ " in ".text
      ++ file ++ ".".text
  | .attributeWithoutColon entry line file =>
    "Invalid attribute line ".text ++ inDoubleQuotes entry ++ " in ".text ++ file
      ++ " (line ".text ++ Text.ofInt line ++ "). Expected \"key: value\".".text
  | .attributeWithoutName line file =>
    "Empty attribute name in ".text ++ file ++ " (line ".text ++ Text.ofInt line ++ ").".text
  | .optionWithoutEquals option file =>
    "Invalid list-table option ".text ++ inDoubleQuotes option ++ " in ".text ++ file
      ++ ". Expected \"key=value\".".text
  | .optionWithoutName file =>
    "Missing option name in list-table directive (".text ++ file ++ ").".text
  | .noColumns file =>
    "Empty columns specification in list-table directive (".text ++ file ++ ").".text
  | .columnWithoutField column file =>
    "Invalid column definition ".text ++ inDoubleQuotes column ++ " in ".text ++ file ++ ".".text

end Problem

/-- Whatever ends a run early. Only a problem is part of its diagnostics. -/
inductive Fault where
  | problem (p : Problem)
  | path (e : PathError)
  | clipboard (reason : Text)
  /-- There is no clipboard command. -/
  | noCommand
deriving DecidableEq, Repr

def Fault.message : Fault → Text
  | .problem p => p.message
  | .path e => e.message
  | .clipboard reason => "Failed to copy to clipboard: ".text ++ reason
  | .noCommand => "list index out of range".text

end Transclude

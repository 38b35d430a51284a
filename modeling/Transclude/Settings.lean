import Transclude.Text.LowerCase

/-! Settings of the program, and how environment variables set them. -/

namespace Transclude

structure Settings where
  /-- The list that items go to, and tables show, when none is named. -/
  defaultListName : Text
  debugMode : Bool
  /-- Whether a missing include stops the build. -/
  strictMode : Bool
  /-- The directory that displayed paths are relative to; the current one if there is none. -/
  displayRoot? : Option Text
  clipboardCommand : Text
deriving DecidableEq, Repr

namespace Settings

def standard : Settings where
  defaultListName := "items".text
  debugMode := false
  strictMode := false
  displayRoot? := none
  clipboardCommand := "pbcopy".text

/-- What the names of all variables for this program start with, case aside. -/
def environmentMark : Text := "mdweave_".text

def trueWords : List String := ["1", "true", "t", "yes", "y", "on"]

def falseWords : List String := ["0", "false", "f", "no", "n", "off"]

def switch? (s : Text) : Option Bool :=
  if s.lower ∈ trueWords.map String.text then some true
  else if s.lower ∈ falseWords.map String.text then some false
  else none

/-- The last value given to a setting, whatever case its name is in. -/
def given? (environment : List (Text × Text)) (setting : String) : Option Text :=
  (environment.reverse.find? fun (name, _) => name.lower = environmentMark ++ setting.text).map (·.2)

def switchOf? (environment : List (Text × Text)) (setting : String) (standard : Bool) :
    Option Bool :=
  match given? environment setting with
  | none => some standard
  | some s => switch? s

/-- The settings under some environment variables; `none` if a switch cannot be read. -/
def ofEnvironment? (environment : List (Text × Text)) : Option Settings := do
  let debugMode ← switchOf? environment "debug_mode" standard.debugMode
  let strictMode ← switchOf? environment "strict_mode" standard.strictMode
  return {
    defaultListName := (given? environment "default_list_name").getD standard.defaultListName
    debugMode, strictMode
    displayRoot? := given? environment "display_root"
    clipboardCommand := (given? environment "clipboard_command").getD standard.clipboardCommand }

end Settings
end Transclude

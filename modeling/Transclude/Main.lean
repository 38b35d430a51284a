import Transclude.CommandLine.Transcript

/-! The program. It reads the input and output directories into a tree, runs all stages on it, and
carries out what they decided. -/

namespace Transclude

def namesIn (path : String) : List Text := Path.namesOf path.text

/-- Reads everything below a directory. -/
partial def loadTree (t : Tree) (directory : String) : IO Tree := do
  let root ← IO.FS.realPath directory
  let mut tree := t.place (namesIn root.toString) .directory
  for entry in ← root.readDir do
    let path := entry.path.toString
    if ← entry.path.isDir then tree ← loadTree tree path
    else
      let bytes ← IO.FS.readBinFile path
      tree := tree.place (namesIn path) (.file bytes.toList)
  return tree

def settingNames : List String :=
  ["default_list_name", "debug_mode", "strict_mode", "display_root", "clipboard_command"]

def loadEnvironment : IO (List (Text × Text)) := do
  let mut environment := []
  for setting in settingNames do
    let name := "MDWEAVE_" ++ setting.toUpper
    if let some value ← IO.getEnv name then environment := (name.text, value.text) :: environment
  return environment

def showText (s : Text) : String := String.ofList s

def carryOut (old : Tree) (t : Transcript) : IO UInt32 := do
  for line in t.log do IO.eprintln (showText line.text)
  IO.print (showText t.printed)
  IO.eprint (showText t.errors)
  for (names, entry) in t.tree.entries do
    let path := showText (Path.toText ⟨.root, names⟩)
    if old.entryAt? names = some entry then continue
    match entry with
    | .directory => IO.FS.createDirAll path
    | .file bytes => IO.FS.writeBinFile path ⟨bytes.toArray⟩
  return UInt32.ofNat t.status

def runProgram (inputDirectory outputDirectory : String) (words : List Text) : IO UInt32 := do
  let here ← IO.FS.realPath "."
  let tree ← loadTree (← loadTree ⟨[]⟩ inputDirectory) outputDirectory
  match Settings.ofEnvironment? (← loadEnvironment), Arguments.parse? words with
  | none, _ => IO.eprintln "Error: Invalid settings"; return 1
  | _, none => IO.eprintln "Error: Invalid arguments"; return 2
  | some settings, some arguments =>
    let w : Workspace := ⟨tree, .ofText here.toString.text, settings⟩
    let locate (directory : String) : IO Path :=
      return .ofText (← IO.FS.realPath directory).toString.text
    let invocation : Invocation :=
      ⟨arguments, ← locate inputDirectory, ← locate outputDirectory, fun _ => none⟩
    match Transcript.ofProgram w invocation with
    | .error e => IO.eprintln (showText e.message); return 1
    | .ok transcript => carryOut tree transcript

end Transclude

def main (args : List String) : IO UInt32 :=
  match args with
  | inputDirectory :: outputDirectory :: words =>
    Transclude.runProgram inputDirectory outputDirectory (words.map String.text)
  | _ => do
    IO.eprintln "Usage: INPUT_DIRECTORY OUTPUT_DIRECTORY --inputFile NAME [options]"
    return 2

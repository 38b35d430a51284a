import Transclude.Run
import Transclude.Settings
import Transclude.Tree.Lookup

/-! What a run is given: the files, the current directory and the settings. -/

namespace Transclude

structure Workspace where
  tree : Tree
  here : Path
  settings : Settings

namespace Workspace

def absolute (w : Workspace) (p : Path) : Path := Path.absolute w.here p

def target (w : Workspace) (base : Path) (path : Text) : Path :=
  w.absolute (base.join (.ofText path))

def displayRoot (w : Workspace) : Path :=
  match w.settings.displayRoot? with
  | none | some [] => w.here
  | some root => w.absolute (.ofText root)

def display (w : Workspace) (p : Path) : Text :=
  (Path.relativeTo w.displayRoot (w.absolute p)).toText

def read (w : Workspace) (p : Path) (entry : Entry) : Run Text :=
  match Tree.readEntry p entry with
  | .ok s => pure s
  | .error e => .fail (.unreadable (w.display p) e)

def absentFile (w : Workspace) (file : Path) : Fault :=
  match w.tree.lookup file with
  | .tooLong => .path (.nameTooLong file)
  | _ => .problem (.fileNotFound file)

def reportMissing (w : Workspace) (target : Path) (source? : Option Path)
    (placeholders : List Text) : Run Text := do
  let m : MissingInclude := ⟨w.display target, source?.map w.display, placeholders⟩
  if w.settings.strictMode then .fail (.missingInclude m)
  .emit (.missing m)
  return m.marker

def holding (files : List (String × String)) : Workspace where
  tree := ⟨files.map fun (name, content) => ([name.text], .file (Utf8.encode content.text))⟩
  here := ⟨.root, []⟩
  settings := .standard

end Workspace

def Path.named (name : String) : Path := ⟨.root, [name.text]⟩

end Transclude

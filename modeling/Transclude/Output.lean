import Transclude.Text.Blank
import Transclude.Tree.Writing
import Transclude.Workspace

/-! Where a finished document goes: standard output, the clipboard or a file. -/

namespace Transclude

inductive Sink where
  | standard
  | clipboard
  | file (target : Text)
deriving DecidableEq, Repr

structure Exit where
  status : Nat
  complaint : Text
deriving DecidableEq, Repr

abbrev Programs := List Text → Option Exit

structure Delivery where
  tree : Tree
  printed : Text
deriving DecidableEq, Repr

namespace Sink

def clipboardNames : List Text := ["clipboard".text, "pbcopy".text]

def ofOutput (output? : Option Text) : Sink :=
  match output? with
  | none | some [] => .standard
  | some output =>
    if output = ['-'] then .standard
    else if output.lower ∈ clipboardNames then .clipboard
    else .file output

end Sink

def printedForm (document : Text) : Text :=
  if document.getLast? = some '\n' then document else document ++ ['\n']

def copyToClipboard (programs : Programs) (words : List Text) : Run Unit :=
  match words with
  | [] => .stop .noCommand
  | command :: _ =>
    if '\x00' ∈ words.flatten then .stop (.path .zeroInName)
    else
      match programs words with
      | none =>
        .stop (.clipboard ("[Errno 2] No such file or directory: ".text ++ command.quoted))
      | some exit =>
        if exit.status = 0 then .emit .copied
        else if exit.complaint.allBlank then .stop (.clipboard "unknown error".text)
        else .stop (.clipboard exit.complaint.trim)

def deliver (w : Workspace) (programs : Programs) (document : Text) : Sink → Run Delivery
  | .standard => pure ⟨w.tree, printedForm document⟩
  | .clipboard => do
    copyToClipboard programs w.settings.clipboardCommand.words
    return ⟨w.tree, []⟩
  | .file output => do
    let target := w.absolute (.ofText output)
    match w.tree.write target (Utf8.encode document) with
    | .error e => .stop (.path e)
    | .ok tree =>
      .emit (.wrote target)
      return ⟨tree, []⟩

end Transclude

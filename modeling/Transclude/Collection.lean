import Transclude.Directive.Include
import Transclude.Directive.Token
import Transclude.FrontMatter.Block
import Transclude.Placeholder
import Transclude.Workspace

/-! Collecting the root scope: a walk along every include directive, conditional or not, in which
each file inherits what was declared before it and hands its own variables back. -/

namespace Transclude

def Include.read (argument : Text) : Except Problem Include :=
  match Include.parse? argument with
  | none => .error (.includeWithoutPath argument)
  | some i => .ok i

def includeArguments (tokens : List Token) : List Text :=
  tokens.filterMap fun
    | .found (.includeFile argument) => some argument
    | _ => none

def collectInclude (w : Workspace) (visit : Path → Scope → Run Scope) (file : Path)
    (scope : Scope) (argument : Text) : Run Scope := do
  let i ← .ofExcept (Include.read argument)
  let (path, placeholders) ← .ofExcept (fillTemplate [scope] file.toText i.path)
  if path = [] then return scope
  let target := w.target file.parent path
  match w.tree.lookup target with
  | .tooLong => .stop (.path (.nameTooLong target))
  | .missing =>
    let _ ← w.reportMissing target (some file) placeholders
    return scope
  | .found _ =>
    let child ← visit target scope
    return scope.absorb child

/-- The variables of a file and of everything below it. `chain` holds the files whose includes lead
to it. -/
def collect (w : Workspace) (chain : List Path) (file : Path) (inherited : Scope) : Run Scope :=
  if hc : file ∈ chain then .fail (.circularInclude (chain ++ [file]))
  else
    match he : w.tree.entryAt? file.names with
    | none => .stop (w.absentFile file)
    | some entry => do
      .emit (.collecting file)
      let front := FrontMatter.split (← w.read file entry)
      (includeArguments (Token.tokenize front.body)).foldlM
        (collectInclude w
          (fun target scope =>
            have := Tree.unvisited_lt he hc
            collect w (chain ++ [file]) target scope)
          file)
        (front.scope.inherit inherited)
termination_by w.tree.unvisited chain

end Transclude

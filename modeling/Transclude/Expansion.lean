import Transclude.Collection
import Transclude.Conditional.Render
import Transclude.Heading.Section
import Transclude.Image.Embedding

/-! Expanding a document: conditionals first, then includes, depth first, then variables. An include
is moved to its level before its own includes are expanded, so these are placed relative to where
it really stands. -/

namespace Transclude

structure Expander where
  workspace : Workspace
  rootScope : Scope
  embedImages : Bool

def currentFile (chain : List Path) : Text :=
  match chain.getLast? with
  | some file => file.toText
  | none => "<unknown>".text

def expandTokens (expand : Include → Run Text) : List Token → Run Text
  | [] => pure []
  | .found (.includeFile argument) :: rest => do
    let i ← .ofExcept (Include.read argument)
    let s ← expand i
    let others ← expandTokens expand rest
    return s ++ others
  | token :: rest => do
    let others ← expandTokens expand rest
    return token.source ++ others

def substituteToken (scope : Scope) (file : Text) : Token → Run Text
  | .found (.valueOf argument) =>
    let name := argument.trim
    if name = [] then .fail (.emptyVariable file)
    else
      match scope.present? name with
      | none => .fail (.undefinedVariable name file)
      | some v => do
        .emit (.substituted name file)
        return v.render
  | token => pure token.source

def substituteTokens (scope : Scope) (file : Text) : List Token → Run Text
  | [] => pure []
  | token :: rest => do
    let s ← substituteToken scope file token
    let others ← substituteTokens scope file rest
    return s ++ others

def substitute (scope : Scope) (file s : Text) : Run Text :=
  substituteTokens scope file (Token.tokenize s)

namespace Expander

/-- The three passes over one body. `expand` takes care of its includes; images are embedded last,
with targets seen from `base`. -/
def expandBody (x : Expander) (expand : Include → Run Text) (base : Path) (chain : List Path)
    (body : Text) : Run Text := do
  let file := currentFile chain
  let resolved ← resolveConditionals x.rootScope file body
  let joined ← expandTokens expand (Token.tokenize resolved)
  let replaced ← substitute x.rootScope file joined
  if x.embedImages then Image.embedAll x.workspace.tree base replaced else return replaced

/-- Expands an include of the file on top of `chain`. `base` is the directory its path is seen from,
`scope` holds that file's variables, and `offset` is how far its headings have been shifted. -/
def expandInclude (x : Expander) (chain : List Path) (base : Path) (scope : Scope) (offset : Int)
    (i : Include) : Run Text := do
  let w := x.workspace
  let (path, placeholders) ← .ofExcept
    (fillTemplate [x.rootScope, scope] (chain.getLast?.getD base).toText i.path)
  if path = [] then return []
  let target := w.target base path
  if hc : target ∈ chain then .fail (.circularInclude (chain ++ [target]))
  else
    match he : w.tree.entryAt? target.names with
    | none =>
      match w.tree.lookup target with
      | .tooLong => .stop (.path (.nameTooLong target))
      | _ =>
        .emit (.notFound target)
        w.reportMissing target chain.getLast? placeholders
    | some entry =>
      .emit (.including target)
      let front := FrontMatter.split (← w.read target entry)
      let snippet ← .ofExcept (Heading.select i.heading? front.body)
      let shift ← .ofExcept (Heading.shiftTo i.level? (snippet.level?.map Int.ofNat) offset)
      let body := if shift = 0 then snippet.body else Heading.shift shift snippet.body
      let expanded ← x.expandBody
        (fun inner =>
          have := Tree.unvisited_lt he hc
          expandInclude x (chain ++ [target]) target.parent (front.scope.inherit scope)
            (offset + shift) inner)
        target.parent (chain ++ [target]) body
      -- Without a level of its own, what is put in moves along with its includer.
      if i.level?.getD [] = [] ∧ offset ≠ 0 then return Heading.shift offset expanded
      else return expanded
termination_by x.workspace.tree.unvisited chain

def expandContent (x : Expander) (chain : List Path) (base : Path) (scope : Scope) (offset : Int)
    (body : Text) : Run Text :=
  x.expandBody (x.expandInclude chain base scope offset) base chain body

end Expander

structure Expanded where
  body : Text
  rawFrontMatter? : Option Text
  scope : Scope
deriving DecidableEq, Repr

namespace Expander

def expandFile (x : Expander) (chain : List Path) (file : Path) (inherited : Scope) :
    Run Expanded :=
  match x.workspace.tree.entryAt? file.names with
  | none => .stop (x.workspace.absentFile file)
  | some entry => do
    .emit (.processing file)
    let front := FrontMatter.split (← x.workspace.read file entry)
    let scope := front.scope.inherit inherited
    let body ← x.expandContent (chain ++ [file]) file.parent scope 0 front.body
    return ⟨body, front.raw?, scope⟩

end Expander
end Transclude

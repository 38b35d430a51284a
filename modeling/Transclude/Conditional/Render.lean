import Transclude.Conditional.Parser
import Transclude.Run

/-! Resolving conditional regions against a scope. A region leaves the body of its first arm that
holds, or nothing; the arms behind that one are not looked at. -/

namespace Transclude

def Condition.holds (scope : Scope) (file : Text) (c : Condition) : Run Bool :=
  match scope.get? c.name with
  | none => .fail (.undefinedCondition c.name file)
  | some v => pure (decide (c.expected ∈ v.items.map Value.itemText))

def guardHolds (scope : Scope) (file : Text) : Option Condition → Run Bool
  | none => pure true
  | some c => c.holds scope file

mutual

def Block.render (scope : Scope) (file : Text) : Block → Run Text
  | .empty => pure []
  | .token t next => do
    let rest ← next.render scope file
    return t.source ++ rest
  | .region arms next => do
    let kept ← arms.render scope file 0
    let rest ← next.render scope file
    return kept ++ rest

/-- The text of the first arm that holds, `arm` being the number of the first one given. -/
def Arms.render (scope : Scope) (file : Text) (arm : Nat) : Arms → Run Text
  | .close => do
    .emit (.dropped file)
    return []
  | .arm _ guard? body next => do
    if ← guardHolds scope file guard? then
      .emit (.kept arm)
      body.render scope file
    else next.render scope file (arm + 1)

end

def resolveConditionals (scope : Scope) (file s : Text) : Run Text := do
  let block ← .ofExcept (Block.parseAll file (Token.tokenize s))
  block.render scope file

end Transclude

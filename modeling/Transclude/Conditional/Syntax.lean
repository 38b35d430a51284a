import Transclude.Directive.Token

/-! Conditional regions as trees. A tree keeps every marker of its region, so writing it out gives
back the tokens that it was read from. -/

namespace Transclude

structure Condition where
  name : Text
  expected : Text
deriving DecidableEq, Repr

mutual

inductive Block where
  | empty
  | token (t : Token) (next : Block)
  | region (arms : Arms) (next : Block)
deriving DecidableEq, Repr

/-- The arms of a region up to its end marker. An arm without a condition always holds. -/
inductive Arms where
  | close
  | arm (marker : Directive) (guard? : Option Condition) (body : Block) (next : Arms)
deriving DecidableEq, Repr

end

mutual

def Block.tokens : Block → List Token
  | .empty => []
  | .token t next => t :: next.tokens
  | .region arms next => arms.tokens ++ next.tokens

def Arms.tokens : Arms → List Token
  | .close => [.found .endIf]
  | .arm marker _ body next => .found marker :: (body.tokens ++ next.tokens)

end

namespace Block

def append (other : Block) : Block → Block
  | .empty => other
  | .token t next => .token t (append other next)
  | .region arms next => .region arms (append other next)

def addToken (b : Block) (t : Token) : Block := append (.token t .empty) b

def addRegion (b : Block) (arms : Arms) : Block := append (.region arms .empty) b

end Block

namespace Arms

def add (marker : Directive) (guard? : Option Condition) (body : Block) : Arms → Arms
  | .close => .arm marker guard? body .close
  | .arm m g b next => .arm m g b (add marker guard? body next)

end Arms
end Transclude

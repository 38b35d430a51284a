import Transclude.Conditional.Syntax
import Transclude.Problem

/-! Reading conditional regions off a list of tokens, with the regions that are still open kept on a
stack. A marker that belongs to no open region ends the reading. -/

namespace Transclude

/-- Reads `name=value`; the first sign separates, and the name has to be there. -/
def Condition.parse (file raw : Text) : Except Problem Condition :=
  match Text.cut? ['='] raw.trim with
  | none => .error (.conditionWithoutEquals raw file)
  | some (name, expected) =>
    if name.allBlank then .error (.conditionWithoutName file)
    else .ok ⟨name.trim, expected.trim⟩

/-- A region that is being read: the block in front of it, its finished arms, and the marker and
condition of the arm that is being read. -/
structure OpenRegion where
  before : Block
  arms : Arms
  marker : Directive
  guard? : Option Condition
deriving DecidableEq, Repr

namespace OpenRegion

def finished (r : OpenRegion) (body : Block) : Arms := r.arms.add r.marker r.guard? body

def nextArm (r : OpenRegion) (body : Block) (marker : Directive) (guard? : Option Condition) :
    OpenRegion :=
  ⟨r.before, r.finished body, marker, guard?⟩

end OpenRegion

namespace Block

/-- What reading a list of tokens gives: a block, and the marker that ended it with the tokens
behind that marker. -/
abbrev Parsed := Block × Option (Directive × List Token)

def parseFrom (file : Text) : List OpenRegion → Block → List Token → Except Problem Parsed
  | [], block, [] => .ok (block, none)
  | _ :: _, _, [] => .error (.missingEndIf file)
  | regions, block, .plain s :: rest => parseFrom file regions (block.addToken (.plain s)) rest
  | regions, block, .found (.ifHolds gap argument) :: rest =>
    match Condition.parse file argument with
    | .error e => .error e
    | .ok guard =>
      parseFrom file (⟨block, .close, .ifHolds gap argument, some guard⟩ :: regions) .empty rest
  | [], block, .found .endIf :: rest => .ok (block, some (.endIf, rest))
  | current :: outer, block, .found .endIf :: rest =>
    parseFrom file outer (current.before.addRegion (current.finished block)) rest
  | [], block, .found .otherwise :: rest => .ok (block, some (.otherwise, rest))
  | current :: outer, block, .found .otherwise :: rest =>
    if current.guard? = none then .error (.markerAfterElse .otherwise file)
    else parseFrom file (current.nextArm block .otherwise none :: outer) .empty rest
  | [], block, .found (.elseIf gap argument) :: rest =>
    .ok (block, some (.elseIf gap argument, rest))
  | current :: outer, block, .found (.elseIf gap argument) :: rest =>
    if current.guard? = none then .error (.markerAfterElse (.elseIf gap argument) file)
    else
      match Condition.parse file argument with
      | .error e => .error e
      | .ok guard =>
        parseFrom file (current.nextArm block (.elseIf gap argument) (some guard) :: outer)
          .empty rest
  | regions, block, .found d :: rest => parseFrom file regions (block.addToken (.found d)) rest

def parse (file : Text) (tokens : List Token) : Except Problem Parsed :=
  parseFrom file [] .empty tokens

def parseAll (file : Text) (tokens : List Token) : Except Problem Block :=
  match parse file tokens with
  | .error e => .error e
  | .ok (_, some (marker, _)) => .error (.strayMarker marker file)
  | .ok (block, none) => .ok block

end Block
end Transclude

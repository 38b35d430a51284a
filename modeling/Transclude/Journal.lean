import Transclude.Problem
import Transclude.Scope

/-! What happens in the course of a run, in order, and the log line for each step. -/

namespace Transclude

inductive Event where
  | building (entry : Path)
  | collecting (file : Path)
  | scopeCollected (scope : Scope)
  | processing (file : Path)
  | including (file : Path)
  | notFound (file : Path)
  | missing (m : MissingInclude)
  /-- The arm of a region that was kept, counted from zero. -/
  | kept (arm : Nat)
  | dropped (file : Text)
  | substituted (name file : Text)
  | itemAdded (list : Text) (attributes : List (Text × Text))
  | itemsCollected (count : Nat)
  | wrote (target : Path)
  | copied
deriving DecidableEq, Repr

structure LogLine where
  level : Nat
  text : Text
deriving DecidableEq, Repr

namespace Event

def attributesLiteral (attributes : List (Text × Text)) : Text :=
  let entry := fun ((name, value) : Text × Text) => name.quoted ++ ": ".text ++ value.quoted
  "\x7b".text ++ Text.joinWith ", " (attributes.map entry) ++ "\x7d".text

def logLine? : Event → Option LogLine
  | .building entry => some ⟨1, "Building ".text ++ entry.toText⟩
  | .collecting file => some ⟨2, "Collecting variables from ".text ++ file.toText⟩
  | .scopeCollected scope => some ⟨2, "Root scope: ".text ++ Text.quotedList scope.names⟩
  | .processing file => some ⟨2, "Processing ".text ++ file.toText⟩
  | .including file => some ⟨2, "Including ".text ++ file.toText⟩
  | .notFound file => some ⟨2, "Missing include ".text ++ file.toText⟩
  | .missing _ => none
  | .kept _ => none
  | .dropped file => some ⟨3, "Conditional dropped entirely in ".text ++ file⟩
  | .substituted name file => some ⟨3, "var(".text ++ name ++ ") in ".text ++ file⟩
  | .itemAdded list attributes =>
    some ⟨3, "list-add ".text ++ list ++ ": ".text ++ attributesLiteral attributes⟩
  | .itemsCollected count => some ⟨2, "Collected ".text ++ Text.ofNat count ++ " list items".text⟩
  | .wrote target => some ⟨1, "Wrote ".text ++ target.toText⟩
  | .copied => some ⟨1, "Content copied to clipboard.".text⟩

end Event
end Transclude

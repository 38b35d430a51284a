import Transclude.Text.Quoted
import Transclude.Text.Utf8
import Transclude.Tree.Basic

/-! The text of a file, and why it may have none: the file system refuses its path, or its bytes are
no text. -/

namespace Transclude

inductive PathError where
  | nameTooLong (p : Path)
  | isDirectory (p : Path)
  | alreadyExists (p : Path)
  | notDirectory (p : Path)
  /-- No name can hold a zero. -/
  | zeroInName
deriving DecidableEq, Repr

namespace PathError

/-- The words for a refusal that the system has a number for. -/
def numbered (number : Nat) (reason : String) (p : Path) : Text :=
  "[Errno ".text ++ Text.ofNat number ++ "] ".text ++ reason.text ++ ": ".text ++ p.toText.quoted

def message : PathError → Text
  | .nameTooLong p => numbered 36 "File name too long" p
  | .isDirectory p => numbered 21 "Is a directory" p
  | .alreadyExists p => numbered 17 "File exists" p
  | .notDirectory p => numbered 20 "Not a directory" p
  | .zeroInName => "embedded null byte".text

end PathError

inductive ReadError where
  | path (e : PathError)
  | encoding (e : Utf8.Fault)
deriving DecidableEq, Repr

def ReadError.message : ReadError → Text
  | .path e => e.message
  | .encoding e => e.message

namespace Tree

/-- The text of a source: UTF-8, with every kind of line ending read as a line feed. -/
def unifyEndings : Text → Text
  | [] => []
  | '\r' :: '\n' :: rest => '\n' :: unifyEndings rest
  | c :: rest => (if c = '\r' then '\n' else c) :: unifyEndings rest

def readEntry (p : Path) : Entry → Except ReadError Text
  | .directory => .error (.path (.isDirectory p))
  | .file bytes =>
    match Utf8.decode bytes with
    | .ok s => .ok (unifyEndings s)
    | .error e => .error (.encoding e)

end Tree
end Transclude

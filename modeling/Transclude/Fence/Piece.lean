import Transclude.Fence.Basic

/-! A text cut into prose and fenced code. A piece of code runs from its opening line through the
ending of its closing line, or to the end of the text if nothing closes it. -/

namespace Transclude

inductive Piece where
  | prose (text : Text)
  | code (text : Text)
deriving DecidableEq, Repr

namespace Piece

def text : Piece → Text
  | .prose s => s
  | .code s => s

def pushProse (line : Text) : List Piece → List Piece
  | .prose s :: rest => .prose (line ++ s) :: rest
  | pieces => .prose line :: pieces

def pushCode (line : Text) : List Piece → List Piece
  | .code s :: rest => .code (line ++ s) :: rest
  | pieces => .code line :: pieces

/-- Pieces of a list of lines that are given with their endings. While a fence is open, the first
piece is the rest of its code. -/
def ofLines (open? : Option Fence) : List Text → List Piece
  | [] => []
  | line :: rest =>
    let next := (Fence.step open? line).2
    match open?, next with
    | none, none => pushProse line (ofLines next rest)
    | some _, none => .code line :: ofLines next rest
    | _, some _ => pushCode line (ofLines next rest)

def cut (s : Text) : List Piece := ofLines none s.endedLines

def spans (start : Nat) : List Piece → List (Nat × Nat)
  | [] => []
  | .prose s :: rest => spans (start + s.length) rest
  | .code s :: rest => (start, start + s.length) :: spans (start + s.length) rest

def codeSpans (s : Text) : List (Nat × Nat) := spans 0 (cut s)

@[simp] theorem flatMap_text_pushProse (line : Text) (pieces : List Piece) :
    (pushProse line pieces).flatMap text = line ++ pieces.flatMap text := by
  fun_cases pushProse line pieces <;> simp [text]

@[simp] theorem flatMap_text_pushCode (line : Text) (pieces : List Piece) :
    (pushCode line pieces).flatMap text = line ++ pieces.flatMap text := by
  fun_cases pushCode line pieces <;> simp [text]

theorem flatMap_text_ofLines (open? : Option Fence) (ls : List Text) :
    (ofLines open? ls).flatMap text = ls.flatten := by
  induction ls generalizing open? with
  | nil => rfl
  | cons line ls ih =>
    unfold ofLines
    dsimp only
    split <;> simp [text, ih]

@[simp] theorem flatMap_text_cut (s : Text) : (cut s).flatMap text = s := by
  rw [cut, flatMap_text_ofLines, Text.flatten_endedLines]

end Piece
end Transclude

import Transclude.Directive.Basic
import Transclude.Fence.Piece

/-! A document as tokens: plain text and the directives found outside fenced code. The tokens make
up the document, and no two plain ones are neighbours. -/

namespace Transclude

def Directive.pattern : Pattern Directive where
  read? := Directive.read?
  source := Directive.source
  source_append := Directive.source_of_read?
  source_ne_nil {_ d _} _ := d.source_ne_nil

abbrev Token := Chunk Directive

namespace Token

def source (token : Token) : Text := Chunk.source Directive.source token

def join (tokens : List Token) : Text := Chunk.sources Directive.source tokens

/-- Fenced code is plain whatever stands in it. -/
def ofPiece : Piece → List Token
  | .prose s => Directive.pattern.scan s
  | .code s => [.plain s]

def tokenize (s : Text) : List Token := Chunk.merge ((Piece.cut s).flatMap ofPiece)

def locate (start : Nat) : List Token → List (Nat × Token)
  | [] => []
  | token :: rest => (start, token) :: locate (start + token.source.length) rest

/-- Cuts plain text around the opening braces of what looks like a directive and is none. -/
def plainRuns : Text → List Text
  | [] => []
  | c :: rest =>
    if Text.startsWith (c :: rest) "\x7b!".text ||
        Text.startsWith rest "\x7b!".text then
      [c] :: plainRuns rest
    else
      match plainRuns rest with
      | [] => [[c]]
      | run :: others => (c :: run) :: others

/-- The finest tokens of a text that is searched without regard to fences. -/
def finest (s : Text) : List Token :=
  (Directive.pattern.scan s).flatMap fun
    | .plain run => (plainRuns run).map .plain
    | .found d => [.found d]

@[simp] theorem join_nil : join [] = [] := rfl

@[simp] theorem join_cons (token : Token) (rest : List Token) :
    join (token :: rest) = token.source ++ join rest := rfl

@[simp] theorem join_append (xs ys : List Token) : join (xs ++ ys) = join xs ++ join ys :=
  List.flatMap_append

@[simp] theorem join_ofPiece (piece : Piece) : join (ofPiece piece) = piece.text := by
  cases piece with
  | prose s => exact Directive.pattern.sources_scan s
  | code s => simp [ofPiece, Piece.text, source, Chunk.source]

theorem join_flatMap_ofPiece (pieces : List Piece) :
    join (pieces.flatMap ofPiece) = pieces.flatMap Piece.text := by
  induction pieces with
  | nil => rfl
  | cons p ps ih => simp [ih]

@[simp] theorem join_tokenize (s : Text) : join (tokenize s) = s := by
  rw [tokenize, join, Chunk.sources_merge, ← join, join_flatMap_ofPiece, Piece.flatMap_text_cut]

end Token
end Transclude

import Transclude.Heading.Level
import Transclude.Line

/-! Fenced code: a line of three or more backticks or tildes opens it, and a line that starts with
at least as many of the same mark closes it. Every pass over lines carries the fence that is open. -/

namespace Transclude

/-- An open fence: its mark and how often the opening line repeats it. -/
structure Fence where
  mark : Char
  length : Nat
deriving DecidableEq, Repr

inductive LineClass where
  | plain
  | heading (level : Nat)
  /-- A line that opens or closes a fence. -/
  | fence
  /-- A line between those two. -/
  | fenced
deriving DecidableEq, Repr

def LineClass.inFence : LineClass → Bool
  | .plain | .heading _ => false
  | .fence | .fenced => true

def LineClass.level? : LineClass → Option Nat
  | .heading level => some level
  | _ => none

namespace Fence

def opening? (line : Text) : Option Fence :=
  match line.trim with
  | [] => none
  | c :: rest =>
    let length := ((c :: rest).takeWhile (· = c)).length
    if (c = '\x60' ∨ c = '~') ∧ 3 ≤ length then some ⟨c, length⟩ else none

def closedBy (fence : Fence) (line : Text) : Bool :=
  line.trim.startsWith (List.replicate fence.length fence.mark)

/-- The class of a line behind which the fence `open?` was open, and the fence open after it. -/
def step (open? : Option Fence) (line : Text) : LineClass × Option Fence :=
  match open? with
  | some fence => if fence.closedBy line then (.fence, none) else (.fenced, some fence)
  | none =>
    match opening? line with
    | some fence => (.fence, some fence)
    | none =>
      match Heading.level? line with
      | some level => (.heading level, none)
      | none => (.plain, none)

def classesFrom (open? : Option Fence) : List Text → List LineClass
  | [] => []
  | line :: rest => (step open? line).1 :: classesFrom (step open? line).2 rest

def openAfter (open? : Option Fence) (ls : List Text) : Option Fence :=
  ls.foldl (fun current line => (step current line).2) open?

def classify (s : Text) : List (Text × LineClass) := s.lines.zip (classesFrom none s.lines)

@[simp] theorem length_classesFrom (open? : Option Fence) (ls : List Text) :
    (classesFrom open? ls).length = ls.length := by
  induction ls generalizing open? with
  | nil => rfl
  | cons line ls ih => simp [classesFrom, ih]

theorem classesFrom_append (open? : Option Fence) (xs ys : List Text) :
    classesFrom open? (xs ++ ys) =
      classesFrom open? xs ++ classesFrom (openAfter open? xs) ys := by
  induction xs generalizing open? with
  | nil => rfl
  | cons x xs ih => simp [classesFrom, openAfter, ih]

theorem openAfter_append (open? : Option Fence) (xs ys : List Text) :
    openAfter open? (xs ++ ys) = openAfter (openAfter open? xs) ys :=
  List.foldl_append

theorem step_none_of_not_inFence {line : Text} (h : (step none line).1.inFence = false) :
    (step none line).2 = none := by
  unfold step at h ⊢
  cases ho : opening? line with
  | some fence => simp [ho, LineClass.inFence] at h
  | none => cases Heading.level? line <;> rfl

end Fence
end Transclude

import Transclude.Text.Basic

/-! Leftmost search for what a pattern recognises. Plain text between the occurrences is kept, so
the sources of the chunks make up the searched text again. -/

namespace Transclude

/-- Recognises an `α` at the front of a text; `source` is the text it was read from. -/
structure Pattern (α : Type) where
  read? : Text → Option (α × Text)
  source : α → Text
  source_append : ∀ {s a rest}, read? s = some (a, rest) → source a ++ rest = s
  source_ne_nil : ∀ {s a rest}, read? s = some (a, rest) → source a ≠ []

inductive Chunk (α : Type) where
  | plain (text : Text)
  | found (item : α)
deriving DecidableEq, Repr

namespace Chunk

variable {α : Type}

/-- Puts text in front, joining it to a plain chunk that is already there. -/
def pushText (s : Text) : List (Chunk α) → List (Chunk α)
  | .plain t :: rest => .plain (s ++ t) :: rest
  | chunks => .plain s :: chunks

def merge : List (Chunk α) → List (Chunk α)
  | [] => []
  | .plain s :: rest => pushText s (merge rest)
  | .found a :: rest => .found a :: merge rest

def source (itemSource : α → Text) : Chunk α → Text
  | .plain s => s
  | .found a => itemSource a

def sources (itemSource : α → Text) (chunks : List (Chunk α)) : Text :=
  chunks.flatMap (source itemSource)

def item? : Chunk α → Option α
  | .plain _ => none
  | .found a => some a

@[simp] theorem sources_nil (f : α → Text) : sources f [] = [] := rfl

@[simp] theorem sources_cons (f : α → Text) (c : Chunk α) (cs : List (Chunk α)) :
    sources f (c :: cs) = c.source f ++ sources f cs := rfl

@[simp] theorem sources_pushText (f : α → Text) (s : Text) (chunks : List (Chunk α)) :
    sources f (pushText s chunks) = s ++ sources f chunks := by
  fun_cases pushText s chunks <;> simp [source]

@[simp] theorem sources_merge (f : α → Text) (chunks : List (Chunk α)) :
    sources f (merge chunks) = sources f chunks := by
  induction chunks with
  | nil => rfl
  | cons c cs ih => cases c <;> simp [merge, source, ih]

end Chunk

namespace Pattern

variable {α : Type} (p : Pattern α)

theorem length_lt_of_read? {s rest : Text} {a : α} (h : p.read? s = some (a, rest)) :
    rest.length < s.length := by
  have hs := congrArg List.length (p.source_append h)
  have := List.length_pos_iff.2 (p.source_ne_nil h)
  simp only [List.length_append] at hs
  omega

/-- Cuts a text at the leftmost occurrences of the pattern, without overlaps. -/
def scan : Text → List (Chunk α)
  | [] => []
  | c :: s =>
    match h : p.read? (c :: s) with
    | some (a, rest) =>
      have : rest.length < s.length + 1 := p.length_lt_of_read? h
      .found a :: scan rest
    | none => Chunk.pushText [c] (scan s)
termination_by s => s.length

@[simp] theorem scan_nil : p.scan [] = [] := by rw [scan]

theorem scan_of_read? {s rest : Text} {a : α} (h : p.read? s = some (a, rest)) :
    p.scan s = .found a :: p.scan rest := by
  match s with
  | [] => simpa using p.length_lt_of_read? h
  | c :: s => rw [scan]; split <;> simp_all

theorem scan_cons {c : Char} {s : Text} (h : p.read? (c :: s) = none) :
    p.scan (c :: s) = Chunk.pushText [c] (p.scan s) := by
  rw [scan]; split <;> simp_all

@[simp] theorem sources_scan (s : Text) : Chunk.sources p.source (p.scan s) = s := by
  fun_induction scan p s with
  | case1 => rfl
  | case2 c s a rest h _ ih => simp [Chunk.source, ih, p.source_append h]
  | case3 c s h ih => simp [ih]

end Pattern
end Transclude

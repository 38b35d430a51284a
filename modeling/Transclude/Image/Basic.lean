import Transclude.Text.Blank
import Transclude.Text.Scan

/-! Image references. A reference may run over several lines. -/

namespace Transclude

structure Title where
  gap : Text
  mark : Char
  text : Text
deriving DecidableEq, Repr

/-- A reference as it is written: `![alt](target "title")`, with blanks around the target. -/
structure Image where
  alt : Text
  lead : Text
  target : Text
  title? : Option Title
  trail : Text
deriving DecidableEq, Repr

namespace Title

def source (t : Title) : Text := t.gap ++ t.mark :: t.text ++ [t.mark]

/-- A title needs a blank in front, text inside, and the same quote at both ends. -/
def read? (s : Text) : Option (Title × Text) :=
  match s.spanBlanks with
  | (gap, mark :: body) =>
    if gap ≠ [] ∧ (mark = '"' ∨ mark = '\'') then
      match Text.cut? [mark] body with
      | none | some ([], _) => none
      | some (text, rest) => some (⟨gap, mark, text⟩, rest)
    else none
  | _ => none

theorem source_of_read? {s rest : Text} {t : Title} (h : read? s = some (t, rest)) :
    t.source ++ rest = s := by
  unfold read? at h
  have hs := Text.spanBlanks_append s
  split at h
  · rename_i gap mark body hb
    split at h
    · split at h
      · simp at h
      · simp at h
      · rename_i text rest' hne hc
        have := Text.append_of_cut? hc
        simp only [Option.some.injEq, Prod.mk.injEq] at h
        obtain ⟨rfl, rfl⟩ := h
        rw [hb] at hs
        simp_all [source]
    · simp at h
  · simp at h

end Title

namespace Image

def titleSource (title? : Option Title) : Text := (title?.map Title.source).getD []

def source (i : Image) : Text :=
  "![".text ++ i.alt ++ "](".text ++ i.lead ++ i.target ++ titleSource i.title? ++ i.trail ++ [')']

def wrappedTarget? : Text → Option (Text × Text)
  | '<' :: s =>
    match Text.cut? ['>'] s with
    | none | some ([], _) => none
    | some (inner, rest) => some ('<' :: inner ++ ['>'], rest)
  | _ => none

def inBareTarget (c : Char) : Bool := c ≠ ')' && !Text.isBlank c

def bareTarget? (s : Text) : Option (Text × Text) :=
  match s.takeWhile inBareTarget with
  | [] => none
  | target => some (target, s.dropWhile inBareTarget)

def close? (s : Text) : Option (Text × Text) :=
  match s.spanBlanks with
  | (trail, ')' :: rest) => some (trail, rest)
  | _ => none

def ending? (s : Text) : Option ((Option Title × Text) × Text) :=
  match Title.read? s with
  | some (title, s) => (close? s).map fun (trail, rest) => ((some title, trail), rest)
  | none => (close? s).map fun (trail, rest) => ((none, trail), rest)

def inside? (target? : Text → Option (Text × Text)) (alt lead s : Text) :
    Option (Image × Text) :=
  match target? s with
  | none => none
  | some (target, s) =>
    (ending? s).map fun ((title?, trail), rest) => (⟨alt, lead, target, title?, trail⟩, rest)

def opening? (s : Text) : Option (Text × Text) :=
  match s.after? "![".text with
  | none => none
  | some s =>
    match Text.after? (s.dropWhile (· ≠ ']')) "](".text with
    | none => none
    | some rest => some (s.takeWhile (· ≠ ']'), rest)

/-- Reads a reference. A bracketed target is preferred if the reference can be closed behind it. -/
def read? (s : Text) : Option (Image × Text) :=
  match opening? s with
  | none => none
  | some (alt, s) =>
    let (lead, s) := s.spanBlanks
    inside? wrappedTarget? alt lead s <|> inside? bareTarget? alt lead s

theorem append_of_close? {s trail rest : Text} (h : close? s = some (trail, rest)) :
    trail ++ ')' :: rest = s := by
  unfold close? at h
  have hs := Text.spanBlanks_append s
  split at h <;> simp_all

theorem append_of_ending? {s trail rest : Text} {title? : Option Title}
    (h : ending? s = some ((title?, trail), rest)) :
    titleSource title? ++ trail ++ ')' :: rest = s := by
  unfold ending? at h
  split at h
  · rename_i title s' ht
    obtain ⟨⟨t, r⟩, hc, heq⟩ := Option.map_eq_some_iff.1 h
    have h1 := append_of_close? hc
    have h2 := Title.source_of_read? ht
    simp only [Prod.mk.injEq] at heq
    obtain ⟨⟨rfl, rfl⟩, rfl⟩ := heq
    simp [titleSource, h1, h2]
  · obtain ⟨⟨t, r⟩, hc, heq⟩ := Option.map_eq_some_iff.1 h
    have h1 := append_of_close? hc
    simp only [Prod.mk.injEq] at heq
    obtain ⟨⟨rfl, rfl⟩, rfl⟩ := heq
    simpa [titleSource] using h1

theorem append_of_wrappedTarget? {s target rest : Text}
    (h : wrappedTarget? s = some (target, rest)) : target ++ rest = s := by
  unfold wrappedTarget? at h
  split at h
  · split at h
    · simp at h
    · simp at h
    · rename_i hc
      have := Text.append_of_cut? hc
      grind
  · simp at h

theorem append_of_bareTarget? {s target rest : Text}
    (h : bareTarget? s = some (target, rest)) : target ++ rest = s := by
  unfold bareTarget? at h
  split at h
  · simp at h
  · simp only [Option.some.injEq, Prod.mk.injEq] at h
    obtain ⟨rfl, rfl⟩ := h
    exact List.takeWhile_append_dropWhile

theorem append_of_opening? {s alt rest : Text} (h : opening? s = some (alt, rest)) :
    "![".text ++ alt ++ "](".text ++ rest = s := by
  unfold opening? at h
  split at h
  · simp at h
  · rename_i body hb
    split at h
    · simp at h
    · rename_i r hr
      simp only [Option.some.injEq, Prod.mk.injEq] at h
      obtain ⟨rfl, rfl⟩ := h
      rw [Text.after?_eq_some_iff] at hb hr
      have := List.takeWhile_append_dropWhile (p := fun c : Char => decide (c ≠ ']')) (l := body)
      rw [hr] at this
      rw [hb, List.append_assoc, List.append_assoc, this]

theorem source_of_inside? {target? : Text → Option (Text × Text)} {alt lead s rest : Text}
    {i : Image} (ht : ∀ {s target rest}, target? s = some (target, rest) → target ++ rest = s)
    (h : inside? target? alt lead s = some (i, rest)) :
    i.source ++ rest = "![".text ++ alt ++ "](".text ++ lead ++ s := by
  unfold inside? at h
  split at h
  · simp at h
  · rename_i target s' hs
    obtain ⟨⟨⟨title?, trail⟩, r⟩, hc, heq⟩ := Option.map_eq_some_iff.1 h
    have h1 := append_of_ending? hc
    have h2 := ht hs
    simp only [Prod.mk.injEq] at heq
    obtain ⟨rfl, rfl⟩ := heq
    simp only [source, ← h2, ← h1, List.append_assoc, List.singleton_append]

theorem source_of_read? {s rest : Text} {i : Image} (h : read? s = some (i, rest)) :
    i.source ++ rest = s := by
  unfold read? at h
  split at h
  · simp at h
  · rename_i alt body ho
    have h1 := append_of_opening? ho
    have h2 := Text.spanBlanks_append body
    simp only [Option.orElse_eq_orElse, Option.orElse_eq_or, Option.or_eq_some_iff] at h
    rw [← h1, ← h2, ← List.append_assoc]
    rcases h with h | ⟨_, h⟩
    · exact source_of_inside? append_of_wrappedTarget? h
    · exact source_of_inside? append_of_bareTarget? h

def pattern : Pattern Image where
  read? := read?
  source := source
  source_append := source_of_read?
  source_ne_nil _ := by simp [source]

end Image
end Transclude

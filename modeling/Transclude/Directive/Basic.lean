import Transclude.Text.Blank
import Transclude.Text.Scan

/-! Directives as they are written. An argument ends at the first closing delimiter, may run over
several lines, and is kept as it stands. -/

namespace Transclude

inductive Directive where
  | includeFile (argument : Text)
  | valueOf (argument : Text)
  /-- `gap` holds the blanks between the keyword and the condition. -/
  | ifHolds (gap argument : Text)
  | elseIf (gap argument : Text)
  | otherwise
  | endIf
  | listTable (argument : Text)
deriving DecidableEq, Repr

namespace Directive

def opener : Directive → Text
  | .includeFile _ => "\x7b!include(".text
  | .valueOf _ => "\x7b!var(".text
  | .ifHolds gap _ => "\x7b!if".text ++ gap
  | .elseIf gap _ => "\x7b!elseif".text ++ gap
  | .otherwise => "\x7b!else!\x7d".text
  | .endIf => "\x7b!endif!\x7d".text
  | .listTable _ => "\x7b!list-table(".text

def argument? : Directive → Option Text
  | .includeFile argument | .valueOf argument | .ifHolds _ argument | .elseIf _ argument
  | .listTable argument => some argument
  | .otherwise | .endIf => none

def closer : Directive → Text
  | .includeFile _ | .valueOf _ | .listTable _ => ")!\x7d".text
  | .ifHolds _ _ | .elseIf _ _ => "!\x7d".text
  | .otherwise | .endIf => []

def source (d : Directive) : Text := d.opener ++ d.argument?.getD [] ++ d.closer

def readEnclosed? (make : Text → Directive) (s : Text) : Option (Directive × Text) :=
  match s.after? (make []).opener with
  | none => none
  | some body => (Text.cut? (make []).closer body).map fun (argument, rest) => (make argument, rest)

def readSpaced? (make : Text → Text → Directive) (s : Text) : Option (Directive × Text) :=
  match s.after? (make [] []).opener with
  | none => none
  | some body =>
    let (gap, body) := body.spanBlanks
    if gap = [] then none
    else (Text.cut? (make [] []).closer body).map fun (argument, rest) => (make gap argument, rest)

def readFixed? (d : Directive) (s : Text) : Option (Directive × Text) :=
  (s.after? d.opener).map fun rest => (d, rest)

/-- The directive at the front of a text. No two forms share their first characters. -/
def read? (s : Text) : Option (Directive × Text) :=
  readEnclosed? .includeFile s <|> readEnclosed? .valueOf s <|> readSpaced? .ifHolds s
    <|> readSpaced? .elseIf s <|> readFixed? .otherwise s <|> readFixed? .endIf s
    <|> readEnclosed? .listTable s

theorem source_ne_nil (d : Directive) : d.source ≠ [] := by
  cases d <;> simp [source, opener, String.text]

private theorem source_of_readEnclosed? {make : Text → Directive} {s rest : Text} {d : Directive}
    (hm : ∀ a, (make a).source = (make []).opener ++ a ++ (make []).closer)
    (h : readEnclosed? make s = some (d, rest)) : d.source ++ rest = s := by
  unfold readEnclosed? at h
  split at h
  · simp at h
  · rename_i body hb
    obtain ⟨⟨a, r⟩, hc, heq⟩ := Option.map_eq_some_iff.1 h
    obtain ⟨rfl, rfl⟩ := Prod.mk.inj heq
    simp [hm, Text.after?_eq_some_iff.1 hb, ← Text.append_of_cut? hc]

private theorem source_of_readSpaced? {make : Text → Text → Directive} {s rest : Text}
    {d : Directive}
    (hm : ∀ g a, (make g a).source = (make [] []).opener ++ g ++ a ++ (make [] []).closer)
    (h : readSpaced? make s = some (d, rest)) : d.source ++ rest = s := by
  unfold readSpaced? at h
  split at h
  · simp at h
  · rename_i body hb
    dsimp only at h
    split at h
    · simp at h
    · obtain ⟨⟨a, r⟩, hc, heq⟩ := Option.map_eq_some_iff.1 h
      obtain ⟨rfl, rfl⟩ := Prod.mk.inj heq
      have := Text.append_of_cut? hc
      have hs := Text.spanBlanks_append body
      simp only [hm, Text.after?_eq_some_iff.1 hb, List.append_assoc] at this ⊢
      rw [this, hs]

private theorem source_of_readFixed? {d e : Directive} {s rest : Text} (hd : d.source = d.opener)
    (h : readFixed? d s = some (e, rest)) : e.source ++ rest = s := by
  obtain ⟨r, hr, heq⟩ := Option.map_eq_some_iff.1 h
  obtain ⟨rfl, rfl⟩ := Prod.mk.inj heq
  rw [hd, Text.after?_eq_some_iff.1 hr]

theorem source_of_read? {s rest : Text} {d : Directive} (h : read? s = some (d, rest)) :
    d.source ++ rest = s := by
  simp only [read?, Option.orElse_eq_orElse, Option.orElse_eq_or, Option.or_eq_some_iff] at h
  rcases h with h | ⟨_, h | ⟨_, h | ⟨_, h | ⟨_, h | ⟨_, h | ⟨_, h⟩⟩⟩⟩⟩⟩
  · exact source_of_readEnclosed? (by intros; rfl) h
  · exact source_of_readEnclosed? (by intros; rfl) h
  · exact source_of_readSpaced? (by intros; rfl) h
  · exact source_of_readSpaced? (by intros; rfl) h
  · exact source_of_readFixed? (by simp [source, closer, argument?]) h
  · exact source_of_readFixed? (by simp [source, closer, argument?]) h
  · exact source_of_readEnclosed? (by intros; rfl) h

end Directive
end Transclude

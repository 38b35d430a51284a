import Transclude.Proofs.DeclarableScopes
import Transclude.Proofs.HeaderEndings

/-! A scope written as a front matter in front of any body. If its names and values stand in no need
of quotes, the header is split off again whole, and the variables read from it are those of the
scope. -/

namespace Transclude

namespace Text

variable {t : Text}

/-- Whether a text reads as itself where a value stands: on one line, with no blanks around it and in
no pair of quotes. -/
structure IsBare (t : Text) : Prop where
  trimmed : t.trim = t
  line : '\n' ∉ t
  unquoted : ∀ mark inner, mark = '"' ∨ mark = '\'' → t ≠ mark :: (inner ++ [mark])

theorem trimLeft_of_trim (h : t.trim = t) : t.trimLeft = t := by
  have hsuffix : t.trimLeft <:+ t := List.dropWhile_suffix isBlank
  refine hsuffix.eq_of_length_le ?_
  have hlength := length_trimRight_le t.trimLeft
  rwa [← trim, h] at hlength

theorem trimRight_of_trim (h : t.trim = t) : t.trimRight = t := by
  rw [trim, trimLeft_of_trim h] at h
  exact h

theorem eq_nil_of_trim (h : t.trim = t) (hblank : t.allBlank) : t = [] :=
  (trimRight_of_trim h).symm.trans (trimRight_eq_nil_iff.2 hblank)

theorem isBare_iff : t.IsBare ↔ t.trim = t ∧ '\n' ∉ t ∧ FrontMatter.unquote t = t := by
  constructor
  · refine fun h => ⟨h.trimmed, h.line, ?_⟩
    refine (FrontMatter.unquote_eq_or_quoted t).resolve_right ?_
    rintro ⟨mark, inner, hmark, ht, -⟩
    exact h.unquoted mark inner hmark ht
  · rintro ⟨htrim, hline, hquotes⟩
    refine ⟨htrim, hline, ?_⟩
    rintro mark inner hmark rfl
    have hinner : FrontMatter.unquote (mark :: (inner ++ [mark])) = inner := by
      simp [FrontMatter.unquote, hmark]
    have hlength := congrArg List.length (hinner.symm.trans hquotes)
    rw [List.length_cons, List.length_append, List.length_singleton] at hlength
    omega

instance (t : Text) : Decidable t.IsBare := decidable_of_iff _ isBare_iff.symm

theorem IsBare.unquote (h : t.IsBare) : FrontMatter.unquote t = t := (isBare_iff.1 h).2.2

end Text

/-- Whether a value reads as itself: text by text, and not a list of none. -/
def Value.IsBare : Value → Prop
  | .scalar item => ∃ t ∈ item, t.IsBare
  | .list items => items ≠ [] ∧ ∀ item ∈ items, ∃ t ∈ item, t.IsBare

instance : DecidablePred Value.IsBare
  | .scalar item => inferInstanceAs (Decidable (∃ t ∈ item, t.IsBare))
  | .list items => inferInstanceAs (Decidable (items ≠ [] ∧ ∀ item ∈ items, ∃ t ∈ item, t.IsBare))

structure Text.IsTerm (name : Text) : Prop where
  filled : name ≠ []
  trimmed : name.trim = name
  bare : ':' ∉ name
  line : '\n' ∉ name

instance (name : Text) : Decidable name.IsTerm :=
  decidable_of_iff (name ≠ [] ∧ name.trim = name ∧ ':' ∉ name ∧ '\n' ∉ name)
    ⟨fun ⟨hne, htrim, hbare, hline⟩ => ⟨hne, htrim, hbare, hline⟩,
      fun h => ⟨h.filled, h.trimmed, h.bare, h.line⟩⟩

theorem Scope.eq_of_entries {s t : Scope} (h : s.entries = t.entries) : s = t := by
  cases s
  cases t
  cases h
  rfl

namespace FrontMatter

variable {scope : Scope} {name front row t : Text} {v : Value} {c : Char} {items : List Text}

theorem isKey_of_isTerm (h : name.IsTerm) : IsKey name := by
  refine ⟨?_, h.trimmed, h.bare⟩
  cases hblank : name.allBlank with
  | false => rfl
  | true => exact absurd (Text.eq_nil_of_trim h.trimmed hblank) h.filled

/-- A trimmed text ends in no carriage return, and neither does a row that ends with it. -/
theorem isRow_append (hfront : '\n' ∉ front) (hc : c ≠ '\n' ∧ c ≠ '\r') (ht : t.trim = t)
    (hline : '\n' ∉ t) : IsRow (front ++ c :: t) := by
  refine ⟨fun hmem => ?_, ?_⟩
  · rcases List.mem_append.1 hmem with hmem | hmem
    · exact hfront hmem
    · rcases List.mem_cons.1 hmem with hmem | hmem
      · exact hc.1 hmem.symm
      · exact hline hmem
  · rw [List.getLast?_append_cons, List.getLast?_cons]
    intro hlast
    cases hend : t.getLast? with
    | none =>
      rw [hend] at hlast
      exact hc.2 (Option.some.inj hlast)
    | some d =>
      rw [hend] at hlast
      obtain rfl : d = '\r' := Option.some.inj hlast
      rw [← Text.trimRight_of_trim ht] at hend
      exact absurd (Text.getLast?_trimRight hend) (by decide)

theorem declaration_scalar (name t : Text) :
    declaration name (.scalar (some t)) = [namedRow name (' ' :: t)] := by
  rw [declaration, List.append_assoc]
  rfl

theorem declaration_list (name : Text) (items : List (Option Text)) :
    declaration name (.list items) =
      namedRow name [] :: items.map fun item => ' ' :: ' ' :: '-' :: ' ' :: Value.itemText item :=
  rfl

theorem isRow_of_mem_declaration (hname : name.IsTerm) (hv : v.IsBare) (h : row ∈ declaration name v) :
    IsRow row ∧ row ≠ fenceMark := by
  have hnamed (rest : Text) : namedRow name rest ≠ fenceMark := by
    intro heq
    have hcolon : ':' ∈ namedRow name rest := List.mem_append_right name List.mem_cons_self
    rw [heq] at hcolon
    exact absurd hcolon (by decide)
  have hempty : Text.trim [] = [] := rfl
  cases v with
  | scalar item =>
    obtain ⟨t, rfl, ht⟩ := hv
    rw [declaration_scalar] at h
    obtain rfl := List.mem_singleton.1 h
    refine ⟨?_, hnamed _⟩
    have hfront : '\n' ∉ name ++ [':'] := by simp [hname.line]
    have hrow := isRow_append (c := ' ') hfront (by decide) ht.trimmed ht.line
    rwa [List.append_assoc] at hrow
  | list items =>
    rw [declaration_list] at h
    rcases List.mem_cons.1 h with rfl | h
    · exact ⟨isRow_append hname.line (by decide) hempty List.not_mem_nil, hnamed []⟩
    · obtain ⟨item, hitem, rfl⟩ := List.mem_map.1 h
      obtain ⟨t, rfl, ht⟩ := hv.2 item hitem
      have hfront : '\n' ∉ [' ', ' ', '-'] := by decide
      refine ⟨isRow_append (c := ' ') hfront (by decide) ht.trimmed ht.line, fun heq => ?_⟩
      exact absurd (List.cons.inj heq).1 (by decide)

theorem isRow_of_mem_writtenRows (h : ∀ e ∈ scope.entries, e.1.IsTerm ∧ e.2.IsBare)
    (hrow : row ∈ writtenRows scope) : IsRow row ∧ row ≠ fenceMark := by
  obtain ⟨e, he, hrow⟩ := List.mem_flatMap.1 hrow
  exact isRow_of_mem_declaration (h e he).1 (h e he).2 hrow

namespace Reading

variable {r : Reading}

theorem item?_written (ht : t.IsBare) :
    Text.allBlank (' ' :: ' ' :: '-' :: ' ' :: t) = false ∧
      item? (' ' :: ' ' :: '-' :: ' ' :: t) = some t := by
  have hitem : item? (' ' :: ' ' :: '-' :: ' ' :: t) = some (unquote t.trimLeft) := rfl
  rw [Text.trimLeft_of_trim ht.trimmed, ht.unquote] at hitem
  exact ⟨rfl, hitem⟩

theorem close_foldl_declaration (hname : name.IsTerm) (hv : v.IsBare) :
    ((declaration name v).foldl step r).close = r.close.insert name v := by
  have hkey := isKey_of_isTerm hname
  cases v with
  | scalar item =>
    obtain ⟨t, rfl, ht⟩ := hv
    have hblank : Text.allBlank (' ' :: t) = t.allBlank := rfl
    have htrim : Text.trim (' ' :: t) = t.trim := rfl
    rw [declaration_scalar, List.foldl_cons, List.foldl_nil, step_namedRow hkey, hblank, htrim,
      ht.trimmed, ht.unquote]
    cases hempty : t.allBlank with
    | false => rfl
    | true =>
      obtain rfl := Text.eq_nil_of_trim ht.trimmed hempty
      rfl
  | list items =>
    obtain ⟨texts, rfl⟩ : ∃ texts : List Text, items = texts.map some := by
      refine ⟨items.map Value.itemText, ?_⟩
      rw [List.map_map]
      refine (List.map_id'' (fun _ => rfl) items).symm.trans (List.map_congr_left fun item hitem => ?_)
      obtain ⟨t, rfl, -⟩ := hv.2 item hitem
      rfl
    have htexts : ∀ t ∈ texts, t.IsBare := by
      intro t ht
      obtain ⟨u, hu, hbare⟩ := hv.2 (some t) (List.mem_map_of_mem ht)
      exact Option.some.inj hu ▸ hbare
    have hrows : declaration name (.list (texts.map some)) =
        namedRow name [] :: texts.map fun t => ' ' :: ' ' :: '-' :: ' ' :: t := by
      rw [declaration_list, List.map_map]
      rfl
    have hitems : (texts.map fun t => ' ' :: ' ' :: '-' :: ' ' :: t).foldl step
        ⟨r.close, some (name, [])⟩ = ⟨r.close, some (name, [] ++ texts.map id)⟩ :=
      foldl_map_of_items fun t ht => item?_written (htexts t ht)
    rw [hrows, List.foldl_cons, step_namedRow hkey, if_pos (by rfl), hitems, List.map_id]
    cases texts with
    | nil => exact absurd rfl hv.1
    | cons t texts => rfl

end Reading

theorem scopeOf_written {e : Text} (he : IsEnding e) (hne : writtenRows scope ≠ [])
    (h : ∀ e ∈ scope.entries, e.1.IsTerm ∧ e.2.IsBare) :
    scopeOf (e.intercalate (writtenRows scope)) = scope := by
  rw [scopeOf, lines_intercalate he hne fun row hrow => (isRow_of_mem_writtenRows h hrow).1]
  refine Scope.eq_of_entries ?_
  have hdeclared : ((writtenRows scope).foldl Reading.step .start).close =
      scope.entries.foldl (fun s e => s.insert e.1 (id e.2)) Reading.start.close :=
    Reading.close_foldl_flatMap fun e he _ =>
      Reading.close_foldl_declaration (h e he).1 (h e he).2
  rw [hdeclared]
  exact (entries_foldl_insert id scope.increasing).trans (List.map_id'' (fun _ => rfl) _)

/-- A header is split off again from whatever stands behind it, and declares what it was written for. -/
theorem split_render_append (hne : scope.entries ≠ [])
    (h : ∀ e ∈ scope.entries, e.1.IsTerm ∧ e.2.IsBare) (raw? : Option Text) (body : Text) :
    split (render scope raw? ++ body) = ⟨some (render scope raw?), scope, body⟩ := by
  have he := isEnding_endingOf (raw?.getD [])
  have hmark := isMark_dropMark (raw?.getD [])
  have hrender : render scope raw? = (dropMark (raw?.getD [])).1 ++ fenceMark ++
      endingOf (raw?.getD []) ++ (endingOf (raw?.getD [])).intercalate (writtenRows scope) ++
      endingOf (raw?.getD []) ++ fenceMark ++ endingOf (raw?.getD []) ++ endingOf (raw?.getD []) :=
    if_neg hne
  generalize endingOf (raw?.getD []) = e at he hrender
  generalize (dropMark (raw?.getD [])).1 = mark at hmark hrender
  have hrows : writtenRows scope ≠ [] := by
    intro hnil
    have hdeclared := declaredRows_ne_nil hne
    rw [declaredRows_eq, hnil] at hdeclared
    exact hdeclared rfl
  have hcut := cutBlock?_intercalate he hrows
    (fun row hrow => (isRow_of_mem_writtenRows h hrow).1)
    (fun hmem => (isRow_of_mem_writtenRows h (List.mem_of_mem_tail hmem)).2 rfl) (e ++ body)
  have hwhole : render scope raw? ++ body = mark ++ (fenceMark ++ (e ++
      (e.intercalate (writtenRows scope) ++ (e ++ (fenceMark ++ (e ++ (e ++ body))))))) := by
    rw [hrender]
    simp only [List.append_assoc]
  rw [hwhole, split, dropMark_append hmark]
  dsimp only
  rw [Text.after?_append, Option.bind_some, he.ending?_append]
  dsimp only
  rw [hcut]
  dsimp only
  rw [he.ending?_append, Option.getD_some, scopeOf_written he hrows h, hrender]
  simp only [List.append_assoc]

def quaintScope : Scope := .ofList [
  ("---".text, .list [some "---".text, some [], some "k: v".text]),
  ("- a\rb".text, .scalar (some [])),
  ("x".text, .list [some "- y".text, some "\"".text, some "'z\"".text]),
  ("y".text, .scalar (some "---".text))]

theorem split_render_append_of_quaint : quaintScope.entries ≠ [] ∧
    (∀ e ∈ quaintScope.entries, e.1.IsTerm ∧ e.2.IsBare) ∧
    split (render quaintScope (some "\uFEFF---\r\n".text) ++ "\r\n---\n  - z".text) =
      ⟨some (render quaintScope (some "\uFEFF---\r\n".text)), quaintScope,
        "\r\n---\n  - z".text⟩ := by
  have hne : quaintScope.entries ≠ [] := by decide
  have hbare : ∀ e ∈ quaintScope.entries, e.1.IsTerm ∧ e.2.IsBare := by decide
  exact ⟨hne, hbare, split_render_append hne hbare _ _⟩

end FrontMatter
end Transclude

import Transclude.Proofs.HeaderRows
import Transclude.Proofs.RegionGrammar
import Transclude.Proofs.TidyRows

/-! A scope that is written as a front matter and read again. No quotes are written around a value,
so each value comes back without the blanks around it and without quotes of its own, and an item of
nothing but blanks is not read as an item. -/

namespace Transclude

namespace Text

variable {s t blanks : Text} {c : Char}

theorem exists_blanks_append (h : s.allBlank = false) :
    ∃ (blanks : Text) (c : Char) (rest : Text),
      s = blanks ++ c :: rest ∧ blanks.allBlank ∧ isBlank c = false := by
  induction s with
  | nil => cases h
  | cons d s ih =>
    cases hd : isBlank d with
    | false => exact ⟨[], d, s, rfl, rfl, hd⟩
    | true =>
      have hs : allBlank s = false := by simpa [allBlank, hd] using h
      obtain ⟨blanks, c, rest, rfl, hblanks, hc⟩ := ih hs
      exact ⟨d :: blanks, c, rest, rfl, by simpa [allBlank, hd] using hblanks, hc⟩

theorem trimLeft_blanks_append (hb : blanks.allBlank) (hc : isBlank c = false) (rest : Text) :
    trimLeft (blanks ++ c :: rest) = c :: rest := by
  rw [trimLeft_append, if_pos hb, trimLeft, List.dropWhile_cons_of_neg (by simp [hc])]

theorem trim_eq_trimLeft_trimRight (s : Text) : s.trim = trimLeft s.trimRight := by
  cases hs : s.allBlank with
  | true =>
    rw [trim, trimLeft_eq_nil_iff.2 hs, trimRight_eq_nil_iff.2 hs]
    rfl
  | false =>
    obtain ⟨blanks, c, rest, rfl, hb, hc⟩ := exists_blanks_append hs
    rw [trim, trimLeft_blanks_append hb hc, trimRight_append_of_last hc,
      trimLeft_blanks_append hb hc, ← List.nil_append (c :: rest), trimRight_append_of_last hc]
    rfl

theorem trim_trimRight (s : Text) : s.trimRight.trim = s.trim := by
  rw [trim_eq_trimLeft_trimRight, trimRight_trimRight, ← trim_eq_trimLeft_trimRight]

theorem trim_subset (s : Text) : s.trim ⊆ s :=
  fun _ hc => List.dropWhile_subset _ (trimRight_subset _ hc)

theorem allBlank_trimRight (s : Text) : s.trimRight.allBlank = s.allBlank := by
  rw [Bool.eq_iff_iff, ← trimRight_eq_nil_iff, trimRight_trimRight, trimRight_eq_nil_iff]

theorem trimRight_blank_cons (s : Text) :
    trimRight (' ' :: s) = if s.allBlank then [] else ' ' :: s.trimRight :=
  trimRight_append [' '] s

theorem trimRight_blank_cons_eq_iff :
    trimRight (' ' :: s) = trimRight (' ' :: t) ↔ s.trimRight = t.trimRight := by
  constructor
  · intro h
    rw [trimRight_blank_cons, trimRight_blank_cons] at h
    cases hs : s.allBlank <;> cases ht : t.allBlank <;> rw [hs, ht] at h
    · exact (List.cons.inj h).2
    · cases h
    · cases h
    · rw [trimRight_eq_nil_iff.2 hs, trimRight_eq_nil_iff.2 ht]
  · intro h
    rw [trimRight_blank_cons, trimRight_blank_cons, ← allBlank_trimRight s, h, allBlank_trimRight]

end Text

namespace FrontMatter

theorem unquote_subset (t : Text) : unquote t ⊆ t := by
  unfold unquote
  split
  · exact List.Subset.refl _
  · split
    · exact fun _ hc => List.mem_cons_of_mem _ (List.dropLast_subset _ hc)
    · exact List.Subset.refl _

theorem unquote_eq_or_quoted (t : Text) : unquote t = t ∨ ∃ mark inner,
    (mark = '"' ∨ mark = '\'') ∧ t = mark :: (inner ++ [mark]) ∧ unquote t = inner := by
  unfold unquote
  split
  · exact .inl rfl
  · rename_i mark rest
    split
    · rename_i h
      have hrest := List.dropLast_append_getLast? mark h.2
      exact .inr ⟨mark, rest.dropLast, h.1, congrArg _ hrest.symm, rfl⟩
    · exact .inl rfl

theorem unquote_eq_or_length_lt (t : Text) : unquote t = t ∨ (unquote t).length < t.length := by
  refine (unquote_eq_or_quoted t).imp_right ?_
  rintro ⟨mark, inner, -, ht, hinner⟩
  rw [hinner, ht, List.length_cons, List.length_append, List.length_singleton]
  omega

end FrontMatter

namespace Text

variable {t : Text}

/-- Whether a text comes back when it is read as a value, but for blanks at its end: nothing blank is
in front, and no quotes of its own are around it. -/
def ReadsBack (t : Text) : Prop :=
  t.allBlank ∨ t.trimLeft = t ∧ FrontMatter.unquote t.trimRight = t.trimRight

instance (t : Text) : Decidable t.ReadsBack := inferInstanceAs (Decidable (_ ∨ _))

theorem readsBack_iff : t.ReadsBack ↔ (FrontMatter.unquote t.trim).trimRight = t.trimRight := by
  constructor
  · rintro (hblank | ⟨hleft, hquotes⟩)
    · rw [trim, trimLeft_eq_nil_iff.2 hblank, trimRight_eq_nil_iff.2 hblank]
      rfl
    · rw [trim, hleft, hquotes, trimRight_trimRight]
  · intro h
    cases hblank : t.allBlank with
    | true => exact .inl hblank
    | false =>
      obtain ⟨blanks, c, rest, rfl, hb, hc⟩ := exists_blanks_append hblank
      have hright := trimRight_append_of_last (s := blanks) hc rest
      have htrim : trim (blanks ++ c :: rest) = c :: rest.trimRight := by
        rw [trim_eq_trimLeft_trimRight, hright, trimLeft_blanks_append hb hc]
      rw [htrim, hright] at h
      -- The text must not get shorter, neither on the left nor by its quotes.
      have hlength := congrArg List.length h
      have hend := length_trimRight_le (FrontMatter.unquote (c :: rest.trimRight))
      rw [List.length_append] at hlength
      have hquotes := FrontMatter.unquote_eq_or_length_lt (c :: rest.trimRight)
      have hfront : blanks = [] := by
        rcases hquotes with heq | hlt
        · rw [heq] at hend hlength
          exact List.length_eq_zero_iff.1 (by omega)
        · omega
      subst hfront
      refine .inr ⟨trimLeft_blanks_append rfl hc rest, ?_⟩
      rw [hright, List.nil_append]
      exact hquotes.resolve_right (by rw [List.length_nil] at hlength; omega)

end Text

namespace Value

/-- Whether a value comes back. A list does so item by item, and none may be blank. -/
def ReadsBack : Value → Prop
  | .scalar item => (itemText item).ReadsBack
  | .list items => ∀ item ∈ items, (itemText item).allBlank = false ∧ (itemText item).ReadsBack

instance : DecidablePred ReadsBack
  | .scalar item => inferInstanceAs (Decidable (itemText item).ReadsBack)
  | .list items => inferInstanceAs
      (Decidable (∀ item ∈ items, (itemText item).allBlank = false ∧ (itemText item).ReadsBack))

def itemBack (item : Option Text) : Option Text := some (FrontMatter.unquote (itemText item).trim)

def readBack : Value → Value
  | .scalar item => .scalar (itemBack item)
  | .list [] => .scalar (some [])
  | .list items => .list (items.map itemBack)

def Filled (v : Value) : Prop := v.isList → ∀ item ∈ v.items, (itemText item).allBlank = false

end Value

namespace Text

variable {s t : Text}

def OneLine (t : Text) : Prop := '\n' ∉ t ∧ '\r' ∉ t

instance (t : Text) : Decidable t.OneLine := inferInstanceAs (Decidable (_ ∧ _))

theorem OneLine.of_subset (h : t.OneLine) (hs : s ⊆ t) : s.OneLine :=
  ⟨fun hc => h.1 (hs hc), fun hc => h.2 (hs hc)⟩

theorem OneLine.append (hs : s.OneLine) (ht : t.OneLine) : OneLine (s ++ t) := by
  refine ⟨fun hc => ?_, fun hc => ?_⟩
  · exact (List.mem_append.1 hc).elim hs.1 ht.1
  · exact (List.mem_append.1 hc).elim hs.2 ht.2

end Text

namespace FrontMatter

structure IsName (name : Text) : Prop where
  filled : name.allBlank = false
  trimmed : name.trim = name
  bare : ':' ∉ name
  line : name.OneLine

/-- What is read as a name where it stands in front of a colon. -/
structure IsKey (name : Text) : Prop where
  filled : name.allBlank = false
  trimmed : name.trim = name
  bare : ':' ∉ name

theorem IsName.isKey {name : Text} (h : IsName name) : IsKey name := ⟨h.filled, h.trimmed, h.bare⟩

def rowsOf (e : Text × Value) : List Text := (declaration e.1 e.2).map Text.trimRight

def writtenRows (scope : Scope) : List Text :=
  scope.entries.flatMap fun (name, v) => declaration name v

/-- The rows that declare the variables of a scope in a document that is laid out. -/
def declaredRows (scope : Scope) : List Text := scope.entries.flatMap rowsOf

theorem declaredRows_eq (scope : Scope) :
    declaredRows scope = (writtenRows scope).map Text.trimRight :=
  List.map_flatMap.symm

def namedRow (name rest : Text) : Text := name ++ ':' :: rest

def itemRow (item : Option Text) : Text :=
  ' ' :: ' ' :: '-' :: Text.trimRight (' ' :: Value.itemText item)

theorem rowsOf_scalar (name : Text) (item : Option Text) :
    rowsOf (name, .scalar item) = [namedRow name (Text.trimRight (' ' :: Value.itemText item))] := by
  have hrow : (name ++ ": ".text ++ Value.itemText item).trimRight =
      namedRow name (Text.trimRight (' ' :: Value.itemText item)) := by
    rw [List.append_assoc]
    exact Text.trimRight_append_of_last (by decide) _
  exact congrArg (fun row => [row]) hrow

theorem rowsOf_list (name : Text) (items : List (Option Text)) :
    rowsOf (name, .list items) = namedRow name [] :: items.map itemRow := by
  have hname : (name ++ ":".text).trimRight = namedRow name [] :=
    Text.trimRight_append_of_last (by decide) []
  have hitem (item : Option Text) : ("  - ".text ++ Value.itemText item).trimRight = itemRow item :=
    Text.trimRight_append_of_last (s := [' ', ' ']) (by decide) (' ' :: Value.itemText item)
  rw [rowsOf, declaration, List.map_cons, hname, List.map_map]
  exact congrArg (namedRow name [] :: ·) (List.map_congr_left fun item _ => hitem item)

theorem IsKey.exists_cons {name : Text} (h : IsKey name) :
    ∃ c rest, name = c :: rest ∧ Text.isBlank c = false := by
  obtain ⟨blanks, c, rest, rfl, hb, hc⟩ := Text.exists_blanks_append h.filled
  have hlength := congrArg List.length h.trimmed
  have hright := Text.length_trimRight_le (c :: rest)
  rw [Text.trim, Text.trimLeft_blanks_append hb hc, List.length_append] at hlength
  have hfront : blanks = [] := List.length_eq_zero_iff.1 (by omega)
  exact ⟨c, rest, by rw [hfront]; rfl, hc⟩

namespace Reading

variable {r : Reading} {name : Text} {scope : Scope} {items : List Text}

theorem step_namedRow (h : IsKey name) (rest : Text) :
    r.step (namedRow name rest) =
      if rest.allBlank then ⟨r.close, some (name, [])⟩
      else ⟨r.close.insert name (.scalar (some (unquote rest.trim))), none⟩ := by
  have hdeclare : r.step (namedRow name rest) = r.declare (namedRow name rest) := by
    obtain ⟨c, others, rfl, hc⟩ := h.exists_cons
    have hblank : (namedRow (c :: others) rest).allBlank = false := by
      simp [namedRow, Text.allBlank, hc]
    have hitem : item? (namedRow (c :: others) rest) = none := by
      simp [item?, namedRow, Text.spanBlanks, hc]
    rw [step, if_neg (by simp [hblank]), hitem]
    cases r.open? with
    | none => rfl
    | some found => rfl
  have hcut : Text.cut? [':'] (namedRow name rest) = some (name, rest) :=
    Text.cut?_singleton_iff.2 ⟨rfl, h.bare⟩
  rw [hdeclare, declare, hcut]
  dsimp only
  rw [if_neg (by simp [h.filled]), h.trimmed]

theorem step_of_item? {row t : Text} (hrow : row.allBlank = false) (ht : item? row = some t) :
    step ⟨scope, some (name, items)⟩ row = ⟨scope, some (name, items ++ [t])⟩ := by
  rw [step, if_neg (by simp [hrow]), ht]

/-- A row for each of some items adds them to the list that is open. -/
theorem foldl_map_of_items {α : Type} {row f : α → Text} {written : List α}
    (h : ∀ a ∈ written, (row a).allBlank = false ∧ item? (row a) = some (f a)) :
    (written.map row).foldl step ⟨scope, some (name, items)⟩ =
      ⟨scope, some (name, items ++ written.map f)⟩ := by
  induction written generalizing items with
  | nil => simp
  | cons a rest ih =>
    obtain ⟨⟨hblank, hitem⟩, hrest⟩ := List.forall_mem_cons.1 h
    rw [List.map_cons, List.foldl_cons, step_of_item? hblank hitem, ih hrest]
    simp

theorem item?_itemRow {item : Option Text} (h : (Value.itemText item).allBlank = false) :
    (itemRow item).allBlank = false ∧
      item? (itemRow item) = some (unquote (Value.itemText item).trim) := by
  rw [itemRow, Text.trimRight_blank_cons, if_neg (by simp [h]), Text.trim_eq_trimLeft_trimRight]
  exact ⟨rfl, rfl⟩

/-- A blank item is written as a row that declares nothing and ends the list. -/
theorem itemRow_of_blank {item : Option Text} (h : (Value.itemText item).allBlank) :
    itemRow item = [' ', ' ', '-'] := by
  rw [itemRow, Text.trimRight_blank_cons, if_pos h]

theorem close_foldl_rowsOf {v : Value} (hname : IsName name) (hv : v.Filled) :
    ((rowsOf (name, v)).foldl step r).close = r.close.insert name v.readBack := by
  cases v with
  | scalar item =>
    rw [rowsOf_scalar, List.foldl_cons, List.foldl_nil, step_namedRow hname.isKey, Text.trim_trimRight,
      Text.allBlank_trimRight]
    have hblank : Text.allBlank (' ' :: Value.itemText item) = (Value.itemText item).allBlank := rfl
    have htrim : Text.trim (' ' :: Value.itemText item) = (Value.itemText item).trim := rfl
    rw [hblank, htrim]
    cases hitem : (Value.itemText item).allBlank with
    | false => rfl
    | true =>
      rw [if_pos rfl, Value.readBack, Value.itemBack, Text.trim, Text.trimLeft_eq_nil_iff.2 hitem]
      rfl
  | list items =>
    have hnone : Text.allBlank [] = true := rfl
    have hitems : ∀ item ∈ items, (Value.itemText item).allBlank = false := hv rfl
    rw [rowsOf_list, List.foldl_cons, step_namedRow hname.isKey, if_pos hnone,
      foldl_map_of_items fun item hitem => item?_itemRow (hitems item hitem)]
    cases items with
    | nil => rfl
    | cons item rest =>
      have hback : ((item :: rest).map fun i => unquote (Value.itemText i).trim).map some =
          (item :: rest).map Value.itemBack := List.map_map
      have hlist : (Value.list (item :: rest)).readBack = .list ((item :: rest).map Value.itemBack) :=
        rfl
      rw [hlist, ← hback]
      rfl

/-- Rows that declare each of some variables declare all of them, one after the other. -/
theorem close_foldl_flatMap {rows : Text × Value → List Text} {g : Value → Value}
    {es : List (Text × Value)}
    (h : ∀ e ∈ es, ∀ r : Reading, ((rows e).foldl step r).close = r.close.insert e.1 (g e.2)) :
    ((es.flatMap rows).foldl step r).close =
      es.foldl (fun s e => s.insert e.1 (g e.2)) r.close := by
  induction es generalizing r with
  | nil => rfl
  | cons e es ih =>
    obtain ⟨he, hes⟩ := List.forall_mem_cons.1 h
    rw [List.flatMap_cons, List.foldl_append, ih hes, he, List.foldl_cons]

end Reading

end FrontMatter

end Transclude

import Transclude.Layout
import Transclude.Proofs.HeaderEndings
import Transclude.Proofs.ReadingBack
import Transclude.Proofs.ScopeAbsorption

/-! Blocks without the blanks at the ends of their lines. Names and single values are read as before,
but an item keeps the blanks behind it, and one of nothing else is no item without them. So the same
variables are read if no item ends in a blank, and only then unless a name is declared twice. -/

namespace Transclude

namespace Text

variable {s : Text}

theorem trimRight_dropReturn (s : Text) : (dropReturn s).trimRight = s.trimRight := by
  unfold dropReturn
  split
  · rename_i hlast
    have hs := List.dropLast_append_getLast? '\r' hlast
    have hcut := trimRight_append s.dropLast ['\r']
    rwa [hs, if_pos (by decide), eq_comm] at hcut
  · rfl

theorem map_trimRight_dropReturns (ls : List Text) :
    (dropReturns ls).map trimRight = ls.map trimRight := by
  fun_induction dropReturns ls with
  | case1 => rfl
  | case2 line => rfl
  | case3 line next rest ih => rw [List.map_cons, ih, trimRight_dropReturn, ← List.map_cons]

theorem isRow_trimRight (h : '\n' ∉ s) : FrontMatter.IsRow s.trimRight :=
  ⟨not_mem_trimRight h, fun hlast => absurd (getLast?_trimRight hlast) (by decide)⟩

end Text

theorem Layout.lines_trimLines (s : Text) : (trimLines s).lines = s.lines.map Text.trimRight := by
  have hrows : s.lines.map Text.trimRight = s.rows.map Text.trimRight :=
    Text.map_trimRight_dropReturns s.rows
  have hne : s.rows.map Text.trimRight ≠ [] := by simp [Text.rows_ne_nil]
  rw [hrows]
  refine FrontMatter.lines_intercalate (.inl rfl) hne fun r hr => ?_
  obtain ⟨u, hu, rfl⟩ := List.mem_map.1 hr
  exact Text.isRow_trimRight (Text.not_mem_of_mem_rows hu)

namespace FrontMatter

variable {row item gap value name : Text}

theorem item?_hyphen (hne : gap ≠ []) (hgap : gap.allBlank) (rest : Text) :
    item? (gap ++ '-' :: rest) =
      match rest with
      | [] => none
      | c :: value => if Text.isBlank c then some (unquote (Text.trimLeft value)) else none := by
  have hall : ∀ c ∈ gap, Text.isBlank c := List.all_eq_true.1 hgap
  have hspan : Text.spanBlanks (gap ++ '-' :: rest) = (gap, '-' :: rest) := by
    have hhyphen : ¬ Text.isBlank '-' := by decide
    rw [Text.spanBlanks, List.takeWhile_append_of_pos hall, List.dropWhile_append_of_pos hall,
      List.takeWhile_cons_of_neg hhyphen, List.dropWhile_cons_of_neg hhyphen, List.append_nil]
  unfold item?
  rw [hspan]
  split
  · rename_i heq
    exact absurd (Prod.mk.inj heq).1 hne
  · rename_i body _ heq
    obtain ⟨-, rfl⟩ := Prod.mk.inj heq
    cases rest with
    | nil => rfl
    | cons c value => cases hc : Text.isBlank c <;> simp [Text.spanBlanks, Text.trimLeft, hc]

theorem exists_of_item? (h : item? row = some item) : ∃ gap c value,
    row = gap ++ '-' :: c :: value ∧ gap ≠ [] ∧ gap.allBlank ∧ Text.isBlank c ∧
      unquote (Text.trimLeft value) = item := by
  have hrow := Text.spanBlanks_append row
  unfold item? at h
  split at h
  · cases h
  · rename_i gap body hne hspan
    have hgap : gap.allBlank := by
      refine List.all_eq_true.2 fun c hc => ?_
      have hfront : gap = row.takeWhile Text.isBlank := (congrArg Prod.fst hspan).symm
      exact List.mem_takeWhile_imp (hfront ▸ hc)
    rw [hspan] at hrow
    split at h
    · rename_i rest
      cases rest with
      | nil => simp [Text.spanBlanks] at h
      | cons c value =>
        cases hc : Text.isBlank c with
        | false => simp [Text.spanBlanks, hc] at h
        | true =>
          have hitem : unquote (Text.trimLeft value) = item := by
            simpa [Text.spanBlanks, Text.trimLeft, hc] using h
          exact ⟨gap, c, value, hrow.symm, hne, hgap, hc, hitem⟩
    · cases h

theorem allBlank_of_item? (h : item? row = some item) : row.allBlank = false := by
  obtain ⟨gap, c, value, rfl, -⟩ := exists_of_item? h
  exact List.all_eq_false.2 ⟨'-', List.mem_append_right gap List.mem_cons_self, by decide⟩

theorem isSome_item?_of_trimRight (h : item? row.trimRight = some item) : (item? row).isSome := by
  obtain ⟨gap, c, value, hrow, hne, hgap, hc, -⟩ := exists_of_item? h
  obtain ⟨more, hmore⟩ := Text.trimRight_prefix row
  rw [← hmore, hrow, List.append_assoc, List.cons_append, List.cons_append, item?_hyphen hne hgap]
  dsimp only
  rw [if_pos hc]
  rfl

theorem unquote_trimRight_ne (h : Text.trimRight value ≠ value) :
    unquote (Text.trimRight value) ≠ unquote value := by
  have hvalue : unquote value = value := by
    refine (unquote_eq_or_quoted value).resolve_right ?_
    rintro ⟨mark, inner, hmark, rfl, -⟩
    refine h ?_
    have hlast : Text.isBlank mark = false := by rcases hmark with rfl | rfl <;> decide
    exact Text.trimRight_append_of_last (s := mark :: inner) hlast []
  intro heq
  have hlength := congrArg List.length (heq.trans hvalue)
  have hstart := Text.trimRight_prefix value
  have hquotes := unquote_eq_or_length_lt (Text.trimRight value)
  refine h (hstart.eq_of_length_le ?_)
  rcases hquotes with hquotes | hquotes
  · rw [← hlength, hquotes]
  · omega

theorem item?_trimRight_ne (h : item? row = some item) (hloose : row.trimRight ≠ row) :
    item? row.trimRight ≠ some item := by
  obtain ⟨gap, c, value, rfl, hne, hgap, hc, rfl⟩ := exists_of_item? h
  have hcut := Text.trimRight_append [c] value
  rw [List.singleton_append] at hcut
  rw [Text.trimRight_append_of_last (by decide), hcut] at hloose ⊢
  rw [item?_hyphen hne hgap]
  cases hblank : Text.allBlank value with
  | true =>
    have hone : Text.allBlank [c] := by simpa [Text.allBlank] using hc
    have hnil : Text.trimRight [c] = [] := Text.trimRight_eq_nil_iff.2 hone
    rw [if_pos rfl, hnil]
    exact (Option.some_ne_none _).symm
  | false =>
    rw [hblank, if_neg Bool.false_ne_true] at hloose
    rw [if_neg Bool.false_ne_true, List.singleton_append]
    dsimp only
    rw [if_pos hc, ← Text.trim_eq_trimLeft_trimRight, Text.trim, Ne, Option.some_inj]
    refine unquote_trimRight_ne fun heq => hloose ?_
    obtain ⟨blanks, d, rest, rfl, hb, hd⟩ := Text.exists_blanks_append hblank
    rw [Text.trimLeft_blanks_append hb hd] at heq
    have hkeep := Text.trimRight_append_of_last (s := []) hd rest
    rw [List.nil_append, List.nil_append] at hkeep
    rw [Text.trimRight_append_of_last hd, ← hkeep, heq, List.singleton_append]

theorem declare_trimRight (r : Reading) (row : Text) : r.declare row.trimRight = r.declare row := by
  by_cases hcolon : ':' ∈ row
  · obtain ⟨name, value, rfl, hname⟩ := List.eq_append_cons_of_mem hcolon
    have hcut : Text.cut? [':'] (name ++ ':' :: value) = some (name, value) :=
      Text.cut?_singleton_iff.2 ⟨rfl, hname⟩
    have htrimmed : Text.cut? [':'] (name ++ ':' :: Text.trimRight value) =
        some (name, Text.trimRight value) := Text.cut?_singleton_iff.2 ⟨rfl, hname⟩
    rw [Text.trimRight_append_of_last (by decide), Reading.declare, Reading.declare, hcut, htrimmed]
    dsimp only
    rw [Text.allBlank_trimRight, Text.trim_trimRight]
  · have htrimmed := Text.cut?_singleton_eq_none_iff.2 (Text.not_mem_trimRight hcolon)
    rw [Reading.declare, Reading.declare, Text.cut?_singleton_eq_none_iff.2 hcolon, htrimmed]

def declared? (row : Text) : Option Text :=
  match Text.cut? [':'] row with
  | none => none
  | some (name, _) => if name.allBlank then none else some name.trim

namespace Reading

variable {r t : Reading} {items : List Text} {rows before behind : List Text}

def takes (r : Reading) (row : Text) : Bool := r.open?.isSome && (item? row).isSome

theorem takes_iff : r.takes row ↔
    ∃ name items item, r.open? = some (name, items) ∧ item? row = some item := by
  rw [takes, Bool.and_eq_true, Option.isSome_iff_exists, Option.isSome_iff_exists]
  constructor
  · rintro ⟨⟨⟨name, items⟩, hopen⟩, item, hitem⟩
    exact ⟨name, items, item, hopen, hitem⟩
  · rintro ⟨name, items, item, hopen, hitem⟩
    exact ⟨⟨(name, items), hopen⟩, item, hitem⟩

theorem step_blank (h : row.allBlank) : r.step row = r := if_pos h

theorem step_trimRight_blank (h : row.allBlank) : r.step row.trimRight = r :=
  step_blank (by rwa [Text.allBlank_trimRight])

theorem step_item (hopen : r.open? = some (name, items)) (hitem : item? row = some item) :
    r.step row = ⟨r.scope, some (name, items ++ [item])⟩ := by
  rw [step, if_neg (by simp [allBlank_of_item? hitem]), hopen, hitem]

theorem step_declare (hblank : row.allBlank = false) (h : r.takes row = false) :
    r.step row = r.declare row := by
  rw [step, if_neg (by simp [hblank])]
  split
  · rename_i hopen hitem
    rw [takes, hopen, hitem] at h
    cases h
  · rfl

theorem takes_trimRight (h : r.takes row = false) (hopen : r.open? = none → t.open? = none) :
    t.takes row.trimRight = false := by
  cases htrim : t.takes row.trimRight with
  | false => rfl
  | true =>
    obtain ⟨name, items, item, ht, hitem⟩ := takes_iff.1 htrim
    rw [takes, isSome_item?_of_trimRight hitem, Bool.and_true] at h
    rw [hopen (by simpa using h)] at ht
    cases ht

theorem step_trimRight (hblank : row.allBlank = false) (h : r.takes row = false)
    (hopen : r.open? = none → t.open? = none) : t.step row.trimRight = t.declare row := by
  rw [step_declare (by rw [Text.allBlank_trimRight, hblank]) (takes_trimRight h hopen),
    declare_trimRight]

theorem open_declare (r t : Reading) (row : Text) : (r.declare row).open? = (t.declare row).open? := by
  unfold declare
  cases Text.cut? [':'] row with
  | none => rfl
  | some halves =>
    dsimp only
    split
    · rfl
    · split <;> rfl

theorem declared_of_open (h : (r.declare row).open? = some (name, items)) :
    declared? row = some name ∧ items = [] := by
  unfold declare at h
  unfold declared?
  cases hcut : Text.cut? [':'] row with
  | none =>
    rw [hcut] at h
    cases h
  | some halves =>
    rw [hcut] at h
    dsimp only at h ⊢
    split at h
    · cases h
    · rename_i hname
      split at h
      · obtain ⟨rfl, rfl⟩ := Prod.mk.inj (Option.some.inj h)
        rw [if_neg hname]
        exact ⟨rfl, rfl⟩
      · cases h

theorem get?_declare (h : declared? row ≠ some name) :
    (r.declare row).scope.get? name = r.close.get? name := by
  unfold declare
  unfold declared? at h
  cases hcut : Text.cut? [':'] row with
  | none => rfl
  | some halves =>
    rw [hcut] at h
    dsimp only at h ⊢
    split at h
    · rename_i hname
      rw [if_pos hname]
    · rename_i hname
      rw [if_neg hname]
      split
      · rfl
      · rw [Scope.get?_insert, if_neg fun heq => h (congrArg some heq.symm)]

theorem get?_close_of_ne (h : ∀ items, r.open? ≠ some (name, items)) :
    r.close.get? name = r.scope.get? name := by
  obtain ⟨scope, open?⟩ := r
  cases open? with
  | none => rfl
  | some found =>
    obtain ⟨other, items⟩ := found
    have hne : name ≠ other := fun heq => h items (heq ▸ rfl)
    cases items <;> exact (Scope.get?_insert scope other name _).trans (if_neg hne)

theorem get?_close (hopen : r.open? = some (name, items)) (hne : items ≠ []) :
    r.close.get? name = some (.list (items.map some)) := by
  obtain ⟨scope, open?⟩ := r
  obtain rfl : open? = some (name, items) := hopen
  cases items with
  | nil => exact absurd rfl hne
  | cons item items => exact (Scope.get?_insert scope name name _).trans (if_pos rfl)

/-- How many items the list of a name has; what is no list has none. -/
def sizeIn (s : Scope) (name : Text) : Nat :=
  match s.get? name with
  | some (.list items) => items.length
  | _ => 0

theorem sizeIn_insert (s : Scope) (name other : Text) (v : Value) :
    sizeIn (s.insert name v) other =
      if other = name then (if v.isList then v.items.length else 0) else sizeIn s other := by
  by_cases hname : other = name
  · rw [sizeIn, Scope.get?_insert, if_pos hname, if_pos hname]
    cases v <;> rfl
  · rw [sizeIn, Scope.get?_insert, if_neg hname, if_neg hname, sizeIn]

theorem sizeIn_insert_scalar_le (s : Scope) (name other : Text) (item : Option Text) :
    sizeIn (s.insert name (.scalar item)) other ≤ sizeIn s other := by
  rw [sizeIn_insert]
  split
  · exact Nat.zero_le _
  · exact Nat.le_refl _

theorem sizeIn_close (hopen : r.open? = some (name, items)) : sizeIn r.close name = items.length := by
  obtain ⟨scope, open?⟩ := r
  obtain rfl : open? = some (name, items) := hopen
  cases items with
  | nil => exact (sizeIn_insert scope name name _).trans (if_pos rfl)
  | cons item items =>
    refine (sizeIn_insert scope name name _).trans ((if_pos rfl).trans ?_)
    exact List.length_map some

theorem sizeIn_close_of_ne (h : ∀ items, r.open? ≠ some (name, items)) :
    sizeIn r.close name = sizeIn r.scope name := by
  rw [sizeIn, get?_close_of_ne h, sizeIn]

theorem sizeIn_declare_le (r : Reading) (row name : Text) :
    sizeIn (r.declare row).close name ≤ sizeIn r.close name := by
  unfold declare
  split
  · exact Nat.le_refl _
  · split
    · exact Nat.le_refl _
    · split
      · exact sizeIn_insert_scalar_le _ _ _ _
      · exact sizeIn_insert_scalar_le _ _ _ _

theorem sizeIn_step_le (r : Reading) (row name : Text) :
    sizeIn (r.step row).close name ≤ sizeIn r.close name + 1 := by
  cases hblank : row.allBlank with
  | true =>
    rw [step_blank hblank]
    exact Nat.le_succ _
  | false =>
    cases htakes : r.takes row with
    | false =>
      rw [step_declare hblank htakes]
      exact Nat.le_succ_of_le (sizeIn_declare_le r row name)
    | true =>
      obtain ⟨other, items, item, hopen, hitem⟩ := takes_iff.1 htakes
      rw [step_item hopen hitem]
      by_cases hname : other = name
      · subst hname
        rw [sizeIn_close rfl, sizeIn_close hopen, List.length_append, List.length_singleton]
      · rw [sizeIn_close_of_ne fun _ heq => hname (Prod.mk.inj (Option.some.inj heq)).1,
          sizeIn_close_of_ne fun _ heq => hname (Prod.mk.inj (Option.some.inj (hopen ▸ heq))).1]
        exact Nat.le_succ _

def names (r : Reading) : List Text → List Text
  | [] => []
  | row :: rest =>
    (if row.allBlank || r.takes row then [] else (declared? row).toList) ++ names (r.step row) rest

/-- Whether no row that is read as an item ends in a blank. -/
def Tight (r : Reading) : List Text → Prop
  | [] => True
  | row :: rest => (r.takes row → row.trimRight = row) ∧ Tight (r.step row) rest

instance decidableTight : (r : Reading) → (rows : List Text) → Decidable (r.Tight rows)
  | _, [] => isTrue trivial
  | r, row :: rest =>
    have := decidableTight (r.step row) rest
    inferInstanceAs (Decidable ((r.takes row → row.trimRight = row) ∧ (r.step row).Tight rest))

theorem names_append (r : Reading) (xs ys : List Text) :
    names r (xs ++ ys) = names r xs ++ names (xs.foldl step r) ys := by
  induction xs generalizing r with
  | nil => rfl
  | cons x xs ih => rw [List.cons_append, names, ih, names, List.append_assoc, List.foldl_cons]

theorem Tight.foldl_trimRight (h : r.Tight rows) :
    (rows.map Text.trimRight).foldl step r = rows.foldl step r := by
  induction rows generalizing r with
  | nil => rfl
  | cons row rows ih =>
    have hrow : r.step row.trimRight = r.step row := by
      cases hblank : row.allBlank with
      | true => rw [step_blank hblank, step_trimRight_blank hblank]
      | false =>
        cases htakes : r.takes row with
        | true => rw [h.1 htakes]
        | false => rw [step_trimRight hblank htakes id, step_declare hblank htakes]
    rw [List.map_cons, List.foldl_cons, List.foldl_cons, hrow, ih h.2]

/-- Whether the list of a name is open with `n` items of which `P` holds, or is shorter than that. -/
def Trails (t : Reading) (name : Text) (n : Nat) (P : List Text → Prop) : Prop :=
  (∃ others, t.open? = some (name, others) ∧ others.length = n ∧ P others) ∨
    sizeIn t.close name < n

theorem Trails.imp {n : Nat} {P Q : List Text → Prop} (h : t.Trails name n P) (hpq : ∀ l, P l → Q l) :
    t.Trails name n Q :=
  h.imp_left fun ⟨others, hopen, hlength, hp⟩ => ⟨others, hopen, hlength, hpq others hp⟩

theorem Trails.step {n : Nat} {P : List Text → Prop} (h : t.Trails name n P)
    (hblank : row.allBlank = false) :
    (t.step row).Trails name (n + 1) fun others =>
      ∃ init item, others = init ++ [item] ∧ item? row = some item ∧ P init := by
  rcases h with ⟨others, hopen, hlength, hp⟩ | hshort
  · cases hitem : item? row with
    | some item =>
      refine .inl ⟨others ++ [item], ?_, ?_, others, item, rfl, rfl, hp⟩
      · rw [step_item hopen hitem]
      · rw [List.length_append, List.length_singleton, hlength]
    | none =>
      have htakes : t.takes row = false := by rw [takes, hitem, Option.isSome_none, Bool.and_false]
      have hsize := sizeIn_declare_le t row name
      rw [sizeIn_close hopen, hlength] at hsize
      rw [step_declare hblank htakes]
      exact .inr (Nat.lt_succ_of_le hsize)
  · exact .inr (Nat.lt_of_le_of_lt (sizeIn_step_le t row name) (Nat.succ_lt_succ hshort))

/-- How the readings of rows with and without the blanks at their ends hang together: no list is open
in the second that is not open in the first, and none has got longer there. -/
structure Aligned (r t : Reading) : Prop where
  closed : r.open? = none → t.open? = none
  opened : ∀ name items, r.open? = some (name, items) → t.Trails name items.length fun _ => True

theorem Aligned.refl (r : Reading) : Aligned r r :=
  ⟨id, fun _ items hopen => .inl ⟨items, hopen, rfl, trivial⟩⟩

theorem aligned_declare (r t : Reading) (row : Text) : Aligned (r.declare row) (t.declare row) := by
  have hopen := open_declare t r row
  refine ⟨fun hnone => hopen.trans hnone, fun name items hitems => ?_⟩
  exact .inl ⟨items, hopen.trans hitems, rfl, trivial⟩

theorem Aligned.step (h : Aligned r t) (row : Text) : Aligned (r.step row) (t.step row.trimRight) := by
  cases hblank : row.allBlank with
  | true => rwa [step_blank hblank, step_trimRight_blank hblank]
  | false =>
    cases htakes : r.takes row with
    | false =>
      rw [step_declare hblank htakes, step_trimRight hblank htakes h.closed]
      exact aligned_declare r t row
    | true =>
      obtain ⟨name, items, item, hopen, hitem⟩ := takes_iff.1 htakes
      have htrimmed : row.trimRight.allBlank = false := by rw [Text.allBlank_trimRight, hblank]
      have hstep := (h.opened name items hopen).step htrimmed
      rw [step_item hopen hitem]
      refine ⟨nofun, fun other more hmore => ?_⟩
      obtain ⟨rfl, rfl⟩ := Prod.mk.inj (Option.some.inj hmore)
      rw [List.length_append, List.length_singleton]
      exact hstep.imp fun _ _ => trivial

theorem Aligned.foldl (h : Aligned r t) (rows : List Text) :
    Aligned (rows.foldl Reading.step r) ((rows.map Text.trimRight).foldl Reading.step t) := by
  induction rows generalizing r t with
  | nil => exact h
  | cons row rows ih => exact ih (h.step row)

/-- How the readings part at a name: its list is still open, and it is another one or shorter without
the blanks, or it was closed and is another variable there. -/
inductive Apart (name : Text) (r t : Reading) : Prop
  | within (items : List Text) (hopen : r.open? = some (name, items)) (hne : items ≠ [])
      (htrails : t.Trails name items.length (· ≠ items))
  | behind (hopen : t.open? = r.open?) (hother : ∀ items, r.open? ≠ some (name, items))
      (hscope : t.scope.get? name ≠ r.scope.get? name)

theorem Apart.get?_close_ne (h : Apart name r t) : t.close.get? name ≠ r.close.get? name := by
  cases h with
  | within items hopen hne htrails =>
    rw [get?_close hopen hne]
    rcases htrails with ⟨others, hothers, hlength, hdiffer⟩ | hshort
    · have hfilled : others ≠ [] := by
        rintro rfl
        exact hne (List.length_eq_zero_iff.1 hlength.symm)
      rw [get?_close hothers hfilled]
      intro heq
      have hlists := Value.list.inj (Option.some.inj heq)
      exact hdiffer (List.map_injective_iff.2 (fun _ _ => Option.some.inj) hlists)
    · intro heq
      rw [sizeIn, heq] at hshort
      dsimp only at hshort
      rw [List.length_map] at hshort
      exact absurd hshort (Nat.lt_irrefl _)
  | behind hopen hother hscope =>
    rwa [get?_close_of_ne hother, get?_close_of_ne fun items => hopen ▸ hother items]

theorem Aligned.apart (h : Aligned r t) (hopen : r.open? = some (name, items))
    (hitem : item? row = some item) (hloose : row.trimRight ≠ row) :
    Apart name (r.step row) (t.step row.trimRight) := by
  have hblank : row.trimRight.allBlank = false := by
    rw [Text.allBlank_trimRight, allBlank_of_item? hitem]
  have hstep := (h.opened name items hopen).step hblank
  rw [step_item hopen hitem]
  refine .within (items ++ [item]) rfl (by simp) ?_
  rw [List.length_append, List.length_singleton]
  refine hstep.imp fun others => ?_
  rintro ⟨init, other, rfl, hother, -⟩ heq
  obtain ⟨-, hsame⟩ := List.append_inj' heq rfl
  rw [List.singleton_inj.1 hsame] at hother
  exact item?_trimRight_ne hitem hloose hother

theorem Apart.step (h : Apart name r t) (htight : r.takes row → row.trimRight = row)
    (hname : row.allBlank = false → r.takes row = false → declared? row ≠ some name) :
    Apart name (r.step row) (t.step row.trimRight) := by
  cases hblank : row.allBlank with
  | true => rwa [step_blank hblank, step_trimRight_blank hblank]
  | false =>
    cases htakes : r.takes row with
    | false =>
      have hclose := h.get?_close_ne
      have hdeclared := hname hblank htakes
      have hopen : r.open? = none → t.open? = none := by
        cases h with
        | within items hopen => exact fun hnone => nomatch hopen.symm.trans hnone
        | behind hopen => exact fun hnone => hopen.trans hnone
      rw [step_declare hblank htakes, step_trimRight hblank htakes hopen]
      refine .behind (open_declare t r row) (fun items hother => ?_) ?_
      · exact hdeclared (declared_of_open hother).1
      · rwa [get?_declare hdeclared, get?_declare hdeclared]
    | true =>
      obtain ⟨found, items, item, hfound, hitem⟩ := takes_iff.1 htakes
      rw [htight htakes, step_item hfound hitem]
      -- While the list is open the two differ in its items, later in its value.
      cases h with
      | within items hopen hne htrails =>
        obtain ⟨rfl, rfl⟩ := Prod.mk.inj (Option.some.inj (hfound.symm.trans hopen))
        refine .within (items ++ [item]) rfl (by simp) ?_
        rw [List.length_append, List.length_singleton]
        refine (htrails.step hblank).imp fun others => ?_
        rintro ⟨init, other, rfl, hother, hdiffer⟩ heq
        exact hdiffer (List.append_inj' heq rfl).1
      | behind hopen hother hscope =>
        rw [step_item (hopen.trans hfound) hitem]
        refine .behind rfl (fun more hmore => ?_) hscope
        obtain ⟨rfl, -⟩ := Prod.mk.inj (Option.some.inj hmore)
        exact hother items hfound

theorem Apart.foldl (h : Apart name r t) (htight : r.Tight rows) (hname : name ∉ names r rows) :
    Apart name (rows.foldl Reading.step r) ((rows.map Text.trimRight).foldl Reading.step t) := by
  induction rows generalizing r t with
  | nil => exact h
  | cons row rows ih =>
    rw [names, List.mem_append, not_or] at hname
    refine ih (h.step htight.1 fun hblank htakes hdeclared => hname.1 ?_) htight.2 hname.2
    rw [hblank, htakes, hdeclared]
    exact List.mem_singleton_self name

theorem exists_loose (h : ¬ r.Tight rows) : ∃ before row behind, rows = before ++ row :: behind ∧
    (before.foldl step r).takes row ∧ row.trimRight ≠ row ∧
      ((before.foldl step r).step row).Tight behind := by
  induction rows generalizing r with
  | nil => exact absurd trivial h
  | cons row rows ih =>
    by_cases hrest : (r.step row).Tight rows
    · have hrow : ¬ (r.takes row → row.trimRight = row) := fun hrow => h ⟨hrow, hrest⟩
      obtain ⟨htakes, hloose⟩ := Classical.not_imp.1 hrow
      exact ⟨[], row, rows, rfl, htakes, hloose, hrest⟩
    · obtain ⟨before, other, behind, rfl, htakes, hloose, htight⟩ := ih hrest
      exact ⟨row :: before, other, behind, rfl, htakes, hloose, htight⟩

theorem mem_names_of_open (hopen : (rows.foldl step r).open? = some (name, items)) :
    (∃ before, r.open? = some (name, before)) ∨ name ∈ names r rows := by
  induction rows generalizing r with
  | nil => exact .inl ⟨items, hopen⟩
  | cons row rows ih =>
    rw [names]
    rcases ih hopen with ⟨before, hbefore⟩ | hmem
    · cases hblank : row.allBlank with
      | true =>
        rw [step_blank hblank] at hbefore
        exact .inl ⟨before, hbefore⟩
      | false =>
        cases htakes : r.takes row with
        | true =>
          obtain ⟨found, others, item, hfound, hitem⟩ := takes_iff.1 htakes
          rw [step_item hfound hitem] at hbefore
          obtain ⟨rfl, -⟩ := Prod.mk.inj (Option.some.inj hbefore)
          exact .inl ⟨others, hfound⟩
        | false =>
          rw [step_declare hblank htakes] at hbefore
          refine .inr (List.mem_append_left _ ?_)
          rw [(declared_of_open hbefore).1]
          exact List.mem_singleton_self name
    · exact .inr (List.mem_append_right _ hmem)

theorem close_foldl_trimRight_ne (h : ¬ start.Tight rows) (hnames : (start.names rows).Nodup) :
    ((rows.map Text.trimRight).foldl step start).close ≠ (rows.foldl step start).close := by
  obtain ⟨before, row, behind, rfl, htakes, hloose, htight⟩ := exists_loose h
  obtain ⟨name, items, item, hopen, hitem⟩ := takes_iff.1 htakes
  have hbefore : name ∈ start.names before := (mem_names_of_open hopen).resolve_left nofun
  have hbehind : name ∉ names ((before.foldl step start).step row) behind := by
    rw [names_append, names, List.nodup_append] at hnames
    exact fun hmem => hnames.2.2 name hbefore name (List.mem_append_right _ hmem) rfl
  have hapart := (((Aligned.refl start).foldl before).apart hopen hitem hloose).foldl htight hbehind
  rw [List.map_append, List.map_cons, List.foldl_append, List.foldl_append, List.foldl_cons,
    List.foldl_cons]
  exact fun heq => hapart.get?_close_ne (congrArg (Scope.get? · name) heq)

end Reading

/-- What a block declares does not hang on the blanks at the ends of its lines if no item ends in a
blank, and only then if no name is declared twice. -/
theorem scopeOf_trimLines (block : Text) :
    (Reading.start.Tight block.lines → scopeOf (Layout.trimLines block) = scopeOf block) ∧
    ((Reading.start.names block.lines).Nodup → scopeOf (Layout.trimLines block) = scopeOf block →
      Reading.start.Tight block.lines) := by
  rw [scopeOf, scopeOf, Layout.lines_trimLines]
  refine ⟨fun h => by rw [h.foldl_trimRight], fun hnames heq => ?_⟩
  by_contra hloose
  exact Reading.close_foldl_trimRight_ne hloose hnames heq

def spacedBlock : Text := "title: 'A'  \ntags: \t\n   \n  -  a\n  - \"b  c\"\nfree\r\n - x: y ".text

theorem scopeOf_trimLines_of_spaced : Reading.start.Tight spacedBlock.lines ∧
    (Reading.start.names spacedBlock.lines).Nodup ∧
    Layout.trimLines spacedBlock ≠ spacedBlock ∧
    scopeOf (Layout.trimLines spacedBlock) = scopeOf spacedBlock := by
  have htight : Reading.start.Tight spacedBlock.lines := by decide
  exact ⟨htight, by decide, by decide, (scopeOf_trimLines spacedBlock).1 htight⟩

/-- An item keeps the blank behind it, and an empty one ends its list when the blank is gone. -/
theorem blank_behind_item_is_read :
    scopeOf "tags:\n  - a ".text = .ofList [("tags".text, .list [some "a ".text])] ∧
    scopeOf (Layout.trimLines "tags:\n  - a ".text) =
      .ofList [("tags".text, .list [some "a".text])] ∧
    scopeOf "tags:\n  - \n  - b".text = .ofList [("tags".text, .list [some [], some "b".text])] ∧
    scopeOf (Layout.trimLines "tags:\n  - \n  - b".text) =
      .ofList [("tags".text, .scalar (some []))] ∧
    ¬ ∀ block, scopeOf (Layout.trimLines block) = scopeOf block := by
  refine ⟨by decide, by decide, by decide, by decide, fun h => ?_⟩
  exact absurd (h "tags:\n  - a ".text) (by decide)

end FrontMatter
end Transclude

import Transclude.Scope

/-! Absorption of scopes, name by name. It is not associative: a name that holds one item on both
sides loses the deeper one, and an item that was lost cannot come back with a list. It becomes
associative once the middle scope extends the first, as everything does that was built from it. -/

namespace Transclude
namespace Value

/-- The value of a name that is declared nearer the root, after it has taken in a deeper one. -/
def absorb (nearer deeper : Value) : Value :=
  if nearer.isList || deeper.isList then .list (union nearer.items deeper.items) else nearer

/-- A list without repetitions; one item stays as it is. -/
def distinct : Value → Value
  | .scalar item => .scalar item
  | .list items => .list (distinctFrom [] items)

theorem distinctFrom_congr {seen seen' : List Text} (h : ∀ t, t ∈ seen ↔ t ∈ seen')
    (xs : List (Option Text)) : distinctFrom seen xs = distinctFrom seen' xs := by
  induction xs generalizing seen seen' with
  | nil => rfl
  | cons x xs ih =>
    have hx : ∀ t, t ∈ itemText x :: seen ↔ t ∈ itemText x :: seen' := by
      intro t
      simp only [List.mem_cons, h t]
    simp only [distinctFrom, h (itemText x), ih h, ih hx]

theorem distinctFrom_append (seen : List Text) (xs ys : List (Option Text)) :
    distinctFrom seen (xs ++ ys) =
      distinctFrom seen xs ++ distinctFrom (xs.map itemText ++ seen) ys := by
  induction xs generalizing seen with
  | nil => rfl
  | cons x xs ih =>
    by_cases hx : itemText x ∈ seen
    · have hseen : ∀ t, t ∈ (x :: xs).map itemText ++ seen ↔ t ∈ xs.map itemText ++ seen := by
        intro t
        simp only [List.map_cons, List.cons_append, List.mem_cons, List.mem_append]
        grind
      simp only [List.cons_append, distinctFrom, if_pos hx, ih, distinctFrom_congr hseen]
    · have hseen : ∀ t, t ∈ (x :: xs).map itemText ++ seen ↔
          t ∈ xs.map itemText ++ itemText x :: seen := by
        intro t
        simp only [List.map_cons, List.cons_append, List.mem_cons, List.mem_append]
        grind
      simp only [List.cons_append, distinctFrom, if_neg hx, ih, distinctFrom_congr hseen]

theorem distinctFrom_distinctFrom {seen seen' : List Text} (h : ∀ t ∈ seen, t ∈ seen')
    (xs : List (Option Text)) : distinctFrom seen' (distinctFrom seen xs) = distinctFrom seen' xs := by
  induction xs generalizing seen seen' with
  | nil => rfl
  | cons x xs ih =>
    by_cases hx : itemText x ∈ seen
    · simp only [distinctFrom, if_pos hx, if_pos (h _ hx), ih h]
    · by_cases hx' : itemText x ∈ seen'
      · have hcons : ∀ t ∈ itemText x :: seen, t ∈ seen' := by
          intro t ht
          rcases List.mem_cons.1 ht with rfl | ht
          · exact hx'
          · exact h t ht
        simp only [distinctFrom, if_neg hx, if_pos hx', ih hcons]
      · have hcons : ∀ t ∈ itemText x :: seen, t ∈ itemText x :: seen' := by
          intro t ht
          rcases List.mem_cons.1 ht with rfl | ht
          · exact List.mem_cons_self
          · exact List.mem_cons_of_mem _ (h t ht)
        simp only [distinctFrom, if_neg hx, if_neg hx', ih hcons]

theorem distinctFrom_eq_nil {seen : List Text} {xs : List (Option Text)}
    (h : ∀ x ∈ xs, itemText x ∈ seen) : distinctFrom seen xs = [] := by
  induction xs with
  | nil => rfl
  | cons x xs ih =>
    rw [distinctFrom, if_pos (h x List.mem_cons_self)]
    exact ih fun y hy => h y (List.mem_cons_of_mem _ hy)

theorem mem_map_distinctFrom (seen : List Text) (xs : List (Option Text)) (t : Text) :
    t ∈ (distinctFrom seen xs).map itemText ++ seen ↔ t ∈ xs.map itemText ++ seen := by
  induction xs generalizing seen with
  | nil => rfl
  | cons x xs ih =>
    by_cases hx : itemText x ∈ seen
    · rw [distinctFrom, if_pos hx, ih]
      simp only [List.map_cons, List.cons_append, List.mem_cons, List.mem_append]
      grind
    · have := ih (itemText x :: seen)
      rw [distinctFrom, if_neg hx]
      simp only [List.map_cons, List.cons_append, List.mem_cons, List.mem_append] at this ⊢
      grind

theorem union_union_left (xs ys zs : List (Option Text)) :
    union (union xs ys) zs = distinctFrom [] (xs ++ ys ++ zs) := by
  have hseen : ∀ t, t ∈ (distinctFrom [] (xs ++ ys)).map itemText ++ [] ↔
      t ∈ (xs ++ ys).map itemText ++ [] := mem_map_distinctFrom [] (xs ++ ys)
  rw [union, union, distinctFrom_append [] (distinctFrom [] (xs ++ ys)),
    distinctFrom_distinctFrom (fun t ht => ht), distinctFrom_congr hseen, ← distinctFrom_append]

theorem union_union_right (xs ys zs : List (Option Text)) :
    union xs (union ys zs) = distinctFrom [] (xs ++ ys ++ zs) := by
  rw [union, union, distinctFrom_append, distinctFrom_distinctFrom (by simp), List.append_assoc,
    ← distinctFrom_append]

theorem union_assoc (xs ys zs : List (Option Text)) :
    union (union xs ys) zs = union xs (union ys zs) :=
  (union_union_left xs ys zs).trans (union_union_right xs ys zs).symm

theorem distinctFrom_append_of_subset (seen : List Text) {xs ys : List (Option Text)}
    (h : ∀ y ∈ ys, y ∈ xs) : distinctFrom seen (xs ++ ys) = distinctFrom seen xs := by
  have hseen : ∀ y ∈ ys, itemText y ∈ xs.map itemText ++ seen := fun y hy =>
    List.mem_append_left _ (List.mem_map_of_mem (h y hy))
  rw [distinctFrom_append, distinctFrom_eq_nil hseen, List.append_nil]

theorem union_self (xs : List (Option Text)) : union xs xs = distinctFrom [] xs :=
  distinctFrom_append_of_subset [] fun _ h => h

theorem union_distinct (xs ys : List (Option Text)) :
    union xs (distinctFrom [] ys) = union xs ys := by
  rw [union, distinctFrom_append, distinctFrom_distinctFrom (by simp), ← distinctFrom_append, union]

theorem distinct_union (xs ys : List (Option Text)) :
    distinctFrom [] (union xs ys) = union xs ys :=
  distinctFrom_distinctFrom (fun _ ht => ht) (xs ++ ys)

theorem union_union_self (xs ys : List (Option Text)) : union xs (union xs ys) = union xs ys := by
  rw [← union_assoc, union_self, union, union, distinctFrom_append,
    distinctFrom_distinctFrom (fun _ ht => ht), distinctFrom_congr (mem_map_distinctFrom [] xs),
    ← distinctFrom_append]

theorem union_union_back (xs ys : List (Option Text)) : union xs (union ys xs) = union xs ys := by
  rw [← union_assoc, union_union_left]
  exact distinctFrom_append_of_subset [] fun y hy => List.mem_append_left _ hy

/-- Whether a value may stand for `v` after more has been taken in: it is `v` itself or a list. -/
def Grows (v w : Value) : Prop := w.isList = true ∨ w = v

theorem Grows.refl (v : Value) : Grows v v := .inr rfl

theorem grows_inherit (deeper nearer : Value) : Grows nearer (deeper.inherit nearer) := by
  unfold inherit
  split
  · exact .inl rfl
  · exact .inr rfl

theorem grows_absorb {v w : Value} (h : Grows v w) (u : Value) : Grows v (w.absorb u) := by
  unfold absorb
  split
  · exact .inl rfl
  · exact h

theorem grows_distinct {v w : Value} (h : Grows v w) : Grows v w.distinct := by
  cases w with
  | scalar item => exact h
  | list items => exact .inl rfl

theorem absorb_self (v : Value) : v.absorb v = v.distinct := by
  cases v with
  | scalar item => rfl
  | list items => exact congrArg list (union_self items)

theorem absorb_inherit (p v : Value) : p.absorb (v.inherit p) = p.absorb v := by
  cases p <;> cases v <;> simp [absorb, inherit, isList, items, union_union_back]

theorem absorb_distinct {p x : Value} (h : Grows p x) :
    p.absorb x.distinct = (p.absorb x).distinct := by
  cases x with
  | list xs => simp [absorb, distinct, isList, items, union_distinct, distinct_union]
  | scalar item =>
    obtain hl | rfl := h
    · simp [isList] at hl
    · rfl

/-- The middle value has to extend the first: two single items and a list would not associate. -/
theorem absorb_absorb {p x : Value} (h : Grows p x) (v : Value) :
    p.absorb (x.absorb v) = (p.absorb x).absorb v := by
  cases x with
  | list xs => simp [absorb, isList, items, union_assoc]
  | scalar item =>
    obtain hl | rfl := h
    · simp [isList] at hl
    · cases v <;> simp [absorb, isList, items, union_union_self]

end Value

namespace Scope

theorem lookup_eq_none_of_lt {es : List (Text × Value)} {name : Text}
    (h : ∀ e ∈ es, name < e.1) : es.lookup name = none := by
  induction es with
  | nil => rfl
  | cons e es ih =>
    have hne : (name == e.1) = false :=
      beq_false_of_ne fun heq => List.lt_irrefl e.1 (heq ▸ h e List.mem_cons_self)
    rw [List.lookup_cons, hne]
    exact ih fun a ha => h a (List.mem_cons_of_mem _ ha)

theorem lookup_ne_of_lt {es : List (Text × Value)} {name : Text} {e : Text × Value}
    (hlt : name < e.1) (h : ∀ a ∈ es, e.1 < a.1) (v : Value) : (e :: es).lookup name ≠ some v := by
  have hnone : (e :: es).lookup name = none := by
    refine lookup_eq_none_of_lt fun a ha => ?_
    rcases List.mem_cons.1 ha with rfl | ha
    · exact hlt
    · exact List.lt_trans hlt (h a ha)
  simp [hnone]

theorem entries_eq_of_lookup {es fs : List (Text × Value)}
    (hes : es.Pairwise fun a b => a.1 < b.1) (hfs : fs.Pairwise fun a b => a.1 < b.1)
    (h : ∀ name, es.lookup name = fs.lookup name) : es = fs := by
  induction es generalizing fs with
  | nil =>
    cases fs with
    | nil => rfl
    | cons f fs => exact nomatch (h f.1).trans List.lookup_cons_self
  | cons e es ih =>
    obtain ⟨he, htail⟩ := List.pairwise_cons.1 hes
    cases fs with
    | nil => exact nomatch (h e.1).symm.trans List.lookup_cons_self
    | cons f fs =>
      obtain ⟨hf, hftail⟩ := List.pairwise_cons.1 hfs
      -- The lesser of two different first names would be missing on the other side.
      have hname : e.1 = f.1 := by
        refine List.le_antisymm (List.not_lt.1 fun hlt => ?_) (List.not_lt.1 fun hlt => ?_)
        · exact lookup_ne_of_lt hlt he f.2 ((h f.1).trans List.lookup_cons_self)
        · exact lookup_ne_of_lt hlt hf e.2 ((h e.1).symm.trans List.lookup_cons_self)
      have hvalue : e.2 = f.2 := by
        have hhead := h e.1
        rw [List.lookup_cons_self, hname, List.lookup_cons_self] at hhead
        exact Option.some.inj hhead
      have hrest : es = fs := by
        refine ih htail hftail fun name => ?_
        by_cases hn : name = e.1
        · rw [hn, lookup_eq_none_of_lt he, hname, lookup_eq_none_of_lt hf]
        · have hboth := h name
          rwa [List.lookup_cons, List.lookup_cons, ← hname, beq_false_of_ne hn] at hboth
      rw [hrest, Prod.ext hname hvalue]

theorem ext_get? {s t : Scope} (h : ∀ name, s.get? name = t.get? name) : s = t := by
  obtain ⟨es, hes⟩ := s
  obtain ⟨fs, hfs⟩ := t
  obtain rfl : es = fs := entries_eq_of_lookup hes hfs h
  rfl

def amend (g : Text → Value → Option Value) (s : Scope) (e : Text × Value) : Scope :=
  match g e.1 e.2 with
  | some v => s.insert e.1 v
  | none => s

theorem get?_foldl_amend (g : Text → Value → Option Value) {es : List (Text × Value)}
    (hes : es.Pairwise fun a b => a.1 < b.1) (s : Scope) (name : Text) :
    (es.foldl (amend g) s).get? name = ((es.lookup name).bind (g name)).or (s.get? name) := by
  induction es generalizing s with
  | nil => rfl
  | cons e es ih =>
    obtain ⟨he, htail⟩ := List.pairwise_cons.1 hes
    obtain ⟨n, v⟩ := e
    rw [List.foldl_cons, ih htail]
    by_cases hname : name = n
    · subst hname
      rw [lookup_eq_none_of_lt he, List.lookup_cons_self]
      cases hg : g name v <;> simp [amend, hg, get?_insert]
    · have hset : (amend g s (n, v)).get? name = s.get? name := by
        unfold amend
        split
        · rw [get?_insert, if_neg hname]
        · rfl
      rw [hset, List.lookup_cons, beq_false_of_ne hname]

theorem get?_inherit (deeper nearer : Scope) (name : Text) :
    (deeper.inherit nearer).get? name =
      match nearer.get? name, deeper.get? name with
      | none, v? => v?
      | some w, none => some w
      | some w, some v => some (v.inherit w) := by
  have hfold : deeper.inherit nearer = nearer.entries.foldl
      (amend fun n w => some (((deeper.get? n).map (·.inherit w)).getD w)) deeper := rfl
  rw [hfold, get?_foldl_amend _ nearer.increasing]
  change ((nearer.get? name).bind _).or (deeper.get? name) = _
  cases nearer.get? name <;> cases deeper.get? name <;> rfl

/-- What an entry becomes where the scopes are merged into a list: its own items come first. -/
def relisted (merged : Scope) (name : Text) (v : Value) : Option Value :=
  match merged.get? name with
  | some (.list items) => some (.list (Value.union v.items items))
  | _ => none

theorem absorb_eq_foldl (scope child : Scope) :
    scope.absorb child =
      scope.entries.foldl (amend (child.inherit scope).relisted) (child.inherit scope) := by
  refine congrFun (congrArg (fun f => List.foldl f (child.inherit scope)) ?_) scope.entries
  funext s e
  simp only [amend, relisted]
  split <;> simp_all

theorem get?_absorb (scope child : Scope) (name : Text) :
    (scope.absorb child).get? name =
      match scope.get? name, child.get? name with
      | none, v? => v?
      | some w, none => some w.distinct
      | some w, some v => some (w.absorb v) := by
  -- A name that only the child has is not amended: it is as the merge left it.
  rw [absorb_eq_foldl, get?_foldl_amend _ scope.increasing]
  change ((scope.get? name).bind _).or _ = _
  have hin := get?_inherit child scope name
  cases hs : scope.get? name with
  | none => simpa [hs] using hin
  | some w =>
    cases hc : child.get? name with
    | none =>
      rw [hs, hc] at hin
      cases w with
      | scalar item => simp [relisted, hin, Value.distinct]
      | list items => simp [relisted, hin, Value.distinct, Value.items, Value.union_self]
    | some v =>
      rw [hs, hc] at hin
      cases w <;> cases v <;>
        simp [relisted, hin, Value.absorb, Value.inherit, Value.isList, Value.items,
          Value.union_union_back]

@[simp] theorem get?_empty (name : Text) : empty.get? name = none := rfl

theorem empty_absorb (s : Scope) : empty.absorb s = s := by
  refine ext_get? fun name => ?_
  rw [get?_absorb, get?_empty]

/-- Every name of `s` is there in `t` too, with a value that may stand for it. -/
def Extends (s t : Scope) : Prop :=
  ∀ name v, s.get? name = some v → ∃ w, t.get? name = some w ∧ v.Grows w

theorem extends_inherit (deeper nearer : Scope) : nearer.Extends (deeper.inherit nearer) := by
  intro name v hv
  rw [get?_inherit, hv]
  cases deeper.get? name with
  | none => exact ⟨v, rfl, .refl v⟩
  | some d => exact ⟨d.inherit v, rfl, Value.grows_inherit d v⟩

theorem extends_absorb {s t : Scope} (h : s.Extends t) (u : Scope) : s.Extends (t.absorb u) := by
  intro name v hv
  obtain ⟨w, hw, hgrows⟩ := h name v hv
  rw [get?_absorb, hw]
  cases u.get? name with
  | none => exact ⟨w.distinct, rfl, Value.grows_distinct hgrows⟩
  | some x => exact ⟨w.absorb x, rfl, Value.grows_absorb hgrows x⟩

theorem absorb_inherit (p v : Scope) : p.absorb (v.inherit p) = p.absorb v := by
  refine ext_get? fun name => ?_
  rw [get?_absorb, get?_absorb, get?_inherit]
  cases hp : p.get? name with
  | none => rfl
  | some w =>
    cases v.get? name with
    | none => exact congrArg some (Value.absorb_self w)
    | some x => exact congrArg some (Value.absorb_inherit w x)

theorem absorb_absorb {p x : Scope} (h : p.Extends x) (v : Scope) :
    p.absorb (x.absorb v) = (p.absorb x).absorb v := by
  refine ext_get? fun name => ?_
  rw [get?_absorb, get?_absorb, get?_absorb, get?_absorb]
  cases hp : p.get? name with
  | none => rfl
  | some w =>
    obtain ⟨y, hy, hgrows⟩ := h name w hp
    rw [hy]
    cases v.get? name with
    | none => exact congrArg some (Value.absorb_distinct hgrows)
    | some u => exact congrArg some (Value.absorb_absorb hgrows u)

theorem absorb_foldl {p x : Scope} (h : p.Extends x) (vs : List Scope) :
    p.absorb (vs.foldl absorb x) = vs.foldl absorb (p.absorb x) := by
  induction vs generalizing x with
  | nil => rfl
  | cons v vs ih => rw [List.foldl_cons, List.foldl_cons, ih (extends_absorb h v), absorb_absorb h]

end Scope
end Transclude

import Transclude.Proofs.ReadingBack

/-! The rows that declare a whole scope, and the scope that is read from them. It is written in the
same rows again exactly if every value comes back: values differ in their own rows only, and a row
that declares nothing is missing afterwards. -/

namespace Transclude

/-- Whether a scope is one that front matters can declare. -/
def Scope.Declarable (s : Scope) : Prop :=
  ∀ e ∈ s.entries, FrontMatter.IsName e.1 ∧ ∀ item ∈ e.2.items, (Value.itemText item).OneLine

namespace FrontMatter

variable {scope : Scope} {name : Text} {v : Value} {row : Text}

theorem oneLine_of_mem_declaration (hname : name.OneLine)
    (hv : ∀ item ∈ v.items, (Value.itemText item).OneLine) (h : row ∈ declaration name v) :
    row.OneLine := by
  cases v with
  | scalar item =>
    obtain rfl := List.mem_singleton.1 h
    have hitem := hv item (List.mem_singleton_self item)
    exact (hname.append ⟨by decide, by decide⟩).append hitem
  | list items =>
    rcases List.mem_cons.1 h with rfl | h
    · exact hname.append ⟨by decide, by decide⟩
    · obtain ⟨item, hitem, rfl⟩ := List.mem_map.1 h
      exact Text.OneLine.append ⟨by decide, by decide⟩ (hv item hitem)

theorem oneLine_of_mem_writtenRows (hs : scope.Declarable) (h : row ∈ writtenRows scope) :
    row.OneLine := by
  obtain ⟨e, he, hrow⟩ := List.mem_flatMap.1 h
  obtain ⟨hname, hitems⟩ := hs e he
  exact oneLine_of_mem_declaration hname.line hitems hrow

theorem oneLine_of_mem_declaredRows (hs : scope.Declarable) (h : row ∈ declaredRows scope) :
    row.OneLine := by
  rw [declaredRows_eq] at h
  obtain ⟨u, hu, rfl⟩ := List.mem_map.1 h
  exact (oneLine_of_mem_writtenRows hs hu).of_subset (Text.trimRight_subset u)

theorem eq_of_mem_rowsOf {e : Text × Value} (h : row ∈ rowsOf e) :
    (∃ rest, row = namedRow e.1 rest) ∨ ∃ item, row = itemRow item := by
  obtain ⟨name, v⟩ := e
  cases v with
  | scalar item =>
    rw [rowsOf_scalar] at h
    exact .inl ⟨_, List.mem_singleton.1 h⟩
  | list items =>
    rw [rowsOf_list] at h
    rcases List.mem_cons.1 h with rfl | h
    · exact .inl ⟨[], rfl⟩
    · obtain ⟨item, -, rfl⟩ := List.mem_map.1 h
      exact .inr ⟨item, rfl⟩

theorem filled_of_mem_declaredRows (h : row ∈ declaredRows scope) :
    row.allBlank = false ∧ row ≠ fenceMark := by
  obtain ⟨e, -, hrow⟩ := List.mem_flatMap.1 h
  rcases eq_of_mem_rowsOf hrow with ⟨rest, rfl⟩ | ⟨item, rfl⟩
  · have hcolon : ':' ∈ namedRow e.1 rest := List.mem_append_right _ List.mem_cons_self
    refine ⟨?_, fun heq => ?_⟩
    · rw [Text.allBlank, List.all_eq_false]
      exact ⟨':', hcolon, by decide⟩
    · rw [heq] at hcolon
      exact absurd hcolon (by decide)
  · exact ⟨rfl, fun heq => absurd (List.cons.inj heq).1 (by decide)⟩

theorem mark_not_mem_declaredRows (scope : Scope) : fenceMark ∉ declaredRows scope :=
  fun hmem => (filled_of_mem_declaredRows hmem).2 rfl

theorem map_trimRight_declaredRows (scope : Scope) :
    (declaredRows scope).map Text.trimRight = declaredRows scope := by
  rw [declaredRows_eq, List.map_map]
  exact List.map_congr_left fun u _ => Text.trimRight_trimRight u

theorem exists_rowsOf_eq_cons (name : Text) (v : Value) :
    ∃ rest more, rowsOf (name, v) = namedRow name rest :: more := by
  cases v with
  | scalar item => exact ⟨_, [], rowsOf_scalar name item⟩
  | list items => exact ⟨[], _, rowsOf_list name items⟩

theorem declaredRows_ne_nil (h : scope.entries ≠ []) : declaredRows scope ≠ [] := by
  obtain ⟨e, es, hes⟩ := List.exists_cons_of_ne_nil h
  obtain ⟨rest, more, hrows⟩ := exists_rowsOf_eq_cons e.1 e.2
  rw [declaredRows, hes, List.flatMap_cons, hrows]
  exact List.cons_ne_nil _ _

theorem scopeOf_unlines {rows : List Text} (hne : rows ≠ []) (h : ∀ row ∈ rows, row.OneLine) :
    scopeOf (Text.unlines rows) = (rows.foldl Reading.step .start).close := by
  rw [scopeOf, Text.lines_eq_rows (Text.not_mem_unlines (by decide) fun r hr => (h r hr).2),
    Text.rows_unlines hne fun r hr => (h r hr).1]

theorem insertNamed_of_lt {es : List (Text × Value)} (h : ∀ e ∈ es, e.1 < name) :
    insertNamed name v es = es ++ [(name, v)] := by
  induction es with
  | nil => rfl
  | cons e es ih =>
    obtain ⟨he, hes⟩ := List.forall_mem_cons.1 h
    have hlt : ¬ name < e.1 := List.lt_asymm he
    have hne : name ≠ e.1 := fun heq => List.lt_irrefl name (heq ▸ he)
    rw [insertNamed, if_neg hlt, if_neg hne, ih hes]
    rfl

theorem entries_foldl_insert (g : Value → Value) {es : List (Text × Value)}
    (h : es.Pairwise fun a b => a.1 < b.1) :
    (es.foldl (fun s e => s.insert e.1 (g e.2)) Scope.empty).entries =
      es.map fun e => (e.1, g e.2) := by
  induction es using List.reverseRecOn with
  | nil => rfl
  | append_singleton es e ih =>
    obtain ⟨hes, -, hlt⟩ := List.pairwise_append.1 h
    rw [List.foldl_append, List.map_append, ← ih hes]
    refine insertNamed_of_lt fun a ha => ?_
    rw [ih hes] at ha
    obtain ⟨b, hb, rfl⟩ := List.mem_map.1 ha
    exact hlt b hb e (List.mem_singleton_self e)

theorem entries_scopeOf_declaredRows (hs : scope.Declarable) (hne : scope.entries ≠ [])
    (hf : ∀ e ∈ scope.entries, e.2.Filled) :
    (scopeOf (Text.unlines (declaredRows scope))).entries =
      scope.entries.map fun e => (e.1, e.2.readBack) := by
  rw [scopeOf_unlines (declaredRows_ne_nil hne) fun _ hrow => oneLine_of_mem_declaredRows hs hrow,
    declaredRows,
    Reading.close_foldl_flatMap fun e he _ => Reading.close_foldl_rowsOf (hs e he).1 (hf e he)]
  exact entries_foldl_insert Value.readBack scope.increasing

theorem length_rowsOf_readBack (name : Text) (v : Value) :
    (rowsOf (name, v.readBack)).length = (rowsOf (name, v)).length := by
  cases v with
  | scalar item => rfl
  | list items => cases items <;> simp [rowsOf, declaration, Value.readBack]

theorem rowsOf_readBack_iff (hv : v.Filled) :
    rowsOf (name, v.readBack) = rowsOf (name, v) ↔ v.ReadsBack := by
  have hback (item : Option Text) :
      Text.trimRight (' ' :: Value.itemText (Value.itemBack item)) =
        Text.trimRight (' ' :: Value.itemText item) ↔ (Value.itemText item).ReadsBack :=
    Text.trimRight_blank_cons_eq_iff.trans Text.readsBack_iff.symm
  cases v with
  | scalar item =>
    rw [Value.readBack, rowsOf_scalar, rowsOf_scalar, List.singleton_inj, namedRow, namedRow,
      List.append_cancel_left_eq, List.cons_inj_right]
    exact hback item
  | list items =>
    cases items with
    | nil =>
      refine iff_of_true ?_ (List.forall_mem_nil _)
      rw [Value.readBack, rowsOf_scalar, rowsOf_list]
      rfl
    | cons item rest =>
      have hlist : (Value.list (item :: rest)).readBack = .list ((item :: rest).map Value.itemBack) :=
        rfl
      rw [hlist, rowsOf_list, rowsOf_list, List.cons_inj_right, List.map_map, List.map_inj_left]
      refine forall₂_congr fun other hother => ?_
      rw [Function.comp_apply, itemRow, itemRow, List.cons_inj_right, List.cons_inj_right,
        List.cons_inj_right, hback other]
      exact (and_iff_right (hv rfl other hother)).symm

def rowCount : Value → Nat
  | .scalar _ => 1
  | .list items => items.length + 1

theorem length_rowsOf (e : Text × Value) : (rowsOf e).length = rowCount e.2 := by
  obtain ⟨name, v⟩ := e
  cases v <;> simp [rowsOf, declaration, rowCount]

theorem length_declaredRows_insert (scope : Scope) (name : Text) (v : Value) :
    (declaredRows (scope.insert name v)).length ≤ (declaredRows scope).length + rowCount v := by
  obtain ⟨es, hes⟩ := scope
  change ((insertNamed name v es).flatMap rowsOf).length ≤ (es.flatMap rowsOf).length + rowCount v
  clear hes
  induction es with
  | nil => simp [insertNamed, length_rowsOf]
  | cons e es ih =>
    rw [insertNamed]
    split
    · simp only [List.flatMap_cons, List.length_append, length_rowsOf]
      omega
    · split
      · simp only [List.flatMap_cons, List.length_append, length_rowsOf]
        omega
      · simp only [List.flatMap_cons, List.length_append, length_rowsOf]
        omega

namespace Reading

variable {r : Reading} {line : Text}

/-- How many rows declare what has been read, a name that is still open with its items among it. -/
def weight (r : Reading) : Nat :=
  (declaredRows r.scope).length + (r.open?.elim 0 fun (_, items) => items.length + 1)

theorem length_declaredRows_close (r : Reading) : (declaredRows r.close).length ≤ r.weight := by
  obtain ⟨scope, open?⟩ := r
  cases open? with
  | none => exact Nat.le_refl _
  | some found =>
    obtain ⟨name, items⟩ := found
    cases items with
    | nil => exact length_declaredRows_insert scope name _
    | cons item items =>
      have hinsert := length_declaredRows_insert scope name (.list ((item :: items).map some))
      rwa [rowCount, List.length_map] at hinsert

theorem weight_declare (r : Reading) (line : Text) : (r.declare line).weight ≤ r.weight + 1 := by
  have hclose := length_declaredRows_close r
  have hnothing : weight ⟨r.close, none⟩ ≤ r.weight + 1 := Nat.le_succ_of_le hclose
  unfold declare
  split
  · exact hnothing
  · rename_i name value _
    split
    · exact hnothing
    · split
      · exact Nat.succ_le_succ hclose
      · have hinsert :=
          length_declaredRows_insert r.close name.trim (.scalar (some (unquote value.trim)))
        rw [rowCount] at hinsert
        exact hinsert.trans (Nat.succ_le_succ hclose)

theorem weight_step (r : Reading) (line : Text) : (r.step line).weight ≤ r.weight + 1 := by
  unfold step
  split
  · exact Nat.le_succ _
  · split
    · rename_i name items item hopen _
      simp only [weight, hopen, Option.elim, List.length_append, List.length_singleton]
      omega
    · exact weight_declare r line

theorem weight_step_hyphen (r : Reading) : (r.step [' ', ' ', '-']).weight ≤ r.weight := by
  have hstep : r.step [' ', ' ', '-'] = ⟨r.close, none⟩ := by
    unfold step
    rw [if_neg (by decide)]
    cases r.open? <;> rfl
  rw [hstep]
  exact length_declaredRows_close r

theorem weight_foldl (r : Reading) (lines : List Text) :
    (lines.foldl step r).weight ≤ r.weight + lines.length := by
  induction lines generalizing r with
  | nil => exact Nat.le_refl _
  | cons line lines ih =>
    have hrest := ih (r.step line)
    have hline := weight_step r line
    rw [List.foldl_cons, List.length_cons]
    omega

theorem weight_foldl_lt (r : Reading) {lines : List Text} (h : [' ', ' ', '-'] ∈ lines) :
    (lines.foldl step r).weight < r.weight + lines.length := by
  obtain ⟨before, behind, rfl⟩ := List.append_of_mem h
  have hbefore := weight_foldl r before
  have hline := weight_step_hyphen (before.foldl step r)
  have hbehind := weight_foldl ((before.foldl step r).step [' ', ' ', '-']) behind
  rw [List.foldl_append, List.foldl_cons, List.length_append, List.length_cons]
  omega

theorem entries_insert_ne_nil (scope : Scope) (name : Text) (v : Value) :
    (scope.insert name v).entries ≠ [] := by
  change insertNamed name v scope.entries ≠ []
  cases scope.entries with
  | nil => exact List.cons_ne_nil _ _
  | cons e es =>
    rw [insertNamed]
    split
    · exact List.cons_ne_nil _ _
    · split <;> exact List.cons_ne_nil _ _

theorem entries_step_ne_nil (h : r.close.entries ≠ []) : (r.step line).close.entries ≠ [] := by
  unfold step
  split
  · exact h
  · split
    · rename_i name items item _ _
      cases hitems : items ++ [item] with
      | nil => exact absurd hitems (by simp)
      | cons other others => exact entries_insert_ne_nil _ _ _
    · unfold declare
      split
      · exact h
      · split
        · exact h
        · split
          · exact entries_insert_ne_nil _ _ _
          · exact entries_insert_ne_nil _ _ _

theorem entries_foldl_ne_nil {lines : List Text} (h : r.close.entries ≠ []) :
    (lines.foldl step r).close.entries ≠ [] := by
  induction lines generalizing r with
  | nil => exact h
  | cons line lines ih => exact ih (entries_step_ne_nil h)

end Reading

theorem scopeOf_declaredRows_ne_nil (hs : scope.Declarable) (hne : scope.entries ≠ []) :
    (scopeOf (Text.unlines (declaredRows scope))).entries ≠ [] := by
  rw [scopeOf_unlines (declaredRows_ne_nil hne) fun _ hrow => oneLine_of_mem_declaredRows hs hrow]
  obtain ⟨e, es, hes⟩ := List.exists_cons_of_ne_nil hne
  obtain ⟨hname, -⟩ := hs e (hes ▸ List.mem_cons_self)
  obtain ⟨rest, more, hrows⟩ := exists_rowsOf_eq_cons e.1 e.2
  rw [declaredRows, hes, List.flatMap_cons, hrows, List.cons_append, List.foldl_cons,
    Reading.step_namedRow hname.isKey]
  refine Reading.entries_foldl_ne_nil ?_
  split <;> exact Reading.entries_insert_ne_nil _ _ _

theorem flatMap_eq_flatMap_iff {α β : Type} {f g : α → List β} {xs : List α}
    (h : ∀ x ∈ xs, (f x).length = (g x).length) :
    xs.flatMap f = xs.flatMap g ↔ ∀ x ∈ xs, f x = g x := by
  induction xs with
  | nil => exact iff_of_true rfl nofun
  | cons x xs ih =>
    obtain ⟨hx, hxs⟩ := List.forall_mem_cons.1 h
    rw [List.flatMap_cons, List.flatMap_cons, List.forall_mem_cons, ← ih hxs]
    constructor
    · exact fun heq => List.append_inj heq hx
    · rintro ⟨hhead, hrest⟩
      rw [hhead, hrest]

/-- The rows of a scope declare a scope that is written in the same rows, exactly if all values come
back. -/
theorem declaredRows_scopeOf_iff (hs : scope.Declarable) (hne : scope.entries ≠ []) :
    declaredRows (scopeOf (Text.unlines (declaredRows scope))) = declaredRows scope ↔
      ∀ e ∈ scope.entries, e.2.ReadsBack := by
  by_cases hf : ∀ e ∈ scope.entries, e.2.Filled
  · rw [declaredRows, entries_scopeOf_declaredRows hs hne hf, List.flatMap_map, declaredRows,
      flatMap_eq_flatMap_iff fun e _ => length_rowsOf_readBack e.1 e.2]
    exact forall₂_congr fun e he => rowsOf_readBack_iff (hf e he)
  · refine iff_of_false (fun heq => ?_) fun hback => hf fun e he => ?_
    · -- The row of a blank item declares nothing, so there are fewer rows than were read.
      simp only [not_forall] at hf
      obtain ⟨⟨name, v⟩, he, hv⟩ := hf
      cases v with
      | scalar item => exact hv nofun
      | list items =>
        have hblank : ∃ item ∈ items, (Value.itemText item).allBlank = true := by
          refine Classical.byContradiction fun hno => hv fun _ item hitem => ?_
          cases hitemBlank : (Value.itemText item).allBlank with
          | false => rfl
          | true => exact absurd ⟨item, hitem, hitemBlank⟩ hno
        obtain ⟨item, hitem, hitemBlank⟩ := hblank
        have hmem : [' ', ' ', '-'] ∈ declaredRows scope := by
          refine List.mem_flatMap.2 ⟨_, he, ?_⟩
          rw [rowsOf_list, ← Reading.itemRow_of_blank hitemBlank]
          exact List.mem_cons_of_mem _ (List.mem_map_of_mem hitem)
        have hweight := Reading.weight_foldl_lt .start hmem
        have hclose := Reading.length_declaredRows_close
          ((declaredRows scope).foldl Reading.step .start)
        have hlength := congrArg List.length heq
        have hstart : Reading.start.weight = 0 := rfl
        rw [scopeOf_unlines (declaredRows_ne_nil hne) fun _ hrow =>
          oneLine_of_mem_declaredRows hs hrow] at hlength
        omega
    · obtain ⟨name, v⟩ := e
      have hv := hback _ he
      cases v with
      | scalar item => exact nofun
      | list items => exact fun _ item hitem => (hv item hitem).1

end FrontMatter
end Transclude

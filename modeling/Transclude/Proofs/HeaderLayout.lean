import Transclude.Build
import Transclude.Proofs.DeclarableScopes

/-! A document that is laid out behind the header written for a scope. Its first rows are those of
the header, which the layout keeps, and so they are read back as its front matter. -/

namespace Transclude

namespace Layout

variable {rs xs ys : List Text}

theorem rdropWhile_append_of_last {α : Type} {p : α → Bool} {a : α} (h : p a = false)
    (xs ys : List α) : ∃ zs, (xs ++ a :: ys).rdropWhile p = xs ++ a :: zs ∧ zs <+: ys := by
  induction ys using List.reverseRecOn with
  | nil => exact ⟨[], List.rdropWhile_concat_neg _ _ _ (by simp [h]), List.prefix_rfl⟩
  | append_singleton ys b ih =>
    have hsplit : xs ++ a :: (ys ++ [b]) = (xs ++ a :: ys) ++ [b] := by simp
    rw [hsplit]
    cases hb : p b with
    | true =>
      obtain ⟨zs, hzs, hstart⟩ := ih
      rw [List.rdropWhile_concat_pos _ _ _ hb]
      exact ⟨zs, hzs, hstart.trans (List.prefix_append ys [b])⟩
    | false =>
      rw [List.rdropWhile_concat_neg _ _ _ (by simp [hb])]
      exact ⟨ys ++ [b], hsplit.symm, List.prefix_rfl⟩

theorem exists_collapseLines_cons (open? : Option Fence) (line : Text) (rs : List Text) :
    ∃ more, collapseLines open? false (line :: rs) = line :: more := by
  cases hin : (Fence.step open? line).1.inFence with
  | true => exact ⟨_, collapseLines_fenced hin⟩
  | false => exact ⟨_, collapseLines_kept hin (Bool.and_false _)⟩

theorem tidyRows_congr {rs' : List Text} (h : rs.map Text.trimRight = rs'.map Text.trimRight) :
    tidyRows rs = tidyRows rs' := by
  rw [tidyRows, tidyRows, h]

theorem exists_tidyRows_append (h : rs.map Text.trimRight = xs ++ [] :: ys) (hx : xs ≠ [])
    (hfilled : ∀ r ∈ xs, r.allBlank = false) : ∃ more, tidyRows rs ++ [[]] = xs ++ [] :: more := by
  obtain ⟨next, hnext⟩ := @collapseLines_append_of_filled none xs ([] :: ys) hfilled
  obtain ⟨kept, hkept⟩ := exists_collapseLines_cons next [] ys
  obtain ⟨init, last, rfl⟩ := (List.eq_nil_or_concat xs).resolve_left hx
  rw [List.concat_eq_append] at h hnext hfilled ⊢
  have hlast : (fun r : Text => decide (r = [])) last = false := by
    refine decide_eq_false fun hnil => ?_
    have hblank := hfilled last (List.mem_append_right init (List.mem_singleton_self last))
    rw [hnil] at hblank
    cases hblank
  obtain ⟨zs, hzs, hstart⟩ :=
    rdropWhile_append_of_last (p := fun r : Text => decide (r = [])) hlast init ([] :: kept)
  have htidy : tidyRows rs = init ++ last :: zs := by
    rw [tidyRows, h, hnext, hkept, List.append_assoc]
    exact hzs
  rw [htidy]
  cases zs with
  | nil => exact ⟨[], by simp⟩
  | cons z zs =>
    obtain ⟨rfl, -⟩ := List.cons_prefix_cons.1 hstart
    exact ⟨zs ++ [[]], by simp⟩

end Layout

namespace FrontMatter

variable {scope : Scope} {raw? : Option Text} {mark : Text} {s : Text}

theorem IsMark.row (h : IsMark mark) :
    Text.allBlank (mark ++ fenceMark) = false ∧ Text.trimRight (mark ++ fenceMark) = mark ++ fenceMark ∧
      Text.OneLine (mark ++ fenceMark) := by
  rcases h with rfl | rfl
  · exact ⟨rfl, rfl, by decide, by decide⟩
  · exact ⟨rfl, rfl, by decide, by decide⟩

theorem endingOf_eq (h : '\r' ∉ s) : endingOf s = ['\n'] := by
  unfold endingOf
  rw [if_neg]
  intro hends
  exact h ((Text.contains_iff.1 hends).subset List.mem_cons_self)

theorem render_append_ne_nil (hne : scope.entries ≠ []) (body : Text) :
    render scope raw? ++ body ≠ [] := by
  have hfence : fenceMark ≠ [] := by decide
  rw [render]
  dsimp only
  rw [if_neg hne]
  simp [hfence]

def headerRows (mark : Text) (rows : List Text) : List Text :=
  (mark ++ fenceMark) :: (rows ++ [fenceMark, []])

theorem headerRows_append (mark : Text) (rows more : List Text) :
    headerRows mark rows ++ more = (mark ++ fenceMark) :: (rows ++ fenceMark :: [] :: more) := by
  simp [headerRows]

theorem map_trimRight_headerRows (h : IsMark mark) (rows : List Text) :
    (headerRows mark rows).map Text.trimRight = headerRows mark (rows.map Text.trimRight) := by
  have hends : [fenceMark, []].map Text.trimRight = [fenceMark, []] := by decide
  rw [headerRows, headerRows, List.map_cons, h.row.2.1, List.map_append, hends]

theorem oneLine_of_mem_headerRows {row : Text} (h : IsMark mark) (hs : scope.Declarable)
    (hrow : row ∈ headerRows mark (writtenRows scope)) : row.OneLine := by
  have hends : ∀ r ∈ [fenceMark, []], Text.OneLine r := by decide
  rcases List.mem_cons.1 hrow with rfl | hrow
  · exact h.row.2.2
  · rcases List.mem_append.1 hrow with hrow | hrow
    · exact oneLine_of_mem_writtenRows hs hrow
    · exact hends row hrow

theorem render_eq_above (hne : scope.entries ≠ []) (hr : '\r' ∉ raw?.getD []) :
    render scope raw? =
      Text.above (headerRows (dropMark (raw?.getD [])).1 (writtenRows scope)) := by
  have hrows : writtenRows scope ≠ [] := by
    intro hnil
    have hdeclared := declaredRows_ne_nil hne
    rw [declaredRows_eq, hnil] at hdeclared
    exact hdeclared rfl
  have habove := Text.above_eq_unlines_append hrows
  rw [render, if_neg hne, endingOf_eq hr]
  change _ ++ fenceMark ++ ['\n'] ++ Text.unlines (writtenRows scope) ++ ['\n'] ++ fenceMark ++
    ['\n'] ++ ['\n'] = _
  rw [List.append_assoc _ _ ['\n'], List.append_assoc _ _ ['\n'], ← habove]
  simp [Text.above, headerRows]

theorem not_mem_render (hs : scope.Declarable) (hr : '\r' ∉ raw?.getD []) :
    '\r' ∉ render scope raw? := by
  by_cases hne : scope.entries = []
  · rw [render]
    dsimp only
    rwa [if_pos hne]
  · rw [render_eq_above hne hr]
    refine Text.not_mem_above (by decide) fun row hrow => ?_
    exact (oneLine_of_mem_headerRows (isMark_dropMark _) hs hrow).2

theorem rows_render_append (hs : scope.Declarable) (hne : scope.entries ≠ [])
    (hr : '\r' ∉ raw?.getD []) (body : Text) :
    (Layout.joinEndings (render scope raw? ++ body)).rows.map Text.trimRight =
      headerRows (dropMark (raw?.getD [])).1 (declaredRows scope) ++
        (Layout.joinEndings body).rows.map Text.trimRight := by
  have hmark := isMark_dropMark (raw?.getD [])
  rw [Layout.joinEndings_append (not_mem_render hs hr), render_eq_above hne hr,
    Text.rows_above_append fun row hrow => (oneLine_of_mem_headerRows hmark hs hrow).1,
    List.map_append, map_trimRight_headerRows hmark, ← declaredRows_eq]

theorem rows_prettify_render (hs : scope.Declarable) (hne : scope.entries ≠ [])
    (hr : '\r' ∉ raw?.getD []) (body : Text) :
    ∃ more, (Layout.prettify (render scope raw? ++ body)).rows =
      headerRows (dropMark (raw?.getD [])).1 (declaredRows scope) ++ more := by
  have hmark := isMark_dropMark (raw?.getD [])
  have hrows := rows_render_append hs hne hr body
  -- All rows of the header but the last one are filled.
  have hfront (more : List Text) :
      headerRows (dropMark (raw?.getD [])).1 (declaredRows scope) ++ more =
        ((dropMark (raw?.getD [])).1 ++ fenceMark) :: declaredRows scope ++ [fenceMark] ++
          [] :: more := by
    simp [headerRows]
  have hfilled : ∀ row ∈
      ((dropMark (raw?.getD [])).1 ++ fenceMark) :: declaredRows scope ++ [fenceMark],
      row.allBlank = false := by
    refine List.forall_mem_append.2 ⟨List.forall_mem_cons.2 ⟨hmark.row.1, fun row hrow => ?_⟩, ?_⟩
    · exact (filled_of_mem_declaredRows hrow).1
    · decide
  rw [hfront] at hrows
  obtain ⟨more, hmore⟩ := Layout.exists_tidyRows_append hrows (by simp) hfilled
  have htidy : Layout.tidyRows (Layout.joinEndings (render scope raw? ++ body)).rows ≠ [] := by
    intro hnil
    have hlength := congrArg List.length hmore
    rw [hnil] at hlength
    simp at hlength
  refine ⟨more, ?_⟩
  rw [Layout.rows_prettify (render_append_ne_nil hne body), if_neg htidy, hmore, hfront]

theorem append_mark_prefix_iff {xs ys us vs : List Text} (hx : fenceMark ∉ xs) (hy : fenceMark ∉ ys) :
    xs ++ fenceMark :: us <+: ys ++ fenceMark :: vs ↔ xs = ys ∧ us <+: vs := by
  induction xs generalizing ys with
  | nil =>
    cases ys with
    | nil => simp [List.cons_prefix_cons]
    | cons y ys =>
      have hne : fenceMark ≠ y := List.ne_of_not_mem_cons hy
      simp [List.cons_prefix_cons, hne]
  | cons x xs ih =>
    cases ys with
    | nil =>
      have hne : x ≠ fenceMark := (List.ne_of_not_mem_cons hx).symm
      simp [List.cons_prefix_cons, hne]
    | cons y ys =>
      rw [List.cons_append, List.cons_append, List.cons_prefix_cons,
        ih (List.not_mem_of_not_mem_cons hx) (List.not_mem_of_not_mem_cons hy), List.cons.injEq,
        and_assoc]

/-- Whether the variables that a document declares are declared in the rows that would be written for
them, with an empty row behind. -/
def IsSettled (s : Text) : Prop :=
  (split s).scope.entries = [] ∨ declaredRows (split s).scope ++ [fenceMark, []] <+: s.rows.tail

instance (s : Text) : Decidable (IsSettled s) := inferInstanceAs (Decidable (_ ∨ _))

variable {block behind : List Text}

theorem Headed.eq_of_prefix (h : Headed s mark block behind) (hne : scope.entries ≠ [])
    (hstart : declaredRows scope ++ [fenceMark, []] <+: s.rows.tail) :
    block = declaredRows scope ∧ ∃ more, behind = [] :: more := by
  obtain ⟨row, rest, hdeclared⟩ := List.exists_cons_of_ne_nil (declaredRows_ne_nil hne)
  obtain ⟨b, bs, rfl⟩ := List.exists_cons_of_ne_nil h.filled
  have hrest : fenceMark ∉ rest := by
    have hno := mark_not_mem_declaredRows scope
    rw [hdeclared] at hno
    exact List.not_mem_of_not_mem_cons hno
  have hfirst : fenceMark ∉ bs := h.first
  rw [h.rows_eq, List.tail_cons, hdeclared, List.cons_append, List.cons_append,
    List.cons_prefix_cons, append_mark_prefix_iff hrest hfirst] at hstart
  obtain ⟨rfl, rfl, more, rfl⟩ := hstart
  exact ⟨hdeclared.symm, more, rfl⟩

theorem rows_bodyRows {more : List Text} (h : ∀ row ∈ more, '\n' ∉ row) :
    (Text.unlines (bodyRows ([] :: more))).rows = more ∨
      more = [] ∧ (Text.unlines (bodyRows ([] :: more))).rows = [[]] := by
  have hmore : bodyRows ([] :: more) = more := rfl
  rw [hmore]
  by_cases hnil : more = []
  · exact .inr ⟨hnil, by rw [hnil]; rfl⟩
  · exact .inl (Text.rows_unlines hnil h)

theorem Headed.prettify_render_of_prefix (h : Headed s mark block behind) (hr : '\r' ∉ s)
    (hne : (split s).scope.entries ≠ [])
    (hstart : declaredRows (split s).scope ++ [fenceMark, []] <+: s.rows.tail) :
    Layout.prettify (render (split s).scope (split s).raw? ++ (split s).body) =
      Layout.prettify s := by
  obtain ⟨hblock, more, rfl⟩ := h.eq_of_prefix hne hstart
  obtain ⟨others, hsplit⟩ := h.split_eq hr
  have hrows : s.rows = headerRows mark (declaredRows (split s).scope) ++ more := by
    rw [h.rows_eq, hblock, headerRows_append]
  have hmark : (dropMark ((split s).raw?.getD [])).1 = mark := by
    rw [hsplit]
    exact congrArg Prod.fst (dropMark_append h.isMark others)
  have hbody : (split s).body = Text.unlines (bodyRows ([] :: more)) := by rw [hsplit]
  have hwritten := rows_render_append (declarable_split hr) hne (not_mem_raw hr) (split s).body
  rw [hmark, Layout.joinEndings_eq_self (not_mem_body hr), hbody] at hwritten
  have hread : s.rows.map Text.trimRight =
      headerRows mark (declaredRows (split s).scope) ++ more.map Text.trimRight := by
    rw [hrows, List.map_append, map_trimRight_headerRows h.isMark, map_trimRight_declaredRows]
  have hmore : ∀ row ∈ more, '\n' ∉ row := fun row hrow =>
    Text.not_mem_of_mem_rows (hrows ▸ List.mem_append_right _ hrow)
  have hnonempty : s ≠ [] := by
    rintro rfl
    exact hne rfl
  refine Layout.prettify_congr (render_append_ne_nil hne _) hnonempty ?_
  rw [Layout.joinEndings_eq_self hr, hbody]
  rcases rows_bodyRows hmore with hback | ⟨rfl, hback⟩
  · refine Layout.tidyRows_congr ?_
    rw [hread, hwritten, hback]
  · rw [← Layout.tidyRows_append_nil s.rows]
    refine Layout.tidyRows_congr ?_
    rw [List.map_append, hread, hwritten, hback, List.map_nil, List.append_nil]

/-- A document that is laid out stays as it is behind the header written for its own variables,
exactly if it is settled. -/
theorem prettify_render_split_iff (hr : '\r' ∉ s) (hs : Layout.prettify s = s) :
    Layout.prettify (render (split s).scope (split s).raw? ++ (split s).body) = s ↔ IsSettled s := by
  by_cases hne : (split s).scope.entries = []
  · refine iff_of_true ?_ (.inl hne)
    rw [render]
    dsimp only
    rw [if_pos hne, raw_append_body, hs]
  · have hraw : (split s).raw? ≠ none := by
      intro hnone
      rw [scope_of_raw?_eq_none hnone] at hne
      exact hne rfl
    obtain ⟨mark, block, behind, h⟩ := exists_headed hr hraw
    constructor
    · intro heq
      obtain ⟨more, hmore⟩ :=
        rows_prettify_render (declarable_split hr) hne (not_mem_raw hr) (split s).body
      rw [heq] at hmore
      refine .inr ⟨more, ?_⟩
      rw [hmore]
      rfl
    · intro hsettled
      rw [h.prettify_render_of_prefix hr hne (hsettled.resolve_left hne), hs]

theorem scope_split_prettify_render {scope : Scope} {raw? : Option Text} {body : Text}
    (hs : scope.Declarable) (hne : scope.entries ≠ []) (hr : '\r' ∉ raw?.getD [])
    (hcr : '\r' ∉ Layout.prettify (render scope raw? ++ body)) :
    (split (Layout.prettify (render scope raw? ++ body))).scope =
      scopeOf (Text.unlines (declaredRows scope)) := by
  obtain ⟨more, hmore⟩ := rows_prettify_render hs hne hr body
  rw [headerRows_append] at hmore
  have hheaded : Headed (Layout.prettify (render scope raw? ++ body)) (dropMark (raw?.getD [])).1
      (declaredRows scope) ([] :: more) :=
    ⟨isMark_dropMark _, hmore, declaredRows_ne_nil hne,
      fun hmem => mark_not_mem_declaredRows scope (List.mem_of_mem_tail hmem)⟩
  obtain ⟨others, hsplit⟩ := hheaded.split_eq hcr
  rw [hsplit]

/-- A header is settled exactly if all of its values come back. -/
theorem isSettled_prettify_render_iff {scope : Scope} {raw? : Option Text} {body : Text}
    (hs : scope.Declarable) (hne : scope.entries ≠ []) (hr : '\r' ∉ raw?.getD [])
    (hcr : '\r' ∉ Layout.prettify (render scope raw? ++ body)) :
    IsSettled (Layout.prettify (render scope raw? ++ body)) ↔
      ∀ e ∈ scope.entries, e.2.ReadsBack := by
  obtain ⟨more, hmore⟩ := rows_prettify_render hs hne hr body
  rw [headerRows_append] at hmore
  rw [IsSettled, scope_split_prettify_render hs hne hr hcr, hmore, List.tail_cons,
    or_iff_right (scopeOf_declaredRows_ne_nil hs hne),
    append_mark_prefix_iff (mark_not_mem_declaredRows _) (mark_not_mem_declaredRows _),
    and_iff_left (List.cons_prefix_cons.2 ⟨rfl, List.nil_prefix⟩), declaredRows_scopeOf_iff hs hne]

end FrontMatter
end Transclude

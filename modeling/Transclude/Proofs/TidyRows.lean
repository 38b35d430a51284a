import Mathlib.Data.List.DropRight
import Transclude.Layout
import Transclude.Proofs.Rows

/-! The final layout row by row. Its rows are tidy, and tidy rows are laid out as they stand, so that
laying out a document again changes nothing. -/

namespace Transclude

namespace Text

theorem trimRight_trimRight (s : Text) : s.trimRight.trimRight = s.trimRight := by
  have hself (t : Text) : (t.dropWhile isBlank).dropWhile isBlank = t.dropWhile isBlank :=
    List.dropWhile_idempotent isBlank t
  unfold trimRight
  rw [List.reverse_reverse, hself]

theorem trimRight_subset (s : Text) : s.trimRight ⊆ s := List.IsPrefix.subset <| trimRight_prefix s

theorem length_trimRight_le (s : Text) : s.trimRight.length ≤ s.length :=
  List.IsPrefix.length_le <| trimRight_prefix s

theorem not_mem_trimRight {s : Text} {c : Char} (h : c ∉ s) : c ∉ s.trimRight :=
  fun hmem => h (trimRight_subset s hmem)

theorem above_eq_unlines_append {rs : List Text} (h : rs ≠ []) : above rs = unlines rs ++ ['\n'] := by
  have hjoin := unlines_append_below h [[]]
  rw [← above_append_unlines rs (List.cons_ne_nil [] [])] at hjoin
  have hend : unlines [[]] = [] := rfl
  rw [hend, List.append_nil] at hjoin
  exact hjoin.symm

theorem not_mem_above {rs : List Text} {c : Char} (hc : c ≠ '\n') (h : ∀ r ∈ rs, c ∉ r) :
    c ∉ above rs := by
  intro hmem
  obtain ⟨r, hr, hcr⟩ := List.mem_flatMap.1 hmem
  rcases List.mem_append.1 hcr with hcr | hcr
  · exact h r hr hcr
  · exact hc (List.mem_singleton.1 hcr)

end Text

namespace Layout

/-- Whether no blank row outside fences stands behind another one, `blank` being whether one stands
in front. -/
def collapsed (open? : Option Fence) (blank : Bool) : List Text → Bool
  | [] => true
  | line :: rest =>
    let (kind, next) := Fence.step open? line
    if kind.inFence then collapsed next false rest
    else !(line.allBlank && blank) && collapsed next line.allBlank rest

variable {open? : Option Fence} {blank : Bool} {line : Text} {rs xs ys : List Text}

theorem collapseLines_fenced (h : (Fence.step open? line).1.inFence) :
    collapseLines open? blank (line :: rs) =
      line :: collapseLines (Fence.step open? line).2 false rs := by
  rw [collapseLines]
  dsimp only
  rw [if_pos h]

theorem collapseLines_dropped (h : (Fence.step open? line).1.inFence = false)
    (hdrop : (line.allBlank && blank) = true) :
    collapseLines open? blank (line :: rs) = collapseLines (Fence.step open? line).2 true rs := by
  rw [collapseLines]
  dsimp only
  rw [if_neg (by simp [h]), if_pos hdrop]

theorem collapseLines_kept (h : (Fence.step open? line).1.inFence = false)
    (hkeep : (line.allBlank && blank) = false) :
    collapseLines open? blank (line :: rs) =
      line :: collapseLines (Fence.step open? line).2 line.allBlank rs := by
  rw [collapseLines]
  dsimp only
  rw [if_neg (by simp [h]), if_neg (by simp [hkeep])]

theorem collapsed_collapseLines (open? : Option Fence) (blank : Bool) (rs : List Text) :
    collapsed open? blank (collapseLines open? blank rs) := by
  induction rs generalizing open? blank with
  | nil => rfl
  | cons line rs ih =>
    cases hin : (Fence.step open? line).1.inFence with
    | true =>
      rw [collapseLines_fenced hin, collapsed]
      dsimp only
      rw [if_pos hin]
      exact ih _ _
    | false =>
      cases hdrop : line.allBlank && blank with
      | true =>
        -- A row that is dropped stands outside of fences and opens none.
        obtain ⟨hline, rfl⟩ : line.allBlank = true ∧ blank = true := by simpa using hdrop
        have hopen : open? = none := by
          cases open? with
          | none => rfl
          | some fence =>
            unfold Fence.step at hin
            dsimp only at hin
            split at hin <;> cases hin
        subst hopen
        rw [collapseLines_dropped hin hdrop, Fence.step_blank hline]
        exact ih none true
      | false =>
        rw [collapseLines_kept hin hdrop, collapsed]
        dsimp only
        rw [if_neg (by simp [hin]), hdrop]
        exact ih _ _

theorem collapseLines_of_collapsed (h : collapsed open? blank rs) :
    collapseLines open? blank rs = rs := by
  induction rs generalizing open? blank with
  | nil => rfl
  | cons line rs ih =>
    unfold collapsed at h
    dsimp only at h
    cases hin : (Fence.step open? line).1.inFence with
    | true =>
      rw [if_pos hin] at h
      rw [collapseLines_fenced hin, ih h]
    | false =>
      rw [if_neg (by simp [hin]), Bool.and_eq_true] at h
      rw [collapseLines_kept hin (by simpa only [Bool.not_eq_true'] using h.1), ih h.2]

theorem collapsed_of_append (h : collapsed open? blank (xs ++ ys)) : collapsed open? blank xs := by
  induction xs generalizing open? blank with
  | nil => rfl
  | cons line xs ih =>
    rw [List.cons_append, collapsed] at h
    rw [collapsed]
    dsimp only at h ⊢
    split at h
    · rename_i hin
      rw [if_pos hin]
      exact ih h
    · rename_i hin
      rw [Bool.and_eq_true] at h
      rw [if_neg hin, h.1, ih h.2]
      rfl

theorem mem_collapseLines {r : Text} (h : r ∈ collapseLines open? blank rs) : r ∈ rs := by
  induction rs generalizing open? blank with
  | nil => cases h
  | cons line rs ih =>
    cases hin : (Fence.step open? line).1.inFence with
    | true =>
      rw [collapseLines_fenced hin] at h
      rcases List.mem_cons.1 h with rfl | h
      · exact List.mem_cons_self
      · exact List.mem_cons_of_mem line (ih h)
    | false =>
      cases hdrop : line.allBlank && blank with
      | true =>
        rw [collapseLines_dropped hin hdrop] at h
        exact List.mem_cons_of_mem line (ih h)
      | false =>
        rw [collapseLines_kept hin hdrop] at h
        rcases List.mem_cons.1 h with rfl | h
        · exact List.mem_cons_self
        · exact List.mem_cons_of_mem line (ih h)

/-- Rows with something in them are all kept, and the state behind them is what it would be anyway. -/
theorem collapseLines_append_of_filled (h : ∀ r ∈ xs, r.allBlank = false) :
    ∃ next, collapseLines open? false (xs ++ ys) = xs ++ collapseLines next false ys := by
  induction xs generalizing open? with
  | nil => exact ⟨open?, rfl⟩
  | cons line xs ih =>
    obtain ⟨hline, hxs⟩ := List.forall_mem_cons.1 h
    obtain ⟨next, hnext⟩ := @ih (Fence.step open? line).2 hxs
    refine ⟨next, ?_⟩
    cases hin : (Fence.step open? line).1.inFence with
    | true => rw [List.cons_append, collapseLines_fenced hin, hnext, List.cons_append]
    | false =>
      rw [List.cons_append, collapseLines_kept hin (by simp [hline]), hline, hnext, List.cons_append]

theorem collapseLines_append_nil :
    collapseLines open? blank (xs ++ [[]]) = collapseLines open? blank xs ∨
      collapseLines open? blank (xs ++ [[]]) = collapseLines open? blank xs ++ [[]] := by
  induction xs generalizing open? blank with
  | nil =>
    cases hin : (Fence.step open? []).1.inFence with
    | true => exact .inr (collapseLines_fenced hin)
    | false =>
      cases hdrop : Text.allBlank [] && blank with
      | true => exact .inl (collapseLines_dropped hin hdrop)
      | false => exact .inr (collapseLines_kept hin hdrop)
  | cons line xs ih =>
    rw [List.cons_append]
    cases hin : (Fence.step open? line).1.inFence with
    | true =>
      rw [collapseLines_fenced hin, collapseLines_fenced hin]
      exact ih.imp (congrArg _) (congrArg _)
    | false =>
      cases hdrop : line.allBlank && blank with
      | true =>
        rw [collapseLines_dropped hin hdrop, collapseLines_dropped hin hdrop]
        exact ih
      | false =>
        rw [collapseLines_kept hin hdrop, collapseLines_kept hin hdrop]
        exact ih.imp (congrArg _) (congrArg _)

/-- The rows of a document as it is laid out, without the line feed at its end. -/
def tidyRows (rs : List Text) : List Text :=
  (collapseLines none false (rs.map Text.trimRight)).rdropWhile (· = [])

theorem mem_tidyRows {r : Text} (h : r ∈ tidyRows rs) : ∃ u ∈ rs, u.trimRight = r :=
  List.mem_map.1 (mem_collapseLines ((List.rdropWhile_prefix _ _).subset h))

theorem endOnce_unlines (h : ∀ r ∈ rs, '\n' ∉ r) :
    endOnce (Text.unlines rs) =
      if rs.rdropWhile (· = []) = [] then ['\n'] else Text.above (rs.rdropWhile (· = [])) := by
  have hnewline (s : Text) : endOnce (s ++ ['\n']) = endOnce s := by
    change (List.rdropWhile (· = '\n') (s ++ ['\n'])) ++ ['\n'] = _
    rw [List.rdropWhile_concat_pos _ _ _ (by decide)]
    rfl
  -- From the last row on, as both sides drop empty rows from the end.
  induction rs using List.reverseRecOn with
  | nil => rfl
  | append_singleton xs x ih =>
    have hxs : ∀ r ∈ xs, '\n' ∉ r := fun r hr => h r (List.mem_append_left _ hr)
    by_cases hx : x = []
    · subst hx
      have hdrop : (xs ++ [[]]).rdropWhile (fun x => decide (x = [])) =
          xs.rdropWhile (fun x => decide (x = [])) :=
        List.rdropWhile_concat_pos _ _ _ (decide_eq_true rfl)
      rw [hdrop, ← ih hxs]
      rcases List.eq_nil_or_concat xs with rfl | ⟨init, last, rfl⟩
      · rfl
      · rw [← Text.above_append_unlines _ (List.cons_ne_nil [] []),
          Text.above_eq_unlines_append (by simp)]
        have hend : Text.unlines [[]] = [] := rfl
        rw [hend, List.append_nil, hnewline]
    · rw [List.rdropWhile_concat_neg _ _ _ (by simpa using hx), if_neg (by simp),
        ← Text.above_append_unlines xs (List.cons_ne_nil x [])]
      obtain ⟨init, c, rfl⟩ : ∃ init c, x = init ++ [c] := by
        rcases List.eq_nil_or_concat x with rfl | ⟨init, c, rfl⟩
        · exact absurd rfl hx
        · exact ⟨init, c, List.concat_eq_append⟩
      have hc : c ≠ '\n' := by
        rintro rfl
        exact h _ (List.mem_append_right xs (List.mem_singleton_self _)) (by simp)
      have hlast : endOnce (Text.above xs ++ (init ++ [c])) =
          Text.above xs ++ (init ++ [c]) ++ ['\n'] := by
        change List.rdropWhile (· = '\n') (Text.above xs ++ (init ++ [c])) ++ ['\n'] = _
        rw [← List.append_assoc, List.rdropWhile_concat_neg _ _ _ (by simpa using hc)]
      have hone : Text.unlines [init ++ [c]] = init ++ [c] := by
        simp [Text.unlines, List.intercalate]
      rw [hone, hlast]
      simp [Text.above]

theorem prettify_eq {s : Text} (h : s ≠ []) :
    prettify s = if tidyRows (joinEndings s).rows = [] then ['\n']
      else Text.above (tidyRows (joinEndings s).rows) := by
  have hmap : ∀ r ∈ (joinEndings s).rows.map Text.trimRight, '\n' ∉ r := by
    intro r hr
    obtain ⟨u, hu, rfl⟩ := List.mem_map.1 hr
    exact Text.not_mem_trimRight (Text.not_mem_of_mem_rows hu)
  have hrows : (trimLines (joinEndings s)).splitOn '\n' =
      (joinEndings s).rows.map Text.trimRight := by
    have hne : (joinEndings s).rows.map Text.trimRight ≠ [] := by simp [Text.rows_ne_nil]
    exact Text.rows_unlines hne hmap
  have hcollapse : collapse (trimLines (joinEndings s)) = Text.unlines
      (collapseLines none false ((joinEndings s).rows.map Text.trimRight)) := by
    rw [collapse, hrows]
  rw [prettify, if_neg h, hcollapse, endOnce_unlines fun r hr => hmap r (mem_collapseLines hr)]
  rfl

theorem joinEndings_append {s : Text} (h : '\r' ∉ s) (t : Text) :
    joinEndings (s ++ t) = s ++ joinEndings t := by
  induction s with
  | nil => rfl
  | cons c s ih =>
    have hs : '\r' ∉ s := fun hmem => h (List.mem_cons_of_mem c hmem)
    rw [List.cons_append, joinEndings, ih hs, List.cons_append]
    rintro rest rfl
    exact absurd List.mem_cons_self h

theorem joinEndings_eq_self {s : Text} (h : '\r' ∉ s) : joinEndings s = s := by
  have hjoin := joinEndings_append h []
  rwa [List.append_nil, joinEndings, List.append_nil] at hjoin

/-- Whether rows are trimmed, no blank one outside fences follows another, and the last one is not
empty. -/
structure Tidy (rs : List Text) : Prop where
  trimmed : ∀ r ∈ rs, r.trimRight = r
  collapsed : collapsed none false rs
  ended : rs.rdropWhile (· = []) = rs

theorem tidy_tidyRows (rs : List Text) : Tidy (tidyRows rs) := by
  obtain ⟨behind, hbehind⟩ := List.rdropWhile_prefix (· = [])
    (collapseLines none false (rs.map Text.trimRight))
  refine ⟨fun r hr => ?_, ?_, List.rdropWhile_idempotent _ _⟩
  · obtain ⟨u, -, rfl⟩ := mem_tidyRows hr
    exact Text.trimRight_trimRight u
  · have hall := collapsed_collapseLines none false (rs.map Text.trimRight)
    rw [← hbehind] at hall
    exact collapsed_of_append hall

theorem Tidy.tidyRows_eq (h : Tidy rs) : tidyRows rs = rs := by
  have hmap : rs.map Text.trimRight = rs :=
    (List.map_congr_left h.trimmed).trans (List.map_id'' (fun _ => rfl) rs)
  rw [tidyRows, hmap, collapseLines_of_collapsed h.collapsed, h.ended]

theorem tidyRows_append_nil (rs : List Text) : tidyRows (rs ++ [[]]) = tidyRows rs := by
  have hdrop (xs : List Text) : (xs ++ [[]]).rdropWhile (fun r => decide (r = [])) =
      xs.rdropWhile (fun r => decide (r = [])) :=
    List.rdropWhile_concat_pos _ _ _ (decide_eq_true rfl)
  have hnil : [([] : Text)].map Text.trimRight = [[]] := rfl
  rw [tidyRows, List.map_append, hnil]
  rcases @collapseLines_append_nil none false (rs.map Text.trimRight) with h | h
  · rw [h]
    rfl
  · rw [h, hdrop]
    rfl

theorem rows_prettify {s : Text} (h : s ≠ []) :
    (prettify s).rows = if tidyRows (joinEndings s).rows = [] then [[], []]
      else tidyRows (joinEndings s).rows ++ [[]] := by
  rw [prettify_eq h]
  split
  · rfl
  · have hmem : ∀ r ∈ tidyRows (joinEndings s).rows, '\n' ∉ r := by
      intro r hr
      obtain ⟨u, hu, rfl⟩ := mem_tidyRows hr
      exact Text.not_mem_trimRight (Text.not_mem_of_mem_rows hu)
    have hrows := Text.rows_above_append hmem []
    rw [List.append_nil] at hrows
    exact hrows

/-- Laying out depends on the rows only, and not on the blanks at their ends. -/
theorem prettify_congr {s t : Text} (hs : s ≠ []) (ht : t ≠ [])
    (h : tidyRows (joinEndings s).rows = tidyRows (joinEndings t).rows) :
    prettify s = prettify t := by
  rw [prettify_eq hs, prettify_eq ht, h]

theorem prettify_of_joined {s : Text} (h : joinEndings (prettify s) = prettify s) :
    prettify (prettify s) = prettify s := by
  by_cases hs : s = []
  · subst hs
    rfl
  · have hne : prettify s ≠ [] := fun hnil => hs (prettify_eq_nil_iff.1 hnil)
    rw [prettify_eq hne, h, rows_prettify hs, prettify_eq hs]
    split
    · rfl
    · rename_i hrows
      rw [tidyRows_append_nil, (tidy_tidyRows _).tidyRows_eq, if_neg hrows]

theorem prettify_prettify {s : Text} (hr : '\r' ∉ prettify s) :
    prettify (prettify s) = prettify s := prettify_of_joined (joinEndings_eq_self hr)

theorem not_mem_prettify {s : Text} (hr : '\r' ∉ s) : '\r' ∉ prettify s := by
  by_cases h : s = []
  · rw [h]
    exact List.not_mem_nil
  · rw [prettify_eq h]
    split
    · decide
    · refine Text.not_mem_above (by decide) fun r hmem => ?_
      obtain ⟨u, hu, rfl⟩ := mem_tidyRows hmem
      rw [joinEndings_eq_self hr] at hu
      exact Text.not_mem_trimRight (Text.not_mem_of_rows hr hu)

end Layout
end Transclude

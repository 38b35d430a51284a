import Mathlib.Data.Nat.Find
import Transclude.Proofs.DeclarableScopes

/-! Front matter found line by line. Without carriage returns the block that is cut off is the one
between a mark on the first line and the next mark from the third line on, and the body is what stands
behind it but for one empty line. -/

namespace Transclude

namespace FrontMatter

variable {s mark : Text} {rows block behind : List Text} {j : Nat}

/-- Whether the first row is a mark, and row `j` the first mark of those from the third row on. -/
structure ClosesAt (rows : List Text) (j : Nat) : Prop where
  opens : rows[0]? = some fenceMark
  beyond : 2 ≤ j
  closes : rows[j]? = some fenceMark
  earliest : ∀ i, 2 ≤ i → i < j → rows[i]? ≠ some fenceMark

theorem exists_closesAt (hopens : rows[0]? = some fenceMark)
    (h : ∃ j, 2 ≤ j ∧ rows[j]? = some fenceMark) : ∃ j, ClosesAt rows j := by
  classical
  obtain ⟨hbeyond, hcloses⟩ := Nat.find_spec h
  exact ⟨Nat.find h, hopens, hbeyond, hcloses, fun i hi hlt hmark => Nat.find_min h hlt ⟨hi, hmark⟩⟩

theorem ClosesAt.rows_eq (h : ClosesAt rows j) :
    rows = fenceMark :: ((rows.take j).drop 1 ++ fenceMark :: rows.drop (j + 1)) := by
  obtain ⟨hlt, hclose⟩ := List.getElem?_eq_some_iff.1 h.closes
  have hsplit := List.take_append_drop j rows
  rw [List.drop_eq_getElem_cons hlt, hclose] at hsplit
  obtain ⟨front, hfront⟩ : ∃ front, rows.take j = fenceMark :: front := by
    refine ⟨(rows.take j).tail, List.eq_cons_of_mem_head? ?_⟩
    rw [List.head?_eq_getElem?, List.getElem?_take_of_lt (by have := h.beyond; omega), h.opens]
    rfl
  rw [hfront] at hsplit ⊢
  exact hsplit.symm

theorem ClosesAt.block_ne_nil (h : ClosesAt rows j) : (rows.take j).drop 1 ≠ [] := by
  have hlt := (List.getElem?_eq_some_iff.1 h.closes).1
  have hbeyond := h.beyond
  rw [← List.length_pos_iff, List.length_drop, List.length_take]
  omega

theorem ClosesAt.not_mem_block (h : ClosesAt rows j) : fenceMark ∉ ((rows.take j).drop 1).tail := by
  rw [List.tail_drop]
  intro hmem
  obtain ⟨i, hi⟩ := List.mem_iff_getElem?.1 hmem
  rw [List.getElem?_drop, List.getElem?_take] at hi
  split at hi
  · rename_i hlt
    exact h.earliest (2 + i) (Nat.le_add_right 2 i) hlt hi
  · cases hi

theorem closes_of_rows_eq (hrows : rows = fenceMark :: (block ++ fenceMark :: behind))
    (hne : block ≠ []) : 2 ≤ block.length + 1 ∧ rows[block.length + 1]? = some fenceMark := by
  have hlength := List.length_pos_iff.2 hne
  refine ⟨by omega, ?_⟩
  rw [hrows, List.getElem?_cons_succ, List.getElem?_append_right (Nat.le_refl _), Nat.sub_self]
  rfl

theorem headed_of_closesAt (h : ClosesAt (dropMark s).2.rows j) :
    Headed s (dropMark s).1 (((dropMark s).2.rows.take j).drop 1)
      ((dropMark s).2.rows.drop (j + 1)) := by
  have hmark := isMark_dropMark s
  refine ⟨hmark, ?_, h.block_ne_nil, h.not_mem_block⟩
  have hhead : (dropMark s).1.rows = [] ++ [(dropMark s).1] := by
    rcases hmark with hmark | hmark <;> rw [hmark] <;> rfl
  have hjoin := Text.rows_append hhead h.rows_eq
  rwa [append_dropMark, List.nil_append] at hjoin

theorem Headed.rows_dropMark (h : Headed s mark block behind) :
    (dropMark s).2.rows = fenceMark :: (block ++ fenceMark :: behind) := by
  have hrows : ∀ row ∈ fenceMark :: (block ++ fenceMark :: behind), '\n' ∉ row := by
    refine List.forall_mem_cons.2 ⟨by decide, fun row hrow => ?_⟩
    exact Text.not_mem_of_mem_rows (h.rows_eq ▸ List.mem_cons_of_mem _ hrow)
  obtain ⟨b, rest, rfl⟩ := List.exists_cons_of_ne_nil h.filled
  rw [h.eq_append, dropMark_append h.isMark, List.cons_append, ← Text.unlines_cons_cons]
  exact Text.rows_unlines (List.cons_ne_nil _ _) hrows

def dropNewline (s : Text) : Text := (s.after? ['\n']).getD s

theorem unlines_bodyRows (h : ∀ row ∈ behind, '\n' ∉ row) :
    Text.unlines (bodyRows behind) = dropNewline (Text.unlines behind) := by
  cases behind with
  | nil => rfl
  | cons row rest =>
    cases row with
    | nil =>
      cases rest with
      | nil => rfl
      | cons next rest =>
        have hafter : Text.after? ('\n' :: Text.unlines (next :: rest)) ['\n'] =
            some (Text.unlines (next :: rest)) := Text.after?_append ['\n'] _
        rw [Text.unlines_cons_cons, List.nil_append, dropNewline, hafter]
        rfl
    | cons c row =>
      have hc : c ≠ '\n' := (List.ne_of_not_mem_cons (h _ List.mem_cons_self)).symm
      rw [bodyRows, if_neg (by simp), dropNewline, Text.unlines_cons, List.cons_append,
        Text.after?_cons, if_neg hc]
      rfl

/-- Nothing is lost by a split, and no variables are read without a block. There is a block exactly
if the first line is a mark and so is some line from the third on; the first of these closes it. -/
theorem split_line_by_line (s : Text) :
    (split s).raw?.getD [] ++ (split s).body = s ∧
    ((split s).raw? = none → (split s).scope = .empty) ∧
    ('\r' ∉ s → ∀ rows, rows = (dropMark s).2.rows →
      ((split s).raw? ≠ none ↔
        rows[0]? = some fenceMark ∧ ∃ j, 2 ≤ j ∧ rows[j]? = some fenceMark) ∧
      ∀ j, ClosesAt rows j →
        (split s).scope = scopeOf (Text.unlines ((rows.take j).drop 1)) ∧
        (split s).body = dropNewline (Text.unlines (rows.drop (j + 1)))) := by
  refine ⟨raw_append_body s, scope_of_raw?_eq_none, ?_⟩
  rintro hr rows rfl
  refine ⟨⟨fun hraw => ?_, fun ⟨hopens, hmark⟩ => ?_⟩, fun j hclose => ?_⟩
  · obtain ⟨mark, block, behind, h⟩ := exists_headed hr hraw
    refine ⟨by rw [h.rows_dropMark]; rfl, _, closes_of_rows_eq h.rows_dropMark h.filled⟩
  · obtain ⟨j, hclose⟩ := exists_closesAt hopens hmark
    obtain ⟨raw, hsplit⟩ := (headed_of_closesAt hclose).split_eq hr
    rw [hsplit]
    exact Option.some_ne_none _
  · obtain ⟨raw, hsplit⟩ := (headed_of_closesAt hclose).split_eq hr
    rw [hsplit]
    exact ⟨rfl, unlines_bodyRows fun row hrow => Text.not_mem_of_mem_rows (List.mem_of_mem_drop hrow)⟩

def markedDocument : Text := "\uFEFF---\n---\nx: 1\n---\n\n\nText\n---\n".text

theorem split_line_by_line_of_marked : '\r' ∉ markedDocument ∧
    ClosesAt (dropMark markedDocument).2.rows 3 ∧ (split markedDocument).raw? ≠ none ∧
    (split markedDocument).scope = scopeOf "---\nx: 1".text ∧
    (split markedDocument).body = "\nText\n---\n".text := by
  have hr : '\r' ∉ markedDocument := by decide
  have hclose : ClosesAt (dropMark markedDocument).2.rows 3 :=
    ⟨by decide, by decide, by decide, by decide⟩
  obtain ⟨hraw, hread⟩ := (split_line_by_line markedDocument).2.2 hr _ rfl
  obtain ⟨hscope, hbody⟩ := hread 3 hclose
  refine ⟨hr, hclose, hraw.2 ⟨hclose.opens, 3, hclose.beyond, hclose.closes⟩, hscope.trans ?_,
    hbody.trans ?_⟩
  · exact congrArg scopeOf (by decide)
  · decide

end FrontMatter
end Transclude

import Transclude.Proofs.DirectiveReads
import Transclude.Proofs.RowContinuations

/-! Texts whose rows are shifted, fences aside. Where a text goes on in the middle of a row, that row
is not shifted again; behind a character that ends the marks, what follows is shifted by itself. -/

namespace Transclude

open Text (EndsMarks)

namespace Heading

def shiftRows (shift : Int) (s : Text) : Text := Text.unlines (s.rows.map (shiftLine shift))

/-- Shifts every row of a text but the first. -/
def shiftBelow (shift : Int) (s : Text) : Text :=
  match s.rows with
  | [] => []
  | row :: rows => Text.unlines (row :: rows.map (shiftLine shift))

variable {shift : Int} {s row : Text} {rows : List Text} {c : Char}

theorem shiftRows_of_rows (h : s.rows = row :: rows) :
    shiftRows shift s = shiftLine shift row ++ Text.below (rows.map (shiftLine shift)) := by
  rw [shiftRows, h, List.map_cons, Text.unlines_cons]

theorem shiftBelow_of_rows (h : s.rows = row :: rows) :
    shiftBelow shift s = row ++ Text.below (rows.map (shiftLine shift)) := by
  unfold shiftBelow
  rw [h]
  exact Text.unlines_cons row _

@[simp] theorem shiftRows_nil : shiftRows shift [] = [] := rfl

@[simp] theorem shiftBelow_nil : shiftBelow shift [] = [] := rfl

theorem shiftRows_of_row (h : '\n' ∉ s) : shiftRows shift s = shiftLine shift s := by
  rw [shiftRows_of_rows (Text.rows_of_row h)]
  exact List.append_nil _

theorem shiftRows_append_newline (h : '\n' ∉ row) (s : Text) :
    shiftRows shift (row ++ '\n' :: s) = shiftLine shift row ++ '\n' :: shiftRows shift s := by
  have hrow : ∀ r ∈ [row], '\n' ∉ r := by simpa using h
  have hrows := Text.rows_above_append hrow s
  obtain ⟨first, rest, hs⟩ := Text.exists_rows s
  have hwhole : row ++ '\n' :: s = Text.above [row] ++ s := by simp [Text.above]
  rw [hs, List.singleton_append] at hrows
  rw [hwhole, shiftRows_of_rows hrows, shiftRows, hs, List.map_cons, Text.below_cons]

theorem shiftBelow_newline (s : Text) :
    shiftBelow shift ('\n' :: s) = '\n' :: shiftRows shift s := by
  obtain ⟨first, rest, hs⟩ := Text.exists_rows s
  rw [shiftBelow_of_rows (Text.rows_newline_cons s), shiftRows, hs, List.map_cons, Text.below_cons]
  rfl

theorem shiftBelow_cons (hc : c ≠ '\n') (s : Text) :
    shiftBelow shift (c :: s) = c :: shiftBelow shift s := by
  obtain ⟨first, rest, hs⟩ := Text.exists_rows s
  rw [shiftBelow_of_rows (Text.rows_cons_of_ne hc hs), shiftBelow_of_rows hs]
  rfl

theorem shiftRows_append (hc : EndsMarks c) (s t : Text) :
    shiftRows shift (s ++ c :: t) = shiftRows shift s ++ c :: shiftBelow shift t := by
  have hs := Text.rows_eq_append_lastRow s
  obtain ⟨first, rest, ht⟩ := Text.exists_rows t
  have hrows := Text.rows_append hs (Text.rows_cons_of_ne hc.ne_newline ht)
  rw [shiftRows, shiftRows, hrows, hs, shiftBelow_of_rows ht, List.map_append, List.map_append,
    List.map_cons, List.map_cons, shiftLine_append hc,
    ← Text.above_append_unlines _ (List.cons_ne_nil _ _),
    ← Text.above_append_unlines _ (List.cons_ne_nil _ _), Text.unlines_cons, Text.unlines_cons]
  simp [Text.below]

theorem shiftBelow_append (hc : EndsMarks c) (s t : Text) :
    shiftBelow shift (s ++ c :: t) = shiftBelow shift s ++ c :: shiftBelow shift t := by
  induction s with
  | nil => exact shiftBelow_cons hc.ne_newline t
  | cons d s ih =>
    by_cases hd : d = '\n'
    · subst hd
      rw [List.cons_append, shiftBelow_newline, shiftBelow_newline, shiftRows_append hc]
      rfl
    · rw [List.cons_append, shiftBelow_cons hd, shiftBelow_cons hd, ih]
      rfl

theorem stretched_below (shift : Int) (rows : List Text) :
    Stretched (Text.below rows) (Text.below (rows.map (shiftLine shift))) := by
  induction rows with
  | nil => exact .nil
  | cons row rows ih => exact (((Stretched.shiftLine shift row).append ih).cons '\n')

theorem eq_of_rows (h : s.rows = row :: rows) : row ++ Text.below rows = s := by
  rw [← Text.unlines_cons, ← h, Text.unlines_rows]

theorem stretched_shiftBelow (shift : Int) (s : Text) : Stretched s (shiftBelow shift s) := by
  obtain ⟨row, rows, hs⟩ := Text.exists_rows s
  have hrows := (Stretched.refl row).append (stretched_below shift rows)
  rwa [eq_of_rows hs, ← shiftBelow_of_rows hs] at hrows

/-- Of the first row a shift changes no more than the blanks and the marks at its start; behind them
the text goes on as in the middle of a row. -/
theorem exists_shiftRows (shift : Int) (s : Text) :
    ∃ front front' rest, '\x7b' ∉ front ∧ '\x7b' ∉ front' ∧ s = front ++ rest ∧
      shiftRows shift s = front' ++ shiftBelow shift rest := by
  obtain ⟨row, rows, hs⟩ := Text.exists_rows s
  cases hparts : parts? row with
  | none =>
    refine ⟨[], [], s, List.not_mem_nil, List.not_mem_nil, rfl, ?_⟩
    rw [shiftRows_of_rows hs, shiftBelow_of_rows hs, shiftLine_of_no_parts hparts]
    rfl
  | some parts =>
    obtain ⟨indent, marks, tail⟩ := parts
    obtain ⟨hindent, -⟩ := marks_of_parts? hparts
    have hfront (n : Nat) : '\x7b' ∉ indent ++ List.replicate n '#' := by
      rw [List.mem_append, not_or, List.mem_replicate]
      exact ⟨Directive.not_mem_of_allBlank hindent (by decide), fun h => absurd h.2 (by decide)⟩
    have hrow := append_of_parts? hparts
    have hlines : ∀ r ∈ row :: rows, '\n' ∉ r := fun r hr => Text.not_mem_of_mem_rows (hs ▸ hr)
    have htail : '\n' ∉ tail := fun h =>
      hlines row List.mem_cons_self (hrow ▸ List.mem_append_right _ h)
    have hrest : Text.rows (tail ++ Text.below rows) = tail :: rows := by
      rw [Text.rows_append_below fun r hr => hlines r (List.mem_cons_of_mem _ hr),
        Text.rows_of_row htail]
      rfl
    refine ⟨indent ++ List.replicate marks '#',
      indent ++ List.replicate (clamp (marks + shift)) '#', tail ++ Text.below rows, hfront _,
      hfront _, ?_, ?_⟩
    · rw [← List.append_assoc, hrow, eq_of_rows hs]
    · rw [shiftRows_of_rows hs, shiftBelow_of_rows hrest, shiftLine_of_parts? hparts,
        List.append_assoc]

theorem shiftBelow_eq_iff : shiftBelow shift s = s ↔ ∀ r ∈ s.rows.tail, shiftLine shift r = r := by
  obtain ⟨row, rows, hs⟩ := Text.exists_rows s
  obtain ⟨hrow, hrows⟩ : '\n' ∉ row ∧ ∀ r ∈ rows, '\n' ∉ r :=
    List.forall_mem_cons.1 fun r hr => Text.not_mem_of_mem_rows (hs ▸ hr)
  have hmoved : ∀ r ∈ row :: rows.map (shiftLine shift), '\n' ∉ r := by
    refine List.forall_mem_cons.2 ⟨hrow, fun r hr => ?_⟩
    obtain ⟨former, hformer, rfl⟩ := List.mem_map.1 hr
    exact not_mem_shiftLine (by decide) (hrows former hformer) shift
  have hfixed : rows.map (shiftLine shift) = rows ↔ ∀ r ∈ rows, shiftLine shift r = r := by
    have hmap := List.map_eq_map_iff (f := shiftLine shift) (g := id) (l := rows)
    rwa [List.map_id] at hmap
  rw [shiftBelow_of_rows hs, ← Text.unlines_cons, hs, List.tail_cons, ← hfixed]
  constructor
  · intro heq
    have hsame := congrArg Text.rows heq
    rw [Text.rows_unlines (List.cons_ne_nil _ _) hmoved, hs] at hsame
    exact (List.cons.inj hsame).2
  · intro hsame
    rw [hsame, ← hs, Text.unlines_rows]

end Heading
end Transclude

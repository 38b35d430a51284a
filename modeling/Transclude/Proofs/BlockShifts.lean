import Transclude.Proofs.FencedBlocks

/-! Shifting the headings of a text around a fenced block. The block stays as it is and where it is
if it starts at the margin. -/

namespace Transclude

namespace Text

theorem dropReturn_append_of_ne_nil (x : Text) {y : Text} (h : y ≠ []) :
    dropReturn (x ++ y) = x ++ dropReturn y := by
  obtain ⟨last, hlast⟩ : ∃ last, y.getLast? = some last := by
    cases hy : y.getLast? with
    | none => exact absurd (List.getLast?_eq_none_iff.1 hy) h
    | some last => exact ⟨last, rfl⟩
  unfold dropReturn
  rw [List.getLast?_append, hlast, Option.some_or]
  split
  · rw [List.dropLast_append_of_ne_nil h]
  · rfl

theorem trim_dropReturn (s : Text) : (dropReturn s).trim = s.trim := by
  unfold dropReturn
  split
  · rename_i h
    obtain ⟨t, rfl⟩ : ∃ t, s = t ++ ['\r'] := by
      rcases List.eq_nil_or_concat s with rfl | ⟨t, c, rfl⟩
      · cases h
      · refine ⟨t, ?_⟩
        rw [List.concat_eq_append] at h ⊢
        rw [List.getLast?_append] at h
        simp_all
    rw [List.dropLast_concat, trim_append_blank (by decide)]
  · rfl

theorem dropReturns_append (xs : List Text) {ys : List Text} (h : ys ≠ []) :
    dropReturns (xs ++ ys) = xs.map dropReturn ++ dropReturns ys := by
  induction xs with
  | nil => rfl
  | cons x xs ih =>
    obtain ⟨z, zs, hz⟩ := List.exists_cons_of_ne_nil (List.append_ne_nil_of_right_ne_nil xs h)
    rw [List.cons_append, hz, dropReturns, ← hz, ih]
    rfl

theorem dropReturns_append_head {line y z : Text} {ys zs : List Text}
    (h : line.getLast? ≠ some '\r')
    (hy : dropReturns (y :: ys) = z :: zs) :
    dropReturns ((line ++ y) :: ys) = (line ++ z) :: zs := by
  cases ys with
  | nil =>
    obtain ⟨rfl, rfl⟩ := List.cons.inj hy
    rfl
  | cons next ys =>
    obtain ⟨rfl, rfl⟩ := List.cons.inj hy
    rw [dropReturns]
    by_cases hnil : y = []
    · rw [hnil, List.append_nil, show dropReturn line = line from if_neg h]
      exact congrArg (· :: _) (List.append_nil line).symm
    · rw [dropReturn_append_of_ne_nil line hnil]

end Text

namespace Heading

theorem shiftLine_blank {line : Text} (h : line.allBlank) (shift : Int) :
    shiftLine shift line = line := by
  have hnone : parts? line = none := by
    have hrest : line.dropWhile Text.isBlank = [] := Text.trimLeft_eq_nil_iff.2 h
    unfold parts? Text.spanBlanks
    rw [hrest]
    rfl
  exact shiftLine_of_no_parts hnone shift

theorem shiftLines_inner {fence : Fence} {inner : List Text}
    (hi : ∀ line ∈ inner, fence.closedBy line = false) {closer : Text} (hc : fence.closedBy closer)
    (shift : Int) (rest : List Text) :
    shiftLines shift (some fence) (inner ++ closer :: rest) =
      inner ++ closer :: shiftLines shift none rest := by
  induction inner with
  | nil =>
    rw [List.nil_append, shiftLines_cons, Fence.step_closing hc]
    rfl
  | cons line inner ih =>
    obtain ⟨hline, hinner⟩ := List.forall_mem_cons.1 hi
    rw [List.cons_append, shiftLines_cons, Fence.step_fenced hline, ih hinner]
    rfl

variable {front : Text}

theorem openAfter_map_dropReturn (open? : Option Fence) (ls : List Text) :
    Fence.openAfter open? (ls.map Text.dropReturn) = Fence.openAfter open? ls := by
  induction ls generalizing open? with
  | nil => rfl
  | cons line ls ih =>
    have hnext := ih (Fence.step open? line).2
    have hline := Fence.step_congr (Text.trim_dropReturn line) open?
    rw [Fence.openAfter, List.map_cons, List.foldl_cons, hline]
    exact hnext

def shiftedRows (shift : Int) (front : Text) : List Text :=
  shiftLines shift none (front.rows.dropLast.map Text.dropReturn)

theorem openAfter_shiftedRows (hf : AtMargin front) (shift : Int) :
    Fence.openAfter none (shiftedRows shift front) = none := by
  rw [shiftedRows, openAfter_shiftLines Fence.real_none, openAfter_map_dropReturn, hf.1]

/-- A row as it is after a shift, `open?` being the fence that is open in front of it. -/
def shiftedRow (shift : Int) (open? : Option Fence) (row : Text) : Text :=
  if (Fence.step open? row).1.inFence then row else shiftLine shift row

theorem shift_eq_above (shift : Int) (front : Text) :
    Heading.shift shift front = Text.above (shiftedRows shift front) ++
      shiftedRow shift (Fence.openAfter none front.rows.dropLast) (Text.lastRow front) := by
  have hlines : Text.lines front =
      front.rows.dropLast.map Text.dropReturn ++ [Text.lastRow front] := by
    rw [Text.lines, ← Text.rows, Text.rows_eq_append_lastRow front,
      Text.dropReturns_append _ (List.cons_ne_nil _ _), List.dropLast_concat]
    rfl
  rw [Heading.shift, hlines, shiftLines_append, openAfter_map_dropReturn, shiftLines_cons,
    ← Text.above_append_unlines _ (List.cons_ne_nil _ _), shiftedRows]
  simp [shiftLines, Text.unlines, shiftedRow]

theorem shift_front (hf : AtMargin front) (shift : Int) :
    Heading.shift shift front = Text.above (shiftedRows shift front) ++ Text.lastRow front := by
  rw [shift_eq_above, hf.1, shiftedRow, Fence.step_blank hf.2, shiftLine_blank hf.2, ite_self]

theorem atMargin_shift (hf : AtMargin front) (shift : Int) :
    AtMargin (Heading.shift shift front) := by
  have hbreak : ∀ l ∈ shiftedRows shift front, '\n' ∉ l := by
    refine not_mem_shiftLines (by decide) (fun l hl hmem => ?_) shift none
    obtain ⟨r, hr, rfl⟩ := List.mem_map.1 hl
    exact Text.not_mem_of_mem_rows (List.dropLast_subset _ hr) (Text.mem_of_mem_dropReturn hmem)
  have hlast : '\n' ∉ Text.lastRow front :=
    Text.not_mem_of_mem_rows (List.getLast_mem (Text.rows_ne_nil front))
  refine atMargin_iff.2 ⟨shiftedRows shift front, Text.lastRow front, ?_,
    openAfter_shiftedRows hf shift, hf.2⟩
  rw [shift_front hf, Text.rows_above_append hbreak, Text.rows, List.splitOn_eq_singleton hlast]

/-- Whether a shift of a text in front of any block leaves the block as it is. -/
def Spares (shift : Int) (front : Text) : Prop :=
  ∀ block, IsBlock block → ∀ rest, ∃ behind,
    Heading.shift shift (front ++ Text.unlines block ++ rest) =
      Heading.shift shift front ++ Text.unlines block ++ behind

theorem shift_block (hf : AtMargin front) (shift : Int) (rest : Text) :
    ∃ behind, ∀ block, IsBlock block →
      Heading.shift shift (front ++ Text.unlines block ++ rest) =
        Heading.shift shift front ++ Text.unlines block ++ behind := by
  obtain ⟨tail, more, hends⟩ :
      ∃ tail more, Text.dropReturns (rest.rows.head (Text.rows_ne_nil rest) :: rest.rows.tail) =
        tail :: more := by
    cases rest.rows.tail with
    | nil => exact ⟨_, _, rfl⟩
    | cons z zs => exact ⟨_, _, rfl⟩
  refine ⟨tail ++ Text.below (shiftLines shift none more), fun block hb => ?_⟩
  obtain ⟨hunbroken, opener, inner, closer, fence, rfl, hopener, hinner, hcloser⟩ := hb
  have hreal := Fence.real_opening hopener
  obtain ⟨hopen, hrest⟩ := List.forall_mem_cons.1 hunbroken
  obtain ⟨hmiddle, hclose⟩ := List.forall_mem_append.1 hrest
  have hkeeps : closer.getLast? ≠ some '\r' := fun hlast =>
    (hclose closer List.mem_cons_self).2 (List.mem_of_getLast? hlast)
  have hopenerNe : opener ≠ [] := by
    rintro rfl
    cases hopener
  have hfirst : Text.dropReturn (Text.lastRow front ++ opener) = Text.lastRow front ++ opener := by
    rw [Text.dropReturn_append_of_ne_nil _ hopenerNe, Text.dropReturn_eq_self hopen.2]
  have hkept : inner.map Text.dropReturn = inner :=
    (List.map_congr_left fun l hl => Text.dropReturn_eq_self (hmiddle l hl).2).trans (List.map_id _)
  have hstep : Fence.step none (Text.lastRow front ++ opener) = (.fence, some fence) := by
    rw [Fence.step_blank_append hf.2, Fence.step_opening hopener]
  have hstate : Fence.openAfter none (front.rows.dropLast.map Text.dropReturn) = none := by
    rw [openAfter_map_dropReturn, hf.1]
  -- The block shares its first line with the front and its last one with the rest.
  have hlines : shiftLines shift none
      (Text.lines (front ++ Text.unlines (opener :: (inner ++ [closer])) ++ rest)) =
        shiftedRows shift front ++ (Text.lastRow front ++ opener) :: inner ++
          (closer ++ tail) :: shiftLines shift none more := by
    rw [Text.lines, ← Text.rows, Text.rows_around hunbroken,
      Text.dropReturns_append _ (List.cons_ne_nil _ _),
      Text.dropReturns_append_head hkeeps hends, List.map_append,
      List.map_cons, hfirst, hkept, List.append_assoc, List.cons_append, shiftLines_append, hstate,
      shiftLines_cons, hstep, shiftLines_inner hinner (Fence.closedBy_append hreal hcloser tail)]
    simp [shiftedRows, LineClass.inFence]
  have hblock := Text.above_append_unlines (opener :: inner) (List.cons_ne_nil closer [])
  have hbelow := Text.unlines_append_below (List.cons_ne_nil (closer ++ tail) [])
    (shiftLines shift none more)
  rw [List.cons_append] at hblock
  rw [List.singleton_append] at hbelow
  rw [Heading.shift, hlines, ← Text.above_append_unlines _ (List.cons_ne_nil _ _), ← hbelow,
    shift_front hf, ← hblock]
  simp [Text.above, Text.unlines]

end Heading
end Transclude

import Transclude.Proofs.BlockShifts
import Transclude.Proofs.RowContinuations

/-! Phrases that are bounded as an image reference is and hold no directive. They may run over
several rows if none of the later ones starts with a mark. A shift moves the headings around such a
phrase and leaves the phrase where it is. -/

namespace Transclude

namespace Text

/-- Whether what stands behind each line feed of a text starts with a word, and with no mark. -/
def RunsOn (s : Text) : Prop :=
  ∀ above below, s = above ++ '\n' :: below → ∃ c ∈ (trimLeft below).head?, EndsMarks c

/-- Whether a text is bounded like a reference, runs on over its rows and starts no directive. -/
structure IsPhrase (p : Text) : Prop where
  bounds : ∃ inner, p = "![".text ++ inner ++ [')']
  runs_on : p.RunsOn
  unreturned : '\r' ∉ p
  silent : p.silent

/-- Whether a row is blank or starts with a word that is no mark. -/
def IsMild (row : Text) : Prop :=
  row.allBlank ∨ ∃ gap c rest, row = gap ++ c :: rest ∧ allBlank gap ∧ EndsMarks c

theorem runsOn_of_not_mem {s : Text} (h : '\n' ∉ s) : s.RunsOn := by
  rintro above below rfl
  exact absurd (List.mem_append_right above List.mem_cons_self) h

theorem RunsOn.of_append {s t : Text} (h : (s ++ t).RunsOn) : t.RunsOn := by
  rintro above below rfl
  exact h (s ++ above) below (List.append_assoc s above _).symm

theorem RunsOn.of_cons {c : Char} {s : Text} (h : RunsOn (c :: s)) : s.RunsOn :=
  of_append (s := [c]) h

theorem RunsOn.append {s t : Text} (ht : t.RunsOn) (h : '\n' ∉ s) : (s ++ t).RunsOn := by
  intro above below heq
  rcases List.append_eq_append_iff.1 heq with ⟨part, rfl, hpart⟩ | ⟨part, rfl, hpart⟩
  · exact ht part below hpart
  · cases part with
    | nil => exact ht [] below hpart.symm
    | cons c part =>
      obtain ⟨rfl, -⟩ := List.cons.inj hpart
      exact absurd (List.mem_append_right above List.mem_cons_self) h

theorem RunsOn.swap {s t u : Text} {c d : Char} (h : (s ++ c :: t).RunsOn) (hd : EndsMarks d)
    (hu : u.RunsOn) : (s ++ d :: u).RunsOn := by
  have hbreak : d ≠ '\n' := by
    rintro rfl
    exact absurd hd.1 (by decide)
  intro above below heq
  rcases List.append_eq_append_iff.1 heq with ⟨part, rfl, hpart⟩ | ⟨part, rfl, hpart⟩
  · cases part with
    | nil => exact absurd (List.cons.inj hpart).1 hbreak
    | cons e part => exact hu part below (List.cons.inj hpart).2
  · cases part with
    | nil => exact absurd (List.cons.inj hpart).1.symm hbreak
    | cons e part =>
      obtain ⟨rfl, rfl⟩ := List.cons.inj hpart
      have hfirst := h above (part ++ c :: t) (by simp)
      show ∃ e ∈ (trimLeft (part ++ d :: u)).head?, EndsMarks e
      rw [trimLeft_append] at hfirst ⊢
      cases hblank : allBlank part with
      | true => exact ⟨d, by simp [trimLeft, hd.1], hd⟩
      | false =>
        have hne : trimLeft part ≠ [] := by
          rw [ne_eq, trimLeft_eq_nil_iff, hblank]
          exact Bool.false_ne_true
        rw [hblank, if_neg Bool.false_ne_true, List.head?_append_of_ne_nil _ hne] at hfirst
        rw [if_neg Bool.false_ne_true, List.head?_append_of_ne_nil _ hne]
        exact hfirst

theorem IsMild.dropReturn {row : Text} (h : row.IsMild) : (Text.dropReturn row).IsMild := by
  rcases h with hblank | ⟨gap, c, rest, rfl, hgap, hc⟩
  · left
    unfold Text.dropReturn
    split
    · exact List.all_eq_true.2 fun c hc =>
        List.all_eq_true.1 hblank c (List.dropLast_subset row hc)
    · exact hblank
  · right
    have hkeep : c ≠ '\r' := by
      rintro rfl
      exact absurd hc.1 (by decide)
    refine ⟨gap, c, Text.dropReturn rest, ?_, hgap, hc⟩
    rw [dropReturn_append_of_ne_nil gap (List.cons_ne_nil c rest)]
    cases rest with
    | nil => simp [Text.dropReturn, hkeep]
    | cons d rest =>
      have hword := dropReturn_append_of_ne_nil [c] (List.cons_ne_nil d rest)
      exact congrArg (gap ++ ·) hword

theorem RunsOn.exists_mild {s : Text} (h : RunsOn ('\n' :: s)) (rest : Text) :
    ∃ row rows, (s ++ rest).rows = row :: rows ∧ row.IsMild := by
  obtain ⟨c, hc, hmarks⟩ := h [] s rfl
  obtain ⟨more, hmore⟩ : ∃ more, s.trimLeft = c :: more := by
    cases htrim : s.trimLeft with
    | nil => simp [htrim] at hc
    | cons d more =>
      rw [htrim] at hc
      obtain rfl := Option.some.inj hc
      exact ⟨more, rfl⟩
  obtain ⟨gap, hgap, hs⟩ : ∃ gap, allBlank gap ∧ s = gap ++ c :: more := by
    refine ⟨s.takeWhile isBlank, List.all_eq_true.2 fun d hd => List.mem_takeWhile_imp hd, ?_⟩
    rw [← hmore]
    exact List.takeWhile_append_dropWhile.symm
  have hblank {row : Text} (hrow : row ∈ gap.rows) : row.allBlank := by
    refine List.all_eq_true.2 fun d hd => List.all_eq_true.1 hgap d ?_
    exact unlines_rows gap ▸ mem_unlines hrow hd
  obtain ⟨row, rows, hrows⟩ := List.exists_cons_of_ne_nil (rows_ne_nil (more ++ rest))
  have hword := rows_cons_of_ne hmarks.ne_newline hrows
  have hwhole := rows_append (rows_eq_append_lastRow gap) hword
  rw [hs, List.append_assoc, List.cons_append, hwhole]
  cases hinit : gap.rows.dropLast with
  | nil =>
    refine ⟨_, _, rfl, .inr ⟨lastRow gap, c, row, rfl, ?_, hmarks⟩⟩
    exact hblank (List.getLast_mem _)
  | cons first init =>
    refine ⟨_, _, rfl, .inl (hblank ?_)⟩
    exact List.dropLast_subset _ (hinit ▸ List.mem_cons_self)

namespace IsPhrase

variable {p : Text}

theorem endsMarks : EndsMarks '!' := by decide

theorem exists_cons (h : p.IsPhrase) : ∃ inner, p = '!' :: '[' :: inner := by
  obtain ⟨inner, rfl⟩ := h.bounds
  exact ⟨inner ++ [')'], rfl⟩

end IsPhrase

end Text

namespace Fence

theorem closedBy_blank {fence : Fence} (h : Real (some fence)) {row : Text} (hb : row.allBlank) :
    fence.closedBy row = false := by
  rw [← Bool.not_eq_true]
  intro hclosed
  have hmark := List.all_eq_true.1 hb fence.mark (mem_of_closedBy h hclosed)
  rw [isBlank_mark h rfl] at hmark
  cases hmark

theorem step_mild {open? : Option Fence} (h : Real open?) {row : Text} (hr : row.IsMild) :
    (step open? row).2 = open? ∧ (step open? row).1.inFence = open?.isSome := by
  cases open? with
  | none =>
    rcases hr with hblank | ⟨gap, c, rest, rfl, hgap, hc⟩
    · rw [step_blank hblank]
      exact ⟨rfl, rfl⟩
    · have hstep := step_append h hc gap rest
      rw [step_blank hgap] at hstep
      exact hstep
  | some fence =>
    have hopen : fence.closedBy row = false := by
      rcases hr with hblank | ⟨gap, c, rest, rfl, hgap, hc⟩
      · exact closedBy_blank h hblank
      · rw [closedBy_append_iff h hc]
        exact closedBy_blank h hgap
    unfold step
    dsimp only
    rw [hopen]
    exact ⟨rfl, rfl⟩

end Fence

namespace Heading

theorem shiftLine_mild {row : Text} (h : row.IsMild) (shift : Int) : shiftLine shift row = row := by
  rcases h with hblank | ⟨gap, c, rest, rfl, hgap, hc⟩
  · exact shiftLine_blank hblank shift
  · rw [shiftLine_append hc, shiftLine_blank hgap]

/-- What a shift makes of a text that goes on in a row which leaves `open?` open. -/
def shiftOn (shift : Int) (open? : Option Fence) (s : Text) : Text :=
  match Text.dropReturns s.rows with
  | [] => []
  | row :: rest => row ++ Text.below (shiftLines shift open? rest)

variable {shift : Int} {open? : Option Fence}

theorem exists_dropReturns (s : Text) : ∃ row rest, Text.dropReturns s.rows = row :: rest := by
  cases hrows : s.rows with
  | nil => exact absurd hrows (Text.rows_ne_nil s)
  | cons row rest =>
    cases rest with
    | nil => exact ⟨_, _, rfl⟩
    | cons next rest => exact ⟨_, _, rfl⟩

theorem dropReturns_rows_cons {c : Char} (hn : c ≠ '\n') (hr : c ≠ '\r') {s row : Text}
    {rest : List Text} (h : Text.dropReturns s.rows = row :: rest) :
    Text.dropReturns (Text.rows (c :: s)) = (c :: row) :: rest := by
  obtain ⟨first, more, hrows⟩ := List.exists_cons_of_ne_nil (Text.rows_ne_nil s)
  rw [hrows] at h
  rw [Text.rows_cons_of_ne hn hrows]
  have hlast : [c].getLast? ≠ some '\r' := by simpa using hr
  exact Text.dropReturns_append_head hlast h

theorem shiftOn_cons {c : Char} (hn : c ≠ '\n') (hr : c ≠ '\r') (s : Text) :
    shiftOn shift open? (c :: s) = c :: shiftOn shift open? s := by
  obtain ⟨row, rest, hrows⟩ := exists_dropReturns s
  rw [shiftOn, dropReturns_rows_cons hn hr hrows, shiftOn, hrows]
  rfl

theorem shiftOn_newline (ho : Fence.Real open?) {s : Text} (h : Text.RunsOn ('\n' :: s))
    (rest : Text) :
    shiftOn shift open? ('\n' :: (s ++ rest)) = '\n' :: shiftOn shift open? (s ++ rest) := by
  obtain ⟨row, rows, hrows, hmild⟩ := h.exists_mild rest
  obtain ⟨line, lines, hlines, hline⟩ :
      ∃ line lines, Text.dropReturns (row :: rows) = line :: lines ∧ line.IsMild := by
    cases rows with
    | nil => exact ⟨_, _, rfl, hmild⟩
    | cons next rows => exact ⟨_, _, rfl, hmild.dropReturn⟩
  have hall : Text.dropReturns (Text.rows ('\n' :: (s ++ rest))) = [] :: line :: lines := by
    rw [Text.rows_newline_cons, hrows]
    exact congrArg ([] :: ·) hlines
  obtain ⟨hnext, -⟩ := Fence.step_mild ho hline
  rw [shiftOn, hall, shiftOn, hrows, hlines]
  dsimp only
  rw [shiftLines_cons, hnext, shiftLine_mild hline, ite_self]
  simp [Text.below]

theorem shiftOn_append (ho : Fence.Real open?) {s : Text} (h : s.RunsOn) (hr : '\r' ∉ s)
    (rest : Text) : shiftOn shift open? (s ++ rest) = s ++ shiftOn shift open? rest := by
  induction s with
  | nil => rfl
  | cons c s ih =>
    have hc : c ≠ '\r' := fun heq => hr (heq ▸ List.mem_cons_self)
    have hrest := ih h.of_cons (List.not_mem_of_not_mem_cons hr)
    -- Only a line feed leads to another row, and the shift leaves that one as it is.
    by_cases hn : c = '\n'
    · subst hn
      rw [List.cons_append, shiftOn_newline ho h, hrest]
      rfl
    · rw [List.cons_append, shiftOn_cons hn hc, hrest]
      rfl

/-- Behind a text a shift goes on in the fence that the text leaves open, if the next character is
no mark. -/
theorem shift_append (shift : Int) {c : Char} (hc : Text.EndsMarks c) (front rest : Text) :
    Heading.shift shift (front ++ c :: rest) =
      Heading.shift shift front ++
        shiftOn shift (Fence.openAfter none front.rows) (c :: rest) := by
  have hbreak (d : Char) (hd : Text.isBlank d) : c ≠ d := by
    rintro rfl
    exact absurd hd (by simp [hc.1])
  let state := Fence.openAfter none front.rows.dropLast
  have hreal : Fence.Real state := Fence.real_openAfter Fence.real_none _
  have hnext : Fence.openAfter none front.rows = (Fence.step state (Text.lastRow front)).2 := by
    rw [Text.rows_eq_append_lastRow front, Fence.openAfter_append]
    rfl
  obtain ⟨row, more, hrows⟩ := List.exists_cons_of_ne_nil (Text.rows_ne_nil rest)
  obtain ⟨line, lines, hlines⟩ := exists_dropReturns rest
  have hword := dropReturns_rows_cons (hbreak '\n' (by decide)) (hbreak '\r' (by decide)) hlines
  have hkeeps : (Text.lastRow front ++ [c]).getLast? ≠ some '\r' := by
    rw [List.getLast?_concat]
    simpa using hbreak '\r' (by decide)
  -- As `c` ends no line, it joins the last row before it to the first one behind it.
  have hwhole : Text.lines (front ++ c :: rest) =
      front.rows.dropLast.map Text.dropReturn ++ (Text.lastRow front ++ c :: line) :: lines := by
    have hall := Text.rows_cons_of_ne (hbreak '\n' (by decide)) hrows
    rw [Text.lines, ← Text.rows, Text.rows_append (Text.rows_eq_append_lastRow front) hall,
      Text.dropReturns_append _ (List.cons_ne_nil _ _), List.append_cons (Text.lastRow front),
      Text.dropReturns_append_head hkeeps (hrows ▸ hlines), ← List.append_cons]
  obtain ⟨hopen, hin⟩ := Fence.step_append hreal hc (Text.lastRow front) line
  have hrow : shiftedRow shift state (Text.lastRow front ++ c :: line) =
      shiftedRow shift state (Text.lastRow front) ++ c :: line := by
    unfold shiftedRow
    rw [hin, shiftLine_append hc]
    split <;> rfl
  have hshifted : shiftLines shift none (Text.lines (front ++ c :: rest)) =
      shiftedRows shift front ++ (shiftedRow shift state (Text.lastRow front) ++ c :: line) ::
        shiftLines shift (Fence.openAfter none front.rows) lines := by
    rw [hwhole, shiftLines_append, openAfter_map_dropReturn, shiftLines_cons, hopen, hnext, ← hrow]
    rfl
  have hbelow := Text.unlines_append_below
    (List.cons_ne_nil (shiftedRow shift state (Text.lastRow front) ++ c :: line) [])
    (shiftLines shift (Fence.openAfter none front.rows) lines)
  rw [List.singleton_append] at hbelow
  rw [Heading.shift, hshifted, ← Text.above_append_unlines _ (List.cons_ne_nil _ _), ← hbelow,
    shift_eq_above, shiftOn, hword]
  simp [Text.unlines, state]

/-- What stands around a phrase is shifted in the same way for every phrase. -/
theorem shift_phrase (shift : Int) (front rest : Text) :
    ∃ behind, ∀ p : Text, p.IsPhrase →
      Heading.shift shift (front ++ p ++ rest) = Heading.shift shift front ++ p ++ behind := by
  have hreal : Fence.Real (Fence.openAfter none front.rows) :=
    Fence.real_openAfter Fence.real_none _
  refine ⟨shiftOn shift (Fence.openAfter none front.rows) rest, fun p hp => ?_⟩
  obtain ⟨inner, hinner⟩ := hp.exists_cons
  have hshift := shift_append shift Text.IsPhrase.endsMarks front ('[' :: inner ++ rest)
  have hjoin : '!' :: ('[' :: inner ++ rest) = p ++ rest := by
    rw [hinner]
    rfl
  rw [hjoin, shiftOn_append hreal hp.runs_on hp.unreturned] at hshift
  rw [List.append_assoc, hshift, List.append_assoc]

end Heading

end Transclude

import Transclude.Proofs.BlockShifts
import Transclude.Proofs.HeaderRows
import Transclude.Proofs.ProseRuns
import Transclude.Proofs.TokenSpans

/-! The two ways of telling fenced code apart. The spans of code hold the characters of those lines
that are classed as fenced, endings included, and each of them starts where a line starts. -/

namespace Transclude

namespace Text

/-- The number of the line that the character at an offset belongs to, counted from zero. -/
def lineAt (s : Text) (p : Nat) : Nat := (s.take p).count '\n'

/-- Whether a line, together with what ends it, stands around an offset. -/
def StandsAround (s : Text) (p : Nat) (line : Text) : Prop :=
  ∃ before ending behind, s = before ++ (line ++ ending) ++ behind ∧
    (ending = [] ∨ ending = ['\n'] ∨ ending = ['\r', '\n']) ∧
    before.length ≤ p ∧ p < before.length + (line ++ ending).length

def StartsLine (s : Text) (p : Nat) : Prop :=
  ∃ before behind, s = before ++ behind ∧ before.length = p ∧ ∀ c ∈ before.getLast?, c = '\n'

theorem lineAt_first {row : Text} (hr : '\n' ∉ row) {p : Nat} (hp : p ≤ row.length) (t : Text) :
    lineAt (row ++ t) p = 0 := by
  rw [lineAt, List.take_append_of_le_length hp]
  exact List.count_eq_zero_of_not_mem fun h => hr (List.mem_of_mem_take h)

theorem lineAt_later {row : Text} (hr : '\n' ∉ row) (p : Nat) (t : Text) :
    lineAt (row ++ '\n' :: t) (row.length + 1 + p) = lineAt t p + 1 := by
  have hcount : row.count '\n' = 0 := List.count_eq_zero_of_not_mem hr
  have htake : (row ++ '\n' :: t).take (row.length + 1 + p) = row ++ '\n' :: t.take p := by
    rw [Nat.add_assoc, List.take_length_add_append, Nat.add_comm, List.take_succ_cons]
  rw [lineAt, lineAt, htake, List.count_append, hcount, List.count_cons_self, Nat.zero_add]

theorem standsAround_append {t line : Text} {p : Nat} (h : t.StandsAround p line) (front : Text) :
    (front ++ t).StandsAround (front.length + p) line := by
  obtain ⟨before, ending, behind, rfl, hending, hstart, hstop⟩ := h
  refine ⟨front ++ before, ending, behind, by simp, hending, ?_, ?_⟩
  · rw [List.length_append]
    omega
  · rw [List.length_append]
    omega

theorem standsAround_row {row : Text} {p : Nat} (hp : p ≤ row.length) (t : Text) :
    (row ++ '\n' :: t).StandsAround p (dropReturn row) := by
  obtain ⟨ending, hending, hrow⟩ : ∃ ending : Text,
      (ending = [] ∨ ending = ['\n'] ∨ ending = ['\r', '\n']) ∧
        dropReturn row ++ ending = row ++ ['\n'] := by
    unfold dropReturn
    split
    · rename_i hlast
      refine ⟨['\r', '\n'], .inr (.inr rfl), ?_⟩
      rw [← List.dropLast_append_getLast? _ hlast]
      simp
    · exact ⟨['\n'], .inr (.inl rfl), rfl⟩
  refine ⟨[], ending, t, ?_, hending, Nat.zero_le p, ?_⟩
  · rw [hrow]
    simp
  · rw [hrow, List.length_append, List.length_nil, List.length_singleton]
    omega

end Text

namespace Fence

theorem classesFrom_dropReturns (open? : Option Fence) (rs : List Text) :
    classesFrom open? (Text.dropReturns rs) = classesFrom open? rs := by
  fun_induction Text.dropReturns rs generalizing open? with
  | case1 => rfl
  | case2 line => rfl
  | case3 line next rest ih =>
    rw [classesFrom, classesFrom, step_congr (Text.trim_dropReturn line), ih]

theorem not_inFence_step {line : Text} (h : (step none line).2 = none) :
    ¬ (step none line).1.inFence := by
  have hopen := step_eq_none_iff.1 h
  unfold step
  rw [hopen]
  cases Heading.level? line <;> exact Bool.false_ne_true

theorem inFence_step_of_open (fence : Fence) (line : Text) :
    (step (some fence) line).1.inFence := by
  by_contra h
  cases (step_of_not_inFence h).1

theorem inFence_step_of_opened {open? : Option Fence} {line : Text} {fence : Fence}
    (h : (step open? line).2 = some fence) : (step open? line).1.inFence := by
  by_contra hout
  rw [(step_of_not_inFence hout).2] at h
  cases h

end Fence

namespace Piece

def Within (spans : List (Nat × Nat)) (p : Nat) : Prop := ∃ span ∈ spans, span.1 ≤ p ∧ p < span.2

theorem not_within_nil (p : Nat) : ¬ Within [] p := by
  rintro ⟨span, hspan, -⟩
  cases hspan

theorem within_cons {span : Nat × Nat} {rest : List (Nat × Nat)} {p : Nat} :
    Within (span :: rest) p ↔ (span.1 ≤ p ∧ p < span.2) ∨ Within rest p :=
  List.exists_mem_cons_iff _ _ _

theorem spans_pushProse (start : Nat) (line : Text) (pieces : List Piece) :
    spans start (pushProse line pieces) = spans (start + line.length) pieces := by
  fun_cases pushProse line pieces with
  | case1 s rest => rw [spans, spans, List.length_append, Nat.add_assoc]
  | case2 => rfl

theorem within_pushCode {start p : Nat} {line : Text} {pieces : List Piece} :
    Within (spans start (pushCode line pieces)) p ↔
      (start ≤ p ∧ p < start + line.length) ∨ Within (spans (start + line.length) pieces) p := by
  fun_cases pushCode line pieces with
  | case1 s rest =>
    rw [spans, spans, within_cons, within_cons, List.length_append, ← Nat.add_assoc, ← or_assoc]
    refine or_congr_left ?_
    dsimp only
    omega
  | case2 => exact within_cons

/-- The characters of a line lie in code exactly if the line is classed as fenced. -/
theorem within_ofLines_cons {start p : Nat} {open? : Option Fence} {line : Text}
    {rest : List Text} :
    Within (spans start (ofLines open? (line :: rest))) p ↔
      ((Fence.step open? line).1.inFence ∧ start ≤ p ∧ p < start + line.length) ∨
        Within (spans (start + line.length) (ofLines (Fence.step open? line).2 rest)) p := by
  cases open? with
  | none =>
    cases hstep : (Fence.step none line).2 with
    | none =>
      rw [ofLines_prose rest hstep, spans_pushProse]
      exact (or_iff_right fun h => Fence.not_inFence_step hstep h.1).symm
    | some fence =>
      rw [ofLines_opening rest hstep, within_pushCode,
        and_iff_right (Fence.inFence_step_of_opened hstep)]
  | some fence =>
    rw [and_iff_right (Fence.inFence_step_of_open fence line)]
    cases hstep : (Fence.step (some fence) line).2 with
    | none =>
      rw [ofLines_closing rest hstep]
      exact within_cons
    | some next => rw [ofLines_fenced rest hstep, within_pushCode]

theorem le_of_within {start p : Nat} {pieces : List Piece} (h : Within (spans start pieces) p) :
    start ≤ p := by
  obtain ⟨span, hspan, hle, -⟩ := h
  exact (bounds_of_mem_spans hspan).1.trans hle

theorem exists_line_of_last_row {row : Text} (hrow : '\n' ∉ row) (open? : Option Fence)
    (start : Nat) {p : Nat} (hp : p < row.length) :
    ∃ line kind, ((Text.dropReturns [row]).zip (Fence.classesFrom open? [row]))[row.lineAt p]? =
        some (line, kind) ∧
      row.StandsAround p line ∧
      (Within (spans start (ofLines open? (Text.endLines [row]))) (start + p) ↔ kind.inFence) := by
  have hne : row ≠ [] := List.ne_nil_of_length_pos (Nat.zero_lt_of_lt hp)
  have hfirst : Text.lineAt row p = 0 := by
    simpa using Text.lineAt_first hrow hp.le []
  refine ⟨row, (Fence.step open? row).1, by rw [hfirst]; rfl, ?_, ?_⟩
  · exact ⟨[], [], [], by simp, .inl rfl, Nat.zero_le p, by simpa using hp⟩
  · rw [Text.endLines, if_neg hne, within_ofLines_cons, ofLines, spans,
      or_iff_left (not_within_nil _), and_iff_left ⟨by omega, by omega⟩]

theorem exists_line_of_rows {rs : List Text} (hrs : ∀ r ∈ rs, '\n' ∉ r) (open? : Option Fence)
    (start : Nat) {p : Nat} (hp : p < (Text.unlines rs).length) :
    ∃ line kind, ((Text.dropReturns rs).zip (Fence.classesFrom open? rs))[
        (Text.unlines rs).lineAt p]? = some (line, kind) ∧
      (Text.unlines rs).StandsAround p line ∧
      (Within (spans start (ofLines open? (Text.endLines rs))) (start + p) ↔ kind.inFence) := by
  induction rs generalizing open? start p with
  | nil => exact absurd hp (Nat.not_lt_zero p)
  | cons row rs ih =>
    obtain ⟨hrow, hrest⟩ := List.forall_mem_cons.1 hrs
    cases rs with
    | nil =>
      rw [Text.unlines_singleton] at hp ⊢
      exact exists_line_of_last_row hrow open? start hp
    | cons next rs =>
      rw [Text.unlines_cons_cons] at hp ⊢
      rw [Text.dropReturns, Text.endLines, Fence.classesFrom, List.zip_cons_cons,
        within_ofLines_cons, Fence.step_append_newline, List.length_append, List.length_singleton]
      -- The offset of a line break belongs to the line it ends.
      by_cases hfirst : p ≤ row.length
      · refine ⟨_, _, by rw [Text.lineAt_first hrow hfirst]; rfl, Text.standsAround_row hfirst _, ?_⟩
        rw [and_iff_left ⟨by omega, by omega⟩]
        refine or_iff_left fun hlater => ?_
        have hle := le_of_within hlater
        omega
      · obtain ⟨q, rfl⟩ := Nat.exists_eq_add_of_le (Nat.lt_of_not_ge hfirst)
        have hq : q < (Text.unlines (next :: rs)).length := by
          rw [List.length_append, List.length_cons] at hp
          omega
        obtain ⟨line, kind, hline, haround, hwithin⟩ :=
          ih hrest (Fence.step open? row).2 (start + (row.length + 1)) hq
        refine ⟨line, kind, ?_, ?_, ?_⟩
        · rw [← Nat.add_one, Text.lineAt_later hrow]
          exact hline
        · have happend := Text.standsAround_append haround (row ++ ['\n'])
          rw [List.length_append, List.length_singleton, List.append_assoc] at happend
          exact happend
        · have hsum : start + (row.length.succ + q) = start + (row.length + 1) + q := by omega
          rw [hsum, hwithin]
          refine or_iff_right fun hhere => ?_
          omega

theorem mem_spans_pushCode {start : Nat} {line : Text} {pieces : List Piece} {span : Nat × Nat}
    (h : span ∈ spans start (pushCode line pieces)) :
    span.1 = start ∨ span ∈ spans (start + line.length) pieces := by
  unfold pushCode at h
  split at h
  · rename_i s rest
    rw [spans, List.length_append, ← Nat.add_assoc] at h
    rcases List.mem_cons.1 h with rfl | h
    · exact .inl rfl
    · exact .inr (List.mem_cons_of_mem _ h)
  · rcases List.mem_cons.1 h with rfl | h
    · exact .inl rfl
    · exact .inr h

theorem exists_lines_of_mem_spans {start : Nat} {open? : Option Fence} {ls : List Text}
    {span : Nat × Nat} (h : span ∈ spans start (ofLines open? ls)) :
    ∃ xs ys, ls = xs ++ ys ∧ ys ≠ [] ∧ span.1 = start + xs.flatten.length := by
  induction ls generalizing open? start with
  | nil => cases h
  | cons line rest ih =>
    have hsplit : span.1 = start ∨
        span ∈ spans (start + line.length) (ofLines (Fence.step open? line).2 rest) := by
      rw [ofLines_cons] at h
      split at h
      · rw [spans_pushProse] at h
        exact .inr h
      · rcases List.mem_cons.1 h with rfl | h
        · exact .inl rfl
        · exact .inr h
      · exact mem_spans_pushCode h
    rcases hsplit with hstart | hlater
    · exact ⟨[], line :: rest, rfl, List.cons_ne_nil line rest, hstart⟩
    · obtain ⟨xs, ys, rfl, hne, hspan⟩ := ih hlater
      refine ⟨line :: xs, ys, rfl, hne, ?_⟩
      rw [List.flatten_cons, List.length_append, hspan, Nat.add_assoc]

theorem startsLine_of_mem_codeSpans {s : Text} {span : Nat × Nat} (h : span ∈ codeSpans s) :
    s.StartsLine span.1 := by
  obtain ⟨xs, ys, hlines, hne, hstart⟩ := exists_lines_of_mem_spans h
  obtain ⟨hends, -, -⟩ := Text.endedLines_flatten hlines hne
  refine ⟨xs.flatten, ys.flatten, ?_, by rw [hstart, Nat.zero_add], hends⟩
  rw [← List.flatten_append, ← hlines, Text.flatten_endedLines]

theorem lt_of_mem_spans {pieces : List Piece} (h : ∀ piece ∈ pieces, piece.text ≠ [])
    {start : Nat} {span : Nat × Nat} (hspan : span ∈ spans start pieces) : span.1 < span.2 := by
  induction pieces generalizing start with
  | nil => cases hspan
  | cons piece rest ih =>
    obtain ⟨hpiece, hrest⟩ := List.forall_mem_cons.1 h
    cases piece with
    | prose s => exact ih hrest hspan
    | code s =>
      rcases List.mem_cons.1 hspan with rfl | hspan
      · exact Nat.lt_add_of_pos_right (List.length_pos_iff.2 hpiece)
      · exact ih hrest hspan

theorem pairwise_spans (start : Nat) (pieces : List Piece) :
    (spans start pieces).Pairwise fun a b => a.2 ≤ b.1 := by
  induction pieces generalizing start with
  | nil => exact .nil
  | cons piece rest ih =>
    cases piece with
    | prose s => exact ih _
    | code s => exact List.pairwise_cons.2 ⟨fun span hspan => (bounds_of_mem_spans hspan).1, ih _⟩

/-- A character lies in a span of code exactly if the line that it belongs to, as text or as part of
the ending, is classed as fenced. The spans hold at least one character each, keep within the text,
follow one another without overlaps, and start where lines start. -/
theorem codeSpans_agree_with_classes (s : Text) :
    (∀ p < s.length, ∃ line kind, (Fence.classify s)[s.lineAt p]? = some (line, kind) ∧
      s.StandsAround p line ∧ (Within (codeSpans s) p ↔ kind.inFence)) ∧
    (∀ span ∈ codeSpans s, span.1 < span.2 ∧ span.2 ≤ s.length ∧ s.StartsLine span.1) ∧
    (codeSpans s).Pairwise fun a b => a.2 ≤ b.1 := by
  refine ⟨fun p hp => ?_, fun span hspan => ⟨?_, ?_, ?_⟩, pairwise_spans 0 (cut s)⟩
  · have hrows : Text.unlines s.rows = s := Text.unlines_rows s
    have hall : ∀ r ∈ s.rows, '\n' ∉ r := fun r => Text.not_mem_of_mem_rows
    have hline := exists_line_of_rows hall none 0 (hrows.symm ▸ hp)
    rw [hrows, Nat.zero_add] at hline
    rw [Fence.classify, Text.lines, Fence.classesFrom_dropReturns]
    exact hline
  · exact lt_of_mem_spans (proper_cut s).1 hspan
  · have hbounds := (bounds_of_mem_spans hspan).2
    rwa [Nat.zero_add, flatMap_text_cut] at hbounds
  · exact startsLine_of_mem_codeSpans hspan

-- Two fences back to back, the second of which nothing closes.
example : codeSpans "~~~\r\n~~~\n\x60\x60\x60\nx".text = [(0, 9), (9, 14)] := by decide +kernel

end Piece
end Transclude

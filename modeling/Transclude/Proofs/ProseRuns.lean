import Transclude.Proofs.RowContinuations

/-! Prose in a text that is cut at its fences. Rows that open no fence may stand in place of a run of
prose, and nothing else about the cut changes. -/

namespace Transclude

namespace Fence

theorem opening?_append_eq_none_iff {c : Char} (hc : c = '\x7b' ∨ c = '\x7d') (row rest : Text) :
    opening? (row ++ c :: rest) = none ↔ opening? row = none := by
  have hends : Text.EndsMarks c := by rcases hc with rfl | rfl <;> decide
  rw [opening?_append hends]

theorem step_eq_none_iff {row : Text} : (step none row).2 = none ↔ opening? row = none := by
  unfold step
  cases opening? row with
  | some fence => exact iff_of_false nofun nofun
  | none => cases Heading.level? row <;> exact iff_of_true rfl rfl

end Fence

namespace Text

def OpensNoFence (s : Text) : Prop := ∀ row ∈ s.rows, Fence.opening? row = none

theorem exists_rows_append (s : Text) : ∃ above last, rows s = above ++ [last] :=
  ⟨_, _, rows_eq_append_lastRow s⟩

theorem rows_brace {c : Char} (hc : c = '\x7b' ∨ c = '\x7d') {t row : Text} {rest : List Text}
    (ht : rows t = row :: rest) : rows (c :: t) = (c :: row) :: rest := by
  have hline : c ≠ '\n' := by rcases hc with rfl | rfl <;> decide
  exact rows_cons_of_ne hline ht

theorem opensNoFence_append {c : Char} (hc : c = '\x7b' ∨ c = '\x7d') (s t : Text) :
    OpensNoFence (s ++ c :: t) ↔ OpensNoFence s ∧ ∀ row ∈ (rows t).tail, Fence.opening? row = none := by
  obtain ⟨y, ys, ht⟩ := List.exists_cons_of_ne_nil (rows_ne_nil t)
  obtain ⟨xs, x, hs⟩ := exists_rows_append s
  have hrow := Fence.opening?_append_eq_none_iff hc x y
  unfold OpensNoFence
  rw [rows_append hs (rows_brace hc ht), hs, ht]
  simp only [List.forall_mem_append, List.forall_mem_cons, hrow, List.not_mem_nil, false_imp_iff,
    implies_true, and_true, List.tail_cons]
  exact and_assoc.symm

theorem opensNoFence_iff {s : Text} :
    OpensNoFence s ↔ ∀ line ∈ s.endedLines, Fence.opening? line = none := by
  obtain ⟨xs, x, hs⟩ := exists_rows_append s
  have hended (row : Text) : Fence.opening? (row ++ ['\n']) = Fence.opening? row :=
    Fence.opening?_congr (trim_append_blank (by decide) row)
  have hlast : (∀ line ∈ endLines [x], Fence.opening? line = none) ↔ Fence.opening? x = none := by
    rw [endLines]
    split
    · rename_i hx
      rw [hx]
      exact iff_of_true (List.forall_mem_nil _) rfl
    · exact List.forall_mem_singleton
  rw [endedLines, ← rows, OpensNoFence, hs, endLines_append xs (List.cons_ne_nil x []),
    List.forall_mem_append, List.forall_mem_append, hlast, List.forall_mem_singleton]
  simp only [List.forall_mem_map, hended]

theorem opening?_of_opensNoFence {s t : Text} (hs : s.getLast? = some '\n')
    (h : OpensNoFence (s ++ t)) {c : Char} (hc : c = '\x7b' ∨ c = '\x7d') (u : Text) :
    ∀ row ∈ (rows (t ++ c :: u)).head?, Fence.opening? row = none := by
  obtain ⟨start, rfl⟩ := List.getLast?_eq_some_iff.1 hs
  obtain ⟨y, ys, ht⟩ := List.exists_cons_of_ne_nil (rows_ne_nil t)
  have hy : Fence.opening? y = none := by
    refine h y ?_
    rw [rows_append (rows_newline start) ht]
    simp
  obtain ⟨z, zs, hu⟩ := List.exists_cons_of_ne_nil (rows_ne_nil u)
  have hcu := rows_brace hc hu
  rcases List.eq_nil_or_concat ys with rfl | ⟨ys, l, rfl⟩
  · rw [rows_append (show rows t = [] ++ [y] from ht) hcu]
    intro row hrow
    obtain rfl := Option.some.inj hrow
    exact (Fence.opening?_append_eq_none_iff hc y z).2 hy
  · rw [rows_append (show rows t = (y :: ys) ++ [l] by rw [ht, List.concat_eq_append]; rfl) hcu]
    intro row hrow
    obtain rfl := Option.some.inj hrow
    exact hy

theorem endedLines_append {s : Text} (hs : ∀ c ∈ s.getLast?, c = '\n') (t : Text) :
    endedLines (s ++ t) = endedLines s ++ endedLines t := by
  rcases List.eq_nil_or_concat s with rfl | ⟨start, c, rfl⟩
  · rfl
  · obtain rfl : c = '\n' := hs c (by simp)
    obtain ⟨y, ys, ht⟩ := List.exists_cons_of_ne_nil (rows_ne_nil t)
    have hboth : rows (start ++ ['\n'] ++ t) = rows start ++ rows t := by
      rw [rows_append (rows_newline start) ht, ht]
      rfl
    rw [List.concat_eq_append, endedLines, endedLines, endedLines, ← rows, ← rows, ← rows, hboth,
      rows_newline, endLines_append _ (rows_ne_nil t), endLines_append _ (List.cons_ne_nil [] [])]
    simp [endLines]

theorem endedLines_flatten {s : Text} {xs ys : List Text} (h : s.endedLines = xs ++ ys)
    (hy : ys ≠ []) :
    (∀ c ∈ xs.flatten.getLast?, c = '\n') ∧ endedLines xs.flatten = xs ∧
      endedLines ys.flatten = ys := by
  obtain ⟨rs, r, hs⟩ := exists_rows_append s
  have hline {row : Text} (hrow : row ∈ rs ++ [r]) : '\n' ∉ row := not_mem_of_mem_rows (hs ▸ hrow)
  rw [endedLines, ← rows, hs, endLines_append rs (List.cons_ne_nil r [])] at h
  -- The last line alone may lack its ending, and it is one of `ys`.
  obtain ⟨vs', hrs, rfl⟩ : ∃ vs', rs.map (· ++ ['\n']) = xs ++ vs' ∧ ys = vs' ++ endLines [r] := by
    rcases List.append_eq_append_iff.1 h with ⟨more, hxs, hlast⟩ | ⟨more, hrs, hys⟩
    · cases more with
      | nil => exact ⟨[], by simpa using hxs.symm, hlast.symm⟩
      | cons line more =>
        rw [endLines] at hlast
        split at hlast
        · cases hlast
        · obtain ⟨-, hnil⟩ := List.cons.inj hlast
          exact absurd (List.append_eq_nil_iff.1 hnil.symm).2 hy
    · exact ⟨more, hrs, hys⟩
  obtain ⟨us, vs, rfl, rfl, rfl⟩ := List.map_eq_append_iff.1 hrs
  have habove (rows : List Text) : (rows.map (· ++ ['\n'])).flatten = above rows := rfl
  refine ⟨?_, ?_, ?_⟩
  · rcases List.eq_nil_or_concat us with rfl | ⟨us, u, rfl⟩
    · rintro c ⟨⟩
    · simp
  · have hrows : rows (above us) = us ++ [[]] := by
      have hus : ∀ u ∈ us, '\n' ∉ u := fun u hu => hline (by simp [hu])
      have happend := rows_above_append hus []
      rwa [List.append_nil] at happend
    rw [habove, endedLines, ← rows, hrows, endLines_append us (List.cons_ne_nil [] [])]
    simp [endLines]
  · have hflat : (endLines [r]).flatten = r := by
      rw [endLines]
      split <;> simp_all
    have hrows : rows (above vs ++ r) = vs ++ [r] := by
      rw [rows_above_append fun v hv => hline (by simp [hv] : v ∈ (us ++ vs) ++ [r])]
      exact congrArg (vs ++ ·) (List.splitOn_eq_singleton (hline (by simp)))
    rw [List.flatten_append, habove, hflat, endedLines, ← rows, hrows,
      endLines_append vs (List.cons_ne_nil r [])]

theorem exists_head_endedLines {s row : Text} (hrow : row ∈ s.rows.head?) (hs : s.endedLines ≠ []) :
    ∃ line ∈ s.endedLines.head?, Fence.opening? line = Fence.opening? row := by
  obtain ⟨rows, hrows⟩ : ∃ rows, s.rows = row :: rows := by
    cases hall : s.rows with
    | nil => exact absurd hall (rows_ne_nil s)
    | cons r rs =>
      rw [hall] at hrow
      exact ⟨rs, by rw [Option.some.inj hrow]⟩
  rw [endedLines, ← Text.rows, hrows] at hs ⊢
  cases rows with
  | nil =>
    rw [endLines] at hs ⊢
    split
    · rename_i hnil
      rw [if_pos hnil] at hs
      exact absurd rfl hs
    · exact ⟨row, rfl, rfl⟩
  | cons r rs =>
    exact ⟨row ++ ['\n'], rfl, Fence.opening?_congr (trim_append_blank (by decide) row)⟩

end Text

namespace Piece

theorem exists_of_ofLines_prose {ls : List Text} {t : Text} {behind : List Piece}
    (h : ofLines none ls = .prose t :: behind) :
    ∃ inner below, ls = inner ++ below ∧ inner.flatten = t ∧ inner ≠ [] ∧
      (∀ line ∈ inner, Fence.opening? line = none) ∧ ofLines none below = behind ∧
      ∀ line ∈ below.head?, Fence.opening? line ≠ none := by
  induction ls generalizing t behind with
  | nil => cases h
  | cons line rest ih =>
    cases hnext : (Fence.step none line).2 with
    | some fence =>
      obtain ⟨code, qs, hcode⟩ := exists_pushCode line (ofLines (some fence) rest)
      rw [ofLines_opening rest hnext, hcode] at h
      cases h
    | none =>
      have hline := Fence.step_eq_none_iff.1 hnext
      rw [ofLines_prose rest hnext] at h
      cases hrest : ofLines none rest with
      | nil =>
        rw [hrest] at h
        obtain ⟨ht, rfl⟩ := List.cons.inj h
        refine ⟨[line], rest, rfl, ?_, List.cons_ne_nil _ _, by simpa using hline, hrest, ?_⟩
        · simpa using Piece.prose.inj ht
        · cases rest with
          | nil => exact nofun
          | cons l ls => exact absurd hrest (ofLines_ne_nil none l ls)
      | cons piece pieces =>
        rw [hrest] at h
        cases piece with
        | prose u =>
          obtain ⟨ht, rfl⟩ := List.cons.inj h
          obtain ⟨inner, below, rfl, rfl, -, hinner, hbelow, hhead⟩ := ih hrest
          refine ⟨line :: inner, below, rfl, Piece.prose.inj ht, List.cons_ne_nil _ _, ?_, hbelow,
            hhead⟩
          exact List.forall_mem_cons.2 ⟨hline, hinner⟩
        | code u =>
          obtain ⟨ht, rfl⟩ := List.cons.inj h
          refine ⟨[line], rest, rfl, ?_, List.cons_ne_nil _ _, by simpa using hline, hrest, ?_⟩
          · simpa using Piece.prose.inj ht
          · -- Code stands below, so the next line opens a fence: another would have joined in.
            intro l hl hopen
            obtain ⟨ls, rfl⟩ : ∃ ls, rest = l :: ls := by
              cases rest with
              | nil => cases hl
              | cons a ls => exact ⟨ls, by rw [Option.some.inj hl]⟩
            rw [ofLines_prose ls (Fence.step_eq_none_iff.2 hopen)] at hrest
            cases hps : ofLines none ls with
            | nil =>
              rw [hps] at hrest
              cases hrest
            | cons p ps =>
              rw [hps] at hrest
              cases p <;> cases hrest

theorem ofLines_run {inner below : List Text} (hne : inner ≠ [])
    (hinner : ∀ line ∈ inner, Fence.opening? line = none)
    (hbelow : ∀ line ∈ below.head?, Fence.opening? line ≠ none) :
    ofLines none (inner ++ below) = .prose inner.flatten :: ofLines none below := by
  induction inner with
  | nil => exact absurd rfl hne
  | cons line inner ih =>
    obtain ⟨hline, hrest⟩ := List.forall_mem_cons.1 hinner
    rw [List.cons_append, ofLines_prose _ (Fence.step_eq_none_iff.2 hline), List.flatten_cons]
    cases inner with
    | nil =>
      rw [List.nil_append, List.flatten_nil, List.append_nil]
      cases below with
      | nil => rfl
      | cons l ls =>
        cases hnext : (Fence.step none l).2 with
        | none => exact absurd (Fence.step_eq_none_iff.1 hnext) (hbelow l rfl)
        | some fence =>
          obtain ⟨code, qs, hcode⟩ := exists_pushCode l (ofLines (some fence) ls)
          rw [ofLines_opening ls hnext, hcode]
          rfl
    | cons l ls =>
      rw [ih (List.cons_ne_nil l ls) hrest]
      rfl

theorem exists_of_pushCode {line t : Text} {ps before behind : List Piece}
    (h : pushCode line ps = before ++ .prose t :: behind) :
    ∃ front, ps = front ++ .prose t :: behind ∧ ∀ t' behind',
      pushCode line (front ++ .prose t' :: behind') = before ++ .prose t' :: behind' := by
  cases ps with
  | nil => rcases before with _ | ⟨_, _ | _⟩ <;> cases h
  | cons p ps =>
    cases before with
    | nil => cases p <;> cases h
    | cons piece before =>
      cases p with
      | code u =>
        obtain ⟨rfl, rfl⟩ := List.cons.inj h
        exact ⟨.code u :: before, rfl, fun _ _ => rfl⟩
      | prose u =>
        obtain ⟨rfl, hps⟩ := List.cons.inj h
        refine ⟨before, hps, fun t' behind' => ?_⟩
        cases before with
        | nil => rfl
        | cons q qs =>
          obtain ⟨rfl, -⟩ := List.cons.inj hps
          rfl

theorem exists_of_pushProse {line t : Text} {piece : Piece} {ps before behind : List Piece}
    (h : pushProse line ps = piece :: (before ++ .prose t :: behind)) :
    ∃ front, ps = front ++ .prose t :: behind ∧ ∀ t' behind',
      pushProse line (front ++ .prose t' :: behind') = piece :: (before ++ .prose t' :: behind') := by
  cases ps with
  | nil => cases before <;> cases h
  | cons p ps =>
    cases p with
    | prose u =>
      obtain ⟨rfl, rfl⟩ := List.cons.inj h
      exact ⟨.prose u :: before, rfl, fun _ _ => rfl⟩
    | code u =>
      obtain ⟨rfl, hps⟩ := List.cons.inj h
      refine ⟨before, hps, fun t' behind' => ?_⟩
      cases before with
      | nil => cases hps
      | cons q qs =>
        obtain ⟨rfl, -⟩ := List.cons.inj hps
        rfl

/-- The lines in front of a piece of prose: they are cut in the same way whatever prose follows. -/
theorem exists_of_ofLines {open? : Option Fence} {ls : List Text} {before behind : List Piece}
    {t : Text} (h : ofLines open? ls = before ++ .prose t :: behind) :
    ∃ above rest, ls = above ++ rest ∧ ofLines none rest = .prose t :: behind ∧
      ∀ rest' t' behind', ofLines none rest' = .prose t' :: behind' →
        ofLines open? (above ++ rest') = before ++ .prose t' :: behind' := by
  induction ls generalizing open? before with
  | nil => cases before <;> cases h
  | cons line rest ih =>
    -- In each case the first line joins or starts a piece, and does so with any lines behind it.
    cases hnext : (Fence.step open? line).2 with
    | some next =>
      have hpush (rest' : List Text) :
          ofLines open? (line :: rest') = pushCode line (ofLines (some next) rest') := by
        rw [ofLines_cons, hnext]
        cases open? <;> rfl
      rw [hpush] at h
      obtain ⟨front, hrest, hpushed⟩ := exists_of_pushCode h
      obtain ⟨above, below, rfl, hbelow, hcut⟩ := ih hrest
      refine ⟨line :: above, below, rfl, hbelow, fun rest' t' behind' h' => ?_⟩
      rw [List.cons_append, hpush, hcut _ _ _ h', hpushed]
    | none =>
      cases open? with
      | some fence =>
        rw [ofLines_closing rest hnext] at h
        cases before with
        | nil => cases h
        | cons piece before =>
          obtain ⟨rfl, hps⟩ := List.cons.inj h
          obtain ⟨above, below, rfl, hbelow, hcut⟩ := ih hps
          refine ⟨line :: above, below, rfl, hbelow, fun rest' t' behind' h' => ?_⟩
          rw [List.cons_append, ofLines_closing _ hnext, hcut _ _ _ h']
          rfl
      | none =>
        cases before with
        | nil => exact ⟨[], line :: rest, rfl, h, fun _ _ _ => id⟩
        | cons piece before =>
          rw [ofLines_prose rest hnext] at h
          obtain ⟨front, hrest, hpushed⟩ := exists_of_pushProse h
          obtain ⟨above, below, rfl, hbelow, hcut⟩ := ih hrest
          refine ⟨line :: above, below, rfl, hbelow, fun rest' t' behind' h' => ?_⟩
          rw [List.cons_append, ofLines_prose _ hnext, hcut _ _ _ h', hpushed]
          rfl

/-- The lines above, in and below a piece of prose. -/
structure ProseLines (before : List Piece) (t : Text) (behind : List Piece)
    (above inner below : List Text) : Prop where
  flatten_above : before.flatMap text = above.flatten
  flatten_inner : t = inner.flatten
  flatten_below : behind.flatMap text = below.flatten
  ended : Text.endedLines (above.flatten ++ (inner.flatten ++ below.flatten)) =
    above ++ (inner ++ below)
  inner_ne_nil : inner ≠ []
  opens_none : ∀ line ∈ inner, Fence.opening? line = none
  opens_below : ∀ line ∈ below.head?, Fence.opening? line ≠ none
  cut_below : ofLines none below = behind
  cut_above : ∀ rest t' behind', ofLines none rest = .prose t' :: behind' →
    ofLines none (above ++ rest) = before ++ .prose t' :: behind'

theorem exists_proseLines {s : Text} {before behind : List Piece} {t : Text}
    (h : cut s = before ++ .prose t :: behind) :
    ∃ above inner below, ProseLines before t behind above inner below := by
  obtain ⟨above, rest, hlines, hrest, hcut⟩ := exists_of_ofLines h
  obtain ⟨inner, below, rfl, rfl, hne, hinner, hbelow, hhead⟩ := exists_of_ofLines_prose hrest
  have hs : s = above.flatten ++ (inner.flatten ++ below.flatten) := by
    rw [← Text.flatten_endedLines s, hlines, List.flatten_append, List.flatten_append]
  have hbehind : behind.flatMap text = below.flatten := by
    rw [← hbelow, flatMap_text_ofLines]
  have hbefore : before.flatMap text = above.flatten := by
    have hs' : s = before.flatMap text ++ (inner.flatten ++ below.flatten) := by
      rw [← flatMap_text_cut s, h, List.flatMap_append, List.flatMap_cons, hbehind]
      rfl
    exact List.append_cancel_right (hs'.symm.trans hs)
  exact ⟨above, inner, below, hbefore, rfl, hbehind, hs ▸ hlines, hne, hinner, hhead, hbelow, hcut⟩

namespace ProseLines

variable {before behind : List Piece} {t : Text} {above inner below : List Text}

theorem endedLines_rest (h : ProseLines before t behind above inner below) :
    Text.endedLines (inner.flatten ++ below.flatten) = inner ++ below := by
  have hrest := (Text.endedLines_flatten h.ended (by simp [h.inner_ne_nil])).2.2
  rwa [List.flatten_append] at hrest

theorem endedLines_inner (h : ProseLines before t behind above inner below) :
    Text.endedLines inner.flatten = inner := by
  have hrest := h.endedLines_rest
  by_cases hb : below = []
  · rwa [hb, List.flatten_nil, List.append_nil, List.append_nil] at hrest
  · exact (Text.endedLines_flatten hrest hb).2.1

theorem opensNoFence (h : ProseLines before t behind above inner below) : Text.OpensNoFence t := by
  rw [Text.opensNoFence_iff, h.flatten_inner, h.endedLines_inner]
  exact h.opens_none

theorem opens_behind (h : ProseLines before t behind above inner below) (hne : behind ≠ []) :
    t.getLast? = some '\n' ∧
      ∀ row ∈ (Text.rows (behind.flatMap text)).head?, Fence.opening? row ≠ none := by
  have hb : below ≠ [] := fun hnil => hne (by rw [← h.cut_below, hnil]; rfl)
  obtain ⟨hends, -, hended⟩ := Text.endedLines_flatten h.endedLines_rest hb
  rw [h.flatten_inner, h.flatten_below]
  constructor
  · have hinner : inner.flatten ≠ [] := fun hnil =>
      h.inner_ne_nil (by rw [← h.endedLines_inner, hnil]; rfl)
    have hlast := List.getLast?_eq_some_getLast hinner
    rw [hlast, hends _ hlast]
  · intro row hrow
    obtain ⟨line, hline, hopens⟩ := Text.exists_head_endedLines hrow (by rwa [hended])
    rw [hended] at hline
    exact hopens ▸ h.opens_below line hline

/-- Other prose with the same end may stand in place of a piece of prose. -/
theorem cut_swap (h : ProseLines before t behind above inner below) {t' : Text} (hne : t' ≠ [])
    (hlast : t'.getLast? = t.getLast?) (hprose : Text.OpensNoFence t') :
    cut (before.flatMap text ++ (t' ++ behind.flatMap text)) = before ++ .prose t' :: behind := by
  obtain ⟨habove, hfront, -⟩ := Text.endedLines_flatten h.ended (by simp [h.inner_ne_nil])
  have hends : Text.endedLines (t' ++ below.flatten) = Text.endedLines t' ++ below := by
    by_cases hb : below = []
    · rw [hb, List.flatten_nil, List.append_nil, List.append_nil]
    · obtain ⟨hended, -, hbelow⟩ := Text.endedLines_flatten h.endedLines_rest hb
      rw [← h.flatten_inner, ← hlast] at hended
      rw [Text.endedLines_append hended, hbelow]
  have hinner : Text.endedLines t' ≠ [] := fun hnil => hne (by
    rw [← Text.flatten_endedLines t', hnil, List.flatten_nil])
  have hrun := ofLines_run hinner (Text.opensNoFence_iff.1 hprose) h.opens_below
  rw [Text.flatten_endedLines, h.cut_below] at hrun
  rw [h.flatten_above, h.flatten_below, cut, Text.endedLines_append habove, hfront, hends]
  exact h.cut_above _ _ _ hrun

end ProseLines

end Piece
end Transclude

import Transclude.Proofs.FencedBlocks

/-! Rows that go on with a character that is no blank and no mark. Whether such a row opens or closes
a fence, and how a shift changes it, is settled in front of that character. -/

namespace Transclude

namespace Text

/-- Whether a character ends the blanks and the marks that a row starts with. -/
def EndsMarks (c : Char) : Prop := isBlank c = false ∧ c ≠ '\x60' ∧ c ≠ '~' ∧ c ≠ '#'

instance (c : Char) : Decidable (EndsMarks c) := inferInstanceAs (Decidable (_ ∧ _))

theorem EndsMarks.ne_newline {c : Char} (h : EndsMarks c) : c ≠ '\n' := by
  rintro rfl
  exact absurd h.1 (by decide)

theorem takeWhile_append_stop {s t : Text} {p : Char → Bool} (h : ∀ c ∈ t.head?, p c = false) :
    (s ++ t).takeWhile p = s.takeWhile p := by
  have ht : t.takeWhile p = [] := by
    cases t with
    | nil => rfl
    | cons c t => exact List.takeWhile_cons_of_neg (by simp [h c rfl])
  rw [List.takeWhile_append, ht]
  split
  · rename_i hall
    rw [List.append_nil]
    exact (List.IsPrefix.eq_of_length (List.takeWhile_prefix p) hall).symm
  · rfl

theorem dropWhile_append_stop {s t : Text} {p : Char → Bool} (h : ∀ c ∈ t.head?, p c = false) :
    (s ++ t).dropWhile p = s.dropWhile p ++ t := by
  have hwhole := List.takeWhile_append_dropWhile (p := p) (l := s ++ t)
  rw [takeWhile_append_stop h] at hwhole
  have hpart := List.takeWhile_append_dropWhile (p := p) (l := s)
  have hsame : s.takeWhile p ++ (s ++ t).dropWhile p =
      s.takeWhile p ++ (s.dropWhile p ++ t) := by
    rw [hwhole, ← List.append_assoc, hpart]
  exact List.append_cancel_left hsame

theorem exists_trimRight_append (s : Text) : ∃ gap, gap.allBlank ∧ s.trimRight ++ gap = s := by
  refine ⟨(s.reverse.takeWhile isBlank).reverse, ?_, ?_⟩
  · rw [allBlank, List.all_reverse]
    exact List.all_eq_true.2 fun c hc => List.mem_takeWhile_imp hc
  · rw [trimRight, ← List.reverse_append, List.takeWhile_append_dropWhile, List.reverse_reverse]

theorem exists_trim_append {c : Char} (hc : isBlank c = false) (row rest : Text) :
    ∃ gap, gap.allBlank ∧
      (row ++ c :: rest).trim = row.trim ++ (gap ++ c :: trimRight rest) := by
  have hleft : trimLeft (c :: rest) = c :: rest := List.dropWhile_cons_of_neg (by simp [hc])
  by_cases hrow : row.allBlank
  · refine ⟨[], rfl, ?_⟩
    have hcut : trim (c :: rest) = c :: trimRight rest := by
      rw [trim, hleft]
      exact trimRight_append_of_last (s := []) hc rest
    rw [trim_blank_append hrow, hcut, trim, trimLeft_eq_nil_iff.2 hrow]
    rfl
  · obtain ⟨gap, hgap, hsplit⟩ := exists_trimRight_append row.trimLeft
    refine ⟨gap, hgap, ?_⟩
    rw [trim, trimLeft_append, if_neg hrow, trimRight_append_of_last hc, trim, ← List.append_assoc,
      hsplit]

theorem startsWith_append_stop {s t : Text} {c : Char} (h : t.head? ≠ some c) (n : Nat) :
    (s ++ t).startsWith (List.replicate n c) = s.startsWith (List.replicate n c) := by
  induction n generalizing s with
  | zero => simp [startsWith]
  | succ n ih =>
    rw [List.replicate_succ]
    cases s with
    | nil =>
      cases t with
      | nil => rfl
      | cons d t =>
        have hd : d ≠ c := fun hd => h (congrArg some hd)
        simp [startsWith, after?, Ne.symm hd]
    | cons d s =>
      by_cases hd : d = c
      · simpa [startsWith, after?_cons, hd] using ih
      · simp [startsWith, after?_cons, hd]

theorem head?_ne_mark {c mark : Char} (hc : c ≠ mark) (hm : isBlank mark = false) {gap : Text}
    (hgap : gap.allBlank) (rest : Text) : (gap ++ c :: rest).head? ≠ some mark := by
  cases gap with
  | nil => simpa using hc
  | cons d gap =>
    rintro hd
    obtain rfl := Option.some.inj hd
    have hblank := List.all_eq_true.1 hgap d List.mem_cons_self
    rw [hm] at hblank
    cases hblank

end Text

open Text (EndsMarks)

namespace Fence

variable {c : Char}

theorem opening?_append (hc : EndsMarks c) (row rest : Text) :
    opening? (row ++ c :: rest) = opening? row := by
  obtain ⟨hb, htick, htilde, -⟩ := hc
  obtain ⟨gap, hgap, htrim⟩ := Text.exists_trim_append hb row rest
  have hstop (mark : Char) (hmark : mark = '\x60' ∨ mark = '~') :
      (gap ++ c :: rest.trimRight).head? ≠ some mark := by
    rcases hmark with rfl | rfl
    · exact Text.head?_ne_mark htick (by decide) hgap _
    · exact Text.head?_ne_mark htilde (by decide) hgap _
  unfold opening?
  rw [htrim]
  cases row.trim with
  | nil =>
    obtain ⟨d, more, hmore⟩ : ∃ d more, gap ++ c :: rest.trimRight = d :: more :=
      List.exists_cons_of_ne_nil (by simp)
    rw [hmore] at hstop ⊢
    dsimp only [List.nil_append]
    rw [if_neg]
    rintro ⟨hmark, -⟩
    exact hstop d hmark rfl
  | cons d word =>
    dsimp only [List.cons_append]
    by_cases hmark : d = '\x60' ∨ d = '~'
    · have hrun : (d :: (word ++ (gap ++ c :: rest.trimRight))).takeWhile (· = d) =
          (d :: word).takeWhile (· = d) := by
        refine Text.takeWhile_append_stop (s := d :: word) fun e he => ?_
        have hne : e ≠ d := fun hed => hstop d hmark (hed ▸ he)
        simpa using hne
      rw [hrun]
    · rw [if_neg fun h => hmark h.1, if_neg fun h => hmark h.1]

theorem closedBy_append_iff {fence : Fence} (h : Real (some fence)) (hc : EndsMarks c)
    (row rest : Text) : fence.closedBy (row ++ c :: rest) = fence.closedBy row := by
  obtain ⟨hb, htick, htilde, -⟩ := hc
  obtain ⟨gap, hgap, htrim⟩ := Text.exists_trim_append hb row rest
  have hne : c ≠ fence.mark := by
    rcases (h fence rfl).1 with hmark | hmark
    · exact hmark ▸ htick
    · exact hmark ▸ htilde
  rw [closedBy, htrim]
  exact Text.startsWith_append_stop (Text.head?_ne_mark hne (isBlank_mark h rfl) hgap _) _

/-- The fences that a row opens or closes do not depend on how it goes on. -/
theorem step_append {open? : Option Fence} (h : Real open?) (hc : EndsMarks c) (row rest : Text) :
    (step open? (row ++ c :: rest)).2 = (step open? row).2 ∧
      (step open? (row ++ c :: rest)).1.inFence = (step open? row).1.inFence := by
  cases open? with
  | some fence =>
    have hclosed := closedBy_append_iff h hc row rest
    unfold step
    dsimp only
    rw [hclosed]
    exact ⟨rfl, rfl⟩
  | none =>
    have hopening := opening?_append hc row rest
    unfold step
    dsimp only
    rw [hopening]
    cases opening? row with
    | some fence => exact ⟨rfl, rfl⟩
    | none =>
      cases Heading.level? (row ++ c :: rest) <;> cases Heading.level? row <;> exact ⟨rfl, rfl⟩

end Fence

namespace Heading

variable {c : Char}

theorem parts?_append (hc : EndsMarks c) (row rest : Text) :
    parts? (row ++ c :: rest) =
      (parts? row).map fun (indent, marks, tail) => (indent, marks, tail ++ c :: rest) := by
  obtain ⟨hb, -, -, hmark⟩ := hc
  have hblank : ∀ d ∈ (c :: rest).head?, Text.isBlank d = false := by
    rintro d hd
    obtain rfl := Option.some.inj hd
    exact hb
  have hstop : ∀ d ∈ (c :: rest).head?, decide (d = '#') = false := by
    rintro d hd
    obtain rfl := Option.some.inj hd
    simpa using hmark
  unfold parts? Text.spanBlanks
  dsimp only
  rw [Text.takeWhile_append_stop hblank, Text.dropWhile_append_stop hblank,
    Text.takeWhile_append_stop hstop]
  set body := row.dropWhile Text.isBlank
  have hdrop : (body ++ c :: rest).drop (body.takeWhile (· = '#')).length =
      body.drop (body.takeWhile (· = '#')).length ++ c :: rest :=
    List.drop_append_of_le_length (List.takeWhile_prefix _).length_le
  rw [hdrop]
  cases body.drop (body.takeWhile (· = '#')).length with
  | nil =>
    dsimp only [List.nil_append]
    rw [if_neg]
    · rfl
    · rintro ⟨hblank, -⟩
      rw [hb] at hblank
      cases hblank
  | cons d tail =>
    dsimp only [List.cons_append]
    split <;> rfl

theorem shiftLine_append (hc : EndsMarks c) (shift : Int) (row rest : Text) :
    shiftLine shift (row ++ c :: rest) = shiftLine shift row ++ c :: rest := by
  unfold shiftLine
  rw [parts?_append hc]
  cases parts? row with
  | none => rfl
  | some parts => simp

end Heading

end Transclude

import Transclude.Proofs.ArgumentEnds
import Transclude.Proofs.BlockShifts

/-! Fenced blocks that do not start at the margin. Behind any text that leaves it some block can be
put in which a directive is found and a heading moves: the row it starts in opens no fence, or not
the one it is meant to open, and the fence that may be open instead can be closed in the block. -/

namespace Transclude

namespace Fence

theorem head?_of_opening? {line : Text} {fence : Fence} (h : opening? line = some fence) :
    line.trim.head? = some fence.mark := by
  unfold opening? at h
  split at h
  · cases h
  · rename_i c rest hline
    rw [hline]
    dsimp only at h
    split at h
    · obtain rfl := Option.some.inj h
      rfl
    · cases h

theorem exists_mark {front : Text} (hf : ¬ AtMargin front) :
    ∃ mark, (mark = '\x60' ∨ mark = '~') ∧ ∀ fence,
      (step (openAfter none front.rows.dropLast)
        (Text.lastRow front ++ List.replicate 3 mark)).2 = some fence → fence.mark ≠ mark := by
  have hother (c : Char) : ∃ mark, (mark = '\x60' ∨ mark = '~') ∧ c ≠ mark := by
    by_cases hc : c = '\x60'
    · exact ⟨'~', .inr rfl, by rw [hc]; decide⟩
    · exact ⟨'\x60', .inl rfl, hc⟩
  cases hopen : openAfter none front.rows.dropLast with
  | some g =>
    obtain ⟨mark, hmark, hne⟩ := hother g.mark
    refine ⟨mark, hmark, fun fence h => ?_⟩
    unfold step at h
    dsimp only at h
    split at h
    · cases h
    · obtain rfl := Option.some.inj h
      exact hne
  | none =>
    have hlast : (Text.lastRow front).allBlank = false := by
      by_contra hblank
      exact hf ⟨hopen, by simpa using hblank⟩
    -- What the row starts with decides whether it opens a fence, and which.
    obtain ⟨c, rest, hleft⟩ : ∃ c rest, Text.trimLeft (Text.lastRow front) = c :: rest := by
      refine List.exists_cons_of_ne_nil fun hnil => ?_
      rw [Text.trimLeft_eq_nil_iff, hlast] at hnil
      cases hnil
    obtain ⟨mark, hmark, hne⟩ := hother c
    refine ⟨mark, hmark, fun fence h => ?_⟩
    have hopening : opening? (Text.lastRow front ++ List.replicate 3 mark) = some fence := by
      unfold step at h
      dsimp only at h
      split at h
      · rename_i other hother
        rw [hother]
        exact h
      · split at h <;> cases h
    have hhead := head?_of_opening? hopening
    have hc : Text.isBlank c = false := by
      have hstop := List.head?_dropWhile_not Text.isBlank (Text.lastRow front)
      rw [← Text.trimLeft, hleft] at hstop
      exact hstop
    have hkept : Text.allBlank (c :: rest ++ List.replicate 3 mark) = false := by
      simp [Text.allBlank, hc]
    rw [Text.trim, Text.trimLeft_append, hlast, if_neg Bool.false_ne_true, hleft,
      Text.head?_trimRight hkept] at hhead
    exact Option.some.inj hhead ▸ hne

theorem real_marks {mark : Char} (hm : mark = '\x60' ∨ mark = '~') : Real (some ⟨mark, 3⟩) := by
  intro fence h
  obtain rfl := Option.some.inj h
  exact ⟨hm, Nat.succ_ne_zero 2⟩

theorem exists_opened {front : Text} (hf : ¬ AtMargin front) :
    ∃ mark more, (mark = '\x60' ∨ mark = '~') ∧ (∀ line ∈ more, mark ∉ line) ∧
      Text.Unbroken more ∧
      openAfter none
        (front.rows.dropLast ++ (Text.lastRow front ++ List.replicate 3 mark) :: more) = none := by
  obtain ⟨mark, hmark, hfence⟩ := exists_mark hf
  have hreal : Real (openAfter none front.rows.dropLast) := real_openAfter real_none _
  cases hstep : (step (openAfter none front.rows.dropLast)
      (Text.lastRow front ++ List.replicate 3 mark)).2 with
  | none =>
    refine ⟨mark, [], hmark, nofun, nofun, ?_⟩
    rw [openAfter_append]
    exact hstep
  | some fence =>
    -- A fence of the other kind is open, and a row of its marks closes it inside the block.
    have hnext := real_step hreal (Text.lastRow front ++ List.replicate 3 mark)
    rw [hstep] at hnext
    have hne := hfence fence hstep
    have hclosed : fence.closedBy (List.replicate fence.length fence.mark) :=
      (closedBy_iff hnext).2 ⟨[], [], by simp, rfl⟩
    have hline : ∀ c, c ≠ fence.mark → c ∉ List.replicate fence.length fence.mark :=
      fun c hc hmem => hc (List.mem_replicate.1 hmem).2
    refine ⟨mark, [List.replicate fence.length fence.mark], hmark, ?_, ?_, ?_⟩
    · exact List.forall_mem_singleton.2 (hline mark hne.symm)
    · refine List.forall_mem_singleton.2 ⟨hline _ ?_, hline _ ?_⟩
      · rcases (hnext fence rfl).1 with h | h <;> rw [h] <;> decide
      · rcases (hnext fence rfl).1 with h | h <;> rw [h] <;> decide
    · rw [openAfter_append]
      show (step (step _ _).2 _).2 = none
      rw [hstep, step_closing hclosed]

end Fence

theorem isBlock_marks {mark : Char} (hm : mark = '\x60' ∨ mark = '~') {inner : List Text}
    (hu : Text.Unbroken inner) (hi : ∀ line ∈ inner, mark ∉ line) :
    IsBlock (List.replicate 3 mark :: (inner ++ [List.replicate 3 mark])) := by
  have hreal := Fence.real_marks hm
  have hline : '\n' ∉ List.replicate 3 mark ∧ '\r' ∉ List.replicate 3 mark := by
    rcases hm with rfl | rfl <;> decide
  have hopening : Fence.opening? (List.replicate 3 mark) = some ⟨mark, 3⟩ := by
    rcases hm with rfl | rfl <;> rfl
  refine ⟨?_, _, inner, _, _, rfl, hopening, fun line hl => ?_, ?_⟩
  · refine List.forall_mem_cons.2 ⟨hline, ?_⟩
    exact List.forall_mem_append.2 ⟨hu, List.forall_mem_singleton.2 hline⟩
  · by_contra hclosed
    exact hi line hl (Fence.mem_of_closedBy hreal (by simpa using hclosed))
  · exact (Fence.closedBy_iff hreal).2 ⟨[], [], by simp, rfl⟩

namespace Piece

theorem exists_pushProse {line s t : Text} {ps : List Piece} (h : .prose (s ++ t) ∈ ps) :
    ∃ s', .prose (s' ++ t) ∈ pushProse line ps := by
  cases ps with
  | nil => exact absurd h List.not_mem_nil
  | cons p ps =>
    cases p with
    | code u => exact ⟨s, List.mem_cons_of_mem _ h⟩
    | prose u =>
      rcases List.mem_cons.1 h with heq | hmem
      · refine ⟨line ++ s, ?_⟩
        rw [List.append_assoc, Piece.prose.inj heq]
        exact List.mem_cons_self
      · exact ⟨s, List.mem_cons_of_mem _ hmem⟩

theorem mem_pushCode {line s : Text} {ps : List Piece} (h : .prose s ∈ ps) :
    .prose s ∈ pushCode line ps := by
  cases ps with
  | nil => exact absurd h List.not_mem_nil
  | cons p ps =>
    cases p with
    | prose u => exact List.mem_cons_of_mem _ h
    | code u =>
      rcases List.mem_cons.1 h with heq | hmem
      · cases heq
      · exact List.mem_cons_of_mem _ hmem

theorem exists_prose {open? : Option Fence} {ls : List Text}
    (hs : Fence.openAfter open? ls = none) {rest : List Text} {t : Text} {qs : List Piece}
    (h : ofLines none rest = .prose t :: qs) :
    ∃ s, .prose (s ++ t) ∈ ofLines open? (ls ++ rest) := by
  induction ls generalizing open? with
  | nil =>
    obtain rfl : open? = none := hs
    refine ⟨[], ?_⟩
    rw [List.nil_append, List.nil_append, h]
    exact List.mem_cons_self
  | cons l ls ih =>
    have hnext : Fence.openAfter (Fence.step open? l).2 ls = none := hs
    obtain ⟨s, hmem⟩ := ih hnext
    rw [List.cons_append, ofLines_cons]
    split
    · exact exists_pushProse hmem
    · exact ⟨s, List.mem_cons_of_mem _ hmem⟩
    · exact ⟨s, mem_pushCode hmem⟩

end Piece

namespace Token

theorem mem_directives {d : Directive} {s t : Text} (hp : .prose t ∈ Piece.cut s)
    (hd : .found d ∈ Directive.pattern.scan t) : d ∈ directives s := by
  rw [directives_eq]
  refine List.mem_filterMap.2 ⟨.found d, List.mem_flatMap.2 ⟨_, hp, hd⟩, rfl⟩

end Token

variable {front : Text}

theorem Text.rows_exposed {mark : Char} {inner : List Text}
    (hb : IsBlock (List.replicate 3 mark :: (inner ++ [List.replicate 3 mark]))) (front : Text) :
    rows (front ++ unlines (List.replicate 3 mark :: (inner ++ [List.replicate 3 mark])) ++ []) =
      front.rows.dropLast ++ (lastRow front ++ List.replicate 3 mark) :: inner ++
        [List.replicate 3 mark] := by
  rw [rows_around hb.1]
  exact congrArg (front.rows.dropLast ++ (lastRow front ++ List.replicate 3 mark) :: inner ++ [·])
    (List.append_nil _)

namespace Token

theorem exists_exposed (hf : ¬ AtMargin front) :
    ∃ block, IsBlock block ∧
      directives (front ++ Text.unlines block ++ []) ≠ directives (Text.upperRows front) := by
  obtain ⟨mark, more, hmark, hmore, hunbroken, hstate⟩ := Fence.exists_opened hf
  obtain ⟨n, hfresh⟩ := Directive.exists_probe (directives (Text.upperRows front))
  have hinner : Text.Unbroken (more ++ [Directive.close, (Directive.probe n).source]) := by
    refine Text.unbroken_append.2 ⟨hunbroken, List.forall_mem_cons.2 ⟨by decide, ?_⟩⟩
    exact List.forall_mem_singleton.2
      ⟨Directive.not_mem_probe (by decide) n, Directive.not_mem_probe (by decide) n⟩
  have hmarks : ∀ line ∈ more ++ [Directive.close, (Directive.probe n).source], mark ∉ line := by
    refine List.forall_mem_append.2 ⟨hmore, List.forall_mem_cons.2 ⟨?_, ?_⟩⟩
    · rcases hmark with rfl | rfl <;> decide
    · refine List.forall_mem_singleton.2 (Directive.not_mem_probe ?_ n)
      rcases hmark with rfl | rfl <;> decide
  have hblock := isBlock_marks hmark hinner hmarks
  refine ⟨_, hblock, fun heq => hfresh ?_⟩
  rw [← heq]
  have hcut : Piece.cut (front ++ Text.unlines (List.replicate 3 mark ::
      (more ++ [Directive.close, (Directive.probe n).source] ++ [List.replicate 3 mark])) ++ []) =
      Piece.ofLines none
        ((front.rows.dropLast ++ (Text.lastRow front ++ List.replicate 3 mark) :: more).map
          (· ++ ['\n']) ++ [Directive.close ++ ['\n'], (Directive.probe n).source ++ ['\n'],
            List.replicate 3 mark]) := by
    rw [Piece.cut, Text.endedLines, ← Text.rows, Text.rows_exposed hblock,
      Text.endLines_append _ (List.cons_ne_nil _ _)]
    simp [Text.endLines]
  -- Behind the rows that leave no fence open there is prose up to the end of the block.
  have hprose : Piece.ofLines none [Directive.close ++ ['\n'], (Directive.probe n).source ++ ['\n'],
      List.replicate 3 mark] =
      .prose (Directive.close ++ ['\n'] ++ ((Directive.probe n).source ++ ['\n'])) ::
        [.code (List.replicate 3 mark)] := by
    have hclose : (Fence.step none (Directive.close ++ ['\n'])).2 = none := by
      rw [Fence.step_append_newline]
      rfl
    have hbrace : (Fence.step none ((Directive.probe n).source ++ ['\n'])).2 = none := by
      rw [Fence.step_append_newline, Fence.step_of_brace rfl]
    have hopening : (Fence.step none (List.replicate 3 mark)).2 = some ⟨mark, 3⟩ := by
      rcases hmark with rfl | rfl <;> rfl
    rw [Piece.ofLines_prose _ hclose, Piece.ofLines_prose _ hbrace,
      Piece.ofLines_opening _ hopening]
    rfl
  rw [← Fence.openAfter_map_newline] at hstate
  obtain ⟨s, hmem⟩ := Piece.exists_prose hstate hprose
  rw [← hcut] at hmem
  refine mem_directives hmem ?_
  have hfound : .found (Directive.probe n) ∈
      Directive.pattern.scan ((Directive.probe n).source ++ ['\n']) := by
    rw [Directive.pattern.scan_of_read? (Directive.read?_probe n ['\n'])]
    exact List.mem_cons_self
  have hscan := Directive.mem_scan_of_close (List.suffix_refl (s ++ Directive.close)) hfound
  simpa using hscan

/-- The margin is what keeps a pass from finding directives in a block. -/
theorem atMargin_iff_spares : AtMargin front ↔ Spares front := by
  constructor
  · exact fun hf block hb rest => directives_block hf hb rest
  · intro h
    by_contra hf
    obtain ⟨block, hb, hne⟩ := exists_exposed hf
    have hnone : directives (Text.lowerRows []) = [] := rfl
    refine hne ((h block hb []).trans ?_)
    rw [hnone, List.append_nil]

end Token

namespace Heading

def row (marks : Nat) : Text := List.replicate marks '#' ++ [' ', 'a']

theorem not_mem_row {c : Char} (hc : c ∉ ['#', ' ', 'a']) (marks : Nat) : c ∉ row marks := by
  intro hmem
  rcases List.mem_append.1 hmem with h | h
  · exact hc (List.mem_cons.2 (.inl (List.mem_replicate.1 h).2))
  · exact hc (List.mem_cons_of_mem _ h)

theorem shiftLine_row {marks : Nat} (hlow : 1 ≤ marks) (hhigh : marks ≤ 6) (shift : Int) :
    shiftLine shift (row marks) = row (clamp (marks + shift)) := by
  have hparts := parts?_marks (show Text.allBlank [] from rfl) hlow
    (show [' ', 'a'].head? ≠ some '#' by decide)
  rw [if_pos ⟨by decide, Nat.zero_le 3, hhigh⟩] at hparts
  exact shiftLine_of_parts? hparts shift

theorem step_row {marks : Nat} (hlow : 1 ≤ marks) :
    (Fence.step none (row marks)).1.inFence = false ∧ (Fence.step none (row marks)).2 = none := by
  have htrim : (row marks).trim = List.replicate marks '#' ++ Text.trimRight [' ', 'a'] :=
    Text.trim_run (show Text.allBlank [] from rfl) (by decide) hlow [' ', 'a']
  have hhead : (row marks).trim.head? = some '#' := by
    obtain ⟨m, rfl⟩ := Nat.exists_eq_add_of_le' hlow
    rw [htrim]
    rfl
  obtain ⟨hnext, hin⟩ := Fence.step_of_mark hhead Fence.real_none
  exact ⟨hin, hnext⟩

theorem exists_moved_row {shift : Int} (h : shift ≠ 0) :
    ∃ marks : Nat, 1 ≤ marks ∧ marks ≤ 6 ∧ row (clamp (marks + shift)) ≠ row marks := by
  have hmoves {marks : Nat} (hne : clamp (marks + shift) ≠ marks) :
      row (clamp (marks + shift)) ≠ row marks := by
    intro heq
    have hlength := congrArg List.length heq
    simp only [row, List.length_append, List.length_replicate] at hlength
    exact hne (Nat.add_right_cancel hlength)
  rcases Int.lt_or_gt_of_ne h with hneg | hpos
  · refine ⟨6, by decide, by decide, hmoves ?_⟩
    unfold clamp
    omega
  · refine ⟨1, by decide, by decide, hmoves ?_⟩
    unfold clamp
    omega

theorem exists_exposed (hf : ¬ AtMargin front) {shift : Int} (h : shift ≠ 0) :
    ∃ block, IsBlock block ∧ ∀ behind,
      Heading.shift shift (front ++ Text.unlines block ++ []) ≠
        Heading.shift shift front ++ Text.unlines block ++ behind := by
  obtain ⟨mark, more, hmark, hmore, hunbroken, hstate⟩ := Fence.exists_opened hf
  obtain ⟨marks, hlow, hhigh, hne⟩ := exists_moved_row h
  have hinner : Text.Unbroken (more ++ [row marks]) := by
    refine Text.unbroken_append.2 ⟨hunbroken, List.forall_mem_singleton.2 ⟨?_, ?_⟩⟩
    · exact not_mem_row (by decide) marks
    · exact not_mem_row (by decide) marks
  have hmarks : ∀ line ∈ more ++ [row marks], mark ∉ line := by
    refine List.forall_mem_append.2 ⟨hmore, List.forall_mem_singleton.2 (not_mem_row ?_ marks)⟩
    rcases hmark with rfl | rfl <;> decide
  have hblock := isBlock_marks hmark hinner hmarks
  refine ⟨_, hblock, fun behind heq => hne ?_⟩
  -- The heading is the same row of both texts, but only in one of them it has moved.
  have hmoved : (Heading.shift shift (front ++ Text.unlines (List.replicate 3 mark ::
      (more ++ [row marks] ++ [List.replicate 3 mark])) ++ [])).rows =
      shiftLines shift none ((front.rows.dropLast ++
        (Text.lastRow front ++ List.replicate 3 mark) :: more).map Text.dropReturn) ++
          row (clamp (marks + shift)) :: shiftLines shift none [List.replicate 3 mark] := by
    have hreturn : Text.dropReturn (row marks) = row marks :=
      Text.dropReturn_eq_self (not_mem_row (by decide) marks)
    have hrows : (front ++ Text.unlines (List.replicate 3 mark ::
        (more ++ [row marks] ++ [List.replicate 3 mark])) ++ []).lines =
        (front.rows.dropLast ++ (Text.lastRow front ++ List.replicate 3 mark) :: more).map
          Text.dropReturn ++ row marks :: [List.replicate 3 mark] := by
      rw [Text.lines, ← Text.rows, Text.rows_exposed hblock,
        Text.dropReturns_append _ (List.cons_ne_nil _ _)]
      simp [Text.dropReturns, hreturn]
    obtain ⟨hin, hnext⟩ := step_row hlow
    rw [rows_shift, hrows, shiftLines_append, openAfter_map_dropReturn, hstate, shiftLines_cons,
      hnext, hin, if_neg Bool.false_ne_true, shiftLine_row hlow hhigh]
  have hkept := Text.rows_around hblock.1 (Heading.shift shift front) behind
  rw [← heq, hmoved, List.append_assoc, List.cons_append, List.append_assoc, List.singleton_append,
    ← List.cons_append, ← List.append_assoc] at hkept
  have hlength := length_rows_shift shift front
  refine (List.cons.inj (List.append_inj hkept ?_).2).1
  rw [length_shiftLines]
  simp [hlength]

/-- The margin is what keeps a shift from moving rows of a block. -/
theorem atMargin_iff_spares {shift : Int} (h : shift ≠ 0) :
    AtMargin front ↔ Heading.Spares shift front := by
  constructor
  · intro hf block hb rest
    obtain ⟨behind, hbehind⟩ := shift_block hf shift rest
    exact ⟨behind, hbehind block hb⟩
  · intro hkeeps
    by_contra hf
    obtain ⟨block, hb, hne⟩ := exists_exposed hf h
    obtain ⟨behind, heq⟩ := hkeeps block hb []
    exact hne behind heq

end Heading

end Transclude

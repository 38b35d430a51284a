import Transclude.Expansion
import Transclude.Proofs.ChunkPasses
import Transclude.Proofs.Rows

/-! Expanding and substituting pass over the tokens of a text in the same way: something is put in
place of each directive, and the text between them stays. Over lines in which no directive starts a
pass changes nothing, whatever stands behind them. -/

namespace Transclude

namespace Directive

def keywords : List Text := [
  (includeFile []).opener, (valueOf []).opener, (ifHolds [] []).opener, (elseIf [] []).opener,
  otherwise.opener, endIf.opener, (listTable []).opener]

theorem brace_of_mem_keywords {k : Text} (h : k ∈ keywords) : ∃ rest, k = '\x7b' :: rest := by
  have hall : ∀ k ∈ keywords, k.head? = some '\x7b' := by decide
  have hhead := hall k h
  cases k with
  | nil => cases hhead
  | cons c rest =>
    obtain rfl := Option.some.inj hhead
    exact ⟨rest, rfl⟩

theorem newline_not_mem_keyword : ∀ k ∈ keywords, '\n' ∉ k := by decide

theorem read?_eq_none {s : Text} (h : ∀ k ∈ keywords, s.after? k = none) : read? s = none := by
  have hinclude := h _ (by simp [keywords] : (includeFile []).opener ∈ keywords)
  have hvalue := h _ (by simp [keywords] : (valueOf []).opener ∈ keywords)
  have hif := h _ (by simp [keywords] : (ifHolds [] []).opener ∈ keywords)
  have helseIf := h _ (by simp [keywords] : (elseIf [] []).opener ∈ keywords)
  have helse := h _ (by simp [keywords] : otherwise.opener ∈ keywords)
  have hend := h _ (by simp [keywords] : endIf.opener ∈ keywords)
  have htable := h _ (by simp [keywords] : (listTable []).opener ∈ keywords)
  simp [read?, readEnclosed?, readSpaced?, readFixed?, hinclude, hvalue, hif, helseIf, helse, hend,
    htable]

end Directive

namespace Text

theorem contains_iff {s mark : Text} : s.contains mark ↔ mark <:+: s := by
  unfold contains
  constructor
  · intro h
    obtain ⟨⟨before, rest⟩, hcut⟩ := Option.isSome_iff_exists.1 h
    exact ⟨before, rest, append_of_cut? hcut⟩
  · induction s with
    | nil =>
      intro h
      obtain rfl : mark = [] := List.infix_nil.1 h
      rfl
    | cons c s ih =>
      intro h
      unfold cut?
      split
      · rfl
      · rename_i hafter
        rw [Option.isSome_map]
        refine ih ?_
        rcases List.infix_cons_iff.1 h with ⟨rest, hrest⟩ | h
        · rw [← hrest, after?_append] at hafter
          cases hafter
        · exact h

theorem cut?_append {mark s before rest : Text} (h : cut? mark s = some (before, rest))
    (t : Text) : cut? mark (s ++ t) = some (before, rest ++ t) := by
  induction s generalizing before with
  | nil =>
    unfold cut? at h
    split at h
    · rename_i hmark
      obtain ⟨rfl, rfl⟩ := Prod.mk.inj (Option.some.inj h)
      subst hmark
      cases t <;> simp [cut?, after?]
    · cases h
  | cons c s ih =>
    unfold cut? at h
    rw [List.cons_append, cut?]
    split at h
    · rename_i r hr
      obtain ⟨rfl, rfl⟩ := Prod.mk.inj (Option.some.inj h)
      have hs : c :: (s ++ t) = mark ++ (r ++ t) := by
        rw [← List.cons_append, after?_eq_some_iff.1 hr, List.append_assoc]
      rw [hs, after?_append]
    · rename_i hnone
      obtain ⟨⟨b, r⟩, hcut, heq⟩ := Option.map_eq_some_iff.1 h
      obtain ⟨rfl, rfl⟩ := Prod.mk.inj heq
      -- The mark stands in `s` as a whole, so it cannot start at `c` and reach into `t`.
      have hlate : after? (c :: (s ++ t)) mark = none := by
        cases hafter : after? (c :: (s ++ t)) mark with
        | none => rfl
        | some u =>
          have hfront : mark <+: (c :: s) ++ t := ⟨u, (after?_eq_some_iff.1 hafter).symm⟩
          have hlength : mark.length ≤ (c :: s).length := by
            rw [← append_of_cut? hcut]
            simp only [List.length_cons, List.length_append]
            omega
          obtain ⟨v, hv⟩ := List.prefix_of_prefix_length_le hfront (List.prefix_append _ _) hlength
          rw [← hv, after?_append] at hnone
          cases hnone
      rw [hlate, ih hcut]
      rfl

theorem cut?_singleton_iff {c : Char} {s before rest : Text} :
    cut? [c] s = some (before, rest) ↔ s = before ++ c :: rest ∧ c ∉ before := by
  induction s generalizing before with
  | nil => simp [cut?]
  | cons d s ih =>
    have hafter : after? (d :: s) [c] = if d = c then some s else none := by
      rw [after?_cons, after?_nil]
    rw [cut?, hafter]
    by_cases hd : d = c
    · subst hd
      rw [if_pos rfl]
      constructor
      · intro h
        obtain ⟨rfl, rfl⟩ := Prod.mk.inj (Option.some.inj h)
        exact ⟨rfl, List.not_mem_nil⟩
      · rintro ⟨hs, hmem⟩
        cases before with
        | nil => rw [(List.cons.inj hs).2]
        | cons e before => exact absurd List.mem_cons_self ((List.cons.inj hs).1 ▸ hmem)
    · rw [if_neg hd]
      constructor
      · intro h
        obtain ⟨⟨b, r⟩, hcut, heq⟩ := Option.map_eq_some_iff.1 h
        obtain ⟨rfl, rfl⟩ := Prod.mk.inj heq
        obtain ⟨rfl, hmem⟩ := ih.1 hcut
        exact ⟨rfl, fun h => (List.mem_cons.1 h).elim (fun heq => hd heq.symm) hmem⟩
      · rintro ⟨hs, hmem⟩
        cases before with
        | nil => exact absurd (List.cons.inj hs).1 hd
        | cons e before =>
          obtain ⟨rfl, rfl⟩ := List.cons.inj hs
          rw [ih.2 ⟨rfl, List.not_mem_of_not_mem_cons hmem⟩]
          rfl

theorem cut?_singleton_eq_none_iff {c : Char} {s : Text} : cut? [c] s = none ↔ c ∉ s := by
  constructor
  · intro h hmem
    obtain ⟨before, rest, rfl, hbefore⟩ := List.eq_append_cons_of_mem hmem
    rw [cut?_singleton_iff.2 ⟨rfl, hbefore⟩] at h
    cases h
  · intro h
    cases hcut : cut? [c] s with
    | none => rfl
    | some found =>
      obtain ⟨rfl, -⟩ := cut?_singleton_iff.1 hcut
      exact absurd (List.mem_append_right found.1 List.mem_cons_self) h

def silent (line : Text) : Bool := Directive.keywords.all fun k => !line.contains k

theorem silent_iff {line : Text} : silent line ↔ ∀ k ∈ Directive.keywords, ¬ k <:+: line := by
  simp only [silent, List.all_eq_true, Bool.not_eq_true', ← Bool.not_eq_true, contains_iff]

theorem silent_of_infix {line part : Text} (h : silent line) (hp : part <:+: line) :
    silent part := by
  rw [silent_iff] at h ⊢
  exact fun k hk hpart => h k hk (hpart.trans hp)

theorem silent_of_no_brace {line : Text} (h : '\x7b' ∉ line) : silent line := by
  rw [silent_iff]
  intro k hk hpart
  obtain ⟨rest, rfl⟩ := Directive.brace_of_mem_keywords hk
  exact h (hpart.subset List.mem_cons_self)

/-- Two silent texts are silent together if what stands between them stands in no keyword. -/
theorem silent_append_cons {s t : Text} (hs : silent s) (ht : silent t) {c : Char}
    (hc : ∀ k ∈ Directive.keywords, c ∉ k) : silent (s ++ c :: t) := by
  rw [silent_iff] at hs ht ⊢
  rintro k hk ⟨before, behind, heq⟩
  rw [List.append_assoc] at heq
  rcases List.append_eq_append_iff.1 heq with ⟨part, rfl, hpart⟩ | ⟨part, rfl, hpart⟩
  · rcases List.append_eq_append_iff.1 hpart with ⟨more, rfl, -⟩ | ⟨more, rfl, hmore⟩
    · exact hs k hk ⟨before, more, List.append_assoc before k more⟩
    · cases more with
      | nil =>
        rw [List.append_nil] at hk
        exact hs part hk (List.suffix_append before part).isInfix
      | cons d more =>
        obtain ⟨rfl, -⟩ := List.cons.inj hmore
        exact hc _ hk (List.mem_append_right part List.mem_cons_self)
  · cases part with
    | nil =>
      obtain ⟨rest, rfl⟩ := Directive.brace_of_mem_keywords hk
      obtain ⟨rfl, -⟩ := List.cons.inj hpart
      exact hc _ hk List.mem_cons_self
    | cons d part =>
      obtain ⟨-, rfl⟩ := List.cons.inj hpart
      exact ht k hk ⟨part, behind, List.append_assoc part k behind⟩

theorem read?_of_silent {line : Text} (h : silent line) {c : Char}
    (hc : ∀ k ∈ Directive.keywords, c ∉ k) (rest : Text) :
    Directive.read? (line ++ c :: rest) = none := by
  refine Directive.read?_eq_none fun k hk => ?_
  cases hafter : after? (line ++ c :: rest) k with
  | none => rfl
  | some u =>
    have hfront : k <+: line ++ c :: rest := ⟨u, (after?_eq_some_iff.1 hafter).symm⟩
    rcases Nat.le_total k.length line.length with hle | hle
    · have hprefix := List.prefix_of_prefix_length_le hfront (List.prefix_append _ _) hle
      exact absurd hprefix.isInfix (silent_iff.1 h k hk)
    · -- A keyword that reaches beyond the line would hold the character behind it.
      obtain ⟨v, rfl⟩ := List.prefix_of_prefix_length_le (List.prefix_append _ _) hfront hle
      rw [List.prefix_append_right_inj] at hfront
      cases v with
      | nil =>
        rw [List.append_nil] at hk
        exact absurd (List.infix_refl line) (silent_iff.1 h line hk)
      | cons d v =>
        obtain ⟨rfl, -⟩ := List.cons_prefix_cons.1 hfront
        exact absurd (List.mem_append_right line List.mem_cons_self) (hc _ hk)

theorem read?_of_silent_last {line : Text} (h : silent line) : Directive.read? line = none := by
  refine Directive.read?_eq_none fun k hk => ?_
  cases hafter : after? line k with
  | none => rfl
  | some u =>
    have hfront : k <+: line := ⟨u, (after?_eq_some_iff.1 hafter).symm⟩
    exact absurd hfront.isInfix (silent_iff.1 h k hk)

theorem scan_silent {line : Text} (h : silent line) {c : Char}
    (hc : ∀ k ∈ Directive.keywords, c ∉ k) (rest : Text) :
    Directive.pattern.scan (line ++ c :: rest) =
      Chunk.pushText (line ++ [c]) (Directive.pattern.scan rest) := by
  induction line with
  | nil => exact Directive.pattern.scan_cons (read?_of_silent h hc rest)
  | cons d line ih =>
    have htail := silent_of_infix h (List.suffix_cons d line).isInfix
    have hnone := read?_of_silent h hc rest
    rw [List.cons_append] at hnone ⊢
    rw [Directive.pattern.scan_cons hnone, ih htail, Chunk.pushText_pushText]
    rfl

theorem scan_silent_last {line : Text} (h : silent line) :
    Directive.pattern.scan line = if line = [] then [] else [.plain line] := by
  induction line with
  | nil => exact Directive.pattern.scan_nil
  | cons c line ih =>
    have htail := silent_of_infix h (List.suffix_cons c line).isInfix
    rw [Directive.pattern.scan_cons (read?_of_silent_last h), ih htail]
    split
    · rename_i hnil
      rw [hnil]
      rfl
    · rfl

end Text

namespace Piece

variable {line : Text} (rest : List Text)

theorem ofLines_cons (open? : Option Fence) :
    ofLines open? (line :: rest) =
      match open?, (Fence.step open? line).2 with
      | none, none => pushProse line (ofLines (Fence.step open? line).2 rest)
      | some _, none => .code line :: ofLines (Fence.step open? line).2 rest
      | _, some _ => pushCode line (ofLines (Fence.step open? line).2 rest) := rfl

theorem ofLines_prose (h : (Fence.step none line).2 = none) :
    ofLines none (line :: rest) = pushProse line (ofLines none rest) := by
  rw [ofLines_cons, h]

theorem ofLines_opening {fence : Fence} (h : (Fence.step none line).2 = some fence) :
    ofLines none (line :: rest) = pushCode line (ofLines (some fence) rest) := by
  rw [ofLines_cons, h]

theorem ofLines_fenced {fence next : Fence} (h : (Fence.step (some fence) line).2 = some next) :
    ofLines (some fence) (line :: rest) = pushCode line (ofLines (some next) rest) := by
  rw [ofLines_cons, h]

theorem ofLines_closing {fence : Fence} (h : (Fence.step (some fence) line).2 = none) :
    ofLines (some fence) (line :: rest) = .code line :: ofLines none rest := by
  rw [ofLines_cons, h]

end Piece

theorem Fence.exists_open_of_inFence {line : Text} (h : (step none line).1.inFence) :
    ∃ fence, (step none line).2 = some fence := by
  unfold step at h ⊢
  cases ho : opening? line with
  | some fence => exact ⟨fence, rfl⟩
  | none => cases hl : Heading.level? line <;> simp [ho, hl, LineClass.inFence] at h

namespace Token

def pass (replace : Directive → Run Text) : List Token → Run Text
  | [] => pure []
  | .plain s :: rest => (s ++ ·) <$> pass replace rest
  | .found d :: rest => do
    let s ← replace d
    (s ++ ·) <$> pass replace rest

variable (replace : Directive → Run Text)

theorem pass_eq (tokens : List Token) : pass replace tokens = Chunk.pass replace tokens := by
  induction tokens with
  | nil => rfl
  | cons token rest ih =>
    cases token with
    | plain s => rw [pass, ih, Chunk.pass]
    | found d => rw [pass, ih, Chunk.pass]

theorem pass_append (xs ys : List Token) :
    pass replace (xs ++ ys) = pass replace xs >>= fun s => (s ++ ·) <$> pass replace ys := by
  simp only [pass_eq, Chunk.pass_append]

theorem pass_pushText (s : Text) (tokens : List Token) :
    pass replace (Chunk.pushText s tokens) = (s ++ ·) <$> pass replace tokens := by
  rw [pass_eq, Chunk.pass_pushText, pass_eq]

theorem pass_merge (tokens : List Token) :
    pass replace (Chunk.merge tokens) = pass replace tokens := by
  rw [pass_eq, Chunk.pass_merge, pass_eq]

/-- A pass over lines that are given with their endings. -/
def passLines (open? : Option Fence) (ls : List Text) : Run Text :=
  pass replace ((Piece.ofLines open? ls).flatMap ofPiece)

theorem pass_tokenize (s : Text) :
    pass replace (tokenize s) = passLines replace none s.endedLines := pass_merge _ _

theorem pass_pushCode (line : Text) (pieces : List Piece) :
    pass replace ((Piece.pushCode line pieces).flatMap ofPiece) =
      (line ++ ·) <$> pass replace (pieces.flatMap ofPiece) := by
  cases pieces with
  | nil => rfl
  | cons piece rest =>
    cases piece with
    | prose s => rfl
    | code s => simp [Piece.pushCode, ofPiece, pass]

theorem passLines_fenced {open? : Option Fence} {line : Text}
    (h : (Fence.step open? line).1.inFence) (rest : List Text) :
    passLines replace open? (line :: rest) =
      (line ++ ·) <$> passLines replace (Fence.step open? line).2 rest := by
  unfold passLines
  cases open? with
  | none =>
    obtain ⟨fence, hnext⟩ := Fence.exists_open_of_inFence h
    rw [Piece.ofLines_opening rest hnext, hnext]
    exact pass_pushCode replace line _
  | some fence =>
    cases hnext : (Fence.step (some fence) line).2 with
    | some next =>
      rw [Piece.ofLines_fenced rest hnext]
      exact pass_pushCode replace line _
    | none =>
      rw [Piece.ofLines_closing rest hnext]
      rfl

variable {replace}

theorem passLines_prose {line : Text} {x : Run Text} (hs : (Fence.step none line).2 = none)
    (hx : ∀ s, pass replace (Directive.pattern.scan (line ++ s)) =
      x >>= fun a => (a ++ ·) <$> pass replace (Directive.pattern.scan s)) (rest : List Text) :
    passLines replace none (line :: rest) =
      x >>= fun a => (a ++ ·) <$> passLines replace none rest := by
  have hends := hx []
  rw [List.append_nil] at hends
  rw [passLines, passLines, Piece.ofLines_prose rest hs]
  cases Piece.ofLines none rest with
  | nil =>
    change pass replace (Directive.pattern.scan line ++ []) = _
    rw [List.append_nil, hends, Directive.pattern.scan_nil]
    rfl
  | cons piece pieces =>
    cases piece with
    | prose s => simp [Piece.pushProse, ofPiece, pass_append, hx]
    | code s => simp [Piece.pushProse, ofPiece, pass_append, hends, pass]

end Token

namespace Fence

theorem step_of_not_inFence {open? : Option Fence} {line : Text}
    (h : ¬ (step open? line).1.inFence) : open? = none ∧ (step open? line).2 = none := by
  cases open? with
  | none => exact ⟨rfl, step_none_of_not_inFence (by simpa using h)⟩
  | some fence =>
    refine absurd ?_ h
    unfold step
    dsimp only
    split <;> rfl

def quiet (open? : Option Fence) : List Text → Bool
  | [] => true
  | line :: rest =>
    let (kind, next) := step open? line
    (kind.inFence || line.silent) && quiet next rest

theorem quiet_append (open? : Option Fence) (xs ys : List Text) :
    quiet open? (xs ++ ys) = (quiet open? xs && quiet (openAfter open? xs) ys) := by
  induction xs generalizing open? with
  | nil => rfl
  | cons x xs ih =>
    have hnext := ih (step open? x).2
    simp only [List.cons_append, quiet, hnext, Bool.and_assoc]
    rfl

end Fence

namespace Text

theorem endLines_append (xs : List Text) {ys : List Text} (h : ys ≠ []) :
    endLines (xs ++ ys) = xs.map (· ++ ['\n']) ++ endLines ys := by
  induction xs with
  | nil => rfl
  | cons x xs ih =>
    obtain ⟨z, zs, hz⟩ := List.exists_cons_of_ne_nil (List.append_ne_nil_of_right_ne_nil xs h)
    rw [List.cons_append, hz, endLines, ← hz, ih]
    rfl

end Text

namespace Token

variable (replace : Directive → Run Text)

theorem passLines_cons_quiet {open? : Option Fence} {line : Text}
    (h : (Fence.step open? line).1.inFence ∨ line.silent) (rest : List Text) :
    passLines replace open? ((line ++ ['\n']) :: rest) =
      ((line ++ ['\n']) ++ ·) <$> passLines replace (Fence.step open? line).2 rest := by
  have hstep := Fence.step_append_newline open? line
  by_cases hin : (Fence.step open? line).1.inFence
  · rw [passLines_fenced replace (hstep ▸ hin), hstep]
  · obtain ⟨rfl, hnext⟩ := Fence.step_of_not_inFence hin
    have hscan (s : Text) : pass replace (Directive.pattern.scan (line ++ ['\n'] ++ s)) =
        pure (line ++ ['\n']) >>= fun a =>
          (a ++ ·) <$> pass replace (Directive.pattern.scan s) := by
      rw [List.append_assoc, List.singleton_append,
        Text.scan_silent (h.resolve_left hin) Directive.newline_not_mem_keyword, pass_pushText,
        pure_bind]
    rw [passLines_prose (hstep ▸ hnext) hscan, pure_bind, hnext]

theorem passLines_quiet {open? : Option Fence} {xs : List Text} (h : Fence.quiet open? xs)
    (rest : List Text) :
    passLines replace open? (xs.map (· ++ ['\n']) ++ rest) =
      (Text.above xs ++ ·) <$> passLines replace (Fence.openAfter open? xs) rest := by
  induction xs generalizing open? with
  | nil => simp [Text.above, Fence.openAfter]
  | cons x xs ih =>
    simp only [Fence.quiet, Bool.and_eq_true, Bool.or_eq_true] at h
    rw [List.map_cons, List.cons_append, passLines_cons_quiet replace h.1, ih h.2]
    simp [Text.above, Fence.openAfter]

theorem passLines_last {open? : Option Fence} {line : Text} (h : Fence.quiet open? [line]) :
    passLines replace open? (Text.endLines [line]) = pure line := by
  simp only [Fence.quiet, Bool.and_true, Bool.or_eq_true] at h
  rw [Text.endLines]
  split
  · rename_i hnil
    rw [hnil]
    rfl
  · rename_i hline
    by_cases hin : (Fence.step open? line).1.inFence
    · rw [passLines_fenced replace hin]
      simp [passLines, Piece.ofLines, pass]
    · obtain ⟨rfl, hnext⟩ := Fence.step_of_not_inFence hin
      have hscan := Text.scan_silent_last (h.resolve_left hin)
      rw [passLines, Piece.ofLines_prose _ hnext]
      change pass replace (Directive.pattern.scan line ++ []) = _
      rw [hscan, if_neg hline]
      simp [pass]

theorem passLines_endLines {open? : Option Fence} {ls : List Text} (h : Fence.quiet open? ls) :
    passLines replace open? (Text.endLines ls) = pure (Text.unlines ls) := by
  rcases List.eq_nil_or_concat ls with rfl | ⟨xs, last, rfl⟩
  · rfl
  · rw [List.concat_eq_append, Fence.quiet_append, Bool.and_eq_true] at h
    rw [List.concat_eq_append, Text.endLines_append xs (by simp), passLines_quiet replace h.1,
      passLines_last replace h.2, map_pure, ← Text.above_append_unlines xs (by simp)]
    simp [Text.unlines]

/-- A pass changes nothing in a text in which no directive starts outside fences. -/
theorem pass_of_quiet {s : Text} (h : Fence.quiet none s.rows) :
    pass replace (tokenize s) = pure s := by
  rw [pass_tokenize, Text.endedLines, ← Text.rows, passLines_endLines replace h, Text.unlines_rows]

variable {replace}

/-- Among lines in which no directive starts, only the one on a line of its own is replaced. -/
theorem pass_of_line {d : Directive}
    (hd : ∀ rest, Directive.read? (d.source ++ rest) = some (d, rest))
    (hs : (Fence.step none d.source).1.inFence = false) {before after : List Text}
    (hb : Fence.quiet none before) (ho : Fence.openAfter none before = none)
    (ha : Fence.quiet none after) (hn : ∀ l ∈ before ++ d.source :: after, '\n' ∉ l) :
    pass replace (tokenize (Text.unlines (before ++ d.source :: after))) =
      replace d >>= fun s => pure (Text.above before ++ s ++ Text.below after) := by
  have hnext : (Fence.step none d.source).2 = none := Fence.step_none_of_not_inFence hs
  have hscan (s : Text) : pass replace (Directive.pattern.scan (d.source ++ s)) =
      replace d >>= fun a => (a ++ ·) <$> pass replace (Directive.pattern.scan s) := by
    rw [Directive.pattern.scan_of_read? (hd s)]
    rfl
  have hends : (Text.unlines (before ++ d.source :: after)).endedLines =
      before.map (· ++ ['\n']) ++ Text.endLines (d.source :: after) := by
    rw [Text.endedLines, ← Text.rows, Text.rows_unlines (by simp) hn]
    exact Text.endLines_append before (List.cons_ne_nil d.source after)
  have htail : passLines replace none (Text.endLines (d.source :: after)) =
      replace d >>= fun s => pure (s ++ Text.below after) := by
    cases after with
    | nil =>
      rw [Text.endLines, if_neg d.source_ne_nil, passLines_prose hnext hscan]
      simp [passLines, Piece.ofLines, pass, Text.below]
    | cons line rest =>
      -- The line feed behind the directive belongs to the text that follows it.
      have hline (s : Text) :
          pass replace (Directive.pattern.scan (d.source ++ ['\n'] ++ s)) =
            (replace d >>= fun a => pure (a ++ ['\n'])) >>= fun a =>
              (a ++ ·) <$> pass replace (Directive.pattern.scan s) := by
        have hbreak :=
          Text.scan_silent (show Text.silent [] by decide) Directive.newline_not_mem_keyword s
        rw [List.append_assoc, hscan, List.singleton_append, ← List.nil_append ('\n' :: s), hbreak,
          pass_pushText]
        simp
      rw [Text.endLines, passLines_prose (by rw [Fence.step_append_newline, hnext]) hline,
        passLines_endLines replace ha, Text.below_cons]
      simp
  rw [pass_tokenize, hends, passLines_quiet replace hb, ho, htail]
  simp

end Token

def includeReplaced (expand : Include → Run Text) : Directive → Run Text
  | .includeFile argument => do
    let i ← .ofExcept (Include.read argument)
    expand i
  | d => pure d.source

theorem expandTokens_eq_pass (expand : Include → Run Text) (tokens : List Token) :
    expandTokens expand tokens = Token.pass (includeReplaced expand) tokens := by
  induction tokens with
  | nil => rfl
  | cons token rest ih =>
    cases token with
    | plain s => simp [expandTokens, Token.pass, Token.source, Chunk.source, ih]
    | found d =>
      cases d <;>
        simp [expandTokens, Token.pass, includeReplaced, Token.source, Chunk.source, ih]

theorem substituteTokens_eq_pass (scope : Scope) (file : Text) (tokens : List Token) :
    substituteTokens scope file tokens =
      Token.pass (fun d => substituteToken scope file (.found d)) tokens := by
  induction tokens with
  | nil => rfl
  | cons token rest ih =>
    cases token with
    | plain s => simp [substituteTokens, substituteToken, Token.pass, Token.source, Chunk.source, ih]
    | found d => simp [substituteTokens, Token.pass, ih]

end Transclude

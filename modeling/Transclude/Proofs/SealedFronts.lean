import Mathlib.Data.List.Induction
import Transclude.Proofs.ArgumentEnds
import Transclude.Proofs.ReferencePhrases

/-! Texts that leave nothing open for what follows. Behind such a text a reference is read as it is:
no directive that starts in front of it runs into it, and no other reference takes it in. -/

namespace Transclude

/-- Whether a scan of a text that goes on like a reference finds what it finds in the text alone, and
then what it finds in the rest. -/
def Pattern.Sealed {α : Type} (p : Pattern α) (s : Text) : Prop :=
  ∀ tail, p.scan (s ++ '!' :: '[' :: tail) =
    Chunk.merge (p.scan s ++ p.scan ('!' :: '[' :: tail))

/-- Whether no directive in a text takes in a reference that follows, and no fence ends in the row
that the reference starts in. -/
structure Token.Sealed (front : Text) : Prop where
  prose : ∀ s, (Piece.cut front).getLast? = some (.prose s) → Directive.pattern.Sealed s
  row : Fence.openAfter none front.rows = none → Fence.openAfter none front.rows.dropLast = none

/-- Whether no reference in a text takes in another one that follows. -/
def Image.Sealed (front : Text) : Prop := Image.pattern.Sealed front

namespace Text

variable {c : Char}

theorem IsPhrase.scan_append {p : Text} (h : p.IsPhrase) (rest : Text) :
    Directive.pattern.scan (p ++ rest) = Chunk.pushText p (Directive.pattern.scan rest) := by
  obtain ⟨inner, hp⟩ := h.bounds
  have hclose : ∀ k ∈ Directive.keywords, ')' ∉ k := by decide
  have hsilent : Text.silent ("![".text ++ inner) := by
    have hpart : ("![".text ++ inner) <:+: p := ⟨[], [')'], by rw [hp]; rfl⟩
    exact silent_of_infix h.silent hpart
  rw [hp, List.append_assoc, List.singleton_append, scan_silent hsilent hclose]

theorem firstRow_cons (hn : c ≠ '\n') (s : Text) :
    firstRow (c :: s) = c :: firstRow s ∧ (rows (c :: s)).tail = s.rows.tail := by
  obtain ⟨row, rest, hrows⟩ := List.exists_cons_of_ne_nil (rows_ne_nil s)
  have hcons := rows_cons_of_ne hn hrows
  unfold firstRow
  simp only [hcons, hrows, List.tail_cons, List.head_cons]
  split <;> simp

theorem firstRow_newline (s : Text) :
    firstRow ('\n' :: s) = ['\n'] ∧ (rows ('\n' :: s)).tail = s.rows := by
  unfold firstRow
  simp [rows_newline_cons, rows_ne_nil]

theorem endLines_rows {s : Text} (h : s ≠ []) :
    endLines s.rows = firstRow s :: endLines s.rows.tail := by
  have hjoin := unlines_rows s
  unfold firstRow
  obtain ⟨row, rest, hrows⟩ := List.exists_cons_of_ne_nil (rows_ne_nil s)
  simp only [hrows, List.head_cons, List.tail_cons] at hjoin ⊢
  cases rest with
  | nil =>
    obtain rfl : row = s := by simpa [unlines] using hjoin
    simp [endLines, h]
  | cons next rest => simp [endLines]

theorem endedLines_eq_upperRows (front : Text) :
    front.endedLines = (upperRows front).endedLines ++ endLines [lastRow front] := by
  rw [endedLines_upperRows, endedLines, ← rows]
  conv_lhs => rw [rows_eq_append_lastRow front]
  exact endLines_append _ (List.cons_ne_nil _ _)

theorem endedLines_append_cons (hc : EndsMarks c) (front rest : Text) :
    (front ++ c :: rest).endedLines = (upperRows front).endedLines ++
      (lastRow front ++ firstRow (c :: rest)) :: endLines (rows (c :: rest)).tail := by
  obtain ⟨row, more, hrows⟩ := List.exists_cons_of_ne_nil (rows_ne_nil rest)
  have hall := rows_cons_of_ne hc.ne_newline hrows
  obtain ⟨hfirst, htail⟩ := firstRow_cons hc.ne_newline rest
  have hline : lastRow front ++ [c] ≠ [] := List.append_ne_nil_of_right_ne_nil _ (by simp)
  have hends := endLines_firstRow hline rest
  simp only [hrows, List.head_cons, List.tail_cons, ← List.append_cons] at hends
  rw [endedLines, ← rows, rows_append (rows_eq_append_lastRow front) hall,
    endLines_append _ (List.cons_ne_nil _ _), hends, hfirst, htail, endedLines_upperRows, hrows]
  rfl

theorem ne_nil_of_mem_upperRows {front line : Text}
    (h : line ∈ (upperRows front).endedLines) : line ≠ [] := by
  rw [endedLines_upperRows] at h
  obtain ⟨row, -, rfl⟩ := List.mem_map.1 h
  exact List.append_ne_nil_of_right_ne_nil _ (List.cons_ne_nil _ _)

theorem RunsOn.exists_firstRow {s : Text} (h : RunsOn ('\n' :: s)) (rest : Text) :
    s ++ rest ≠ [] ∧ ∀ open?, Fence.Real open? →
      (Fence.step open? (firstRow (s ++ rest))).2 = open? ∧
        (Fence.step open? (firstRow (s ++ rest))).1.inFence = open?.isSome := by
  obtain ⟨row, rows, hrows, hmild⟩ := h.exists_mild rest
  constructor
  · rintro hnil
    obtain ⟨c, hc, -⟩ := h [] s rfl
    rw [(List.append_eq_nil_iff.1 hnil).1] at hc
    cases hc
  · intro open? ho
    have hstep := Fence.step_mild ho hmild
    have hjoin := unlines_rows (s ++ rest)
    unfold firstRow
    simp only [hrows, List.head_cons, List.tail_cons] at hjoin ⊢
    cases rows with
    | nil =>
      obtain rfl : row = s ++ rest := by simpa [unlines] using hjoin
      exact hstep
    | cons next rows =>
      rw [if_neg (List.cons_ne_nil _ _), Fence.step_append_newline]
      exact hstep

end Text

namespace Piece

theorem pushProse_pushProse (s t : Text) (ps : List Piece) :
    pushProse s (pushProse t ps) = pushProse (s ++ t) ps := by
  cases ps with
  | nil => rfl
  | cons p ps => cases p <;> simp [pushProse]

theorem exists_pushProse_eq (ps : List Piece) :
    ∃ s qs, ∀ line, pushProse line ps = .prose (line ++ s) :: qs := by
  cases ps with
  | nil => exact ⟨[], [], fun line => by rw [List.append_nil]; rfl⟩
  | cons p ps =>
    cases p with
    | prose s => exact ⟨s, ps, fun line => rfl⟩
    | code s => exact ⟨[], .code s :: ps, fun line => by rw [List.append_nil]; rfl⟩

theorem pushProse_append_of_ne_nil (line : Text) {ps : List Piece} (h : ps ≠ [])
    (qs : List Piece) : pushProse line (ps ++ qs) = pushProse line ps ++ qs := by
  cases ps with
  | nil => exact absurd rfl h
  | cons p ps => cases p <;> rfl

theorem exists_ofLines_append {open? : Option Fence} {ls : List Text} (hne : ∀ l ∈ ls, l ≠ [])
    (h : Fence.openAfter open? ls = none) :
    ∃ ps run, (open? ≠ none → ps ≠ []) ∧ ∀ rest, ofLines open? (ls ++ rest) =
      ps ++ if run = [] then ofLines none rest else pushProse run (ofLines none rest) := by
  induction ls generalizing open? with
  | nil =>
    obtain rfl : open? = none := h
    exact ⟨[], [], fun hopen => absurd rfl hopen, fun rest => rfl⟩
  | cons line ls ih =>
    obtain ⟨hline, hls⟩ := List.forall_mem_cons.1 hne
    have hnext : Fence.openAfter (Fence.step open? line).2 ls = none := h
    obtain ⟨ps, run, hopen, hrest⟩ := ih hls hnext
    simp only [List.cons_append, ofLines_cons, hrest]
    cases hstep : (Fence.step open? line).2 with
    | some fence =>
      -- The line opens a fence or leaves it open, and one of the lines that follow closes it.
      have hps : ps ≠ [] := hopen (by rw [hstep]; exact nofun)
      obtain ⟨code, qs, hcode⟩ := exists_pushCode line ps
      refine ⟨pushCode line ps, run, fun _ => by rw [hcode]; exact nofun, fun rest => ?_⟩
      rw [← pushCode_append line hps]
      cases open? <;> rfl
    | none =>
      cases open? with
      | some fence => exact ⟨.code line :: ps, run, fun _ => nofun, fun rest => rfl⟩
      | none =>
        cases ps with
        | nil =>
          refine ⟨[], line ++ run, fun hne => absurd rfl hne, fun rest => ?_⟩
          have hboth : line ++ run ≠ [] := List.append_ne_nil_of_left_ne_nil hline run
          rw [if_neg hboth]
          by_cases hrun : run = []
          · simp [hrun]
          · simp [hrun, pushProse_pushProse]
        | cons p ps =>
          refine ⟨pushProse line (p :: ps), run, fun hne => absurd rfl hne, fun rest => ?_⟩
          exact pushProse_append_of_ne_nil line (List.cons_ne_nil p ps) _

def proseOn (run s : Text) : List Piece :=
  pushProse (run ++ Text.firstRow s) (ofLines none (Text.endLines s.rows.tail))

theorem proseOn_append {s : Text} (h : s.RunsOn) (run rest : Text) :
    proseOn run (s ++ rest) = proseOn (run ++ s) rest := by
  induction s generalizing run with
  | nil => rw [List.append_nil, List.nil_append]
  | cons c s ih =>
    have hrest : proseOn (run ++ [c]) (s ++ rest) = proseOn (run ++ c :: s) rest := by
      rw [ih h.of_cons, ← List.append_cons]
    rw [← hrest, List.cons_append, proseOn, proseOn]
    -- A line feed leads to a row that opens no fence, so the prose goes on there.
    by_cases hn : c = '\n'
    · subst hn
      obtain ⟨hne, hstep⟩ := h.exists_firstRow rest
      obtain ⟨hfirst, htail⟩ := Text.firstRow_newline (s ++ rest)
      rw [hfirst, htail, Text.endLines_rows hne,
        ofLines_prose _ (hstep none Fence.real_none).1, pushProse_pushProse]
    · obtain ⟨hfirst, htail⟩ := Text.firstRow_cons hn (s ++ rest)
      rw [hfirst, htail, List.append_cons]

end Piece

namespace Token

variable (replace : Directive → Run Text)

theorem passLines_append_opening {ls : List Text} {line : Text} {fence : Fence}
    (hs : Fence.openAfter none ls = none) (hl : (Fence.step none line).2 = some fence)
    (rest : List Text) :
    passLines replace none (ls ++ line :: rest) =
      passLines replace none ls >>= fun a =>
        (a ++ line ++ ·) <$> passLines replace (some fence) rest := by
  have hin : (Fence.step none line).1.inFence := by
    by_contra hout
    have hnone := (Fence.step_of_not_inFence hout).2
    rw [hl] at hnone
    cases hnone
  have hfenced := passLines_fenced replace hin rest
  rw [hl] at hfenced
  have hpieces := Piece.ofLines_append_opening hs hl rest
  have hsplit : passLines replace none (ls ++ line :: rest) =
      passLines replace none ls >>= fun a =>
        (a ++ ·) <$> passLines replace none (line :: rest) := by
    rw [passLines, hpieces, List.flatMap_append, pass_append]
    rfl
  rw [hsplit, hfenced]
  simp

/-- Inside a fence a pass goes on as if the lines in front had been passed alone. -/
theorem exists_passLines_of_open {ls : List Text} {fence : Fence}
    (h : Fence.openAfter none ls = some fence) :
    ∃ first : Run Text, ∀ rest, passLines replace none (ls ++ rest) =
      first >>= fun a => (a ++ ·) <$> passLines replace (some fence) rest := by
  induction ls using List.reverseRecOn generalizing fence with
  | nil => cases h
  | append_singleton ls line ih =>
    have hlast : (Fence.step (Fence.openAfter none ls) line).2 = some fence := by
      rw [Fence.openAfter_append] at h
      exact h
    cases hstate : Fence.openAfter none ls with
    | none =>
      rw [hstate] at hlast
      refine ⟨passLines replace none ls >>= fun a => pure (a ++ line), fun rest => ?_⟩
      rw [List.append_assoc, List.singleton_append,
        passLines_append_opening replace hstate hlast]
      simp
    | some open? =>
      rw [hstate] at hlast
      obtain ⟨first, hfirst⟩ := ih hstate
      refine ⟨first >>= fun a => pure (a ++ line), fun rest => ?_⟩
      have hin : (Fence.step (some open?) line).1.inFence := by
        by_contra hout
        cases (Fence.step_of_not_inFence hout).1
      rw [List.append_assoc, List.singleton_append, hfirst, passLines_fenced replace hin, hlast]
      simp

variable {replace}

theorem pass_scan_phrase {run : Text} (hrun : run ≠ [] → Directive.pattern.Sealed run) {p : Text}
    (hp : p.IsPhrase) (rest : Text) :
    pass replace (Directive.pattern.scan (run ++ p ++ rest)) =
      pass replace (Directive.pattern.scan run) >>= fun a =>
        (a ++ p ++ ·) <$> pass replace (Directive.pattern.scan rest) := by
  have hphrase : pass replace (Directive.pattern.scan (p ++ rest)) =
      (p ++ ·) <$> pass replace (Directive.pattern.scan rest) := by
    rw [hp.scan_append, pass_pushText]
  by_cases hnil : run = []
  · rw [hnil, List.nil_append, hphrase, Directive.pattern.scan_nil]
    simp [pass]
  · obtain ⟨inner, hinner⟩ := hp.exists_cons
    have hscan := hrun hnil (inner ++ rest)
    have hjoin : '!' :: '[' :: (inner ++ rest) = p ++ rest := by rw [hinner]; rfl
    rw [hjoin] at hscan
    rw [List.append_assoc, hscan, pass_merge, pass_append, hphrase]
    simp

def passOn (replace : Directive → Run Text) (fence : Fence) (s : Text) : Run Text :=
  (Text.firstRow s ++ ·) <$> passLines replace (some fence) (Text.endLines s.rows.tail)

theorem passOn_append {fence : Fence} (hf : Fence.Real (some fence)) {s : Text} (h : s.RunsOn)
    (rest : Text) :
    passOn replace fence (s ++ rest) = (s ++ ·) <$> passOn replace fence rest := by
  induction s with
  | nil => simp
  | cons c s ih =>
    have hrest := ih h.of_cons
    have hfirst : passOn replace fence (c :: (s ++ rest)) =
        (c :: ·) <$> passOn replace fence (s ++ rest) := by
      -- A line feed leads to a row that does not close the fence.
      by_cases hn : c = '\n'
      · subst hn
        obtain ⟨hne, hstep⟩ := h.exists_firstRow rest
        obtain ⟨hnext, hin⟩ := hstep (some fence) hf
        obtain ⟨hfirst, htail⟩ := Text.firstRow_newline (s ++ rest)
        rw [passOn, hfirst, htail, Text.endLines_rows hne, passLines_fenced replace hin, hnext]
        rfl
      · obtain ⟨hfirst, htail⟩ := Text.firstRow_cons hn (s ++ rest)
        rw [passOn, hfirst, htail, passOn]
        simp
    rw [List.cons_append, hfirst, hrest]
    simp

theorem passLines_row {fence : Fence} (before s : Text) :
    (before ++ Text.firstRow s ++ ·) <$>
        passLines replace (some fence) (Text.endLines s.rows.tail) =
      (before ++ ·) <$> passOn replace fence s := by
  rw [passOn]
  simp

section Phrase

variable {front : Text}

theorem pass_eq_passLines_row (front : Text) :
    pass replace (tokenize front) =
      passLines replace none
        ((Text.upperRows front).endedLines ++ Text.endLines [Text.lastRow front]) := by
  rw [pass_tokenize, Text.endedLines_eq_upperRows]

theorem openAfter_upperRows (front : Text) :
    Fence.openAfter none (Text.upperRows front).endedLines =
      Fence.openAfter none front.rows.dropLast := by
  rw [Text.endedLines_upperRows, Fence.openAfter_map_newline]

theorem openAfter_rows {state : Option Fence}
    (h : Fence.openAfter none (Text.upperRows front).endedLines = state) :
    Fence.openAfter none front.rows = (Fence.step state (Text.lastRow front)).2 := by
  rw [← h, openAfter_upperRows]
  conv_lhs => rw [Text.rows_eq_append_lastRow front, Fence.openAfter_append]
  rfl

/-- How the row that a phrase stands in goes on does not change which fence is open behind it. -/
theorem step_row {state : Option Fence} (hs : Fence.Real state) {p : Text} (hp : p.IsPhrase)
    (row rest : Text) :
    (Fence.step state (row ++ Text.firstRow (p ++ rest))).2 = (Fence.step state row).2 := by
  obtain ⟨inner, rfl⟩ := hp.exists_cons
  obtain ⟨hfirst, -⟩ := Text.firstRow_cons (c := '!') (by decide) ('[' :: inner ++ rest)
  have hstep := Fence.step_append hs Text.IsPhrase.endsMarks row
    (Text.firstRow ('[' :: inner ++ rest))
  rw [← hfirst] at hstep
  exact hstep.1

theorem pass_phrase_eq_passLines {p : Text} (hp : p.IsPhrase) (front rest : Text) :
    pass replace (tokenize (front ++ p ++ rest)) =
      passLines replace none ((Text.upperRows front).endedLines ++
        (Text.lastRow front ++ Text.firstRow (p ++ rest)) :: Text.endLines (p ++ rest).rows.tail) := by
  obtain ⟨inner, rfl⟩ := hp.exists_cons
  rw [pass_tokenize, List.append_assoc]
  exact congrArg (passLines replace none)
    (Text.endedLines_append_cons Text.IsPhrase.endsMarks front ('[' :: inner ++ rest))

theorem exists_pass_fenced (hf : Sealed front) {fence : Fence}
    (hstate : Fence.openAfter none (Text.upperRows front).endedLines = some fence) (rest : Text) :
    ∃ behind : Run Text, ∀ p : Text, p.IsPhrase →
      pass replace (tokenize (front ++ p ++ rest)) =
        pass replace (tokenize front) >>= fun a => (a ++ p ++ ·) <$> behind := by
  obtain ⟨first, hfirst⟩ := exists_passLines_of_open replace hstate
  have hreal : Fence.Real (some fence) := hstate ▸ Fence.real_openAfter Fence.real_none _
  have hin (line : Text) : (Fence.step (some fence) line).1.inFence := by
    by_contra hout
    cases (Fence.step_of_not_inFence hout).1
  have hnext : (Fence.step (some fence) (Text.lastRow front)).2 = some fence := by
    have hrow := hf.row
    rw [openAfter_rows hstate, ← openAfter_upperRows, hstate] at hrow
    cases hclosed : fence.closedBy (Text.lastRow front) with
    | true =>
      rw [Fence.step_closing hclosed] at hrow
      cases hrow rfl
    | false => rw [Fence.step_fenced hclosed]
  have hlast : passLines replace (some fence) (Text.endLines [Text.lastRow front]) =
      pure (Text.lastRow front) := by
    apply passLines_last replace
    simp [Fence.quiet, hin]
  refine ⟨passOn replace fence rest, fun p hp => ?_⟩
  have hrow : passLines replace (some fence) ((Text.lastRow front ++ Text.firstRow (p ++ rest)) ::
      Text.endLines (p ++ rest).rows.tail) =
        (Text.lastRow front ++ p ++ ·) <$> passOn replace fence rest := by
    rw [passLines_fenced replace (hin _), step_row hreal hp, hnext, passLines_row,
      passOn_append hreal hp.runs_on]
    simp
  rw [pass_phrase_eq_passLines hp, hfirst, hrow, pass_eq_passLines_row, hfirst, hlast]
  simp

theorem exists_pass_opening {fence : Fence}
    (hstate : Fence.openAfter none (Text.upperRows front).endedLines = none)
    (hnext : (Fence.step none (Text.lastRow front)).2 = some fence) (rest : Text) :
    ∃ behind : Run Text, ∀ p : Text, p.IsPhrase →
      pass replace (tokenize (front ++ p ++ rest)) =
        pass replace (tokenize front) >>= fun a => (a ++ p ++ ·) <$> behind := by
  have hreal : Fence.Real (some fence) := hnext ▸ Fence.real_step Fence.real_none _
  have hrow : Text.endLines [Text.lastRow front] = [Text.lastRow front] := by
    refine if_neg fun hnil => ?_
    rw [hnil] at hnext
    cases hnext
  have halone : passLines replace none
      ((Text.upperRows front).endedLines ++ [Text.lastRow front]) =
        passLines replace none (Text.upperRows front).endedLines >>= fun a =>
          pure (a ++ Text.lastRow front) := by
    rw [passLines_append_opening replace hstate hnext]
    simp [passLines, Piece.ofLines, pass]
  refine ⟨passOn replace fence rest, fun p hp => ?_⟩
  have hline : (Fence.step none (Text.lastRow front ++ Text.firstRow (p ++ rest))).2 =
      some fence := (step_row Fence.real_none hp _ rest).trans hnext
  rw [pass_phrase_eq_passLines hp, passLines_append_opening replace hstate hline,
    pass_eq_passLines_row, hrow, halone]
  simp only [← List.append_assoc, passLines_row, passOn_append hreal hp.runs_on]
  simp

theorem exists_cut_prose
    (hstate : Fence.openAfter none (Text.upperRows front).endedLines = none)
    (hnext : (Fence.step none (Text.lastRow front)).2 = none) :
    ∃ ps run, Piece.cut front = ps ++ (if run = [] then [] else [.prose run]) ∧
      ∀ s, (Fence.step none (Text.lastRow front ++ Text.firstRow s)).2 = none →
        Piece.ofLines none ((Text.upperRows front).endedLines ++
            (Text.lastRow front ++ Text.firstRow s) :: Text.endLines s.rows.tail) =
          ps ++ Piece.proseOn run s := by
  have hne : ∀ l ∈ (Text.upperRows front).endedLines, l ≠ [] :=
    fun l hl => Text.ne_nil_of_mem_upperRows hl
  obtain ⟨ps, run, -, hpieces⟩ := Piece.exists_ofLines_append hne hstate
  refine ⟨ps, run ++ Text.lastRow front, ?_, fun s hline => ?_⟩
  · rw [Piece.cut, Text.endedLines_eq_upperRows, hpieces, Text.endLines]
    by_cases hrow : Text.lastRow front = []
    · by_cases hrun : run = [] <;> simp [hrow, hrun, Piece.ofLines, Piece.pushProse]
    · rw [if_neg hrow, Piece.ofLines_prose _ hnext]
      by_cases hrun : run = [] <;> simp [hrow, hrun, Piece.ofLines, Piece.pushProse]
  · rw [hpieces, Piece.ofLines_prose _ hline, Piece.proseOn]
    by_cases hrun : run = []
    · simp [hrun]
    · rw [if_neg hrun, Piece.pushProse_pushProse, List.append_assoc]

theorem exists_pass_prose (hf : Sealed front)
    (hstate : Fence.openAfter none (Text.upperRows front).endedLines = none)
    (hnext : (Fence.step none (Text.lastRow front)).2 = none) (rest : Text) :
    ∃ behind : Run Text, ∀ p : Text, p.IsPhrase →
      pass replace (tokenize (front ++ p ++ rest)) =
        pass replace (tokenize front) >>= fun a => (a ++ p ++ ·) <$> behind := by
  obtain ⟨ps, run, halone, hcut⟩ := exists_cut_prose hstate hnext
  obtain ⟨s, qs, hpush⟩ :=
    Piece.exists_pushProse_eq (Piece.ofLines none (Text.endLines rest.rows.tail))
  have hsealed : run ≠ [] → Directive.pattern.Sealed run := by
    intro hne
    apply hf.prose
    rw [halone, if_neg hne]
    exact List.getLast?_concat
  have hpassed : pass replace (tokenize front) =
      pass replace (ps.flatMap ofPiece) >>= fun a =>
        (a ++ ·) <$> pass replace (Directive.pattern.scan run) := by
    rw [tokenize, pass_merge, halone, List.flatMap_append, pass_append]
    by_cases hne : run = []
    · rw [if_pos hne, hne, Directive.pattern.scan_nil]
      rfl
    · rw [if_neg hne, List.flatMap_singleton]
      rfl
  refine ⟨pass replace (Directive.pattern.scan (Text.firstRow rest ++ s)) >>= fun b =>
    (b ++ ·) <$> pass replace (qs.flatMap ofPiece), fun p hp => ?_⟩
  have hline : (Fence.step none (Text.lastRow front ++ Text.firstRow (p ++ rest))).2 = none :=
    (step_row Fence.real_none hp _ rest).trans hnext
  have hwhole : Piece.proseOn run (p ++ rest) =
      .prose (run ++ p ++ (Text.firstRow rest ++ s)) :: qs := by
    rw [Piece.proseOn_append hp.runs_on, Piece.proseOn, hpush, List.append_assoc]
  rw [pass_phrase_eq_passLines hp, passLines, hcut _ hline, hwhole, List.flatMap_append,
    List.flatMap_cons, pass_append, pass_append, hpassed]
  simp only [ofPiece, pass_scan_phrase hsealed hp]
  simp

/-- Behind a sealed text a phrase stays as it is in a pass, and what else the pass yields does not
depend on the phrase. -/
theorem exists_pass_phrase (hf : Sealed front) (rest : Text) :
    ∃ behind : Run Text, ∀ p : Text, p.IsPhrase →
      pass replace (tokenize (front ++ p ++ rest)) =
        pass replace (tokenize front) >>= fun a => (a ++ p ++ ·) <$> behind := by
  cases hstate : Fence.openAfter none (Text.upperRows front).endedLines with
  | some fence => exact exists_pass_fenced hf hstate rest
  | none =>
    cases hnext : (Fence.step none (Text.lastRow front)).2 with
    | some fence => exact exists_pass_opening hstate hnext rest
    | none => exact exists_pass_prose hf hstate hnext rest

end Phrase

end Token

namespace Image

variable {tree : Tree} {base : Path}

theorem replaceChunks_eq (tree : Tree) (base : Path) (chunks : List (Chunk Image)) :
    replaceChunks tree base chunks = Chunk.pass (replace tree base) chunks := by
  induction chunks with
  | nil => rfl
  | cons chunk rest ih =>
    cases chunk with
    | plain s => simp [replaceChunks, Chunk.pass, ih]
    | found i => simp [replaceChunks, Chunk.pass, ih]

theorem embedAll_reference {front : Text} (hf : Sealed front) {i : Image}
    (hi : ∀ rest, read? (i.source ++ rest) = some (i, rest)) (rest : Text) :
    embedAll tree base (front ++ i.source ++ rest) =
      embedAll tree base front >>= fun a =>
        replace tree base i >>= fun s => (a ++ s ++ ·) <$> embedAll tree base rest := by
  obtain ⟨inner, hinner⟩ : ∃ inner, i.source ++ rest = '!' :: '[' :: inner := by
    exact ⟨_, rfl⟩
  have hscan := hf inner
  rw [← hinner, ← List.append_assoc, pattern.scan_of_read? (hi rest)] at hscan
  simp only [embedAll, replaceChunks_eq]
  rw [hscan, Chunk.pass_merge, Chunk.pass_append, Chunk.pass]
  simp

end Image

namespace Pattern

variable {α : Type} {p : Pattern α}

theorem merge_scan (p : Pattern α) (s : Text) : Chunk.merge (p.scan s) = p.scan s := by
  fun_induction scan p s with
  | case1 => rfl
  | case2 c s a rest h _ ih => rw [Chunk.merge, ih]
  | case3 c s h ih =>
    have hpush := Chunk.merge_pushText_append [c] (p.scan s) []
    rw [List.append_nil, List.append_nil, ih] at hpush
    exact hpush

theorem sealed_of_quiet {s : Text}
    (h : ∀ c t, c :: t <:+ s → ∀ tail, p.read? (c :: t ++ tail) = none) : p.Sealed s := by
  intro tail
  induction s with
  | nil => rw [scan_nil, List.nil_append, List.nil_append, merge_scan]
  | cons c s ih =>
    have hlater : ∀ d t, d :: t <:+ s → ∀ tail, p.read? (d :: t ++ tail) = none :=
      fun d t ht => h d t (ht.trans (List.suffix_cons c s))
    have halone := h c s (List.suffix_refl _) []
    rw [List.append_nil] at halone
    have hwhole : p.read? (c :: (s ++ '!' :: '[' :: tail)) = none := h c s (List.suffix_refl _) _
    rw [List.cons_append, p.scan_cons hwhole, ih hlater, p.scan_cons halone,
      Chunk.merge_pushText_append]

end Pattern

theorem Token.sealed_of_not_mem {front : Text} (h : '\x7b' ∉ front)
    (hr : Fence.openAfter none front.rows = none → Fence.openAfter none front.rows.dropLast = none) :
    Sealed front := by
  refine ⟨fun s hs => ?_, hr⟩
  have hpart : s <:+: front := by
    obtain ⟨ps, hps⟩ := List.getLast?_eq_some_iff.1 hs
    rw [← Piece.flatMap_text_cut front, hps, List.flatMap_append]
    exact ⟨ps.flatMap Piece.text, [], by simp [Piece.text]⟩
  apply Pattern.sealed_of_quiet
  intro c t ht tail
  cases hread : Directive.read? (c :: (t ++ tail)) with
  | none => exact hread
  | some found =>
    have hmem : c ∈ front := hpart.subset (ht.subset List.mem_cons_self)
    rw [Directive.head_of_read? hread] at hmem
    exact absurd hmem h

theorem Image.sealed_of_not_mem {front : Text} (h : '!' ∉ front) : Sealed front := by
  apply Pattern.sealed_of_quiet
  intro c t ht tail
  cases hread : read? (c :: (t ++ tail)) with
  | none => exact hread
  | some found =>
    obtain ⟨hc, -⟩ := List.cons.inj (source_of_read? hread)
    have hmem : c ∈ front := ht.subset List.mem_cons_self
    rw [← hc] at hmem
    exact absurd hmem h

end Transclude

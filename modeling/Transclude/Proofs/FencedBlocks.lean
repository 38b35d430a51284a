import Transclude.Proofs.BodyPasses
import Transclude.Proofs.ShiftedLines

/-! A fenced block in the middle of a text. The passes over the text leave it alone wherever it
starts at the margin: outside fences and with nothing but blanks in front of it on its own line. -/

namespace Transclude

namespace Text

def upperRows (s : Text) : Text := above s.rows.dropLast

def lastRow (s : Text) : Text := s.rows.getLast (rows_ne_nil s)

/-- A text up to its first line feed, which is included. -/
def firstRow (s : Text) : Text :=
  if s.rows.tail = [] then s else s.rows.head (rows_ne_nil s) ++ ['\n']

def lowerRows (s : Text) : Text := unlines s.rows.tail

end Text

/-- Whether what follows a text starts a line outside fences, blanks aside. -/
def AtMargin (front : Text) : Prop :=
  Fence.openAfter none front.rows.dropLast = none ∧ front.lastRow.allBlank

theorem atMargin_iff {front : Text} :
    AtMargin front ↔ ∃ above last, front.rows = above ++ [last] ∧
      Fence.openAfter none above = none ∧ Text.allBlank last := by
  constructor
  · rintro ⟨habove, hlast⟩
    exact ⟨_, _, (List.dropLast_append_getLast (Text.rows_ne_nil front)).symm, habove, hlast⟩
  · rintro ⟨above, last, hrows, habove, hlast⟩
    unfold AtMargin Text.lastRow
    simp only [hrows, List.dropLast_concat, List.getLast_append_singleton]
    exact ⟨habove, hlast⟩

instance (front : Text) : Decidable (AtMargin front) := inferInstanceAs (Decidable (_ ∧ _))

/-- Whether some lines are a fenced block, from the line that opens it to the one that closes it. -/
def IsBlock (block : List Text) : Prop :=
  Text.Unbroken block ∧ ∃ opener inner closer fence, block = opener :: (inner ++ [closer]) ∧
    Fence.opening? opener = some fence ∧ (∀ line ∈ inner, fence.closedBy line = false) ∧
    fence.closedBy closer

namespace Fence

theorem step_opening {line : Text} {fence : Fence} (h : opening? line = some fence) :
    step none line = (.fence, some fence) := by
  unfold step
  rw [h]

theorem step_fenced {line : Text} {fence : Fence} (h : fence.closedBy line = false) :
    step (some fence) line = (.fenced, some fence) := by
  unfold step
  dsimp only
  rw [h]
  rfl

theorem step_closing {line : Text} {fence : Fence} (h : fence.closedBy line) :
    step (some fence) line = (.fence, none) := by
  unfold step
  dsimp only
  rw [if_pos h]

theorem isBlank_mark {open? : Option Fence} {fence : Fence} (h : Real open?)
    (hf : open? = some fence) : Text.isBlank fence.mark = false := by
  rcases (h fence hf).1 with heq | heq <;> rw [heq] <;> decide

theorem closedBy_iff {fence : Fence} (h : Real (some fence)) {line : Text} :
    fence.closedBy line ↔ ∃ blanks rest,
      line = blanks ++ List.replicate fence.length fence.mark ++ rest ∧ Text.allBlank blanks := by
  constructor
  · intro hclosed
    obtain ⟨rest, hrest⟩ := Option.isSome_iff_exists.1 hclosed
    rw [Text.after?_eq_some_iff, Text.trim] at hrest
    obtain ⟨tail, htail⟩ := Text.trimRight_prefix (Text.trimLeft line)
    rw [hrest] at htail
    refine ⟨line.takeWhile Text.isBlank, rest ++ tail, ?_, ?_⟩
    · rw [List.append_assoc, ← List.append_assoc _ rest tail, htail]
      exact List.takeWhile_append_dropWhile.symm
    · exact List.all_eq_true.2 fun c hc => List.mem_takeWhile_imp hc
  · rintro ⟨blanks, rest, rfl, hblank⟩
    have hlength : 1 ≤ fence.length := Nat.one_le_iff_ne_zero.2 (h fence rfl).2
    rw [closedBy, Text.trim_run hblank (isBlank_mark h rfl) hlength, Text.startsWith,
      Text.after?_append]
    rfl

theorem mem_of_closedBy {fence : Fence} (h : Real (some fence)) {line : Text}
    (hl : fence.closedBy line) : fence.mark ∈ line := by
  obtain ⟨blanks, rest, rfl, -⟩ := (closedBy_iff h).1 hl
  refine List.mem_append_left _ (List.mem_append_right _ ?_)
  exact List.mem_replicate.2 ⟨(h fence rfl).2, rfl⟩

theorem closedBy_append {fence : Fence} (h : Real (some fence)) {line : Text}
    (hl : fence.closedBy line) (tail : Text) : fence.closedBy (line ++ tail) := by
  obtain ⟨blanks, rest, rfl, hblank⟩ := (closedBy_iff h).1 hl
  exact (closedBy_iff h).2 ⟨blanks, rest ++ tail, by rw [List.append_assoc], hblank⟩

theorem real_opening {line : Text} {fence : Fence} (h : opening? line = some fence) :
    Real (some fence) := by
  have hstep := real_step real_none line
  rw [step_opening h] at hstep
  exact hstep

end Fence

namespace Piece

theorem pushProse_append (line : Text) (ps : List Piece) (code : Text) (qs : List Piece) :
    pushProse line (ps ++ .code code :: qs) = pushProse line ps ++ .code code :: qs := by
  cases ps with
  | nil => rfl
  | cons p ps => cases p <;> rfl

theorem pushCode_append (line : Text) {ps : List Piece} (h : ps ≠ []) (qs : List Piece) :
    pushCode line (ps ++ qs) = pushCode line ps ++ qs := by
  cases ps with
  | nil => exact absurd rfl h
  | cons p ps => cases p <;> rfl

theorem exists_pushCode (line : Text) (ps : List Piece) :
    ∃ code qs, pushCode line ps = .code code :: qs := by
  cases ps with
  | nil => exact ⟨_, _, rfl⟩
  | cons p ps => cases p <;> exact ⟨_, _, rfl⟩

theorem ofLines_ne_nil (open? : Option Fence) (line : Text) (rest : List Text) :
    ofLines open? (line :: rest) ≠ [] := by
  have hprose (ps : List Piece) : pushProse line ps ≠ [] := by
    cases ps with
    | nil => exact nofun
    | cons p ps => cases p <;> exact nofun
  have hcode (ps : List Piece) : pushCode line ps ≠ [] := by
    obtain ⟨code, qs, h⟩ := exists_pushCode line ps
    rw [h]
    exact nofun
  rw [ofLines_cons]
  split
  · exact hprose _
  · exact nofun
  · exact hcode _

theorem ofLines_append_opening {open? : Option Fence} {ls : List Text} {line : Text} {fence : Fence}
    (hs : Fence.openAfter open? ls = none) (hl : (Fence.step none line).2 = some fence)
    (rest : List Text) :
    ofLines open? (ls ++ line :: rest) = ofLines open? ls ++ ofLines none (line :: rest) := by
  induction ls generalizing open? with
  | nil =>
    obtain rfl : open? = none := hs
    rfl
  | cons l ls ih =>
    have hnext : Fence.openAfter (Fence.step open? l).2 ls = none := hs
    obtain ⟨code, qs, hcode⟩ := exists_pushCode line (ofLines (some fence) rest)
    rw [List.cons_append, ofLines_cons, ofLines_cons, ih hnext, ofLines_opening rest hl, hcode]
    split
    · exact pushProse_append l _ code qs
    · rfl
    · rename_i g hg
      refine pushCode_append l ?_ _
      -- The fence that is open behind `l` is closed by one of the lines that follow.
      cases ls with
      | nil =>
        rw [hg] at hnext
        cases hnext
      | cons m ms => exact ofLines_ne_nil _ m ms

theorem ofLines_inner {fence : Fence} {inner : List Text}
    (hi : ∀ line ∈ inner, fence.closedBy line = false) {closer : Text} (hc : fence.closedBy closer)
    (rest : List Text) :
    ofLines (some fence) (inner.map (· ++ ['\n']) ++ closer :: rest) =
      .code (Text.above inner ++ closer) :: ofLines none rest := by
  induction inner with
  | nil =>
    rw [List.map_nil, List.nil_append, ofLines_closing rest (by rw [Fence.step_closing hc])]
    rfl
  | cons line inner ih =>
    obtain ⟨hline, hinner⟩ := List.forall_mem_cons.1 hi
    have hstep : (Fence.step (some fence) (line ++ ['\n'])).2 = some fence := by
      rw [Fence.step_append_newline, Fence.step_fenced hline]
    rw [List.map_cons, List.cons_append, ofLines_fenced _ hstep, ih hinner, pushCode]
    simp [Text.above]

end Piece

namespace Text

variable {front : Text} {block : List Text}

theorem rows_eq_append_lastRow (s : Text) : s.rows = s.rows.dropLast ++ [lastRow s] :=
  (List.dropLast_append_getLast (rows_ne_nil s)).symm

theorem endedLines_upperRows (s : Text) :
    (upperRows s).endedLines = s.rows.dropLast.map (· ++ ['\n']) := by
  have hrows : rows (upperRows s ++ []) = s.rows.dropLast ++ [[]] :=
    rows_above_append (fun r hr => not_mem_of_mem_rows (List.dropLast_subset _ hr)) []
  rw [List.append_nil] at hrows
  rw [endedLines, ← rows, hrows, endLines_append _ (List.cons_ne_nil [] []), endLines, if_pos rfl,
    List.append_nil]

theorem endedLines_lowerRows (s : Text) : (lowerRows s).endedLines = endLines s.rows.tail := by
  rw [endedLines, ← rows, lowerRows]
  by_cases hnil : s.rows.tail = []
  · rw [hnil]
    rfl
  · rw [rows_unlines hnil fun r hr => not_mem_of_mem_rows (List.mem_of_mem_tail hr)]

theorem rows_around {opener closer : Text} {inner : List Text}
    (hb : Unbroken (opener :: (inner ++ [closer]))) (front rest : Text) :
    rows (front ++ unlines (opener :: (inner ++ [closer])) ++ rest) =
      front.rows.dropLast ++ (lastRow front ++ opener) :: inner ++
        (closer ++ rest.rows.head (rows_ne_nil rest)) :: rest.rows.tail := by
  have hblock := rows_unlines_of_unbroken hb (List.cons_ne_nil opener _)
  have hupper := rows_append (rows_eq_append_lastRow front) hblock
  have hsplit : front.rows.dropLast ++ (lastRow front ++ opener) :: (inner ++ [closer]) =
      (front.rows.dropLast ++ (lastRow front ++ opener) :: inner) ++ [closer] := by simp
  exact rows_append (hupper.trans hsplit) (List.cons_head_tail (rows_ne_nil rest)).symm

end Text

theorem Text.endLines_firstRow {line : Text} (hl : line ≠ []) (rest : Text) :
    endLines ((line ++ rest.rows.head (rows_ne_nil rest)) :: rest.rows.tail) =
      (line ++ firstRow rest) :: endLines rest.rows.tail := by
  obtain ⟨y, ys, hrows⟩ := List.exists_cons_of_ne_nil (rows_ne_nil rest)
  have hjoin := unlines_rows rest
  unfold firstRow
  simp only [hrows, List.head_cons, List.tail_cons] at hjoin ⊢
  cases ys with
  | nil =>
    have hy : y = rest := by simpa [unlines] using hjoin
    have hne : line ++ rest ≠ [] := List.append_ne_nil_of_left_ne_nil hl rest
    rw [if_pos rfl, hy]
    exact if_neg hne
  | cons z zs => rw [endLines, if_neg (List.cons_ne_nil z zs), List.append_assoc]

theorem Fence.openAfter_map_newline (open? : Option Fence) (ls : List Text) :
    openAfter open? (ls.map (· ++ ['\n'])) = openAfter open? ls := by
  induction ls generalizing open? with
  | nil => rfl
  | cons line ls ih =>
    have hnext := ih (step open? line).2
    rw [openAfter, List.map_cons, List.foldl_cons, step_append_newline]
    exact hnext

/-- A block at the margin is one piece, together with the rest of the rows it starts and ends in. -/
theorem Piece.cut_block {front : Text} (hf : AtMargin front) {block : List Text}
    (hb : IsBlock block) (rest : Text) :
    cut (front ++ Text.unlines block ++ rest) =
      cut (Text.upperRows front) ++
        .code (Text.lastRow front ++ Text.unlines block ++ Text.firstRow rest) ::
          cut (Text.lowerRows rest) := by
  obtain ⟨hunbroken, opener, inner, closer, fence, rfl, hopener, hinner, hcloser⟩ := hb
  have hreal := Fence.real_opening hopener
  have hne : closer ≠ [] := by
    obtain ⟨blanks, tail, rfl, -⟩ := (Fence.closedBy_iff hreal).1 hcloser
    simp [(hreal fence rfl).2]
  have hstep : (Fence.step none (Text.lastRow front ++ opener ++ ['\n'])).2 = some fence := by
    rw [Fence.step_append_newline, Fence.step_blank_append hf.2, Fence.step_opening hopener]
  have hstate : Fence.openAfter none (front.rows.dropLast.map (· ++ ['\n'])) = none := by
    rw [Fence.openAfter_map_newline, hf.1]
  have hjoined : Text.unlines (opener :: (inner ++ [closer])) =
      opener ++ ['\n'] ++ Text.above inner ++ closer := by
    have := Text.above_append_unlines (opener :: inner) (List.cons_ne_nil closer [])
    rw [List.cons_append] at this
    rw [← this]
    simp [Text.above, Text.unlines]
  rw [cut, Text.endedLines, ← Text.rows, Text.rows_around hunbroken,
    Text.endLines_append _ (List.cons_ne_nil _ _), Text.endLines_firstRow hne, List.map_append,
    List.map_cons, List.append_assoc, List.cons_append, ofLines_append_opening hstate hstep,
    ofLines_opening _ hstep, ofLines_inner hinner (Fence.closedBy_append hreal hcloser _), pushCode,
    cut, Text.endedLines_upperRows, cut, Text.endedLines_lowerRows, hjoined]
  simp

namespace Token

def directives (s : Text) : List Directive := (tokenize s).filterMap Chunk.item?

theorem filterMap_item?_pushText (s : Text) (tokens : List Token) :
    (Chunk.pushText s tokens).filterMap Chunk.item? = tokens.filterMap Chunk.item? := by
  fun_cases Chunk.pushText s tokens <;> rfl

theorem filterMap_item?_merge (tokens : List Token) :
    (Chunk.merge tokens).filterMap Chunk.item? = tokens.filterMap Chunk.item? := by
  induction tokens with
  | nil => rfl
  | cons token rest ih =>
    cases token with
    | plain s => rw [Chunk.merge, filterMap_item?_pushText, ih]; rfl
    | found d => rw [Chunk.merge, List.filterMap_cons, List.filterMap_cons, ih]

theorem directives_eq (s : Text) :
    directives s = ((Piece.cut s).flatMap ofPiece).filterMap Chunk.item? :=
  filterMap_item?_merge _

/-- Whether the directives found in a text in front of any block are those above and below it. -/
def Spares (front : Text) : Prop :=
  ∀ block, IsBlock block → ∀ rest, directives (front ++ Text.unlines block ++ rest) =
    directives (Text.upperRows front) ++ directives (Text.lowerRows rest)

variable {front : Text} {block : List Text}

theorem directives_block (hf : AtMargin front) (hb : IsBlock block) (rest : Text) :
    directives (front ++ Text.unlines block ++ rest) =
      directives (Text.upperRows front) ++ directives (Text.lowerRows rest) := by
  rw [directives_eq, directives_eq, directives_eq, Piece.cut_block hf hb, List.flatMap_append,
    List.flatMap_cons, List.filterMap_append, List.filterMap_append]
  rfl

theorem pass_block (replace : Directive → Run Text) (hf : AtMargin front) (hb : IsBlock block)
    (rest : Text) :
    pass replace (tokenize (front ++ Text.unlines block ++ rest)) =
      pass replace (tokenize (Text.upperRows front)) >>= fun a =>
        (a ++ (Text.lastRow front ++ Text.unlines block ++ Text.firstRow rest) ++ ·) <$>
          pass replace (tokenize (Text.lowerRows rest)) := by
  have hcut (s : Text) :
      pass replace (tokenize s) = pass replace ((Piece.cut s).flatMap ofPiece) := pass_merge _ _
  rw [hcut, hcut, hcut, Piece.cut_block hf hb, List.flatMap_append, List.flatMap_cons, pass_append]
  simp [ofPiece, pass]

end Token

namespace Fence

theorem exists_closer {fence : Fence} {ls : List Text} (h : openAfter (some fence) ls = none) :
    ∃ inner closer behind, ls = inner ++ closer :: behind ∧
      (∀ line ∈ inner, fence.closedBy line = false) ∧ fence.closedBy closer ∧
      openAfter none behind = none := by
  induction ls with
  | nil => cases h
  | cons line ls ih =>
    cases hline : fence.closedBy line with
    | true =>
      rw [openAfter, List.foldl_cons, step_closing hline] at h
      exact ⟨[], line, ls, rfl, fun _ hmem => absurd hmem List.not_mem_nil, hline, h⟩
    | false =>
      rw [openAfter, List.foldl_cons, step_fenced hline] at h
      obtain ⟨inner, closer, behind, rfl, hinner, hcloser, hbehind⟩ := ih h
      exact ⟨line :: inner, closer, behind, rfl, List.forall_mem_cons.2 ⟨hline, hinner⟩, hcloser,
        hbehind⟩

theorem openAfter_block {opener closer : Text} {inner : List Text} {fence : Fence}
    (ho : opening? opener = some fence) (hi : ∀ line ∈ inner, fence.closedBy line = false)
    (hc : fence.closedBy closer) : openAfter none (opener :: (inner ++ [closer])) = none := by
  have hinner : openAfter (some fence) (inner ++ [closer]) = none := by
    induction inner with
    | nil => rw [List.nil_append, openAfter, List.foldl_cons, step_closing hc]; rfl
    | cons line inner ih =>
      obtain ⟨hline, hrest⟩ := List.forall_mem_cons.1 hi
      rw [List.cons_append, openAfter, List.foldl_cons, step_fenced hline]
      exact ih hrest
  rw [openAfter, List.foldl_cons, step_opening ho]
  exact hinner

theorem exists_block {ls : List Text} (hu : Text.Unbroken ls) (hc : openAfter none ls = none)
    {line : Text} {kind : LineClass} (hl : (line, kind) ∈ ls.zip (classesFrom none ls))
    (hk : kind.inFence) :
    ∃ before block behind, ls = before ++ block ++ behind ∧ line ∈ block ∧ IsBlock block ∧
      openAfter none before = none := by
  -- The induction is on the number of lines, since a whole block is taken off at once.
  induction hn : ls.length using Nat.strongRecOn generalizing ls with
  | ind n ih =>
    cases ls with
    | nil => exact absurd hl List.not_mem_nil
    | cons first ls =>
      obtain ⟨hfirst, hls⟩ := List.forall_mem_cons.1 hu
      cases hopen : opening? first with
      | none =>
        have hstep : (step none first).1.inFence = false ∧ (step none first).2 = none := by
          unfold step
          rw [hopen]
          cases Heading.level? first <;> exact ⟨rfl, rfl⟩
        have hstate : openAfter none ls = none := by
          rw [openAfter, List.foldl_cons, hstep.2] at hc
          exact hc
        rw [classesFrom, hstep.2, List.zip_cons_cons] at hl
        rcases List.mem_cons.1 hl with heq | hl
        · obtain ⟨-, rfl⟩ := Prod.mk.inj heq
          rw [hstep.1] at hk
          cases hk
        · obtain ⟨before, block, behind, rfl, hmem, hblock, hbefore⟩ :=
            ih ls.length (by rw [← hn]; exact Nat.lt_succ_self _) hls hstate hl rfl
          refine ⟨first :: before, block, behind, rfl, hmem, hblock, ?_⟩
          rw [openAfter, List.foldl_cons, hstep.2]
          exact hbefore
      | some fence =>
        have hstate : openAfter (some fence) ls = none := by
          rw [openAfter, List.foldl_cons, step_opening hopen] at hc
          exact hc
        obtain ⟨inner, closer, rest, rfl, hinner, hcloser, hrest⟩ := exists_closer hstate
        have hsplit : first :: (inner ++ closer :: rest) =
            (first :: (inner ++ [closer])) ++ rest := by simp
        have hafter := openAfter_block hopen hinner hcloser
        rw [hsplit] at hu
        obtain ⟨hblock, hbehind⟩ := Text.unbroken_append.1 hu
        have hfenced : IsBlock (first :: (inner ++ [closer])) :=
          ⟨hblock, first, inner, closer, fence, rfl, hopen, hinner, hcloser⟩
        rw [hsplit, classesFrom_append, List.zip_append (length_classesFrom none _).symm,
          hafter] at hl
        rcases List.mem_append.1 hl with hl | hl
        · exact ⟨[], _, rest, hsplit, (List.of_mem_zip hl).1, hfenced, rfl⟩
        · obtain ⟨before, block, behind, rfl, hmem, hb, hbefore⟩ :=
            ih rest.length (by rw [← hn, hsplit]; simp; omega) hbehind hrest hl rfl
          refine ⟨first :: (inner ++ [closer]) ++ before, block, behind, ?_, hmem, hb, ?_⟩
          · rw [hsplit]
            simp
          · rw [openAfter_append, hafter, hbefore]

end Fence

theorem exists_block_of_classify {s : Text} (hr : '\r' ∉ s)
    (hc : Fence.openAfter none s.lines = none) {line : Text} {kind : LineClass}
    (hl : (line, kind) ∈ Fence.classify s) (hk : kind.inFence) :
    ∃ front block behind, s = front ++ Text.unlines block ++ behind ∧ line ∈ block ∧
      IsBlock block ∧ AtMargin front := by
  obtain ⟨before, block, after, hlines, hmem, hblock, hbefore⟩ :=
    Fence.exists_block (Text.unbroken_lines hr) hc hl hk
  have hunbroken := Text.unbroken_lines hr
  rw [hlines, Text.unbroken_append, Text.unbroken_append] at hunbroken
  refine ⟨Text.above before, block, Text.below after, ?_, hmem, hblock, ?_⟩
  · have hne : block ≠ [] := List.ne_nil_of_mem hmem
    rw [Text.above_append_unlines before hne, Text.unlines_append_below (by simp [hne]), ← hlines,
      Text.unlines_lines hr]
  · have hrows := Text.rows_above_append (fun r hr => (hunbroken.1.1 r hr).1) []
    rw [List.append_nil] at hrows
    exact atMargin_iff.2 ⟨before, [], hrows, hbefore, rfl⟩

end Transclude

import Transclude.Proofs.HeaderRows
import Transclude.Proofs.Rewordings
import Transclude.Proofs.SealedFronts

/-! A document cut into tokens line by line. These are the tokens of the whole document exactly if
no directive in it runs over the end of a line. -/

namespace Transclude

namespace Token

open Directive (pattern)

def ofLine (open? : Option Fence) (line : Text) : List Token :=
  if (Fence.step open? line).1.inFence then ofText line else tokenize line

def ofLines (open? : Option Fence) : List Text → List Token
  | [] => []
  | [line] => ofLine open? line
  | line :: next :: rest =>
    ofLine open? line ++ .plain ['\n'] :: ofLines (Fence.step open? line).2 (next :: rest)

def tokenizeLines (s : Text) : List Token := Chunk.merge (ofLines none s.lines)

theorem exists_rest_of_row {d : Directive} {row rest t : Text}
    (h : d.source ++ rest = row ++ '\n' :: t) (hd : '\n' ∉ d.source) :
    ∃ u, row = d.source ++ u ∧ rest = u ++ '\n' :: t := by
  rcases List.append_eq_append_iff.1 h with hinner | ⟨v, hv, hrest⟩
  · exact hinner
  · cases v with
    | nil => exact ⟨[], by simpa using hv.symm, by simpa using hrest.symm⟩
    | cons c v =>
      obtain ⟨rfl, -⟩ := List.cons.inj hrest
      exact absurd (hv ▸ List.mem_append_right row List.mem_cons_self) hd

theorem read?_append {s rest : Text} {d : Directive} (h : Directive.read? s = some (d, rest))
    (t : Text) : Directive.read? (s ++ t) = some (d, rest ++ t) := by
  rw [← Directive.source_of_read? h, List.append_assoc]
  exact Directive.read?_source h (rest ++ t)

theorem merge_scan_row {row t : Text}
    (h : ∀ d : Directive, .found d ∈ pattern.scan (row ++ '\n' :: t) → '\n' ∉ d.source) :
    Chunk.merge (pattern.scan (row ++ '\n' :: t)) =
      Chunk.merge (pattern.scan row ++ .plain ['\n'] :: pattern.scan t) := by
  -- By length: behind a directive the row goes on with what its reading left over.
  induction hn : row.length using Nat.strongRecOn generalizing row with
  | ind n ih =>
    subst hn
    cases row with
    | nil =>
      have hnone : pattern.read? ('\n' :: t) = none := by
        cases hread : pattern.read? ('\n' :: t) with
        | none => rfl
        | some found => cases Directive.head_of_read? hread
      rw [List.nil_append, pattern.scan_cons hnone, pattern.scan_nil, List.nil_append, Chunk.merge,
        ← List.append_nil (Chunk.pushText _ _), Chunk.merge_pushText_append, List.append_nil]
    | cons c row =>
      cases hread : Directive.read? (c :: row ++ '\n' :: t) with
      | some found =>
        obtain ⟨d, rest⟩ := found
        have hsource := Directive.source_of_read? hread
        rw [pattern.scan_of_read? hread] at h ⊢
        obtain ⟨u, hu, rfl⟩ := exists_rest_of_row hsource (h d List.mem_cons_self)
        have halone : Directive.read? (c :: row) = some (d, u) := by
          rw [hu]
          exact Directive.read?_source hread u
        have hrow := ih u.length (pattern.length_lt_of_read? halone)
          (fun e he => h e (List.mem_cons_of_mem _ he)) rfl
        rw [pattern.scan_of_read? halone, Chunk.merge, hrow, List.cons_append, Chunk.merge]
      | none =>
        have hnone : Directive.read? (c :: row) = none := by
          cases hshort : Directive.read? (c :: row) with
          | none => rfl
          | some found =>
            obtain ⟨d, u⟩ := found
            cases hread.symm.trans (read?_append hshort ('\n' :: t))
        rw [List.cons_append] at h hread ⊢
        rw [pattern.scan_cons hread] at h ⊢
        have hrow := ih row.length (Nat.lt_succ_self _)
          (fun d hd => h d ((Directive.mem_pushText _).2 hd)) rfl
        rw [pattern.scan_cons hnone, Chunk.merge_pushText_append, ← hrow,
          ← List.append_nil (Chunk.pushText _ _), Chunk.merge_pushText_append, List.append_nil]

theorem exists_scan_of_pushProse (pieces : List Piece) :
    ∃ t tokens, pieces.flatMap ofPiece = pattern.scan t ++ tokens ∧
      ∀ line, (Piece.pushProse line pieces).flatMap ofPiece =
        pattern.scan (line ++ t) ++ tokens := by
  have hnil : pattern.scan [] = [] := pattern.scan_nil
  cases pieces with
  | nil =>
    refine ⟨[], [], by rw [hnil]; rfl, fun line => ?_⟩
    rw [List.append_nil, List.append_nil]
    exact List.append_nil (pattern.scan line)
  | cons piece rest =>
    cases piece with
    | prose s => exact ⟨s, rest.flatMap ofPiece, rfl, fun line => rfl⟩
    | code s =>
      exact ⟨[], .plain s :: rest.flatMap ofPiece, by rw [hnil]; rfl,
        fun line => by rw [List.append_nil]; rfl⟩

def ofRows (open? : Option Fence) (rows : List Text) : List Token :=
  (Piece.ofLines open? (Text.endLines rows)).flatMap ofPiece

theorem merge_ofPiece_fenced {open? : Option Fence} {line : Text}
    (h : (Fence.step open? line).1.inFence) (rest : List Text) :
    Chunk.merge ((Piece.ofLines open? (line :: rest)).flatMap ofPiece) =
      Chunk.merge (.plain line ::
        (Piece.ofLines (Fence.step open? line).2 rest).flatMap ofPiece) := by
  have hpush (pieces : List Piece) :
      Chunk.merge ((Piece.pushCode line pieces).flatMap ofPiece) =
        Chunk.merge (.plain line :: pieces.flatMap ofPiece) := by
    cases pieces with
    | nil => rfl
    | cons piece pieces =>
      cases piece with
      | prose s => rfl
      | code s => exact (Chunk.merge_plain_append line s _).symm
  cases open? with
  | none =>
    obtain ⟨fence, hnext⟩ := Fence.exists_open_of_inFence h
    rw [Piece.ofLines_opening rest hnext, hnext]
    exact hpush _
  | some fence =>
    cases hnext : (Fence.step (some fence) line).2 with
    | some next =>
      rw [Piece.ofLines_fenced rest hnext]
      exact hpush _
    | none =>
      rw [Piece.ofLines_closing rest hnext]
      rfl

theorem merge_ofPiece_prose {line : Text} (hs : (Fence.step none line).2 = none)
    {rest : List Text}
    (h : ∀ d : Directive,
      .found d ∈ (Piece.ofLines none ((line ++ ['\n']) :: rest)).flatMap ofPiece →
        '\n' ∉ d.source) :
    Chunk.merge ((Piece.ofLines none ((line ++ ['\n']) :: rest)).flatMap ofPiece) =
      Chunk.merge (pattern.scan line ++
        .plain ['\n'] :: (Piece.ofLines none rest).flatMap ofPiece) := by
  rw [Piece.ofLines_prose rest (by rw [Fence.step_append_newline, hs])] at h ⊢
  obtain ⟨t, tokens, hrest, hline⟩ := exists_scan_of_pushProse (Piece.ofLines none rest)
  rw [hline, List.append_assoc, List.singleton_append] at h ⊢
  have hrow := merge_scan_row fun d hd => h d (List.mem_append_left tokens hd)
  rw [hrest, ← Chunk.merge_merge_append, hrow, Chunk.merge_merge_append, List.append_assoc,
    List.cons_append]

theorem tokenize_row {row : Text} (hn : '\n' ∉ row) (h : ¬ (Fence.step none row).1.inFence) :
    Chunk.merge (pattern.scan row) = tokenize row := by
  obtain ⟨-, hnext⟩ := Fence.step_of_not_inFence h
  have hrow : row.splitOn '\n' = [row] := List.splitOn_eq_singleton hn
  rw [tokenize, Piece.cut, Text.endedLines, hrow, Text.endLines]
  split_ifs with hnil
  · rw [hnil, pattern.scan_nil]
    rfl
  · rw [Piece.ofLines_prose _ hnext]
    exact congrArg Chunk.merge (List.append_nil (pattern.scan row)).symm

theorem merge_ofRows_last (open? : Option Fence) {row : Text} (hn : '\n' ∉ row) :
    Chunk.merge (ofRows open? [row]) = Chunk.merge (ofLine open? row) := by
  rw [ofRows, ofLine, Text.endLines]
  split_ifs with hnil hin hin
  · rw [hnil]
    rfl
  · rw [hnil]
    rfl
  · rw [merge_ofPiece_fenced hin, ofText, if_neg hnil]
    rfl
  · obtain ⟨rfl, hnext⟩ := Fence.step_of_not_inFence hin
    rw [Piece.ofLines_prose _ hnext, ← tokenize_row hn hin, Chunk.merge_merge]
    exact congrArg Chunk.merge (List.append_nil (pattern.scan row))

theorem merge_ofRows {open? : Option Fence} {rows : List Text} (hn : ∀ row ∈ rows, '\n' ∉ row)
    (h : ∀ d : Directive, .found d ∈ ofRows open? rows → '\n' ∉ d.source) :
    Chunk.merge (ofRows open? rows) = Chunk.merge (ofLines open? rows) := by
  fun_induction ofLines open? rows with
  | case1 => rfl
  | case2 open? row => exact merge_ofRows_last open? (hn row List.mem_cons_self)
  | case3 open? line next rest ih =>
    obtain ⟨hline, hrest⟩ := List.forall_mem_cons.1 hn
    have hstep := Fence.step_append_newline open? line
    have hcut : Chunk.merge (ofRows open? (line :: next :: rest)) =
        Chunk.merge (ofLine open? line ++
          .plain ['\n'] :: ofRows (Fence.step open? line).2 (next :: rest)) := by
      rw [ofRows, Text.endLines, ofLine]
      split_ifs with hin
      · rw [merge_ofPiece_fenced (hstep ▸ hin), hstep, ofText]
        split_ifs with hnil
        · rw [hnil]
          rfl
        · exact (Chunk.merge_plain_append line ['\n'] _).symm
      · obtain ⟨rfl, hnext⟩ := Fence.step_of_not_inFence hin
        rw [merge_ofPiece_prose hnext h, ← tokenize_row hline hin, Chunk.merge_merge_append, hnext]
        rfl
    have hlater : ∀ d : Directive,
        .found d ∈ ofRows (Fence.step open? line).2 (next :: rest) → '\n' ∉ d.source := by
      intro d hd
      apply h d
      rw [← Chunk.found_mem_merge, hcut, Chunk.found_mem_merge]
      exact List.mem_append_right _ (List.mem_cons_of_mem _ hd)
    rw [hcut]
    apply Chunk.merge_append_congr rfl
    rw [Chunk.merge, Chunk.merge, ih hrest hlater]

theorem newline_not_mem_of_ofLine {open? : Option Fence} {row : Text} (hn : '\n' ∉ row)
    {d : Directive} (h : .found d ∈ ofLine open? row) : '\n' ∉ d.source := by
  unfold ofLine at h
  split_ifs at h with hin
  · unfold ofText at h
    split_ifs at h
    · cases h
    · cases List.mem_singleton.1 h
  · intro hd
    apply hn
    rw [← join_tokenize row]
    exact List.mem_flatMap.2 ⟨.found d, h, hd⟩

theorem newline_not_mem_of_ofLines {open? : Option Fence} {rows : List Text}
    (hn : ∀ row ∈ rows, '\n' ∉ row) {d : Directive} (h : .found d ∈ ofLines open? rows) :
    '\n' ∉ d.source := by
  fun_induction ofLines open? rows with
  | case1 => cases h
  | case2 open? row => exact newline_not_mem_of_ofLine (hn row List.mem_cons_self) h
  | case3 open? line next rest ih =>
    obtain ⟨hline, hrest⟩ := List.forall_mem_cons.1 hn
    rcases List.mem_append.1 h with h | h
    · exact newline_not_mem_of_ofLine hline h
    · exact ih hrest ((List.mem_cons.1 h).resolve_left nofun)

theorem join_ofLines (open? : Option Fence) (rows : List Text) :
    join (ofLines open? rows) = Text.unlines rows := by
  have hline (open? : Option Fence) (row : Text) : join (ofLine open? row) = row := by
    unfold ofLine
    split_ifs
    · exact join_ofText row
    · exact join_tokenize row
  fun_induction ofLines open? rows with
  | case1 => rfl
  | case2 open? row => rw [hline, Text.unlines, List.intercalate_singleton]
  | case3 open? line next rest ih =>
    rw [join_append, join_cons, hline, ih, Text.unlines_cons_cons]
    rfl

theorem join_tokenizeLines {s : Text} (hr : '\r' ∉ s) : join (tokenizeLines s) = s := by
  rw [tokenizeLines, join, Chunk.sources_merge]
  exact (join_ofLines none s.lines).trans (Text.unlines_lines hr)

/-- The two ways of cutting a document agree exactly if no directive runs over the end of a line. -/
theorem tokenizeLines_eq_iff {s : Text} (hr : '\r' ∉ s) :
    tokenizeLines s = tokenize s ↔ ∀ d, .found d ∈ tokenize s → '\n' ∉ d.source := by
  have hrows : ∀ row ∈ s.rows, '\n' ∉ row := fun row => Text.not_mem_of_mem_rows
  have hcut : tokenize s = Chunk.merge (ofRows none s.rows) := rfl
  rw [tokenizeLines, Text.lines_eq_rows hr, hcut]
  refine ⟨fun heq d hd => ?_, fun h => (merge_ofRows hrows fun d hd => ?_).symm⟩
  · rw [← heq, Chunk.found_mem_merge] at hd
    exact newline_not_mem_of_ofLines hrows hd
  · exact h d ((Chunk.found_mem_merge _).2 hd)

end Token
end Transclude

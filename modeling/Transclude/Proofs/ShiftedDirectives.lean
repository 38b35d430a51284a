import Mathlib.Data.List.Forall2
import Transclude.Proofs.ShiftedRows

/-! The directives of a shifted text. No directive starts or ends with a heading mark, so the same
kinds of directives are found in a text and in what a shift makes of it. An argument over several
rows is shifted with the rows that it holds. -/

namespace Transclude

namespace Directive

variable {s t rest : Text} {d e : Directive} {shift : Int}

def bare : Directive → Directive
  | .includeFile _ => .includeFile []
  | .valueOf _ => .valueOf []
  | .ifHolds gap _ => .ifHolds gap []
  | .elseIf gap _ => .elseIf gap []
  | .otherwise => .otherwise
  | .endIf => .endIf
  | .listTable _ => .listTable []

theorem isMarker_bare (d : Directive) : d.bare.isMarker = d.isMarker := by cases d <;> rfl

theorem eq_of_bare (hb : d.bare = e.bare) (hs : d.source = e.source) : d = e := by
  cases d <;> cases e <;> cases hb <;> first
    | rfl
    | simpa [source, opener, closer, argument?] using hs

/-- Whether two readings found the same kind of directive, with the same to be read behind it. -/
abbrev SameRead : Option (Directive × Text) → Option (Directive × Text) → Prop :=
  Option.Rel fun p q => p.1.bare = q.1.bare ∧ Stretched p.2 q.2

theorem SameRead.orElse {p? q? p?' q?' : Option (Directive × Text)} (h : SameRead p? q?)
    (h' : SameRead p?' q?') : SameRead (p? <|> p?') (q? <|> q?') := by
  cases h with
  | none => exact h'
  | some hpq => exact .some hpq

theorem sameRead_enclosed (make : Text → Directive) (ho : '#' ∉ (make []).opener)
    (hc : '#' ∉ (make []).closer) (hne : (make []).closer ≠ [])
    (hb : ∀ a, (make a).bare = make []) (h : Stretched s t) :
    SameRead (readEnclosed? make s) (readEnclosed? make t) := by
  have hafter := h.after? ho
  unfold readEnclosed?
  generalize s.after? (make []).opener = s? at hafter
  generalize t.after? (make []).opener = t? at hafter
  cases hafter with
  | none => exact .none
  | some hbody =>
    have hcut := hbody.cut? hc hne
    dsimp only
    generalize Text.cut? (make []).closer _ = p? at hcut
    generalize Text.cut? (make []).closer _ = q? at hcut
    cases hcut with
    | none => exact .none
    | some hrest => exact .some ⟨(hb _).trans (hb _).symm, hrest⟩

theorem sameRead_spaced (make : Text → Text → Directive) (ho : '#' ∉ (make [] []).opener)
    (hc : '#' ∉ (make [] []).closer) (hne : (make [] []).closer ≠ [])
    (hb : ∀ g a, (make g a).bare = make g []) (h : Stretched s t) :
    SameRead (readSpaced? make s) (readSpaced? make t) := by
  have hafter := h.after? ho
  unfold readSpaced?
  generalize s.after? (make [] []).opener = s? at hafter
  generalize t.after? (make [] []).opener = t? at hafter
  cases hafter with
  | none => exact .none
  | some hbody =>
    obtain ⟨hgap, hrest⟩ := hbody.spanBlanks
    have hcut := hrest.cut? hc hne
    dsimp only
    rw [hgap]
    split
    · exact .none
    · generalize Text.cut? (make [] []).closer _ = p? at hcut
      generalize Text.cut? (make [] []).closer _ = q? at hcut
      cases hcut with
      | none => exact .none
      | some hbehind => exact .some ⟨(hb _ _).trans (hb _ _).symm, hbehind⟩

theorem sameRead_fixed (d : Directive) (ho : '#' ∉ d.opener) (h : Stretched s t) :
    SameRead (readFixed? d s) (readFixed? d t) := by
  have hafter := h.after? ho
  unfold readFixed?
  generalize s.after? d.opener = s? at hafter
  generalize t.after? d.opener = t? at hafter
  cases hafter with
  | none => exact .none
  | some hrest => exact .some ⟨rfl, hrest⟩

theorem sameRead_read? (h : Stretched s t) : SameRead (read? s) (read? t) := by
  have hinclude := sameRead_enclosed .includeFile (by decide) (by decide) (by decide)
    (fun _ => rfl) h
  have hvalue := sameRead_enclosed .valueOf (by decide) (by decide) (by decide)
    (fun _ => rfl) h
  have hif := sameRead_spaced .ifHolds (by decide) (by decide) (by decide)
    (fun _ _ => rfl) h
  have helseIf := sameRead_spaced .elseIf (by decide) (by decide) (by decide)
    (fun _ _ => rfl) h
  have helse := sameRead_fixed .otherwise (by decide) h
  have hend := sameRead_fixed .endIf (by decide) h
  have htable := sameRead_enclosed .listTable (by decide) (by decide) (by decide)
    (fun _ => rfl) h
  exact hinclude.orElse (hvalue.orElse (hif.orElse (helseIf.orElse (helse.orElse
    (hend.orElse htable)))))

theorem read?_cons {c : Char} (hc : c ≠ '\x7b') (s : Text) : read? (c :: s) = none := by
  refine read?_eq_none fun k hk => ?_
  obtain ⟨rest, rfl⟩ := brace_of_mem_keywords hk
  rw [Text.after?_cons, if_neg hc]

/-- What a shift makes of a directive: the rows of its source are shifted but for the first. -/
structure Moves (shift : Int) (d e : Directive) : Prop where
  bare : e.bare = d.bare
  source : e.source = Heading.shiftBelow shift d.source

theorem Moves.eq_iff (h : Moves shift d e) :
    e = d ↔ ∀ row ∈ d.source.rows.tail, Heading.shiftLine shift row = row := by
  rw [← Heading.shiftBelow_eq_iff, ← h.source]
  exact ⟨congrArg Directive.source, eq_of_bare h.bare⟩

variable {ds es : List Directive}

theorem map_bare_eq (h : List.Forall₂ (Moves shift) ds es) : es.map bare = ds.map bare := by
  induction h with
  | nil => rfl
  | cons hmoves _ ih => rw [List.map_cons, List.map_cons, hmoves.bare, ih]

theorem eq_iff_of_forall₂ (h : List.Forall₂ (Moves shift) ds es) :
    es = ds ↔ ∀ d ∈ ds, ∀ row ∈ d.source.rows.tail, Heading.shiftLine shift row = row := by
  induction h with
  | nil => simp
  | cons hmoves _ ih => rw [List.cons_eq_cons, hmoves.eq_iff, ih, List.forall_mem_cons]

theorem exists_source_eq (d : Directive) : ∃ front, d.source = front ++ ['\x7d'] := by
  obtain ⟨front, hfront⟩ := ending_suffix_source d
  exact ⟨front ++ ['!'], by rw [← hfront]; simp [ending]⟩

theorem exists_moves (h : read? s = some (d, rest)) (shift : Int) :
    ∃ e, Moves shift d e ∧
      read? (Heading.shiftBelow shift s) = some (e, Heading.shiftBelow shift rest) := by
  have hwhole : read? (d.source ++ []) = some (d, []) := read?_source h []
  rw [List.append_nil] at hwhole
  have hsame := sameRead_read? (Heading.stretched_shiftBelow shift d.source)
  rw [hwhole] at hsame
  generalize hread : read? (Heading.shiftBelow shift d.source) = q? at hsame
  cases hsame with
  | some hq =>
    rename_i q
    obtain ⟨e, behind⟩ := q
    obtain ⟨hbare, hbehind⟩ := hq
    obtain rfl : behind = [] := hbehind.eq_nil_iff.1 rfl
    have hsource := source_of_read? hread
    rw [List.append_nil] at hsource
    refine ⟨e, ⟨hbare.symm, hsource⟩, ?_⟩
    -- The brace at its end keeps the directive apart from what follows.
    obtain ⟨front, hfront⟩ := exists_source_eq d
    have hbrace : Text.EndsMarks '\x7d' := by decide
    have hsplit : Heading.shiftBelow shift s = e.source ++ Heading.shiftBelow shift rest := by
      rw [hsource, ← source_of_read? h, hfront, List.append_assoc, List.singleton_append,
        Heading.shiftBelow_append hbrace, Heading.shiftBelow_append hbrace, List.append_assoc]
      rfl
    rw [hsplit]
    exact read?_source hread _

theorem read?_shiftBelow_eq_none (h : read? s = none) (shift : Int) :
    read? (Heading.shiftBelow shift s) = none := by
  have hsame := sameRead_read? (Heading.stretched_shiftBelow shift s)
  rw [h] at hsame
  generalize read? (Heading.shiftBelow shift s) = q? at hsame
  cases hsame with
  | none => rfl

/-- The directives of a text that is searched without regard to fences. -/
def among (s : Text) : List Directive := (pattern.scan s).filterMap Chunk.item?

theorem among_nil : among [] = [] := by
  rw [among, pattern.scan_nil]
  rfl

theorem among_of_read? (h : read? s = some (d, rest)) : among s = d :: among rest := by
  rw [among, pattern.scan_of_read? h]
  rfl

theorem among_cons {c : Char} (h : read? (c :: s) = none) : among (c :: s) = among s := by
  rw [among, pattern.scan_cons h, Token.filterMap_item?_pushText, among]

theorem among_append {front : Text} (h : '\x7b' ∉ front) (s : Text) :
    among (front ++ s) = among s := by
  induction front with
  | nil => rfl
  | cons c front ih =>
    have hc : c ≠ '\x7b' := Ne.symm (List.ne_of_not_mem_cons h)
    rw [List.cons_append, among_cons (read?_cons hc _), ih (List.not_mem_of_not_mem_cons h)]

theorem forall₂_among_below (shift : Int) (s : Text) :
    List.Forall₂ (Moves shift) (among s) (among (Heading.shiftBelow shift s)) := by
  -- By length: behind a directive the search goes on with what its reading left over.
  induction hn : s.length using Nat.strongRecOn generalizing s with
  | ind n ih =>
    cases s with
    | nil =>
      rw [Heading.shiftBelow_nil, among_nil]
      exact .nil
    | cons c s =>
      have hshort : s.length < n := hn ▸ Nat.lt_succ_self _
      cases hread : read? (c :: s) with
      | some p =>
        obtain ⟨d, rest⟩ := p
        obtain ⟨e, hmoves, hread'⟩ := exists_moves hread shift
        have hrest : rest.length < n := hn ▸ pattern.length_lt_of_read? hread
        rw [among_of_read? hread, among_of_read? hread']
        exact .cons hmoves (ih rest.length hrest rest rfl)
      | none =>
        have hread' := read?_shiftBelow_eq_none hread shift
        rw [among_cons hread]
        by_cases hc : c = '\n'
        · subst hc
          -- A new row is shifted from its start on, but no directive starts in its marks.
          rw [Heading.shiftBelow_newline] at hread' ⊢
          obtain ⟨front, front', rest, hfront, hfront', rfl, hrows⟩ :=
            Heading.exists_shiftRows shift s
          rw [List.length_append] at hshort
          rw [among_cons hread', hrows, among_append hfront, among_append hfront']
          exact ih rest.length (by omega) rest rfl
        · rw [Heading.shiftBelow_cons hc] at hread' ⊢
          rw [among_cons hread']
          exact ih s.length hshort s rfl

theorem forall₂_among_rows (shift : Int) (s : Text) :
    List.Forall₂ (Moves shift) (among s) (among (Heading.shiftRows shift s)) := by
  obtain ⟨front, front', rest, hfront, hfront', rfl, hrows⟩ := Heading.exists_shiftRows shift s
  rw [hrows, among_append hfront, among_append hfront']
  exact forall₂_among_below shift rest

end Directive

namespace Piece

variable {shift : Int} {ps : List Piece} {line : Text}

def shifted (shift : Int) : Piece → Piece
  | .prose s => .prose (Heading.shiftRows shift s)
  | .code s => .code s

def directives : Piece → List Directive
  | .prose s => Directive.among s
  | .code _ => []

theorem map_pushProse (h : '\n' ∉ line) (ps : List Piece) :
    (pushProse (line ++ ['\n']) ps).map (shifted shift) =
      pushProse (Heading.shiftLine shift line ++ ['\n']) (ps.map (shifted shift)) := by
  have hprose (s : Text) : Heading.shiftRows shift (line ++ ['\n'] ++ s) =
      Heading.shiftLine shift line ++ ['\n'] ++ Heading.shiftRows shift s := by
    rw [List.append_assoc, List.append_assoc]
    exact Heading.shiftRows_append_newline h s
  have hlast := hprose []
  rw [List.append_nil, Heading.shiftRows_nil, List.append_nil] at hlast
  cases ps with
  | nil => exact congrArg (fun s => [prose s]) hlast
  | cons p ps =>
    cases p with
    | prose s => exact congrArg (fun s => prose s :: ps.map (shifted shift)) (hprose s)
    | code s => exact congrArg (fun s' => prose s' :: code s :: ps.map (shifted shift)) hlast

theorem map_pushCode (line : Text) (ps : List Piece) :
    (pushCode line ps).map (shifted shift) = pushCode line (ps.map (shifted shift)) := by
  cases ps with
  | nil => rfl
  | cons p ps => cases p <;> rfl

theorem map_ofLines_fenced {open? : Option Fence} (h : (Fence.step open? line).1.inFence)
    {ls others : List Text} (hrest : ofLines (Fence.step open? line).2 others =
      (ofLines (Fence.step open? line).2 ls).map (shifted shift)) :
    ofLines open? (line :: others) = (ofLines open? (line :: ls)).map (shifted shift) := by
  rw [ofLines_cons, ofLines_cons, hrest]
  split
  · rename_i hnext
    obtain ⟨fence, hopen⟩ := Fence.exists_open_of_inFence h
    rw [hnext] at hopen
    cases hopen
  · rfl
  · exact (map_pushCode line _).symm

/-- The last line has no line feed, and none at all is left of it if it is empty. -/
theorem ofLines_shifted_last {open? : Option Fence} (shift : Int) (hn : '\n' ∉ line) :
    ofLines open? (Text.endLines (Heading.shiftLines shift open? [line])) =
      (ofLines open? (Text.endLines [line])).map (shifted shift) := by
  have hnil : Heading.shiftLine shift line = [] ↔ line = [] :=
    (Stretched.shiftLine shift line).eq_nil_iff.symm
  have hshifted : Heading.shiftLines shift open? [line] =
      [if (Fence.step open? line).1.inFence then line else Heading.shiftLine shift line] := rfl
  rw [hshifted, Text.endLines, Text.endLines]
  by_cases hempty : line = []
  · have hrow : Heading.shiftLine shift line = [] := hnil.2 hempty
    rw [hrow, hempty, ite_self]
    rfl
  · rw [if_neg hempty]
    by_cases hin : (Fence.step open? line).1.inFence
    · rw [if_pos hin, if_neg hempty]
      exact map_ofLines_fenced hin rfl
    · obtain ⟨rfl, hnext⟩ := Fence.step_of_not_inFence hin
      have hnext' := (Fence.step_shiftLine Fence.real_none shift line).1.trans hnext
      rw [if_neg hin, if_neg fun h => hempty (hnil.1 h), ofLines_prose _ hnext,
        ofLines_prose _ hnext']
      exact congrArg (fun s => [prose s]) (Heading.shiftRows_of_row hn).symm

theorem ofLines_shiftLines {open? : Option Fence} (ho : Fence.Real open?) (shift : Int)
    {ls : List Text} (hn : ∀ l ∈ ls, '\n' ∉ l) :
    ofLines open? (Text.endLines (Heading.shiftLines shift open? ls)) =
      (ofLines open? (Text.endLines ls)).map (shifted shift) := by
  induction ls generalizing open? with
  | nil => rfl
  | cons line ls ih =>
    obtain ⟨hline, hls⟩ := List.forall_mem_cons.1 hn
    cases ls with
    | nil => exact ofLines_shifted_last shift hline
    | cons second ls =>
      have hrest := ih (Fence.real_step ho line) hls
      have hends (l : Text) := Fence.step_append_newline open? l
      rw [Heading.shiftLines_cons] at hrest ⊢
      rw [Heading.shiftLines_cons, Text.endLines, Text.endLines]
      by_cases hin : (Fence.step open? line).1.inFence
      · rw [if_pos hin]
        refine map_ofLines_fenced ?_ ?_
        · rwa [hends]
        · rwa [hends]
      · obtain ⟨rfl, hnext⟩ := Fence.step_of_not_inFence hin
        have hnext' := (Fence.step_shiftLine Fence.real_none shift line).1.trans hnext
        rw [hnext] at hrest ⊢
        rw [if_neg hin, ofLines_prose _ (by rw [hends, hnext']),
          ofLines_prose _ (by rw [hends, hnext]), map_pushProse hline, hrest]

theorem cut_shift {s : Text} (hr : '\r' ∉ s) (shift : Int) :
    cut (Heading.shift shift s) = (cut s).map (shifted shift) := by
  have hpieces := ofLines_shiftLines Fence.real_none shift (Text.not_mem_lines s)
  rw [← Heading.rows_shift, Text.lines_eq_rows hr] at hpieces
  exact hpieces

end Piece

namespace Token

variable {s : Text}

theorem directives_eq_flatMap (s : Text) :
    directives s = (Piece.cut s).flatMap Piece.directives := by
  rw [directives_eq, List.filterMap_flatMap]
  refine List.flatMap_congr fun piece _ => ?_
  cases piece <;> rfl

theorem forall₂_directives (hr : '\r' ∉ s) (shift : Int) :
    List.Forall₂ (Directive.Moves shift) (directives s)
      (directives (Heading.shift shift s)) := by
  rw [directives_eq_flatMap, directives_eq_flatMap, Piece.cut_shift hr, List.flatMap_map]
  induction Piece.cut s with
  | nil => exact .nil
  | cons piece pieces ih =>
    rw [List.flatMap_cons, List.flatMap_cons]
    refine List.rel_append ?_ ih
    cases piece with
    | prose t => exact Directive.forall₂_among_rows shift t
    | code t => exact .nil

/-- A shift keeps the directives of a text, in order and of their kinds, but shifts what they hold: of
each one, every row of the source behind the first. So none of them changes exactly if no such row
reads like a heading that moves, and a directive on one row never does. -/
theorem shift_moves_directives (hr : '\r' ∉ s) (shift : Int) :
    List.Forall₂ (Directive.Moves shift) (directives s) (directives (Heading.shift shift s)) ∧
    (directives (Heading.shift shift s) = directives s ↔
      ∀ d ∈ directives s, ∀ row ∈ d.source.rows.tail, Heading.shiftLine shift row = row) := by
  have hmoves := forall₂_directives hr shift
  exact ⟨hmoves, Directive.eq_iff_of_forall₂ hmoves⟩

def manual : Text :=
  "## A\n\x7b!include(b.md|\n# Intro\n|##)!\x7d \x7b!var(x)!\x7d\n\x60\x60\x60\n\x7b!var(y)!\x7d".text

theorem shift_moves_directives_of_manual : '\r' ∉ manual ∧
    directives manual = [.includeFile "b.md|\n# Intro\n|##".text, .valueOf "x".text] ∧
    Heading.shift (-1) manual ≠ manual ∧
    directives (Heading.shift (-1) manual) = directives manual ∧
    directives (Heading.shift 1 manual) ≠ directives manual ∧
    List.Forall₂ (Directive.Moves 1) (directives manual)
      (directives (Heading.shift 1 manual)) := by
  have hr : '\r' ∉ manual := by decide +kernel
  have hfound : directives manual =
      [.includeFile "b.md|\n# Intro\n|##".text, .valueOf "x".text] := by decide +kernel
  obtain ⟨-, hup⟩ := shift_moves_directives hr (-1)
  obtain ⟨hmoves, hdown⟩ := shift_moves_directives hr 1
  refine ⟨hr, hfound, by decide +kernel, hup.2 ?_, ?_, hmoves⟩
  · rw [hfound]
    decide +kernel
  · rw [Ne, hdown, hfound]
    decide +kernel

/-- The section that an include names changes its level with the headings of the text. -/
theorem section_name_moves : '\r' ∉ "\x7b!include(a.md|\n# Intro\n)!\x7d".text ∧
    directives "\x7b!include(a.md|\n# Intro\n)!\x7d".text =
      [.includeFile "a.md|\n# Intro\n".text] ∧
    directives (Heading.shift 1 "\x7b!include(a.md|\n# Intro\n)!\x7d".text) =
      [.includeFile "a.md|\n## Intro\n".text] ∧
    Include.parse? "a.md|\n# Intro\n".text = some ⟨"a.md".text, some "# Intro".text, none⟩ ∧
    Include.parse? "a.md|\n## Intro\n".text = some ⟨"a.md".text, some "## Intro".text, none⟩ := by
  decide +kernel

end Token

end Transclude

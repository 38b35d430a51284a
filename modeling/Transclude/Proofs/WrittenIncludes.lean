import Mathlib.Data.List.Infix
import Transclude.Directive.Include
import Transclude.Proofs.BareDocuments
import Transclude.Proofs.FencedOffsets
import Transclude.Proofs.Rewordings

/-! Include directives as they are written. Outside fences, among texts in which no directive
starts, the one that was written is all that is found, and its argument is read back as what was
written. -/

namespace Transclude

namespace Text

/-- The mark behind an argument does not overlap with itself, so an argument that does not hold it
is cut off as a whole. -/
theorem cut?_close {argument : Text} (h : ¬ Directive.close <:+: argument) (rest : Text) :
    cut? Directive.close (argument ++ (Directive.close ++ rest)) = some (argument, rest) := by
  have hends : (argument ++ Directive.close).contains Directive.close :=
    contains_iff.2 (List.suffix_append _ _).isInfix
  obtain ⟨⟨before, behind⟩, hcut⟩ := Option.isSome_iff_exists.1 hends
  have hwhole := append_of_cut? hcut
  have hbehind : behind = [] := by
    rcases List.append_eq_append_iff.1 hwhole with ⟨front, hfront, -⟩ | ⟨front, hfront, hclose⟩
    · exact absurd ⟨before, front, hfront.symm⟩ h
    · rcases eq_or_ne front [] with rfl | hne
      · rw [List.append_nil] at hfront
        exact absurd (hfront ▸ (List.suffix_append before _).isInfix) h
      · -- A front of the mark that ends as the mark does is all of it.
        have hfronts : ∀ f ∈ Directive.close.inits,
            f.getLast? = some '\x7d' → f = Directive.close := by
          decide
        have hlast : front.getLast? = some '\x7d' := by
          rw [← List.getLast?_append_of_ne_nil argument hne, ← hfront, List.getLast?_append]
          rfl
        have hmem : front ∈ Directive.close.inits := (List.mem_inits _ _).2 ⟨behind, hclose.symm⟩
        rw [hfronts front hmem hlast] at hclose
        exact List.append_right_eq_self.1 hclose.symm
  subst hbehind
  rw [List.append_nil] at hwhole
  rw [List.append_cancel_right hwhole] at hcut
  have happend := cut?_append hcut rest
  rwa [List.append_assoc, List.nil_append] at happend

end Text

namespace Include

/-- Whether an include can be written as a directive on one line: no segment has a bar that would be
taken for a separator, none has blanks around it, and the whole argument does not end early. -/
structure IsWritable (i : Include) : Prop where
  path_ne_nil : i.path ≠ []
  trim_path : i.path.trim = i.path
  bar_path : '|' ∉ i.path
  heading : ∀ heading ∈ i.heading?, heading ≠ [] ∧ heading.trim = heading ∧ '|' ∉ heading
  level : ∀ level ∈ i.level?, level ≠ [] ∧ level.trim = level
  newline : '\n' ∉ i.argument
  close : ¬ Directive.close <:+: i.argument

variable {i : Include} {path heading : Text}

theorem segments_one (hp : '|' ∉ path) : segments path = (path.trim, none, none) := by
  rw [segments, Text.cut?_singleton_eq_none_iff.2 hp]

theorem segments_two (hp : '|' ∉ path) (hh : '|' ∉ heading) :
    segments (path ++ '|' :: heading) = (path.trim, some heading.trim, none) := by
  rw [segments, Text.cut?_singleton_iff.2 ⟨rfl, hp⟩]
  dsimp only
  rw [Text.cut?_singleton_eq_none_iff.2 hh]

theorem segments_three (hp : '|' ∉ path) (hh : '|' ∉ heading) (level : Text) :
    segments (path ++ '|' :: (heading ++ '|' :: level)) =
      (path.trim, some heading.trim, some level.trim) := by
  rw [segments, Text.cut?_singleton_iff.2 ⟨rfl, hp⟩]
  dsimp only
  rw [Text.cut?_singleton_iff.2 ⟨rfl, hh⟩]

theorem IsWritable.parse?_argument (h : i.IsWritable) : parse? i.argument = some i := by
  obtain ⟨path, heading?, level?⟩ := i
  obtain ⟨hpath, htrim, hbar, hheading, hlevel, -, -⟩ := h
  dsimp only at hpath htrim hbar hheading hlevel
  cases heading? with
  | none =>
    cases level? with
    | none => simp [parse?, argument, segments_one hbar, hpath, htrim]
    | some level =>
      obtain ⟨hl, hltrim⟩ := hlevel level rfl
      have hsegments : segments (path ++ '|' :: '|' :: level) =
          (path.trim, some [], some level.trim) := segments_three hbar List.not_mem_nil level
      simp [parse?, argument, hsegments, hpath, htrim, hl, hltrim]
  | some heading =>
    obtain ⟨hh, hhtrim, hhbar⟩ := hheading heading rfl
    cases level? with
    | none => simp [parse?, argument, segments_two hbar hhbar, hpath, htrim, hh, hhtrim]
    | some level =>
      obtain ⟨hl, hltrim⟩ := hlevel level rfl
      simp [parse?, argument, segments_three hbar hhbar, hpath, htrim, hh, hhtrim, hl, hltrim]

theorem IsWritable.read?_source (h : i.IsWritable) (rest : Text) :
    Directive.read? ((Directive.includeFile i.argument).source ++ rest) =
      some (.includeFile i.argument, rest) := by
  have hsource : (Directive.includeFile i.argument).source ++ rest =
      (Directive.includeFile []).opener ++ (i.argument ++ (Directive.close ++ rest)) := by
    simp [Directive.source, Directive.opener, Directive.argument?, Directive.closer, String.text,
      Directive.close]
  refine Directive.read?_of_readLike? (e := .includeFile i.argument) ?_
  exact Directive.readEnclosed?_eq_some_iff.2
    ⟨_, i.argument, hsource, Text.cut?_close h.close rest, rfl⟩

end Include

namespace Token

variable {pre t post : Text}

theorem outsideCode_of_line (ht : '\n' ∉ t)
    (h : ¬ Piece.Within (Piece.codeSpans (pre ++ (t ++ post))) pre.length) :
    OutsideCode (pre ++ (t ++ post)) pre.length (pre.length + t.length) := by
  intro span hspan
  by_contra hin
  rw [not_or, Nat.not_le, Nat.not_le] at hin
  have hstart : pre.length < span.1 := by
    by_contra hle
    exact h ⟨span, hspan, Nat.le_of_not_lt hle, hin.2⟩
  -- The code would start within `t`, behind a line feed.
  obtain ⟨before, behind, hs, hbefore, hlast⟩ := Piece.startsLine_of_mem_codeSpans hspan
  rcases List.append_eq_append_iff.1 hs with ⟨front, rfl, ht'⟩ | ⟨front, rfl, -⟩
  · rw [List.length_append] at hbefore
    have hne : front ≠ [] := by
      rintro rfl
      rw [List.length_nil] at hbefore
      omega
    have hfront : front <+: t := by
      refine List.prefix_of_prefix_length_le ⟨behind, ht'.symm⟩ (List.prefix_append t post) ?_
      omega
    have hnewline := hlast (front.getLast hne) (by
      rw [List.getLast?_append_of_ne_nil pre hne]
      exact List.getLast?_eq_some_getLast hne)
    exact ht (hfront.subset (hnewline ▸ List.getLast_mem hne))
  · rw [List.length_append] at hstart
    omega

def IsText (token : Token) : Prop := ∃ s, s ≠ [] ∧ token = .plain s

theorem isText_of_mem_ofText {s : Text} : ∀ token ∈ ofText s, token.IsText := by
  unfold ofText
  split
  · exact List.forall_mem_nil _
  · rename_i hs
    exact List.forall_mem_singleton.2 ⟨s, hs, rfl⟩

theorem isText_of_bare {pieces : List Piece} (hne : ∀ piece ∈ pieces, piece.text ≠ [])
    (h : Text.Bare (pieces.flatMap Piece.text)) :
    ∀ token ∈ pieces.flatMap ofPiece, token.IsText := by
  intro token htoken
  obtain ⟨piece, hpiece, htoken⟩ := List.mem_flatMap.1 htoken
  cases piece with
  | code s =>
    obtain rfl := List.mem_singleton.1 htoken
    exact ⟨s, hne _ hpiece, rfl⟩
  | prose s =>
    have hbare : Text.Bare s := h.of_infix <| by
      rw [List.flatMap_def]
      exact List.infix_of_mem_flatten (List.mem_map_of_mem hpiece)
    rw [ofPiece, Text.scan_silent_last hbare.silent] at htoken
    exact isText_of_mem_ofText token htoken

theorem merge_of_isText {tokens : List Token} (h : ∀ token ∈ tokens, token.IsText) :
    Chunk.merge tokens = ofText (join tokens) := by
  induction tokens with
  | nil => rfl
  | cons token tokens ih =>
    obtain ⟨⟨s, hs, rfl⟩, hrest⟩ := List.forall_mem_cons.1 h
    have hne : s ++ join tokens ≠ [] := List.append_ne_nil_of_left_ne_nil hs _
    rw [Chunk.merge, ih hrest, join_cons]
    change _ = ofText (s ++ join tokens)
    rw [ofText, ofText, if_neg hne]
    split
    · rename_i hnil
      rw [hnil, List.append_nil]
      rfl
    · rfl

/-- The one directive that can be read outside of fenced code is found where it stands. -/
theorem tokenize_of_bare {d : Directive}
    (hd : ∀ rest, Directive.read? (d.source ++ rest) = some (d, rest)) (hline : '\n' ∉ d.source)
    (hpre : pre.Bare) (hpost : post.Bare)
    (h : ¬ Piece.Within (Piece.codeSpans (pre ++ (d.source ++ post))) pre.length) :
    tokenize (pre ++ (d.source ++ post)) = ofText pre ++ .found d :: ofText post := by
  obtain ⟨before, u, v, after, hcut, rfl, rfl⟩ :=
    exists_prose_of_outsideCode d.source_ne_nil (outsideCode_of_line hline h)
  have hne : ∀ piece ∈ before ++ .prose (u ++ (d.source ++ v)) :: after, piece.text ≠ [] :=
    hcut ▸ (Piece.proper_cut _).1
  obtain ⟨hbefore, hrest⟩ := List.forall_mem_append.1 hne
  obtain ⟨-, hafter⟩ := List.forall_mem_cons.1 hrest
  have hu : Text.Bare u := hpre.of_infix (List.suffix_append _ _).isInfix
  have hv : Text.Bare v := hpost.of_infix (List.prefix_append _ _).isInfix
  have hscan : Directive.pattern.scan (u ++ (d.source ++ v)) =
      ofText u ++ .found d :: ofText v := by
    have hlast : Directive.pattern.scan v = ofText v := Text.scan_silent_last hv.silent
    rw [← hlast]
    exact scan_inert hu (Directive.pattern.scan_of_read? (hd v))
  have hfront : ∀ token ∈ before.flatMap ofPiece ++ ofText u, token.IsText :=
    List.forall_mem_append.2 ⟨isText_of_bare hbefore
      (hpre.of_infix (List.prefix_append _ _).isInfix), isText_of_mem_ofText⟩
  have hback : ∀ token ∈ ofText v ++ after.flatMap ofPiece, token.IsText :=
    List.forall_mem_append.2 ⟨isText_of_mem_ofText, isText_of_bare hafter
      (hpost.of_infix (List.suffix_append _ _).isInfix)⟩
  rw [tokenize, hcut, List.flatMap_append, List.flatMap_cons, ofPiece, hscan, List.append_assoc,
    List.cons_append, ← List.append_assoc, Chunk.merge_append_found, merge_of_isText hfront,
    merge_of_isText hback]
  simp only [join_append, join_flatMap_ofPiece, join_ofText]

/-- The directives of a text, fenced code aside, with the offsets at which they start. -/
def sites (s : Text) : List (Nat × Directive) :=
  (locate 0 (tokenize s)).filterMap fun (offset, token) => token.item?.map (offset, ·)

theorem sites_eq {s : Text} {d : Directive}
    (h : tokenize s = ofText pre ++ .found d :: ofText post) : sites s = [(pre.length, d)] := by
  have hplain (start : Nat) (t : Text) : (locate start (ofText t)).filterMap
      (fun (offset, token) => (Chunk.item? token).map (offset, ·)) = [] := by
    unfold ofText
    split <;> rfl
  rw [sites, h, locate_append, List.filterMap_append, hplain, join_ofText, Nat.zero_add, locate]
  exact congrArg ((pre.length, d) :: ·) (hplain _ post)

end Token

/-- An include that is written on an unfenced line, between texts in which nothing looks like the
start of a directive, is the one directive that is found. It is found where it was written, and its
argument is read back as the include that it was written for. -/
theorem Include.tokenize_written {i : Include} {pre post : Text} (hi : i.IsWritable)
    (hpre : pre.Bare) (hpost : post.Bare)
    (h : ¬ Piece.Within (Piece.codeSpans
      (pre ++ ((Directive.includeFile i.argument).source ++ post))) pre.length) :
    Token.tokenize (pre ++ ((Directive.includeFile i.argument).source ++ post)) =
        Token.ofText pre ++ .found (.includeFile i.argument) :: Token.ofText post ∧
      Token.sites (pre ++ ((Directive.includeFile i.argument).source ++ post)) =
        [(pre.length, .includeFile i.argument)] ∧
      parse? i.argument = some i := by
  have hline : '\n' ∉ (Directive.includeFile i.argument).source := by
    simp [Directive.source, Directive.opener, Directive.argument?, Directive.closer, String.text,
      hi.newline]
  have htokens := Token.tokenize_of_bare hi.read?_source hline hpre hpost h
  exact ⟨htokens, Token.sites_eq htokens, hi.parse?_argument⟩

theorem Include.tokenize_written_between_fences :
    let i : Include := ⟨"parts/a.md".text, some "# Setup".text, some "##|".text⟩
    let pre := "~~~\n\x7b\n~~~\n- \x7b".text
    let post := "\x7d!)\n\x60\x60\x60\nx".text
    (i.IsWritable ∧ pre.Bare ∧ post.Bare ∧ ¬ Piece.Within (Piece.codeSpans
      (pre ++ ((Directive.includeFile i.argument).source ++ post))) pre.length) ∧
    Token.tokenize (pre ++ ((Directive.includeFile i.argument).source ++ post)) =
        [.plain pre, .found (.includeFile "parts/a.md|# Setup|##|".text), .plain post] ∧
      Token.sites (pre ++ ((Directive.includeFile i.argument).source ++ post)) =
        [(13, .includeFile "parts/a.md|# Setup|##|".text)] ∧
      parse? "parts/a.md|# Setup|##|".text = some i := by
  intro i pre post
  have hi : i.IsWritable := by
    refine ⟨by decide, by decide, by decide, ?_, ?_, by decide, by decide⟩
    · rintro _ ⟨⟩
      decide
    · rintro _ ⟨⟩
      decide
  have hpre : pre.Bare := by
    unfold Text.Bare
    decide
  have hpost : post.Bare := by
    unfold Text.Bare
    decide
  have hout : ¬ Piece.Within (Piece.codeSpans
      (pre ++ ((Directive.includeFile i.argument).source ++ post))) pre.length := by
    unfold Piece.Within
    decide +kernel
  obtain ⟨htokens, hsites, hparse⟩ := tokenize_written hi hpre hpost hout
  exact ⟨⟨hi, hpre, hpost, hout⟩, htokens, hsites, hparse⟩

end Transclude

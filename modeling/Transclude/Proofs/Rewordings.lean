import Transclude.Proofs.DirectiveReads
import Transclude.Proofs.ProseRuns

/-! A text between two directives with other words in its place. If no directive and no fence starts
in the words, and they close no argument, then the tokens around them stay as they are. -/

namespace Transclude

namespace Directive

/-- Up to a directive that is found, a scan does not depend on what stands behind, as long as no
more arguments are closed there. -/
theorem exists_of_scan {s : Text} {xs ys : List Token} {d : Directive}
    (h : pattern.scan s = xs ++ .found d :: ys) :
    ∃ r, s = Token.join xs ++ (d.source ++ r) ∧ pattern.scan r = ys ∧
      (∀ t, read? (d.source ++ t) = some (d, t)) ∧
      ∀ r', (close <:+: r' → close <:+: r) →
        pattern.scan (Token.join xs ++ (d.source ++ r')) = xs ++ .found d :: pattern.scan r' := by
  -- By length: behind a directive the scan goes on with what its reading left over.
  induction hn : s.length using Nat.strongRecOn generalizing s xs with
  | ind n ih =>
    cases s with
    | nil =>
      rw [Pattern.scan_nil] at h
      cases xs <;> cases h
    | cons c s =>
      cases hread : read? (c :: s) with
      | some found =>
        obtain ⟨e, rest⟩ := found
        have hsource := read?_source hread
        rw [pattern.scan_of_read? hread] at h
        cases xs with
        | nil =>
          obtain ⟨hd, rfl⟩ := List.cons.inj h
          obtain rfl := Chunk.found.inj hd
          refine ⟨rest, (source_of_read? hread).symm, rfl, hsource, fun r' _ => ?_⟩
          exact pattern.scan_of_read? (hsource r')
        | cons x xs =>
          obtain ⟨rfl, hrest⟩ := List.cons.inj h
          have hshort : rest.length < n := hn ▸ pattern.length_lt_of_read? hread
          obtain ⟨r, rfl, hr, hd, hscan⟩ := ih rest.length hshort hrest rfl
          refine ⟨r, ?_, hr, hd, fun r' hclose => ?_⟩
          · rw [Token.join_cons, List.append_assoc]
            exact (source_of_read? hread).symm
          · rw [Token.join_cons, List.append_assoc, List.cons_append, ← hscan r' hclose]
            exact pattern.scan_of_read? (hsource _)
      | none =>
        rw [pattern.scan_cons hread] at h
        obtain ⟨us, hus, rfl⟩ := Chunk.exists_of_pushText h
        have hshort : s.length < n := hn ▸ Nat.lt_succ_self _
        obtain ⟨r, rfl, hr, hd, hscan⟩ := ih s.length hshort hus rfl
        have hjoin : Token.join (Chunk.pushText [c] us) = c :: Token.join us :=
          Chunk.sources_pushText source [c] us
        refine ⟨r, by rw [hjoin]; rfl, hr, hd, fun r' hclose => ?_⟩
        have hends : ending <:+ c :: (Token.join us ++ d.source) :=
          (ending_suffix_source d).trans
            ((List.suffix_append _ _).trans (List.suffix_cons c _))
        have hnone : read? (c :: (Token.join us ++ (d.source ++ r'))) = none := by
          rw [← Option.not_isSome_iff_eq_none, ← List.append_assoc, ← List.cons_append]
          intro hsome
          have hhere := isSome_read?_of_tail hends hclose hsome
          rw [List.cons_append, List.append_assoc, hread] at hhere
          cases hhere
        rw [hjoin, List.cons_append, pattern.scan_cons hnone, hscan r' hclose,
          Chunk.pushText_append_found]

theorem exists_brace_source (d : Directive) : ∃ rest, d.source = '\x7b' :: rest := by
  cases d <;> exact ⟨_, rfl⟩

theorem read?_eq_none_of_start {s : Text} (h : ¬ ['\x7b', '!'] <+: s) : read? s = none := by
  have hall : ∀ k ∈ keywords, ['\x7b', '!'] <+: k := by decide
  refine read?_eq_none fun k hk => ?_
  cases hafter : s.after? k with
  | none => rfl
  | some rest => exact absurd ((hall k hk).trans ⟨rest, (Text.after?_eq_some_iff.1 hafter).symm⟩) h

end Directive

/-- Whether a text starts no directive and no fence. -/
structure Text.Inert (s : Text) : Prop where
  starts_no_directive : ¬ ['\x7b', '!'] <:+: s
  opens_no_fence : s.OpensNoFence

namespace Token

def ofText (s : Text) : List Token := if s = [] then [] else [.plain s]

@[simp] theorem join_ofText (s : Text) : join (ofText s) = s := by
  unfold ofText
  split
  · rename_i hs
    rw [hs]
    rfl
  · exact List.append_nil s

theorem pushText_ofText (s t : Text) {d : Directive} {rest : List Token} (hs : s ≠ []) :
    Chunk.pushText s (ofText t ++ .found d :: rest) = ofText (s ++ t) ++ .found d :: rest := by
  have hne : s ++ t ≠ [] := fun h => hs (List.append_eq_nil_iff.1 h).1
  unfold ofText
  rw [if_neg hne]
  split
  · rename_i ht
    rw [ht, List.append_nil]
    rfl
  · rfl

theorem scan_inert {s rest : Text} (hs : ¬ ['\x7b', '!'] <:+: s) {d : Directive} {ys : List Token}
    (hrest : Directive.pattern.scan (d.source ++ rest) = .found d :: ys) :
    Directive.pattern.scan (s ++ (d.source ++ rest)) = ofText s ++ .found d :: ys := by
  obtain ⟨brace, hbrace⟩ := d.exists_brace_source
  induction s with
  | nil => exact hrest
  | cons c s ih =>
    have hnone : Directive.read? (c :: (s ++ (d.source ++ rest))) = none := by
      refine Directive.read?_eq_none_of_start fun hstart => hs ?_
      cases s with
      | nil =>
        rw [List.nil_append, hbrace] at hstart
        simp at hstart
      | cons b s =>
        simp only [List.cons_append, List.cons_prefix_cons, List.nil_prefix, and_true] at hstart
        obtain ⟨rfl, rfl⟩ := hstart
        exact ⟨[], s, rfl⟩
    rw [List.cons_append, Directive.pattern.scan_cons hnone,
      ih fun h => hs (h.trans (List.suffix_cons c s).isInfix)]
    exact pushText_ofText [c] s (List.cons_ne_nil c [])

theorem merge_ofText (s : Text) (d : Directive) (rest : List Token) :
    Chunk.merge (ofText s ++ .found d :: rest) = ofText s ++ .found d :: Chunk.merge rest := by
  rw [Chunk.merge_append_found]
  unfold ofText
  split <;> rfl

theorem exists_of_flatMap {ps : List Piece} {us vs : List Token} {d : Directive}
    (h : ps.flatMap ofPiece = us ++ .found d :: vs) :
    ∃ before t behind xs ys, ps = before ++ .prose t :: behind ∧
      Directive.pattern.scan t = xs ++ .found d :: ys ∧ us = before.flatMap ofPiece ++ xs ∧
      vs = ys ++ behind.flatMap ofPiece := by
  induction ps generalizing us with
  | nil => cases us <;> cases h
  | cons p ps ih =>
    rw [List.flatMap_cons] at h
    rcases List.append_eq_append_iff.1 h with ⟨more, rfl, hrest⟩ | ⟨more, hp, hrest⟩
    · obtain ⟨before, t, behind, xs, ys, rfl, ht, rfl, rfl⟩ := ih hrest
      exact ⟨p :: before, t, behind, xs, ys, rfl, ht, by simp, rfl⟩
    · cases more with
      | nil =>
        obtain ⟨before, t, behind, xs, ys, rfl, ht, hnil, rfl⟩ := @ih [] hrest.symm
        refine ⟨p :: before, t, behind, xs, ys, rfl, ht, ?_, rfl⟩
        rw [List.flatMap_cons, hp, List.append_nil, List.append_assoc, ← hnil, List.append_nil]
      | cons token more =>
        obtain ⟨rfl, rfl⟩ := List.cons.inj hrest
        cases p with
        | prose t => exact ⟨[], t, ps, us, more, rfl, hp, rfl, rfl⟩
        | code t => rcases us with _ | ⟨_, _ | _⟩ <;> cases hp

end Token

/-- A text between two directives, and the words that are put in its place. -/
structure Rewording where
  before : List Token
  opener : Directive
  old : Text
  new : Text
  closer : Directive
  behind : List Token
  inert_old : old.Inert
  inert_new : new.Inert
  closes_no_argument : ¬ Directive.close <:+: new
  tokenize_join : Token.tokenize (Token.join (before ++ [.found opener]) ++
    (old ++ Token.join (.found closer :: behind))) =
      before ++ [.found opener] ++ (Token.ofText old ++ .found closer :: behind)

namespace Rewording

variable (w : Rewording)

def front : List Token := w.before ++ [.found w.opener]

def rest : List Token := .found w.closer :: w.behind

def source : Text := Token.join w.front ++ (w.old ++ Token.join w.rest)

def target : Text := Token.join w.front ++ (w.new ++ Token.join w.rest)

theorem tokenize_source : Token.tokenize w.source = w.front ++ (Token.ofText w.old ++ w.rest) :=
  w.tokenize_join

theorem getLast?_source (d : Directive) : d.source.getLast? = some '\x7d' := by
  obtain ⟨start, hstart⟩ := d.ending_suffix_source
  rw [← hstart]
  simp [Directive.ending]

theorem opensNoFence_swap {a b : Text}
    (h : Text.OpensNoFence (a ++ (w.opener.source ++ (w.old ++ (w.closer.source ++ b))))) :
    Text.OpensNoFence (a ++ (w.opener.source ++ (w.new ++ (w.closer.source ++ b)))) := by
  obtain ⟨start, hstart⟩ := w.opener.ending_suffix_source
  obtain ⟨brace, hbrace⟩ := w.closer.exists_brace_source
  have hsplit (s : Text) : a ++ (w.opener.source ++ (s ++ (w.closer.source ++ b))) =
      (a ++ start ++ ['!']) ++ '\x7d' :: s ++ '\x7b' :: (brace ++ b) := by
    rw [← hstart, hbrace]
    simp [Directive.ending]
  rw [hsplit, Text.opensNoFence_append (.inl rfl), Text.opensNoFence_append (.inr rfl)] at h ⊢
  exact ⟨⟨h.1.1, fun row hrow => w.inert_new.opens_no_fence row (List.mem_of_mem_tail hrow)⟩, h.2⟩

theorem close_infix_of_swap {b : Text}
    (h : Directive.close <:+: w.new ++ (w.closer.source ++ b)) :
    Directive.close <:+: w.old ++ (w.closer.source ++ b) := by
  rcases List.infix_append_iff.1 h with h | h | ⟨front, back, hclose, hfront, hback⟩
  · exact absurd h w.closes_no_argument
  · exact h.trans (List.suffix_append _ _).isInfix
  · cases back with
    | nil =>
      rw [List.append_nil] at hclose
      exact absurd (hclose ▸ hfront.isInfix) w.closes_no_argument
    | cons c back =>
      obtain ⟨brace, hbrace⟩ := w.closer.exists_brace_source
      rw [hbrace, List.cons_append, List.cons_prefix_cons] at hback
      have hmem : c ∈ Directive.close := hclose ▸ List.mem_append_right front List.mem_cons_self
      rw [hback.1] at hmem
      exact absurd hmem (by decide)

/-- The words end in the prose that they start in: a fence in between would start in them. -/
theorem not_found_behind_prose {start r : Text} {others : List Piece} {more rest : List Token}
    (hwords : r ++ Token.join more = w.old)
    (hlast : (start ++ (w.opener.source ++ r)).getLast? = some '\n')
    (hfence : ∀ row ∈ (Text.rows (others.flatMap Piece.text)).head?, Fence.opening? row ≠ none) :
    others.flatMap Token.ofPiece ≠ more ++ .found w.closer :: rest := by
  intro hothers
  have hrlast : r.getLast? = some '\n' := by
    rw [List.getLast?_append, List.getLast?_append, getLast?_source] at hlast
    cases hr : r.getLast? with
    | none =>
      rw [hr] at hlast
      cases hlast
    | some c =>
      rw [hr] at hlast
      exact hlast
  have htext : others.flatMap Piece.text =
      Token.join more ++ (w.closer.source ++ Token.join rest) := by
    rw [← Token.join_flatMap_ofPiece, hothers, Token.join_append, Token.join_cons]
    rfl
  obtain ⟨brace, hbrace⟩ := w.closer.exists_brace_source
  rw [htext, hbrace, List.cons_append] at hfence
  obtain ⟨row, hrow⟩ : ∃ row, (Text.rows (Token.join more ++
      '\x7b' :: (brace ++ Token.join rest))).head? = some row := by
    obtain ⟨row, rows, hrows⟩ := List.exists_cons_of_ne_nil (Text.rows_ne_nil _)
    exact ⟨row, by rw [hrows]; rfl⟩
  refine hfence row hrow ?_
  exact Text.opening?_of_opensNoFence hrlast (hwords ▸ w.inert_old.opens_no_fence) (.inl rfl) _ row
    hrow

/-- The prose that the words stand in has both directives in it, and they are found there around the
other words too. -/
theorem exists_prose :
    ∃ pieces xs tail others,
      Piece.cut w.source = pieces ++ .prose (Token.join xs ++ (w.opener.source ++
        (w.old ++ (w.closer.source ++ tail)))) :: others ∧
      Directive.pattern.scan (Token.join xs ++ (w.opener.source ++
        (w.new ++ (w.closer.source ++ tail)))) = xs ++ .found w.opener :: (Token.ofText w.new ++
          .found w.closer :: Directive.pattern.scan tail) ∧
      Chunk.merge (pieces.flatMap Token.ofPiece ++ xs) = w.before ∧
      Chunk.merge (Directive.pattern.scan tail ++ others.flatMap Token.ofPiece) = w.behind := by
  have hmerged : Chunk.merge ((Piece.cut w.source).flatMap Token.ofPiece) =
      w.before ++ .found w.opener :: (Token.ofText w.old ++ .found w.closer :: w.behind) := by
    have htokens := w.tokenize_source
    rw [front, List.append_assoc] at htokens
    exact htokens
  obtain ⟨us, vs, hl, hbefore, hvs⟩ := Chunk.exists_of_merge hmerged
  obtain ⟨pieces, t, others, xs, ys, hcut, hscan, rfl, rfl⟩ := Token.exists_of_flatMap hl
  obtain ⟨r, rfl, rfl, -, hrescan⟩ := Directive.exists_of_scan hscan
  obtain ⟨us, vs, hclosers, hold, hbehind⟩ := Chunk.exists_of_merge hvs
  have hjoin : Token.join us = w.old := by
    rw [← Token.join_ofText w.old, ← hold]
    exact (Chunk.sources_merge _ us).symm
  have hr : Token.join (Directive.pattern.scan r) = r := Directive.pattern.sources_scan r
  -- The closer is not found in a later piece: a fence would stand between it and the words.
  have houtside (more : List Token) (hwords : r ++ Token.join more = w.old) :
      others.flatMap Token.ofPiece ≠ more ++ .found w.closer :: vs := by
    intro hothers
    have hne : others ≠ [] := by
      rintro rfl
      cases more <;> cases hothers
    obtain ⟨above, inner, below, hlines⟩ := Piece.exists_proseLines hcut
    obtain ⟨hlast, hfence⟩ := hlines.opens_behind hne
    exact w.not_found_behind_prose hwords hlast hfence hothers
  rcases List.append_eq_append_iff.1 hclosers with ⟨more, rfl, hothers⟩ | ⟨more, hscanned, hothers⟩
  · refine absurd hothers (houtside more ?_)
    rw [← hjoin, Token.join_append, hr]
  · cases more with
    | nil =>
      refine absurd hothers.symm (houtside [] ?_)
      rw [← hjoin, ← List.append_nil us, ← hscanned, hr]
      exact List.append_nil r
    | cons token more =>
      obtain ⟨rfl, rfl⟩ := List.cons.inj hothers
      obtain ⟨tail, rfl, rfl, hcloser, -⟩ := Directive.exists_of_scan hscanned
      have hrest := Directive.pattern.scan_of_read? (hcloser tail)
      refine ⟨pieces, xs, tail, others, by rw [hcut, hjoin], ?_, hbefore, hbehind⟩
      rw [hjoin] at hrescan
      rw [hrescan _ w.close_infix_of_swap,
        Token.scan_inert w.inert_new.starts_no_directive hrest]

theorem tokenize_target : Token.tokenize w.target = w.front ++ (Token.ofText w.new ++ w.rest) := by
  obtain ⟨pieces, xs, tail, others, hcut, hscan, hbefore, hbehind⟩ := w.exists_prose
  obtain ⟨above, inner, below, hlines⟩ := Piece.exists_proseLines hcut
  have htarget : w.target = pieces.flatMap Piece.text ++ (Token.join xs ++ (w.opener.source ++
      (w.new ++ (w.closer.source ++ tail))) ++ others.flatMap Piece.text) := by
    have hmerge (tokens : List Token) : Token.join (Chunk.merge tokens) = Token.join tokens :=
      Chunk.sources_merge _ tokens
    have htail : Token.join (Directive.pattern.scan tail) = tail :=
      Directive.pattern.sources_scan tail
    rw [target, front, rest, ← hbefore, ← hbehind]
    simp only [Token.join_append, Token.join_cons, Token.join_nil, hmerge,
      Token.join_flatMap_ofPiece, htail, List.append_assoc, List.append_nil]
    rfl
  have hlast (s : Text) : List.getLast? (Token.join xs ++ (w.opener.source ++
      (s ++ (w.closer.source ++ tail)))) = (tail.getLast?.or (some '\x7d')) := by
    simp only [List.getLast?_append, getLast?_source]
    cases tail.getLast? <;> rfl
  have hnew := hlines.cut_swap (by simp [Directive.source_ne_nil])
    ((hlast w.new).trans (hlast w.old).symm) (w.opensNoFence_swap hlines.opensNoFence)
  rw [htarget, Token.tokenize, hnew, List.flatMap_append, List.flatMap_cons]
  change Chunk.merge (_ ++ (Directive.pattern.scan _ ++ _)) = _
  rw [hscan, front, rest, ← hbefore, ← hbehind, List.append_assoc, ← List.append_assoc _ xs,
    List.cons_append, Chunk.merge_append_found, List.append_assoc, List.cons_append,
    Token.merge_ofText, List.append_assoc]
  rfl

-- An argument that is left open in front of a directive ends at the first words that close one.
example :
    Token.tokenize "\x7b!include(a\x7b!if x=1!\x7dwords".text =
        [.plain "\x7b!include(a".text, .found (.ifHolds [' '] "x=1".text), .plain "words".text] ∧
      Token.tokenize "\x7b!include(a\x7b!if x=1!\x7d)!\x7d".text =
        [.found (.includeFile "a\x7b!if x=1!\x7d".text)] := by
  decide +kernel

end Rewording

end Transclude

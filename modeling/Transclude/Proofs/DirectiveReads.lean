import Mathlib.Data.List.TakeWhile
import Transclude.Proofs.ArgumentEnds

/-! A directive is read from its own characters, whatever stands behind them. What stands behind a
text that ends like a directive can only make one of it by closing an argument. -/

namespace Transclude

namespace Text

theorem cut?_before {mark s before rest : Text} (h : cut? mark s = some (before, rest)) (t : Text) :
    cut? mark (before ++ mark ++ t) = some (before, t) := by
  induction s generalizing before with
  | nil =>
    unfold cut? at h
    split at h
    · rename_i hmark
      obtain ⟨rfl, -⟩ := Prod.mk.inj (Option.some.inj h)
      subst hmark
      cases t <;> rfl
    · cases h
  | cons c s ih =>
    have hwhole := append_of_cut? h
    unfold cut? at h
    split at h
    · obtain ⟨rfl, -⟩ := Prod.mk.inj (Option.some.inj h)
      cases mark with
      | nil => cases t <;> rfl
      | cons a mark =>
        have hfound : after? ((a :: mark) ++ t) (a :: mark) = some t := after?_append _ t
        rw [List.nil_append, List.cons_append, cut?]
        rw [List.cons_append] at hfound
        rw [hfound]
    · rename_i hnone
      obtain ⟨⟨b, r⟩, hcut, heq⟩ := Option.map_eq_some_iff.1 h
      obtain ⟨rfl, rfl⟩ := Prod.mk.inj heq
      have hlate : after? (c :: (b ++ mark ++ t)) mark = none := by
        cases hafter : after? (c :: (b ++ mark ++ t)) mark with
        | none => rfl
        | some u =>
          -- So short a mark would stand in front of the whole text as well.
          have hfront : mark <+: (c :: (b ++ mark)) ++ t := ⟨u, (after?_eq_some_iff.1 hafter).symm⟩
          have hlength : mark.length ≤ (c :: (b ++ mark)).length := by
            simp only [List.length_cons, List.length_append]
            omega
          obtain ⟨v, hv⟩ := List.prefix_of_prefix_length_le hfront (List.prefix_append _ _) hlength
          have hs : c :: s = mark ++ (v ++ r) := by
            rw [← hwhole, ← List.append_assoc, hv]
            rfl
          rw [hs, after?_append] at hnone
          cases hnone
      rw [List.cons_append, List.cons_append, cut?, hlate, ih hcut]
      rfl

theorem spanBlanks_eq_iff {s gap body : Text} :
    s.spanBlanks = (gap, body) ↔
      s = gap ++ body ∧ gap.allBlank ∧ ∀ c ∈ body.head?, isBlank c = false := by
  constructor
  · intro h
    obtain ⟨hgap, hbody⟩ := Prod.mk.inj h
    refine ⟨?_, ?_, ?_⟩
    · rw [← hgap, ← hbody]
      exact List.takeWhile_append_dropWhile.symm
    · rw [← hgap]
      exact List.all_eq_true.2 fun c hc => List.mem_takeWhile_imp hc
    · intro c hc
      have hstop := List.head?_dropWhile_not isBlank s
      rw [hbody, Option.mem_def.1 hc] at hstop
      simpa using hstop
  · rintro ⟨rfl, hgap, hbody⟩
    have hall : ∀ c ∈ gap, isBlank c := List.all_eq_true.1 hgap
    rw [spanBlanks, List.takeWhile_append_of_pos hall, List.dropWhile_append_of_pos hall]
    cases body with
    | nil => rw [List.takeWhile_nil, List.dropWhile_nil, List.append_nil]
    | cons c body =>
      have hc : ¬ isBlank c := by simp [hbody c rfl]
      rw [List.takeWhile_cons_of_neg hc, List.dropWhile_cons_of_neg hc, List.append_nil]

end Text

namespace Directive

def readLike? : Directive → Text → Option (Directive × Text)
  | .includeFile _ => readEnclosed? .includeFile
  | .valueOf _ => readEnclosed? .valueOf
  | .ifHolds _ _ => readSpaced? .ifHolds
  | .elseIf _ _ => readSpaced? .elseIf
  | .otherwise => readFixed? .otherwise
  | .endIf => readFixed? .endIf
  | .listTable _ => readEnclosed? .listTable

variable {s r : Text} {d : Directive}

theorem readEnclosed?_eq_some_iff {make : Text → Directive} :
    readEnclosed? make s = some (d, r) ↔
      ∃ body argument, s = (make []).opener ++ body ∧
        Text.cut? (make []).closer body = some (argument, r) ∧ d = make argument := by
  unfold readEnclosed?
  constructor
  · intro h
    split at h
    · cases h
    · rename_i body hbody
      obtain ⟨⟨argument, rest⟩, hcut, heq⟩ := Option.map_eq_some_iff.1 h
      obtain ⟨rfl, rfl⟩ := Prod.mk.inj heq
      exact ⟨body, argument, Text.after?_eq_some_iff.1 hbody, hcut, rfl⟩
  · rintro ⟨body, argument, rfl, hcut, rfl⟩
    rw [Text.after?_append]
    exact Option.map_eq_some_iff.2 ⟨_, hcut, rfl⟩

theorem readSpaced?_eq_some_iff {make : Text → Text → Directive} :
    readSpaced? make s = some (d, r) ↔
      ∃ gap body argument, s = (make [] []).opener ++ (gap ++ body) ∧ gap ≠ [] ∧
        (gap ++ body).spanBlanks = (gap, body) ∧
        Text.cut? (make [] []).closer body = some (argument, r) ∧ d = make gap argument := by
  unfold readSpaced?
  constructor
  · intro h
    split at h
    · cases h
    · rename_i body hbody
      dsimp only at h
      split at h
      · cases h
      · rename_i hgap
        obtain ⟨⟨argument, rest⟩, hcut, heq⟩ := Option.map_eq_some_iff.1 h
        obtain ⟨rfl, rfl⟩ := Prod.mk.inj heq
        refine ⟨_, _, argument, ?_, hgap, ?_, hcut, rfl⟩
        · rw [Text.spanBlanks_append]
          exact Text.after?_eq_some_iff.1 hbody
        · rw [Text.spanBlanks_append]
  · rintro ⟨gap, body, argument, rfl, hgap, hspan, hcut, rfl⟩
    rw [Text.after?_append]
    dsimp only
    rw [hspan]
    dsimp only
    rw [if_neg hgap, hcut]
    rfl

theorem readFixed?_eq_some_iff {e : Directive} :
    readFixed? e s = some (d, r) ↔ s = e.opener ++ r ∧ d = e := by
  unfold readFixed?
  rw [Option.map_eq_some_iff]
  constructor
  · rintro ⟨rest, hrest, heq⟩
    obtain ⟨rfl, rfl⟩ := Prod.mk.inj heq
    exact ⟨Text.after?_eq_some_iff.1 hrest, rfl⟩
  · rintro ⟨rfl, rfl⟩
    exact ⟨r, Text.after?_append _ r, rfl⟩

theorem readLike?_of_read? (h : read? s = some (d, r)) : readLike? d s = some (d, r) := by
  simp only [read?, Option.orElse_eq_orElse, Option.orElse_eq_or, Option.or_eq_some_iff] at h
  rcases h with h | ⟨_, h | ⟨_, h | ⟨_, h | ⟨_, h | ⟨_, h | ⟨_, h⟩⟩⟩⟩⟩⟩
  · obtain ⟨_, _, _, _, rfl⟩ := readEnclosed?_eq_some_iff.1 h
    exact h
  · obtain ⟨_, _, _, _, rfl⟩ := readEnclosed?_eq_some_iff.1 h
    exact h
  · obtain ⟨_, _, _, _, _, _, _, rfl⟩ := readSpaced?_eq_some_iff.1 h
    exact h
  · obtain ⟨_, _, _, _, _, _, _, rfl⟩ := readSpaced?_eq_some_iff.1 h
    exact h
  · obtain ⟨_, rfl⟩ := readFixed?_eq_some_iff.1 h
    exact h
  · obtain ⟨_, rfl⟩ := readFixed?_eq_some_iff.1 h
    exact h
  · obtain ⟨_, _, _, _, rfl⟩ := readEnclosed?_eq_some_iff.1 h
    exact h

/-- No two forms start alike, so what reads as a form is read as that. -/
theorem read?_of_readLike? {e : Directive} (h : readLike? e s = some (d, r)) :
    read? s = some (d, r) := by
  cases e with
  | includeFile a =>
    have hread : readEnclosed? .includeFile s = some (d, r) := h
    simp only [read?, hread]
    rfl
  | valueOf a =>
    have hread : readEnclosed? .valueOf s = some (d, r) := h
    obtain ⟨body, _, rfl, -, -⟩ := readEnclosed?_eq_some_iff.1 hread
    simp only [read?, hread]
    rfl
  | ifHolds g a =>
    have hread : readSpaced? .ifHolds s = some (d, r) := h
    obtain ⟨_, _, _, rfl, -⟩ := readSpaced?_eq_some_iff.1 hread
    simp only [read?, hread]
    rfl
  | elseIf g a =>
    have hread : readSpaced? .elseIf s = some (d, r) := h
    obtain ⟨_, _, _, rfl, -⟩ := readSpaced?_eq_some_iff.1 hread
    simp only [read?, hread]
    rfl
  | otherwise =>
    have hread : readFixed? .otherwise s = some (d, r) := h
    obtain ⟨rfl, -⟩ := readFixed?_eq_some_iff.1 hread
    simp only [read?, hread]
    rfl
  | endIf =>
    have hread : readFixed? .endIf s = some (d, r) := h
    obtain ⟨rfl, -⟩ := readFixed?_eq_some_iff.1 hread
    simp only [read?, hread]
    rfl
  | listTable a =>
    have hread : readEnclosed? .listTable s = some (d, r) := h
    obtain ⟨body, _, rfl, -, -⟩ := readEnclosed?_eq_some_iff.1 hread
    simp only [read?, hread]
    rfl

theorem readEnclosed?_source {make : Text → Directive}
    (hm : ∀ a, (make a).source = (make []).opener ++ (a ++ (make []).closer))
    (h : readEnclosed? make s = some (d, r)) (t : Text) :
    readEnclosed? make (d.source ++ t) = some (d, t) := by
  obtain ⟨body, argument, rfl, hcut, rfl⟩ := readEnclosed?_eq_some_iff.1 h
  refine readEnclosed?_eq_some_iff.2 ⟨_, argument, ?_, Text.cut?_before hcut t, rfl⟩
  rw [hm, List.append_assoc]

theorem readSpaced?_source {make : Text → Text → Directive}
    (hm : ∀ g a, (make g a).source = (make [] []).opener ++ (g ++ (a ++ (make [] []).closer)))
    (hc : ∃ c rest, (make [] []).closer = c :: rest ∧ Text.isBlank c = false)
    (h : readSpaced? make s = some (d, r)) (t : Text) :
    readSpaced? make (d.source ++ t) = some (d, t) := by
  obtain ⟨gap, body, argument, rfl, hgap, hspan, hcut, rfl⟩ := readSpaced?_eq_some_iff.1 h
  obtain ⟨-, hblank, hhead⟩ := Text.spanBlanks_eq_iff.1 hspan
  refine readSpaced?_eq_some_iff.2
    ⟨gap, _, argument, ?_, hgap, Text.spanBlanks_eq_iff.2 ⟨rfl, hblank, ?_⟩,
      Text.cut?_before hcut t, rfl⟩
  · rw [hm, List.append_assoc, List.append_assoc]
  · rw [← Text.append_of_cut? hcut] at hhead
    obtain ⟨c, rest, hcloser, hc⟩ := hc
    rw [hcloser] at hhead ⊢
    cases argument with
    | nil =>
      intro b hb
      obtain rfl := Option.some.inj hb
      exact hc
    | cons a argument => exact hhead

theorem read?_source (h : read? s = some (d, r)) (t : Text) :
    read? (d.source ++ t) = some (d, t) := by
  have hlike := readLike?_of_read? h
  refine read?_of_readLike? (e := d) ?_
  cases d with
  | includeFile a => exact readEnclosed?_source (fun _ => List.append_assoc _ _ _) hlike t
  | valueOf a => exact readEnclosed?_source (fun _ => List.append_assoc _ _ _) hlike t
  | ifHolds g a =>
    exact readSpaced?_source (fun _ _ => by simp [source, opener, argument?, closer])
      ⟨'!', ['\x7d'], rfl, by decide⟩ hlike t
  | elseIf g a =>
    exact readSpaced?_source (fun _ _ => by simp [source, opener, argument?, closer])
      ⟨'!', ['\x7d'], rfl, by decide⟩ hlike t
  | otherwise => exact readFixed?_eq_some_iff.2 ⟨by simp [source, closer, argument?], rfl⟩
  | endIf => exact readFixed?_eq_some_iff.2 ⟨by simp [source, closer, argument?], rfl⟩
  | listTable a => exact readEnclosed?_source (fun _ => List.append_assoc _ _ _) hlike t

def ending : Text := ['!', '\x7d']

theorem ending_suffix_source (d : Directive) : ending <:+ d.source := by
  have hclose : ending <:+ close := by decide
  cases d with
  | includeFile a => exact hclose.trans (List.suffix_append _ _)
  | valueOf a => exact hclose.trans (List.suffix_append _ _)
  | ifHolds g a => exact List.suffix_append _ _
  | elseIf g a => exact List.suffix_append _ _
  | otherwise => decide
  | endIf => decide
  | listTable a => exact hclose.trans (List.suffix_append _ _)

theorem brace_mem_of_ending_suffix {w : Text} (h : ending <:+ w) : '\x7d' ∈ w :=
  h.subset (by decide)

theorem close_infix_append {u v : Text} (hu : ∀ c ∈ u.getLast?, c = '\x7d')
    (h : close <:+: u ++ v) : close <:+: u ∨ close <:+: v := by
  rcases List.infix_append_iff.1 h with h | h | ⟨front, back, hclose, hfront, hback⟩
  · exact .inl h
  · exact .inr h
  · rcases List.eq_nil_or_concat front with rfl | ⟨start, c, rfl⟩
    · rw [List.nil_append] at hclose
      exact .inr (hclose ▸ hback.isInfix)
    · -- The one brace of the mark is its last character, so all of it stands in `u`.
      obtain ⟨more, rfl⟩ := hfront
      obtain rfl : c = '\x7d' := hu c (by simp)
      have hback : back = [] := by
        cases back with
        | nil => rfl
        | cons a back =>
          have hbrace : '\x7d' ∈ close.dropLast := by
            rw [hclose, List.dropLast_append_cons]
            simp
          exact absurd hbrace (by decide)
      rw [hback, List.append_nil] at hclose
      exact .inl (hclose ▸ (List.suffix_append more _).isInfix)

variable {w v v' : Text}

theorem exists_of_opener {opener body : Text} (hw : '\x7d' ∈ w) (ho : '\x7d' ∉ opener)
    (h : w ++ v = opener ++ body) : ∃ u, w = opener ++ u ∧ body = u ++ v := by
  rcases List.append_eq_append_iff.1 h with ⟨more, hmore, -⟩ | h
  · rw [hmore] at ho
    exact absurd (List.mem_append_left more hw) ho
  · exact h

theorem isSome_readEnclosed?_of_tail {make : Text → Directive} (ho : '\x7d' ∉ (make []).opener)
    (hc : (make []).closer = close) (hw : ending <:+ w) (hv : close <:+: v' → close <:+: v)
    (h : (readEnclosed? make (w ++ v')).isSome) : (readEnclosed? make (w ++ v)).isSome := by
  obtain ⟨⟨d, r⟩, hread⟩ := Option.isSome_iff_exists.1 h
  obtain ⟨body, argument, hs, hcut, -⟩ := readEnclosed?_eq_some_iff.1 hread
  obtain ⟨u, rfl, rfl⟩ := exists_of_opener (brace_mem_of_ending_suffix hw) ho hs
  have hlast : ∀ c ∈ u.getLast?, c = '\x7d' := by
    intro c hc
    obtain ⟨start, hstart⟩ := hw
    obtain ⟨front, rfl⟩ := List.getLast?_eq_some_iff.1 hc
    have hsame := congrArg List.getLast? hstart
    simpa [ending] using hsame.symm
  have hclosed : (u ++ v).contains close := by
    rw [Text.contains_iff]
    have hfound : close <:+: u ++ v' := hc ▸ ⟨argument, r, Text.append_of_cut? hcut⟩
    rcases close_infix_append hlast hfound with hin | hin
    · exact hin.trans (List.prefix_append u v).isInfix
    · exact (hv hin).trans (List.suffix_append u v).isInfix
  obtain ⟨⟨argument', r'⟩, hcut'⟩ := Option.isSome_iff_exists.1 hclosed
  have hread' := readEnclosed?_eq_some_iff.2
    ⟨u ++ v, argument', List.append_assoc _ _ _, hc.symm ▸ hcut', rfl⟩
  rw [hread']
  rfl

theorem not_mem_of_allBlank {gap : Text} (h : gap.allBlank) {c : Char} (hc : Text.isBlank c = false) :
    c ∉ gap := by
  intro hmem
  have hin := List.all_eq_true.1 h c hmem
  rw [hc] at hin
  cases hin

theorem ending_suffix_of_gap {front gap b : Text} (hgap : gap ≠ []) (hblank : gap.allBlank)
    (hb : b ≠ []) (h : ending <:+ front ++ (gap ++ b)) : ending <:+ b := by
  obtain ⟨start, hstart⟩ := h
  rw [← List.append_assoc] at hstart
  rcases List.append_eq_append_iff.1 hstart with ⟨more, hmore, hends⟩ | ⟨more, -, hends⟩
  · rcases more with _ | ⟨c, _ | ⟨e, more⟩⟩
    · exact ⟨[], hends⟩
    · obtain ⟨rfl, -⟩ := List.cons.inj hends
      have hlast := congrArg List.getLast? hmore
      rw [List.getLast?_append, List.getLast?_concat, List.getLast?_eq_some_getLast hgap] at hlast
      have hin := List.getLast_mem hgap
      rw [Option.some.inj hlast] at hin
      exact absurd hin (not_mem_of_allBlank hblank (by decide))
    · have hnil : more ++ b = [] := (List.cons.inj (List.cons.inj hends).2).2.symm
      exact absurd (List.append_eq_nil_iff.1 hnil).2 hb
  · exact ⟨more, hends.symm⟩

theorem isSome_readSpaced?_of_tail {make : Text → Text → Directive}
    (ho : '\x7d' ∉ (make [] []).opener) (hc : (make [] []).closer = ending) (hw : ending <:+ w)
    (h : (readSpaced? make (w ++ v')).isSome) : (readSpaced? make (w ++ v)).isSome := by
  obtain ⟨⟨d, r⟩, hread⟩ := Option.isSome_iff_exists.1 h
  obtain ⟨gap, body, argument, hs, hgap, hspan, hcut, -⟩ := readSpaced?_eq_some_iff.1 hread
  obtain ⟨-, hblank, hhead⟩ := Text.spanBlanks_eq_iff.1 hspan
  have hgapbrace : '\x7d' ∉ gap := not_mem_of_allBlank hblank (by decide)
  have hbrace := brace_mem_of_ending_suffix hw
  obtain ⟨u, rfl, hu⟩ := exists_of_opener hbrace ho hs
  obtain ⟨b, rfl, rfl⟩ := exists_of_opener ((List.mem_append.1 hbrace).resolve_left ho)
    hgapbrace hu.symm
  have hb : b ≠ [] := by
    rintro rfl
    rw [List.append_nil] at hbrace
    exact (List.mem_append.1 hbrace).elim ho hgapbrace
  have hends : ending <:+ b := ending_suffix_of_gap hgap hblank hb hw
  have hspan' : (gap ++ (b ++ v)).spanBlanks = (gap, b ++ v) := by
    refine Text.spanBlanks_eq_iff.2 ⟨rfl, hblank, ?_⟩
    obtain ⟨c, b, rfl⟩ := List.exists_cons_of_ne_nil hb
    exact hhead
  have hclosed : (b ++ v).contains ending :=
    Text.contains_iff.2 (hends.isInfix.trans (List.prefix_append b v).isInfix)
  obtain ⟨⟨argument', r'⟩, hcut'⟩ := Option.isSome_iff_exists.1 hclosed
  have hs' : (make [] []).opener ++ (gap ++ b) ++ v = (make [] []).opener ++ (gap ++ (b ++ v)) := by
    rw [List.append_assoc, List.append_assoc]
  have hread' := readSpaced?_eq_some_iff.2
    ⟨gap, b ++ v, argument', hs', hgap, hspan', hc.symm ▸ hcut', rfl⟩
  rw [hread']
  rfl

theorem isSome_readFixed?_of_tail {e : Directive} {front : Text}
    (ho : e.opener = front ++ ['\x7d']) (hf : '\x7d' ∉ front) (hw : ending <:+ w)
    (h : (readFixed? e (w ++ v')).isSome) : (readFixed? e (w ++ v)).isSome := by
  obtain ⟨⟨d, r⟩, hread⟩ := Option.isSome_iff_exists.1 h
  obtain ⟨hs, -⟩ := readFixed?_eq_some_iff.1 hread
  rw [ho, List.append_assoc] at hs
  obtain ⟨u, rfl, hu⟩ := exists_of_opener (brace_mem_of_ending_suffix hw) hf hs
  obtain ⟨u, rfl⟩ : ∃ u', u = '\x7d' :: u' := by
    cases u with
    | nil =>
      have hbrace := brace_mem_of_ending_suffix hw
      rw [List.append_nil] at hbrace
      exact absurd hbrace hf
    | cons c u =>
      obtain ⟨rfl, -⟩ := List.cons.inj hu
      exact ⟨u, rfl⟩
  have hread' := readFixed?_eq_some_iff.2 (⟨by simp [ho], rfl⟩ :
    (front ++ '\x7d' :: u) ++ v = e.opener ++ (u ++ v) ∧ e = e)
  rw [hread']
  rfl

/-- Behind a text that ends like a directive, other text can only make a directive of it by closing
an argument. -/
theorem isSome_read?_of_tail (hw : ending <:+ w) (hv : close <:+: v' → close <:+: v)
    (h : (read? (w ++ v')).isSome) : (read? (w ++ v)).isSome := by
  obtain ⟨⟨d, r⟩, hread⟩ := Option.isSome_iff_exists.1 h
  have hlike := readLike?_of_read? hread
  have hthere : (readLike? d (w ++ v')).isSome := by
    rw [hlike]
    rfl
  have hhere : (readLike? d (w ++ v)).isSome := by
    cases d with
    | includeFile a => exact isSome_readEnclosed?_of_tail (by decide) rfl hw hv hthere
    | valueOf a => exact isSome_readEnclosed?_of_tail (by decide) rfl hw hv hthere
    | ifHolds g a => exact isSome_readSpaced?_of_tail (by decide) rfl hw hthere
    | elseIf g a => exact isSome_readSpaced?_of_tail (by decide) rfl hw hthere
    | otherwise =>
      have hopener : otherwise.opener = "\x7b!else!".text ++ ['\x7d'] := by decide
      exact isSome_readFixed?_of_tail hopener (by decide) hw hthere
    | endIf =>
      have hopener : endIf.opener = "\x7b!endif!".text ++ ['\x7d'] := by decide
      exact isSome_readFixed?_of_tail hopener (by decide) hw hthere
    | listTable a => exact isSome_readEnclosed?_of_tail (by decide) rfl hw hv hthere
  obtain ⟨⟨e, r'⟩, hfound⟩ := Option.isSome_iff_exists.1 hhere
  rw [read?_of_readLike? hfound]
  rfl

end Directive
end Transclude

import Transclude.Proofs.TokenPasses

/-! Where a directive ends. The mark behind the arguments ends whatever directive may have started
in front of it, so a directive on the next line is always found. -/

namespace Transclude

namespace Directive

def close : Text := [')', '!', '\x7d']

theorem exists_of_after? {opener u t body : Text} (ho : ')' ∉ opener)
    (h : Text.after? (u ++ close ++ t) opener = some body) : ∃ w, body = w ++ close ++ t := by
  have heq := Text.after?_eq_some_iff.1 h
  rw [List.append_assoc] at heq
  rcases List.append_eq_append_iff.1 heq with ⟨more, hopener, hbody⟩ | ⟨w, -, hbody⟩
  · cases more with
    | nil => exact ⟨[], hbody.symm⟩
    | cons c more =>
      obtain ⟨rfl, -⟩ := List.cons.inj hbody
      rw [hopener] at ho
      exact absurd (List.mem_append_right u List.mem_cons_self) ho
  · refine ⟨w, ?_⟩
    rw [List.append_assoc]
    exact hbody

theorem exists_cut? {mark : Text} (hm : mark <:+ close) (w t : Text) :
    ∃ a r, Text.cut? mark (w ++ close ++ t) = some (a, r ++ t) := by
  have hends : (w ++ close).contains mark :=
    Text.contains_iff.2 (hm.trans (List.suffix_append w close)).isInfix
  obtain ⟨⟨a, r⟩, hcut⟩ := Option.isSome_iff_exists.1 hends
  exact ⟨a, r, Text.cut?_append hcut t⟩

variable {u t r : Text} {d : Directive}

theorem suffix_of_readEnclosed? {make : Text → Directive} (ho : ')' ∉ (make []).opener)
    (hc : (make []).closer <:+ close) (h : readEnclosed? make (u ++ close ++ t) = some (d, r)) :
    t <:+ r := by
  unfold readEnclosed? at h
  split at h
  · cases h
  · rename_i body hbody
    obtain ⟨w, rfl⟩ := exists_of_after? ho hbody
    obtain ⟨a, b, hcut⟩ := exists_cut? hc w t
    rw [hcut] at h
    obtain ⟨-, rfl⟩ := Prod.mk.inj (Option.some.inj h)
    exact List.suffix_append b t

theorem suffix_of_readSpaced? {make : Text → Text → Directive} (ho : ')' ∉ (make [] []).opener)
    (hc : (make [] []).closer <:+ close) (h : readSpaced? make (u ++ close ++ t) = some (d, r)) :
    t <:+ r := by
  unfold readSpaced? at h
  split at h
  · cases h
  · rename_i body hbody
    obtain ⟨w, rfl⟩ := exists_of_after? ho hbody
    obtain ⟨v, hv⟩ : ∃ v, (w ++ close ++ t).dropWhile Text.isBlank = v ++ close ++ t := by
      rw [List.append_assoc, List.dropWhile_append]
      split
      · exact ⟨[], List.dropWhile_cons_of_neg (by decide)⟩
      · exact ⟨w.dropWhile Text.isBlank, (List.append_assoc _ _ _).symm⟩
    obtain ⟨a, b, hcut⟩ := exists_cut? hc v t
    unfold Text.spanBlanks at h
    dsimp only at h
    rw [hv, hcut] at h
    split at h
    · cases h
    · obtain ⟨-, rfl⟩ := Prod.mk.inj (Option.some.inj h)
      exact List.suffix_append b t

theorem suffix_of_readFixed? {e : Directive} (ho : ')' ∉ e.opener)
    (h : readFixed? e (u ++ close ++ t) = some (d, r)) : t <:+ r := by
  obtain ⟨body, hbody, heq⟩ := Option.map_eq_some_iff.1 h
  obtain ⟨-, rfl⟩ := Prod.mk.inj heq
  obtain ⟨w, rfl⟩ := exists_of_after? ho hbody
  exact List.suffix_append (w ++ close) t

theorem suffix_of_read? (h : read? (u ++ close ++ t) = some (d, r)) : t <:+ r := by
  simp only [read?, Option.orElse_eq_orElse, Option.orElse_eq_or, Option.or_eq_some_iff] at h
  rcases h with h | ⟨_, h | ⟨_, h | ⟨_, h | ⟨_, h | ⟨_, h | ⟨_, h⟩⟩⟩⟩⟩⟩
  · exact suffix_of_readEnclosed? (by decide) (by decide) h
  · exact suffix_of_readEnclosed? (by decide) (by decide) h
  · exact suffix_of_readSpaced? (by decide) (by decide) h
  · exact suffix_of_readSpaced? (by decide) (by decide) h
  · exact suffix_of_readFixed? (by decide) h
  · exact suffix_of_readFixed? (by decide) h
  · exact suffix_of_readEnclosed? (by decide) (by decide) h

theorem head_of_read? {c : Char} {s : Text} {found : Directive × Text}
    (h : read? (c :: s) = some found) : c = '\x7b' := by
  refine Decidable.byContradiction fun hc => ?_
  have hnone : read? (c :: s) = none := by
    refine read?_eq_none fun k hk => ?_
    obtain ⟨rest, rfl⟩ := brace_of_mem_keywords hk
    rw [Text.after?_cons, if_neg hc]
  rw [hnone] at h
  cases h

theorem mem_pushText {chunks : List Token} (s : Text) :
    .found d ∈ Chunk.pushText s chunks ↔ .found d ∈ chunks := by
  cases chunks with
  | nil => simp [Chunk.pushText]
  | cons c cs => cases c <;> simp [Chunk.pushText]

/-- A directive is found on the line behind such an ending whatever stands in front of that. -/
theorem mem_scan_of_close {p z : Text} (hp : p <:+ z ++ close) {rest : Text}
    (h : .found d ∈ pattern.scan rest) : .found d ∈ pattern.scan (p ++ '\n' :: rest) := by
  -- What is left of such a text behind a directive ends in the same way, or is part of the ending.
  induction hn : p.length using Nat.strongRecOn generalizing p with
  | ind n ih =>
    cases p with
    | nil =>
      have hread : read? ('\n' :: rest) = none :=
        Text.read?_of_silent (show Text.silent [] from rfl) newline_not_mem_keyword rest
      rw [List.nil_append, pattern.scan_cons hread, mem_pushText]
      exact h
    | cons c p =>
      rw [List.cons_append]
      cases hread : read? (c :: (p ++ '\n' :: rest)) with
      | none =>
        rw [pattern.scan_cons hread, mem_pushText]
        exact ih p.length (by rw [← hn]; exact Nat.lt_succ_self _)
          ((List.suffix_cons c p).trans hp) rfl
      | some found =>
        obtain ⟨e, r⟩ := found
        rw [pattern.scan_of_read? hread]
        refine List.mem_cons_of_mem _ ?_
        obtain ⟨u, hu⟩ : ∃ u, c :: p = u ++ close := by
          obtain ⟨w, hw⟩ := hp
          rcases List.append_eq_append_iff.1 hw with ⟨u, -, hu⟩ | ⟨v, -, hv⟩
          · exact ⟨u, hu⟩
          · -- The rest of an ending holds no brace, so nothing starts in it.
            have hbrace : '\x7b' ∉ close := by decide
            rw [hv, ← head_of_read? hread] at hbrace
            exact absurd (List.mem_append_right v List.mem_cons_self) hbrace
        have hclosed : read? (u ++ close ++ '\n' :: rest) = some (e, r) := by
          rw [← hu]
          exact hread
        obtain ⟨q, rfl⟩ := suffix_of_read? hclosed
        have hsource : e.source ++ q = c :: p := by
          have happend := source_of_read? hread
          rw [← List.append_assoc, ← List.cons_append] at happend
          exact List.append_cancel_right happend
        have hshort : q.length < n := by
          have hlength := congrArg List.length hsource
          have hpos := List.length_pos_iff.2 e.source_ne_nil
          rw [List.length_append] at hlength
          omega
        have hrest : q <:+ c :: p := ⟨e.source, hsource⟩
        exact ih q.length hshort (hrest.trans hp) rfl

def probe (n : Nat) : Directive := .valueOf (List.replicate n 'a')

theorem source_probe (n : Nat) :
    (probe n).source = (valueOf []).opener ++ (List.replicate n 'a' ++ close) := by
  show (valueOf []).opener ++ List.replicate n 'a' ++ close = _
  rw [List.append_assoc]

theorem not_mem_probe {c : Char} (hc : c ∉ (valueOf []).opener ++ 'a' :: close) (n : Nat) :
    c ∉ (probe n).source := by
  rw [source_probe]
  intro hmem
  simp only [List.mem_append, List.mem_cons, List.mem_replicate, not_or] at hc hmem
  rcases hmem with h | h | h
  · exact hc.1 h
  · exact hc.2.1 h.2
  · exact hc.2.2 h

theorem read?_probe (n : Nat) (rest : Text) :
    read? ((probe n).source ++ rest) = some (probe n, rest) := by
  have hcut : Text.cut? close (List.replicate n 'a' ++ close ++ rest) =
      some (List.replicate n 'a', rest) := by
    induction n with
    | zero =>
      have hfound : Text.after? (')' :: ('!' :: '\x7d' :: rest)) close = some rest :=
        Text.after?_append close rest
      show Text.cut? close (')' :: ('!' :: '\x7d' :: rest)) = some ([], rest)
      rw [Text.cut?, hfound]
    | succ n ih =>
      have hmark : Text.after? ('a' :: (List.replicate n 'a' ++ close ++ rest)) close = none := rfl
      rw [List.replicate_succ, List.cons_append, List.cons_append, Text.cut?, hmark, ih]
      rfl
  have hsource : (probe n).source ++ rest =
      (valueOf []).opener ++ (List.replicate n 'a' ++ close ++ rest) := by
    rw [source_probe, List.append_assoc, List.append_assoc]
  have hvalue : readEnclosed? .valueOf ((probe n).source ++ rest) = some (probe n, rest) := by
    rw [hsource, readEnclosed?, Text.after?_append]
    exact congrArg (Option.map _) hcut
  have hinclude : readEnclosed? .includeFile ((probe n).source ++ rest) = none := by
    rw [hsource]
    rfl
  simp only [read?, hinclude, hvalue]
  rfl

theorem exists_probe (ds : List Directive) : ∃ n, probe n ∉ ds := by
  have hbound : ∃ n, ∀ d ∈ ds, d.source.length < n := by
    induction ds with
    | nil => exact ⟨0, nofun⟩
    | cons d ds ih =>
      obtain ⟨n, hn⟩ := ih
      refine ⟨max n (d.source.length + 1), List.forall_mem_cons.2 ⟨by omega, fun e he => ?_⟩⟩
      have hlength := hn e he
      omega
  obtain ⟨n, hn⟩ := hbound
  refine ⟨n, fun hmem => ?_⟩
  have hlength := hn _ hmem
  rw [source_probe, List.length_append, List.length_append, List.length_replicate] at hlength
  omega

end Directive

end Transclude

import Transclude.Proofs.HeadingMoves
import Transclude.Proofs.TokenPasses

/-! Texts that agree but for the lengths of their runs of heading marks, such as a line and what a
shift makes of it. What holds no such mark is found in both or in neither. -/

namespace Transclude

/-- Whether runs of marks in one text stand where there are runs of marks in the other. -/
inductive Stretched : Text → Text → Prop
  | nil : Stretched [] []
  | cons (c : Char) {s t : Text} : Stretched s t → Stretched (c :: s) (c :: t)
  | marks (m n : Nat) {s t : Text} : Stretched s t →
      Stretched ('#' :: (List.replicate m '#' ++ s)) ('#' :: (List.replicate n '#' ++ t))

namespace Stretched

variable {s t : Text}

theorem refl (s : Text) : Stretched s s := by
  induction s with
  | nil => exact nil
  | cons c s ih => exact ih.cons c

theorem append {s' t' : Text} (h : Stretched s t) (h' : Stretched s' t') :
    Stretched (s ++ s') (t ++ t') := by
  induction h with
  | nil => exact h'
  | cons c _ ih => exact ih.cons c
  | marks m n _ ih =>
    have hmarks := ih.marks m n
    rw [← List.append_assoc, ← List.append_assoc] at hmarks
    exact hmarks

theorem eq_nil_iff (h : Stretched s t) : s = [] ↔ t = [] := by
  cases h with
  | nil => exact Iff.rfl
  | cons c _ => exact iff_of_false (List.cons_ne_nil _ _) (List.cons_ne_nil _ _)
  | marks m n _ => exact iff_of_false (List.cons_ne_nil _ _) (List.cons_ne_nil _ _)

theorem after? {lead : Text} (hl : '#' ∉ lead) (h : Stretched s t) :
    Option.Rel Stretched (s.after? lead) (t.after? lead) := by
  induction lead generalizing s t with
  | nil =>
    rw [Text.after?_nil, Text.after?_nil]
    exact .some h
  | cons a lead ih =>
    have ha : '#' ≠ a := List.ne_of_not_mem_cons hl
    have hlead : '#' ∉ lead := List.not_mem_of_not_mem_cons hl
    cases h with
    | nil => exact .none
    | cons c h =>
      rw [Text.after?_cons, Text.after?_cons]
      by_cases hc : c = a
      · rw [if_pos hc, if_pos hc]
        exact ih hlead h
      · rw [if_neg hc, if_neg hc]
        exact .none
    | marks m n h =>
      rw [Text.after?_cons, Text.after?_cons, if_neg ha, if_neg ha]
      exact .none

theorem cut?_mark {mark : Text} (hm : '#' ∉ mark) (hne : mark ≠ []) (s : Text) :
    Text.cut? mark ('#' :: s) =
      (Text.cut? mark s).map fun (before, rest) => ('#' :: before, rest) := by
  obtain ⟨a, mark, rfl⟩ := List.exists_cons_of_ne_nil hne
  have ha : '#' ≠ a := List.ne_of_not_mem_cons hm
  rw [Text.cut?, Text.after?_cons, if_neg ha]

theorem cut? {mark : Text} (hm : '#' ∉ mark) (hne : mark ≠ []) (h : Stretched s t) :
    Option.Rel (fun p q => Stretched p.2 q.2) (Text.cut? mark s) (Text.cut? mark t) := by
  have hmap {f g : Text × Text → Text × Text} (hf : ∀ p, (f p).2 = p.2) (hg : ∀ p, (g p).2 = p.2)
      {p? q? : Option (Text × Text)} (hpq : Option.Rel (fun p q => Stretched p.2 q.2) p? q?) :
      Option.Rel (fun p q => Stretched p.2 q.2) (p?.map f) (q?.map g) := by
    cases hpq with
    | none => exact .none
    | some hrest =>
      refine .some ?_
      rw [hf, hg]
      exact hrest
  -- No mark to be found starts in a run, so only what stands in front of it differs.
  have hrun (k : Nat) (s : Text) : ∃ f : Text × Text → Text × Text,
      (∀ p, (f p).2 = p.2) ∧
        Text.cut? mark ('#' :: (List.replicate k '#' ++ s)) = (Text.cut? mark s).map f := by
    induction k with
    | zero => exact ⟨fun p => ('#' :: p.1, p.2), fun _ => rfl, cut?_mark hm hne s⟩
    | succ k ih =>
      obtain ⟨f, hf, hcut⟩ := ih
      refine ⟨fun p => ('#' :: (f p).1, (f p).2), hf, ?_⟩
      rw [List.replicate_succ, List.cons_append, cut?_mark hm hne, hcut, Option.map_map]
      rfl
  induction h with
  | nil =>
    rw [Text.cut?, if_neg hne]
    exact .none
  | cons c h ih =>
    have hafter := (h.cons c).after? hm
    rw [Text.cut?, Text.cut?]
    generalize Text.after? _ mark = p? at hafter
    generalize Text.after? _ mark = q? at hafter
    cases hafter with
    | none =>
      refine hmap ?_ ?_ ih
      · exact fun _ => rfl
      · exact fun _ => rfl
    | some hrest => exact .some hrest
  | marks m n h ih =>
    rename_i u v
    obtain ⟨f, hf, hs⟩ := hrun m u
    obtain ⟨g, hg, ht⟩ := hrun n v
    rw [hs, ht]
    exact hmap hf hg ih

theorem spanBlanks (h : Stretched s t) :
    s.spanBlanks.1 = t.spanBlanks.1 ∧ Stretched s.spanBlanks.2 t.spanBlanks.2 := by
  unfold Text.spanBlanks
  induction h with
  | nil => exact ⟨rfl, nil⟩
  | cons c h ih =>
    by_cases hc : Text.isBlank c
    · rw [List.takeWhile_cons_of_pos hc, List.takeWhile_cons_of_pos hc,
        List.dropWhile_cons_of_pos hc, List.dropWhile_cons_of_pos hc]
      exact ⟨congrArg (c :: ·) ih.1, ih.2⟩
    · rw [List.takeWhile_cons_of_neg hc, List.takeWhile_cons_of_neg hc,
        List.dropWhile_cons_of_neg hc, List.dropWhile_cons_of_neg hc]
      exact ⟨rfl, h.cons c⟩
  | marks m n h ih =>
    have hmark : ¬ Text.isBlank '#' := by decide
    rw [List.takeWhile_cons_of_neg hmark, List.takeWhile_cons_of_neg hmark,
      List.dropWhile_cons_of_neg hmark, List.dropWhile_cons_of_neg hmark]
    exact ⟨rfl, h.marks m n⟩

theorem shiftLine (shift : Int) (line : Text) :
    Stretched line (Heading.shiftLine shift line) := by
  cases hp : Heading.parts? line with
  | none =>
    rw [Heading.shiftLine_of_no_parts hp]
    exact refl line
  | some parts =>
    obtain ⟨indent, marks, rest⟩ := parts
    obtain ⟨-, -, hmarks, -, -⟩ := Heading.marks_of_parts? hp
    obtain ⟨m, hm⟩ := Nat.exists_eq_add_of_le' hmarks
    obtain ⟨n, hn⟩ := Nat.exists_eq_add_of_le' (Heading.clamp_bounds (marks + shift)).1
    have hrun := (refl indent).append ((refl rest).marks m n)
    rw [Heading.shiftLine_of_parts? hp, hn]
    have hline : indent ++ '#' :: (List.replicate m '#' ++ rest) = line := by
      rw [← Heading.append_of_parts? hp, hm]
      simp [List.replicate_succ]
    rw [hline] at hrun
    simpa [List.replicate_succ] using hrun

theorem silent (h : Stretched s t) : s.silent = t.silent := by
  have hcontains {k : Text} (hk : k ∈ Directive.keywords) : s.contains k = t.contains k := by
    obtain ⟨tail, hbrace⟩ := Directive.brace_of_mem_keywords hk
    have hmark : '#' ∉ k := by
      have hall : ∀ k ∈ Directive.keywords, '#' ∉ k := by decide
      exact hall k hk
    have hcut := h.cut? hmark (by rw [hbrace]; exact List.cons_ne_nil _ _)
    unfold Text.contains
    generalize Text.cut? k s = p? at hcut
    generalize Text.cut? k t = q? at hcut
    cases hcut with
    | none => rfl
    | some _ => rfl
  unfold Text.silent
  rw [Bool.eq_iff_iff, List.all_eq_true, List.all_eq_true]
  exact forall₂_congr fun k hk => by rw [hcontains hk]

end Stretched
end Transclude

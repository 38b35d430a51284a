import Mathlib.Data.Set.Function
import Transclude.Heading.Anchor
import Transclude.Proofs.TokenPasses

/-! Anchors are names in small letters, digits and hyphens. Numbers are counted for each base form by
itself, so two anchors of a document are equal exactly if one title has for its base form what
another one gets with its number. -/

namespace Transclude

namespace Text

variable {s t d e : Text} {c : Char}

def isAnchorChar (c : Char) : Bool := c.isLower || c.isDigit || c == '-'

theorem isAnchorChar_ofNat {n : Nat} (h : 97 ≤ n ∧ n ≤ 122 ∨ 48 ≤ n ∧ n ≤ 57) :
    isAnchorChar (Char.ofNat n) := by
  have hall : ∀ n < 123, (97 ≤ n ∧ n ≤ 122 ∨ 48 ≤ n ∧ n ≤ 57) → isAnchorChar (Char.ofNat n) := by
    decide
  exact hall n (by omega) h

theorem letterRuns_bounds : ∀ run ∈ letterRuns,
    97 ≤ run.2.2.toNat ∧ run.2.2.toNat + (run.2.1 - run.1) ≤ 122 ∨
      48 ≤ run.2.2.toNat ∧ run.2.2.toNat + (run.2.1 - run.1) ≤ 57 := by
  decide

theorem letterForms_chars : ∀ form ∈ letterForms, ∀ c ∈ form.1.text, isAnchorChar c := by
  have hall : letterForms.all fun form => form.1.text.all isAnchorChar := by decide +kernel
  exact fun form hform => List.all_eq_true.1 (List.all_eq_true.1 hall form hform)

theorem isAnchorChar_of_mem_foldChar {c d : Char} (h : d ∈ foldChar c) : d = ' ' ∨ isAnchorChar d := by
  unfold foldChar at h
  split at h
  · exact .inl (List.mem_singleton.1 h)
  · split at h
    · dsimp only at h
      split at h
      · rename_i hsmall
        exact .inr (List.mem_singleton.1 h ▸ hsmall)
      · cases h
    · split at h
      · exact .inl (List.mem_singleton.1 h)
      · split at h
        · rename_i first last letter hrun
          obtain ⟨hfirst, hlast⟩ : first ≤ c.toNat ∧ c.toNat ≤ last := by
            simpa using List.find?_some hrun
          have hbounds := letterRuns_bounds _ (List.mem_of_find?_eq_some hrun)
          dsimp only at hbounds
          obtain rfl := List.mem_singleton.1 h
          exact .inr (isAnchorChar_ofNat (by omega))
        · split at h
          · rename_i hform
            exact .inr (letterForms_chars _ (List.mem_of_find?_eq_some hform) d h)
          · cases h

theorem mem_of_mem_words {word : Text} (hword : word ∈ words s) (hc : c ∈ word) :
    c ∈ s ∧ isBlank c = false := by
  have hpiece : ∀ piece ∈ s.splitOnP isBlank, ∀ c ∈ piece, c ∈ s ∧ isBlank c = false := by
    clear hword hc
    induction s with
    | nil => simp
    | cons a s ih =>
      intro piece hmem c hc
      rw [List.splitOnP_cons_eq_if_modifyHead] at hmem
      split at hmem
      · rcases List.mem_cons.1 hmem with rfl | hmem
        · cases hc
        · exact (ih piece hmem c hc).imp_left (List.mem_cons_of_mem a)
      · rename_i ha
        obtain ⟨first, rest, hs⟩ := List.exists_cons_of_ne_nil (List.splitOnP_ne_nil isBlank s)
        rw [hs] at hmem ih
        rcases List.mem_cons.1 hmem with rfl | hmem
        · rcases List.mem_cons.1 hc with rfl | hc
          · exact ⟨List.mem_cons_self, by simpa using ha⟩
          · exact (ih first List.mem_cons_self c hc).imp_left (List.mem_cons_of_mem a)
        · exact (ih piece (List.mem_cons_of_mem first hmem) c hc).imp_left (List.mem_cons_of_mem a)
  exact hpiece word (List.mem_filter.1 hword).1 c hc

theorem mem_of_mem_joinWith {separator : String} {parts : List Text}
    (h : c ∈ joinWith separator parts) : c ∈ separator.text ∨ ∃ part ∈ parts, c ∈ part := by
  unfold joinWith at h
  induction parts with
  | nil => cases h
  | cons part parts ih =>
    cases parts with
    | nil =>
      rw [List.intercalate_singleton] at h
      exact .inr ⟨part, List.mem_cons_self, h⟩
    | cons next rest =>
      rw [List.intercalate_cons_cons, List.mem_append, List.mem_append] at h
      rcases h with (h | h) | h
      · exact .inr ⟨part, List.mem_cons_self, h⟩
      · exact .inl h
      · refine (ih h).imp_right fun ⟨other, hother, hc⟩ => ?_
        exact ⟨other, List.mem_cons_of_mem part hother, hc⟩

theorem isDigit_of_mem_ofNat {n : Nat} (h : c ∈ ofNat n) : c.isDigit :=
  Nat.isDigit_of_mem_toDigits (by decide) (by decide) h

theorem hyphen_not_mem_ofNat (n : Nat) : '-' ∉ ofNat n :=
  fun h => absurd (isDigit_of_mem_ofNat h) (by decide)

theorem ofNat_injective : Function.Injective ofNat := by
  intro m n h
  have hread := congrArg (fun digits => Nat.ofDigitChars 10 digits 0) h
  simpa [ofNat] using hread

theorem append_hyphen_inj (hd : '-' ∉ d) (he : '-' ∉ e) (h : s ++ '-' :: d = t ++ '-' :: e) :
    s = t ∧ d = e := by
  have hback : d.reverse ++ '-' :: s.reverse = e.reverse ++ '-' :: t.reverse := by
    simpa using congrArg List.reverse h
  have hcut : cut? ['-'] (d.reverse ++ '-' :: s.reverse) = some (d.reverse, s.reverse) :=
    cut?_singleton_iff.2 ⟨rfl, by simpa using hd⟩
  have hother : cut? ['-'] (e.reverse ++ '-' :: t.reverse) = some (e.reverse, t.reverse) :=
    cut?_singleton_iff.2 ⟨rfl, by simpa using he⟩
  rw [hback, hother] at hcut
  obtain ⟨hdigits, hfront⟩ := Prod.mk.inj (Option.some.inj hcut)
  exact ⟨(List.reverse_inj.1 hfront).symm, (List.reverse_inj.1 hdigits).symm⟩

end Text

namespace Anchors

variable {form other title : Text} {n m : Nat} {a : Anchors}

/-- A base form with a number behind it; the first use has none. -/
def numbered (form : Text) : Nat → Text
  | 0 => form
  | n + 1 => form ++ '-' :: Text.ofNat (n + 1)

theorem next_fst (a : Anchors) (title : Text) :
    (a.next title).1 = numbered (baseForm title) (a.count (baseForm title)) := by
  rw [next]
  dsimp only
  cases a.count (baseForm title) <;> rfl

theorem baseForm_ne_nil (title : Text) : baseForm title ≠ [] := by
  unfold baseForm
  split
  · decide
  · assumption

theorem isAnchorChar_of_mem_baseForm {c : Char} (h : c ∈ baseForm title) : Text.isAnchorChar c := by
  unfold baseForm at h
  split at h
  · have hall : "section".text.all Text.isAnchorChar := by decide
    exact List.all_eq_true.1 hall c h
  · rcases Text.mem_of_mem_joinWith h with h | ⟨word, hword, hc⟩
    · rw [List.mem_singleton.1 h]
      rfl
    · obtain ⟨hmem, hblank⟩ := Text.mem_of_mem_words hword hc
      obtain ⟨b, -, hb⟩ := List.mem_flatMap.1 hmem
      refine (Text.isAnchorChar_of_mem_foldChar hb).resolve_left ?_
      rintro rfl
      exact absurd hblank (by decide)

theorem numbered_ne_nil (h : form ≠ []) (n : Nat) : numbered form n ≠ [] := by
  cases n with
  | zero => exact h
  | succ n => simp [numbered]

theorem isAnchorChar_of_mem_numbered (h : ∀ c ∈ form, Text.isAnchorChar c) :
    ∀ c ∈ numbered form n, Text.isAnchorChar c := by
  cases n with
  | zero => exact h
  | succ n =>
    refine List.forall_mem_append.2 ⟨h, List.forall_mem_cons.2 ⟨rfl, fun c hc => ?_⟩⟩
    simp [Text.isAnchorChar, Text.isDigit_of_mem_ofNat hc]

theorem numbered_succ_inj (h : numbered form (n + 1) = numbered other (m + 1)) :
    form = other ∧ n = m := by
  obtain ⟨hform, hdigits⟩ :=
    Text.append_hyphen_inj (Text.hyphen_not_mem_ofNat _) (Text.hyphen_not_mem_ofNat _) h
  exact ⟨hform, Nat.succ.inj (Text.ofNat_injective hdigits)⟩

/-- The forms that some titles are given anchors of, each with the numbers behind it. -/
def given (a : Anchors) (titles : List Text) : Set (Text × Nat) :=
  {use | a.count use.1 ≤ use.2 ∧ use.2 < a.count use.1 + (titles.map baseForm).count use.1}

theorem given_nil (a : Anchors) : a.given [] = ∅ := by
  ext use
  simp [given]

theorem given_cons (a : Anchors) (title : Text) (titles : List Text) :
    a.given (title :: titles) =
      insert (baseForm title, a.count (baseForm title)) ((a.next title).2.given titles) := by
  ext ⟨form, n⟩
  change a.count form ≤ n ∧ n < a.count form + (baseForm title :: titles.map baseForm).count form ↔
    (form, n) = (baseForm title, a.count (baseForm title)) ∨
      (a.next title).2.count form ≤ n ∧
        n < (a.next title).2.count form + (titles.map baseForm).count form
  rw [count_next, Prod.mk.injEq]
  by_cases hform : form = baseForm title
  · subst hform
    rw [List.count_cons_self, if_pos rfl, eq_self, true_and]
    omega
  · rw [List.count_cons_of_ne (Ne.symm hform), if_neg hform]
    simp [hform]

theorem not_mem_given_next (a : Anchors) (title : Text) (titles : List Text) :
    (baseForm title, a.count (baseForm title)) ∉ (a.next title).2.given titles := by
  simp [given, count_next]

theorem mem_ofTitles_iff {titles : List Text} {anchor : Text} :
    anchor ∈ a.ofTitles titles ↔ anchor ∈ (fun use => numbered use.1 use.2) '' a.given titles := by
  induction titles generalizing a with
  | nil => simp [ofTitles, given_nil]
  | cons title titles ih => rw [ofTitles, List.mem_cons, next_fst, given_cons, Set.image_insert_eq,
      Set.mem_insert_iff, ih]

theorem nodup_ofTitles_iff_injOn {titles : List Text} :
    (a.ofTitles titles).Nodup ↔ Set.InjOn (fun use => numbered use.1 use.2) (a.given titles) := by
  induction titles generalizing a with
  | nil => simp [ofTitles, given_nil]
  | cons title titles ih =>
    rw [ofTitles, List.nodup_cons, given_cons, Set.injOn_insert (not_mem_given_next a title titles),
      mem_ofTitles_iff, ih, next_fst, and_comm]

theorem exists_of_mem_ofTitles {titles : List Text} {anchor : Text}
    (h : anchor ∈ a.ofTitles titles) : ∃ title n, anchor = numbered (baseForm title) n := by
  induction titles generalizing a with
  | nil => cases h
  | cons title titles ih =>
    rcases List.mem_cons.1 h with rfl | h
    · exact ⟨title, _, next_fst a title⟩
    · exact ih h

theorem mem_given_fresh {titles : List Text} :
    (form, n) ∈ fresh.given titles ↔ n < (titles.map baseForm).count form := by
  simp [given, fresh, count]

/-- Anchors are never empty and hold small letters, digits and hyphens only. They are pairwise
distinct exactly if no title has for its base form an anchor that a repeated form gets. -/
theorem ofTitles_nodup_iff (titles : List Text) :
    (∀ anchor ∈ fresh.ofTitles titles, anchor ≠ [] ∧ ∀ c ∈ anchor, Text.isAnchorChar c) ∧
    ((fresh.ofTitles titles).Nodup ↔ ∀ form n, 0 < n → n < (titles.map baseForm).count form →
      numbered form n ∉ titles.map baseForm) := by
  refine ⟨fun anchor hanchor => ?_, ?_⟩
  · obtain ⟨title, n, rfl⟩ := exists_of_mem_ofTitles hanchor
    exact ⟨numbered_ne_nil (baseForm_ne_nil title) n,
      isAnchorChar_of_mem_numbered fun c => isAnchorChar_of_mem_baseForm⟩
  · rw [nodup_ofTitles_iff_injOn]
    constructor
    · intro hinj form n hpos hlt hmem
      -- The repeated form and the base form without a number would be one use.
      have hbase : (numbered form n, 0) ∈ fresh.given titles :=
        mem_given_fresh.2 (List.count_pos_iff.2 hmem)
      have huse := hinj hbase (mem_given_fresh.2 hlt) rfl
      exact absurd (congrArg Prod.snd huse) (Nat.ne_of_lt hpos)
    · rintro hapart ⟨form, n⟩ hform ⟨other, m⟩ hother heq
      rw [mem_given_fresh] at hform hother
      have hmem {f : Text} {k : Nat} (h : k < (titles.map baseForm).count f) :
          f ∈ titles.map baseForm := List.count_pos_iff.1 (Nat.zero_lt_of_lt h)
      cases n with
      | zero =>
        cases m with
        | zero => exact Prod.ext heq rfl
        | succ m =>
          have hnumber : form = numbered other (m + 1) := heq
          exact absurd (hnumber ▸ hmem hform) (hapart other (m + 1) (Nat.succ_pos m) hother)
      | succ n =>
        cases m with
        | zero =>
          have hnumber : other = numbered form (n + 1) := heq.symm
          exact absurd (hnumber ▸ hmem hother) (hapart form (n + 1) (Nat.succ_pos n) hform)
        | succ m =>
          obtain ⟨rfl, rfl⟩ := numbered_succ_inj heq
          rfl

/-- The second heading gets the anchor that the third one has for its base form. -/
theorem anchor_of_numbered_title_repeats :
    fresh.ofTitles ["A".text, "a!".text, "A-1".text] = ["a".text, "a-1".text, "a-1".text] ∧
      ¬ (fresh.ofTitles ["A".text, "a!".text, "A-1".text]).Nodup := by
  decide +kernel

end Anchors
end Transclude

import Transclude.Proofs.IncludeChains

/-! Files without a level below one that has been shifted. Each of them is shifted along with its
includer once that is put together, and so is everything below it again: a file is shifted as often
as there are files above it that moved along. -/

namespace Transclude
namespace IncludeChain

/-- Whether no file but the first is asked for at a level. -/
def Unleveled : IncludeChain → Prop
  | .last _ _ => True
  | .link _ _ _ level? _ next => level? = none ∧ next.Unleveled

/-- The headings of the files from the one on that `n` includes lead to. -/
def writtenFrom : Nat → IncludeChain → List (Nat × Text)
  | 0, c => c.written
  | _ + 1, .last _ _ => []
  | n + 1, .link _ _ _ _ _ next => next.writtenFrom n

/-- The headings of all files, shifted `times` times in the first one and once more in each other
one than in the one above it. -/
def cascade (shift : Int) (times : Nat) : IncludeChain → List (Nat × Text)
  | .last _ ls => (Heading.outlineFrom none ls).map (Heading.moved (times * shift))
  | .link _ before _ _ after next =>
    (Heading.outlineFrom none before).map (Heading.moved (times * shift)) ++
      next.cascade shift (times + 1) ++
      (Heading.outlineFrom none after).map (Heading.moved (times * shift))

theorem map_moved_mul (open? : Option Fence) (ls : List Text) (shift : Int) (times : Nat) :
    ((Heading.outlineFrom open? ls).map (Heading.moved (times * shift))).map (Heading.moved shift) =
      (Heading.outlineFrom open? ls).map (Heading.moved ((times + 1 : Nat) * shift)) := by
  rw [List.map_map]
  refine List.map_congr_left fun heading hmem => ?_
  -- Both shifts go the same way, so that clamping between them loses nothing.
  have hsame : 0 ≤ shift ∧ 0 ≤ times * shift ∨ shift ≤ 0 ∧ times * shift ≤ 0 := by
    rcases Int.le_total 0 shift with h | h
    · exact .inl ⟨h, Int.mul_nonneg (Int.natCast_nonneg times) h⟩
    · exact .inr ⟨h, Int.mul_nonpos_of_nonneg_of_nonpos (Int.natCast_nonneg times) h⟩
  rw [Function.comp_apply, Heading.moved_moved hsame (Heading.bounds_of_mem_outlineFrom hmem),
    Int.natCast_add, Int.add_mul]
  simp

theorem map_moved_cascade (c : IncludeChain) (shift : Int) (times : Nat) :
    (c.cascade shift times).map (Heading.moved shift) = c.cascade shift (times + 1) := by
  induction c generalizing times with
  | last file ls => exact map_moved_mul none ls shift times
  | link file before argument level? after next ih =>
    rw [cascade, List.map_append, List.map_append, map_moved_mul, ih, map_moved_mul, cascade]

theorem map_moved_zero (open? : Option Fence) (ls : List Text) :
    (Heading.outlineFrom open? ls).map (Heading.moved 0) = Heading.outlineFrom open? ls := by
  refine (List.map_congr_left fun heading hmem => ?_).trans (List.map_id _)
  obtain ⟨hlow, hhigh⟩ := Heading.bounds_of_mem_outlineFrom hmem
  exact Prod.ext (by rw [Heading.moved, Int.add_zero, Heading.clamp_of_bounds ⟨hlow, hhigh⟩]; rfl) rfl

theorem outline_of_unleveled {c : IncludeChain} (h : c.Unleveled) (shift : Int) :
    c.outline shift 0 = c.cascade shift 0 := by
  induction c with
  | last file ls => rw [outline, cascade]; simp
  | link file before argument level? after next ih =>
    obtain ⟨rfl, hnext⟩ := h
    rw [outline, cascade, ih hnext, map_moved_cascade]
    simp

/-- Whether a heading stays where a shift takes it if it is shifted again. -/
def Settled (shift : Int) (heading : Nat × Text) : Prop :=
  shift = 0 ∨ (0 < shift ∧ 6 ≤ heading.1 + shift) ∨ (shift < 0 ∧ heading.1 + shift ≤ 1)

theorem moved_mul_eq_iff {shift : Int} {times : Nat} (ht : 2 ≤ times) {heading : Nat × Text}
    (hb : 1 ≤ heading.1 ∧ heading.1 ≤ 6) :
    Heading.moved (times * shift) heading = Heading.moved shift heading ↔
      Settled shift heading := by
  -- All that matters of the product is that it goes at least as far as shifting twice.
  have htwice : 0 ≤ shift ∧ 2 * shift ≤ times * shift ∨ shift ≤ 0 ∧ times * shift ≤ 2 * shift := by
    have htimes : (2 : Int) ≤ times := Int.ofNat_le.2 ht
    rcases Int.le_total 0 shift with h | h
    · exact .inl ⟨h, Int.mul_le_mul_of_nonneg_right htimes h⟩
    · exact .inr ⟨h, Int.mul_le_mul_of_nonpos_right htimes h⟩
  have hnone : shift = 0 → times * shift = 0 := by
    rintro rfl
    exact Int.mul_zero _
  generalize times * shift = total at htwice hnone ⊢
  simp only [Settled, Heading.moved, Heading.clamp, Prod.mk.injEq, and_true]
  omega

theorem map_moved_mul_eq_iff {shift : Int} {times : Nat} (ht : 2 ≤ times)
    {headings : List (Nat × Text)} (hb : ∀ heading ∈ headings, 1 ≤ heading.1 ∧ heading.1 ≤ 6) :
    headings.map (Heading.moved (times * shift)) = headings.map (Heading.moved shift) ↔
      ∀ heading ∈ headings, Settled shift heading := by
  rw [List.map_inj_left]
  exact forall₂_congr fun heading hmem => moved_mul_eq_iff ht (hb heading hmem)

theorem length_cascade (c : IncludeChain) (shift : Int) (times : Nat) :
    (c.cascade shift times).length = c.written.length := by
  induction c generalizing times with
  | last file ls => simp [cascade, written]
  | link file before argument level? after next ih => simp [cascade, written, ih]

theorem cascade_eq_iff (c : IncludeChain) (shift : Int) {times : Nat} (ht : 2 ≤ times) :
    c.cascade shift times = c.written.map (Heading.moved shift) ↔
      ∀ heading ∈ c.written, Settled shift heading := by
  induction c generalizing times with
  | last file ls =>
    exact map_moved_mul_eq_iff ht fun _ hmem => Heading.bounds_of_mem_outlineFrom hmem
  | link file before argument level? after next ih =>
    have hown : ∀ heading ∈ Heading.outlineFrom none before ++ Heading.outlineFrom none after,
        1 ≤ heading.1 ∧ heading.1 ≤ 6 :=
      List.forall_mem_append.2 ⟨fun _ hmem => Heading.bounds_of_mem_outlineFrom hmem,
        fun _ hmem => Heading.bounds_of_mem_outlineFrom hmem⟩
    rw [cascade, written, List.map_append, List.map_append,
      append_around_iff (by simp) (by simp [length_cascade]), ih (by omega), ← List.map_append,
      ← List.map_append, map_moved_mul_eq_iff ht hown]
    simp only [List.forall_mem_append]
    exact and_right_comm

theorem cascade_one_eq_iff (c : IncludeChain) (shift : Int) :
    c.cascade shift 1 = c.written.map (Heading.moved shift) ↔
      ∀ heading ∈ c.writtenFrom 1, Settled shift heading := by
  have hone : ((1 : Nat) : Int) * shift = shift := Int.one_mul shift
  cases c with
  | last file ls =>
    rw [cascade, written, writtenFrom, hone]
    simp
  | link file before argument level? after next =>
    rw [cascade, written, writtenFrom, writtenFrom, hone, List.map_append, List.map_append,
      append_around_iff rfl (by simp [length_cascade]), cascade_eq_iff next shift (by omega)]
    exact and_iff_right rfl

theorem outline_eq_moved_iff {c : IncludeChain} (hu : c.Unleveled) (shift : Int) :
    c.outline shift shift = c.written.map (Heading.moved shift) ↔
      ∀ heading ∈ c.writtenFrom 2, Settled shift heading := by
  cases c with
  | last file ls =>
    rw [outline, written, writtenFrom]
    simp
  | link file before argument level? after next =>
    obtain ⟨rfl, hnext⟩ := hu
    rw [outline, written, writtenFrom, outline_of_unleveled hnext, map_moved_cascade,
      List.map_append, List.map_append, append_around_iff rfl (by simp [length_cascade]),
      ← cascade_one_eq_iff]
    exact and_iff_right rfl

/-- Below a file that its level shifts, files without a level are each to be shifted along with their
includer. Shifted more often, from the third file of the chain on, they are nevertheless where they
are due exactly if nothing is shifted at all, or if every heading there has met a bound. -/
theorem expandFile_eq_moved_iff (x : Expander) (hx : x.embedImages = false) (above : List Path)
    (inherited : Scope) (file : Path) (before : List Text) (argument : Text) (level : Nat)
    (after : List Text) (next : IncludeChain)
    (h : (link file before argument (some level) after next).Holds x above inherited)
    (hu : next.Unleveled) :
    ∃ r, (x.expandFile above file inherited).outcome = .ok r ∧
      r.body = Text.unlines ((link file before argument (some level) after next).arranged 0 0) ∧
      ((link file before argument (some level) after next).Closed →
        (Heading.outline r.body =
            Heading.outlineFrom none before ++
              next.written.map (Heading.moved (next.shiftTo level 0)) ++
              Heading.outlineFrom none after ↔
          ∀ heading ∈ next.writtenFrom 2, Settled (next.shiftTo level 0) heading)) := by
  obtain ⟨r, hr, hbody⟩ := expandFile_eq_arranged hx h
  refine ⟨r, hr, hbody, fun hc => ?_⟩
  have hlength : (next.outline (next.shiftTo level 0) (next.shiftTo level 0)).length =
      (next.written.map (Heading.moved (next.shiftTo level 0))).length := by
    rw [length_outline, List.length_map]
  rw [hbody, outline_of_arranged h hc, outline, map_moved_zero, map_moved_zero, Int.zero_add,
    append_around_iff rfl hlength, outline_eq_moved_iff hu]
  exact and_iff_right rfl

def trailing : IncludeChain :=
  .link (.named "main") [] "a||##".text (some 2) [] <|
    .link (.named "a") ["# A".text] "b".text none [] <|
      .link (.named "b") ["# B".text] "c".text none [] <| .last (.named "c") ["# C".text]

def trailingFiles : Expander where
  workspace := .holding [
    ("main", "\x7b!include(a||##)!\x7d"), ("a", "# A\n\x7b!include(b)!\x7d"),
    ("b", "# B\n\x7b!include(c)!\x7d"), ("c", "# C")]
  rootScope := .empty
  embedImages := false

theorem expandFile_eq_moved_iff_of_trailing :
    ∃ r, (trailingFiles.expandFile [] (.named "main") .empty).outcome = .ok r ∧
      r.body = "## A\n## B\n### C".text := by
  have hholds : trailing.Holds trailingFiles [] .empty := by decide +kernel
  obtain ⟨r, hr, hbody, -⟩ :=
    expandFile_eq_moved_iff trailingFiles rfl [] .empty _ _ _ _ _ _ hholds ⟨rfl, rfl, trivial⟩
  refine ⟨r, hr, hbody.trans ?_⟩
  decide +kernel

/-- The last file is due at the second level like those above it, and stands at the third. -/
theorem outline_trailing_ne_moved :
    trailing.Holds trailingFiles [] .empty ∧ trailing.Closed ∧
      ∃ next level, trailing = .link (.named "main") [] "a||##".text (some level) [] next ∧
        next.Unleveled ∧
        ∃ r, (trailingFiles.expandFile [] (.named "main") .empty).outcome = .ok r ∧
          Heading.outline r.body ≠ next.written.map (Heading.moved (next.shiftTo level 0)) := by
  have hclosed : trailing.Closed :=
    ⟨by decide +kernel, by decide +kernel, by decide +kernel, trivial⟩
  exact ⟨by decide +kernel, hclosed, _, _, rfl, ⟨rfl, rfl, trivial⟩,
    ⟨"## A\n## B\n### C".text, none, .empty⟩, Except.ok_of_toOption (by decide +kernel),
    by decide +kernel⟩

end IncludeChain
end Transclude

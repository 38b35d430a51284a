import Transclude.Proofs.ClassedLines
import Transclude.Proofs.FencedOffsets

/-! Lines that become others, or are joined to a line above them, without a change in how they open
and close fences. The fenced lines come out as they were exactly if every one of them is kept: what
one of them takes away is not made up for by those behind it. -/

namespace Transclude

namespace Fence

def fencedFrom (open? : Option Fence) (ls : List Text) : List Text :=
  ((classifyFrom open? ls).filter (·.2.inFence)).map (·.1)

def fencedLines (s : Text) : List Text := ((classify s).filter (·.2.inFence)).map (·.1)

/-- Whether the line with a number, counted from zero, lies in a fence. -/
def fencedAt (s : Text) (n : Nat) : Bool := (classify s)[n]?.any (·.2.inFence)

/-- Whether an open fence, if there is one, was opened by some line. -/
def Opened (open? : Option Fence) : Prop :=
  ∀ fence, open? = some fence → ∃ line, opening? line = some fence

variable {open? : Option Fence} {fence : Fence} {line : Text}

theorem fencedLines_eq (s : Text) : fencedLines s = fencedFrom none s.lines := rfl

theorem fencedFrom_cons_of_inFence (h : (step open? line).1.inFence) (ls : List Text) :
    fencedFrom open? (line :: ls) = line :: fencedFrom (step open? line).2 ls := by
  simp [fencedFrom, classifyFrom_cons, h]

theorem fencedFrom_cons_of_not_inFence (h : ¬ (step open? line).1.inFence) (ls : List Text) :
    fencedFrom open? (line :: ls) = fencedFrom (step open? line).2 ls := by
  simp [fencedFrom, classifyFrom_cons, h]

theorem fencedFrom_append (open? : Option Fence) (xs ys : List Text) :
    fencedFrom open? (xs ++ ys) = fencedFrom open? xs ++ fencedFrom (openAfter open? xs) ys := by
  rw [fencedFrom, classifyFrom_append, List.filter_append, List.map_append]
  rfl

theorem Opened.real (h : Opened open?) : Real open? := by
  intro fence hf
  obtain ⟨line, hline⟩ := h fence hf
  exact real_opening hline fence rfl

theorem opened_none : Opened none := nofun

theorem opened_step (h : Opened open?) (line : Text) : Opened (step open? line).2 := by
  intro fence hf
  cases open? with
  | some other =>
    cases hclosed : other.closedBy line with
    | true =>
      rw [step_closing hclosed] at hf
      cases hf
    | false =>
      rw [step_fenced hclosed] at hf
      exact h fence hf
  | none =>
    cases hopening : opening? line with
    | some other =>
      rw [step_opening hopening] at hf
      exact ⟨line, hopening.trans hf⟩
    | none =>
      rw [step_eq_none_iff.2 hopening] at hf
      cases hf

theorem three_le_of_opening? (h : opening? line = some fence) : 3 ≤ fence.length := by
  unfold opening? at h
  split at h
  · cases h
  · dsimp only at h
    split at h
    · rename_i hopens
      obtain rfl := Option.some.inj h
      exact hopens.2
    · cases h

theorem inFence_of_closedBy (h : Opened (some fence)) (hc : fence.closedBy line) :
    (step none line).1.inFence := by
  obtain ⟨opener, hopener⟩ := h fence rfl
  obtain ⟨n, hlength⟩ := Nat.exists_eq_add_of_le' (three_le_of_opening? hopener)
  obtain ⟨rest, hrest⟩ := Option.isSome_iff_exists.1 hc
  have htrim : line.trim = fence.mark :: (List.replicate (n + 2) fence.mark ++ rest) := by
    rw [Text.after?_eq_some_iff.1 hrest, hlength]
    rfl
  have hrun : 3 ≤ (line.trim.takeWhile (· = fence.mark)).length := by
    have hmarks : (List.replicate (n + 3) fence.mark).takeWhile (· = fence.mark) =
        List.replicate (n + 3) fence.mark := by simp
    have hwhole : line.trim = List.replicate (n + 3) fence.mark ++ rest := htrim
    rw [hwhole, List.takeWhile_append_of_pos (by simp), List.length_append, List.length_replicate]
    omega
  have hopens : ∃ other, opening? line = some other := by
    unfold opening?
    rw [htrim] at hrun ⊢
    dsimp only
    rw [if_pos ⟨(h.real fence rfl).1, hrun⟩]
    exact ⟨_, rfl⟩
  obtain ⟨other, hother⟩ := hopens
  rw [step_opening hother]
  rfl

theorem exists_closedBy (hin : (step open? line).1.inFence) (hnext : (step open? line).2 = none) :
    ∃ fence, open? = some fence ∧ fence.closedBy line := by
  cases open? with
  | none => exact absurd hin (not_inFence_step hnext)
  | some fence =>
    cases hclosed : fence.closedBy line with
    | true => exact ⟨fence, rfl, hclosed⟩
    | false =>
      rw [step_fenced hclosed] at hnext
      cases hnext

end Fence

/-- A line and what has become of it: nothing, if it was joined to a line above it. -/
structure Fate where
  line : Text
  now? : Option Text

namespace Fate

open Fence (step fencedFrom openAfter Opened)

/-- Whether a line still opens and closes the fences that it did. -/
def Steady (f : Fate) : Prop :=
  ∀ now ∈ f.now?, ∀ open?, Fence.Real open? →
    (step open? now).2 = (step open? f.line).2 ∧
      (step open? now).1.inFence = (step open? f.line).1.inFence

def IsKept (f : Fate) : Prop := f.now? = some f.line

def before (fates : List Fate) : List Text := fates.map line

def after (fates : List Fate) : List Text := fates.filterMap now?

/-- Whether all lines that lie in a fence are kept, `open?` being the fence that is open before. -/
def KeepsFenced (open? : Option Fence) (fates : List Fate) : Prop :=
  ∀ p ∈ fates.zip (Fence.classesFrom open? (before fates)), p.2.inFence → p.1.IsKept

variable {open? : Option Fence} {f : Fate} {fates : List Fate} {owed : List Text} {now : Text}

theorem before_cons (f : Fate) (fates : List Fate) :
    before (f :: fates) = f.line :: before fates := rfl

theorem after_cons_of_none (h : f.now? = none) (fates : List Fate) :
    after (f :: fates) = after fates := List.filterMap_cons_none h

theorem after_cons_of_some (h : f.now? = some now) (fates : List Fate) :
    after (f :: fates) = now :: after fates := List.filterMap_cons_some h

theorem keepsFenced_cons : KeepsFenced open? (f :: fates) ↔
    ((step open? f.line).1.inFence → f.IsKept) ∧ KeepsFenced (step open? f.line).2 fates :=
  List.forall_mem_cons

/-- A line behind fenced lines that are still owed is owed too, unless it lies in no fence. -/
theorem exists_owed (h : fencedFrom open? owed = owed) (line : Text) (ls : List Text) :
    ∃ more, fencedFrom (openAfter open? owed) (line :: ls) =
        more ++ fencedFrom (openAfter open? (owed ++ more)) ls ∧
      fencedFrom open? (owed ++ more) = owed ++ more ∧
      (more = [] → ¬ (step (openAfter open? owed) line).1.inFence) := by
  by_cases hin : (step (openAfter open? owed) line).1.inFence
  · refine ⟨[line], ?_, ?_, fun hnil => nomatch hnil⟩
    · rw [Fence.fencedFrom_cons_of_inFence hin, Fence.openAfter_append]
      rfl
    · rw [Fence.fencedFrom_append, h, Fence.fencedFrom_cons_of_inFence hin]
      rfl
  · obtain ⟨hout, hnext⟩ := Fence.step_of_not_inFence hin
    refine ⟨[], ?_, by rw [List.append_nil, h], fun _ => hin⟩
    rw [Fence.fencedFrom_cons_of_not_inFence hin, hnext, List.append_nil, hout]
    rfl

/-- What is owed is not made up for: at the end of the lines some of it is left. -/
theorem fencedFrom_after_ne (hne : owed ≠ []) (hopen : Opened open?)
    (howed : fencedFrom open? owed = owed) (hs : ∀ f ∈ fates, f.Steady) :
    fencedFrom open? (after fates) ≠
      owed ++ fencedFrom (openAfter open? owed) (before fates) := by
  induction fates generalizing open? owed with
  | nil =>
    intro heq
    exact List.append_ne_nil_of_left_ne_nil hne _ heq.symm
  | cons f fates ih =>
    obtain ⟨hf, hrest⟩ := List.forall_mem_cons.1 hs
    obtain ⟨more, hline, hmore, hnone⟩ := exists_owed howed f.line (before fates)
    have hsum : owed ++ more ≠ [] := List.append_ne_nil_of_left_ne_nil hne more
    rw [before_cons, hline, ← List.append_assoc]
    cases hnow : f.now? with
    | none =>
      rw [after_cons_of_none hnow]
      exact ih hsum hopen hmore hrest
    | some now =>
      rw [after_cons_of_some hnow]
      by_cases hin : (step open? now).1.inFence
      · rw [Fence.fencedFrom_cons_of_inFence hin]
        intro heq
        obtain ⟨first, left, hfirst⟩ := List.exists_cons_of_ne_nil hsum
        rw [hfirst] at heq hmore
        obtain ⟨rfl, hbehind⟩ := List.cons.inj heq
        rw [Fence.fencedFrom_cons_of_inFence hin] at hmore
        refine ih ?_ (Fence.opened_step hopen now) (List.cons.inj hmore).2 hrest hbehind
        -- The line would pay for all that was owed only if it closed the fence; then its old form
        -- opens one where none is open, and was owed itself.
        rintro rfl
        obtain ⟨rfl, rfl⟩ : owed = [now] ∧ more = [] := by
          cases owed with
          | nil => exact absurd rfl hne
          | cons line owed => simp_all
        have hunowed := hnone rfl
        obtain ⟨hclosed, -⟩ := Fence.step_of_not_inFence hunowed
        obtain ⟨fence, rfl, hcloses⟩ := Fence.exists_closedBy hin hclosed
        rw [hclosed, ← (hf now hnow none Fence.real_none).2] at hunowed
        exact hunowed (Fence.inFence_of_closedBy hopen hcloses)
      · obtain ⟨rfl, hnext⟩ := Fence.step_of_not_inFence hin
        rw [Fence.fencedFrom_cons_of_not_inFence hin, hnext]
        exact ih hsum hopen hmore hrest

/-- The fenced lines come out as they were exactly if each of them is kept. -/
theorem fencedFrom_after_eq_iff (hopen : Opened open?) (hs : ∀ f ∈ fates, f.Steady) :
    fencedFrom open? (after fates) = fencedFrom open? (before fates) ↔
      KeepsFenced open? fates := by
  induction fates generalizing open? with
  | nil => exact iff_of_true rfl (List.forall_mem_nil _)
  | cons f fates ih =>
    obtain ⟨hf, hrest⟩ := List.forall_mem_cons.1 hs
    have hbehind := ih (Fence.opened_step hopen f.line) hrest
    rw [keepsFenced_cons, before_cons]
    by_cases hin : (step open? f.line).1.inFence
    · rw [Fence.fencedFrom_cons_of_inFence hin, imp_iff_right hin]
      cases hnow : f.now? with
      | none =>
        have howed : fencedFrom open? [f.line] = [f.line] := Fence.fencedFrom_cons_of_inFence hin []
        rw [after_cons_of_none hnow]
        refine iff_of_false (fencedFrom_after_ne (List.cons_ne_nil _ _) hopen howed hrest) ?_
        rintro ⟨hkept, -⟩
        cases hnow.symm.trans hkept
      | some now =>
        obtain ⟨hnext, hsame⟩ := hf now hnow open? hopen.real
        rw [after_cons_of_some hnow, Fence.fencedFrom_cons_of_inFence (hsame ▸ hin), hnext,
          List.cons.injEq, hbehind, IsKept, hnow, Option.some.injEq]
    · obtain ⟨rfl, hout⟩ := Fence.step_of_not_inFence hin
      rw [Fence.fencedFrom_cons_of_not_inFence hin, ← hbehind, and_iff_right fun h => absurd h hin,
        hout]
      cases hnow : f.now? with
      | none => rw [after_cons_of_none hnow]
      | some now =>
        obtain ⟨hnext, hsame⟩ := hf now hnow none Fence.real_none
        rw [after_cons_of_some hnow, Fence.fencedFrom_cons_of_not_inFence (hsame ▸ hin), hnext,
          hout]

end Fate

end Transclude

import Transclude.Proofs.ShiftedLines

/-! Lines with their classes. They are cut where the lines are cut, and behind an unfenced line the
classes do not depend on what stands above it. -/

namespace Transclude

namespace Fence

def classifyFrom (open? : Option Fence) (ls : List Text) : List (Text × LineClass) :=
  ls.zip (classesFrom open? ls)

theorem classify_eq (s : Text) : classify s = classifyFrom none s.lines := rfl

theorem classifyFrom_cons (open? : Option Fence) (line : Text) (ls : List Text) :
    classifyFrom open? (line :: ls) =
      (line, (step open? line).1) :: classifyFrom (step open? line).2 ls := rfl

theorem classifyFrom_append (open? : Option Fence) (xs ys : List Text) :
    classifyFrom open? (xs ++ ys) =
      classifyFrom open? xs ++ classifyFrom (openAfter open? xs) ys := by
  rw [classifyFrom, classesFrom_append, List.zip_append (length_classesFrom open? xs).symm]
  rfl

theorem map_fst_classifyFrom (open? : Option Fence) (ls : List Text) :
    (classifyFrom open? ls).map (·.1) = ls :=
  List.map_fst_zip (length_classesFrom open? ls).ge

theorem exists_of_classifyFrom_eq_append {open? : Option Fence} {ls : List Text}
    {before behind : List (Text × LineClass)} (h : classifyFrom open? ls = before ++ behind) :
    ∃ xs ys, ls = xs ++ ys ∧ before = classifyFrom open? xs ∧
      behind = classifyFrom (openAfter open? xs) ys := by
  induction before generalizing open? ls with
  | nil => exact ⟨[], ls, rfl, rfl, h.symm⟩
  | cons first before ih =>
    cases ls with
    | nil => cases h
    | cons line ls =>
      rw [classifyFrom_cons, List.cons_append] at h
      obtain ⟨rfl, hrest⟩ := List.cons.inj h
      obtain ⟨xs, ys, rfl, rfl, rfl⟩ := ih hrest
      exact ⟨line :: xs, ys, rfl, rfl, rfl⟩

theorem exists_of_classifyFrom_eq_cons {open? : Option Fence} {ls : List Text} {line : Text}
    {kind : LineClass} {behind : List (Text × LineClass)}
    (h : classifyFrom open? ls = (line, kind) :: behind) (hk : kind.inFence = false) :
    ∃ ys, ls = line :: ys ∧ kind = (step none line).1 ∧ behind = classifyFrom none ys ∧
      (step none line).2 = none := by
  cases ls with
  | nil => cases h
  | cons other ls =>
    rw [classifyFrom_cons] at h
    obtain ⟨heq, rfl⟩ := List.cons.inj h
    obtain ⟨rfl, rfl⟩ := Prod.mk.inj heq
    have hprose : ¬ (step open? other).1.inFence := by simp [hk]
    obtain ⟨rfl, hnext⟩ := step_of_not_inFence hprose
    exact ⟨ls, rfl, rfl, by rw [hnext], hnext⟩

theorem step_of_prose {line : Text} (h : (step none line).1.inFence = false) :
    (step none line).1 = ((Heading.level? line).map LineClass.heading).getD .plain := by
  unfold step at h ⊢
  dsimp only at h ⊢
  cases ho : opening? line with
  | some fence =>
    rw [ho] at h
    cases h
  | none => cases Heading.level? line <;> rfl

theorem step_eq_heading_iff {line : Text} (h : (step none line).1.inFence = false) {level : Nat} :
    (step none line).1 = .heading level ↔ Heading.level? line = some level := by
  rw [step_of_prose h]
  cases Heading.level? line <;> simp

theorem level?_of_mem {s line : Text} {level : Nat} (h : (line, .heading level) ∈ classify s) :
    Heading.level? line = some level := by
  obtain ⟨before, behind, hsplit⟩ := List.append_of_mem h
  obtain ⟨xs, ys, -, -, hrest⟩ := exists_of_classifyFrom_eq_append hsplit
  obtain ⟨-, -, hkind, -, -⟩ := exists_of_classifyFrom_eq_cons hrest.symm rfl
  exact (step_eq_heading_iff (hkind ▸ rfl)).1 hkind.symm

end Fence

end Transclude

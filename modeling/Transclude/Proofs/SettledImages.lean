import Transclude.Proofs.ImageForms
import Transclude.Proofs.SealedFronts

/-! What a reference becomes that is looked up from one directory after the other. It carries the
bytes of the first file that its target leads to, since a reference that carries bytes leads nowhere
any more. -/

namespace Transclude

theorem Text.trim_eq_self {s : Text} (h : ∀ c ∈ s, isBlank c = false) : s.trim = s := by
  have hdrop {t : Text} (ht : ∀ c ∈ t, isBlank c = false) : t.dropWhile isBlank = t := by
    cases t with
    | nil => rfl
    | cons c t => exact List.dropWhile_cons_of_neg (by simp [ht c List.mem_cons_self])
  have hreverse : ∀ c ∈ s.reverse, isBlank c = false := fun c hc => h c (List.mem_reverse.1 hc)
  rw [trim, trimLeft, hdrop h, trimRight, hdrop hreverse, List.reverse_reverse]

namespace Image

variable {tree : Tree} {base : Path} {i : Image}

def foundAt? (tree : Tree) (base : Path) (i : Image) : Option (Path × List UInt8) :=
  let target := normalizeTarget i.target
  if isExternal target then none
  else match tree.resolve (targetPath base target) with
    | .found (.file bytes) => some (targetPath base target, bytes)
    | _ => none

/-- Whether the target of a reference can be followed from a directory, to wherever it leads. -/
def Followable (tree : Tree) (base : Path) (i : Image) : Prop :=
  isExternal (normalizeTarget i.target) = false →
    tree.resolve (targetPath base (normalizeTarget i.target)) ≠ .tooLong

instance (tree : Tree) (base : Path) (i : Image) : Decidable (i.Followable tree base) :=
  inferInstanceAs (Decidable (_ → _))

def settledAt (tree : Tree) (i : Image) (base : Path) : Image :=
  match i.foundAt? tree base with
  | some (p, bytes) => i.embedded p bytes
  | none => i

def settled (tree : Tree) (bases : List Path) (i : Image) : Text :=
  match bases.findSome? fun base => i.foundAt? tree base with
  | some (p, bytes) => i.embed p bytes
  | none => i.source

/-- Whether a reference can be looked up from some directories in turn and stays one all the while. -/
structure Portable (tree : Tree) (bases : List Path) (i : Image) : Prop where
  firm : i.IsFirm
  followable : ∀ base ∈ bases, i.Followable tree base

theorem replace_eq (h : i.Followable tree base) :
    replace tree base i = pure (i.settledAt tree base).source := by
  unfold replace settledAt foundAt?
  cases hexternal : isExternal (normalizeTarget i.target) with
  | true => simp [hexternal]
  | false =>
    have hfollowed := h hexternal
    cases hresolve : tree.resolve (targetPath base (normalizeTarget i.target)) with
    | missing => simp [hexternal, hresolve]
    | tooLong => exact absurd hresolve hfollowed
    | found entry =>
      cases entry with
      | directory => simp [hexternal, hresolve]
      | file bytes => simp [hexternal, hresolve, source_embedded]

theorem isExternal_of_data {target rest : Text} (hblank : ∀ c ∈ target, Text.isBlank c = false)
    (h : target = "data:".text ++ rest) : isExternal (normalizeTarget target) := by
  have hnormal : normalizeTarget target = "data:".text ++ rest := by
    rw [normalizeTarget, Text.trim_eq_self hblank, h]
    rfl
  obtain ⟨small, hsmall⟩ : ∃ small, Text.lower ("data:".text ++ rest) = "data:".text ++ small :=
    ⟨_, rfl⟩
  have hmark : Text.startsWith (Text.lower ("data:".text ++ rest)) "data:".text := by
    rw [hsmall, Text.startsWith, Text.after?_append]
    rfl
  rw [hnormal, isExternal, Bool.or_eq_true]
  exact .inr (List.any_eq_true.2 ⟨"data:", by decide, hmark⟩)

theorem isExternal_embedded (i : Image) (p : Path) (bytes : List UInt8) :
    isExternal (normalizeTarget (i.embedded p bytes).target) := by
  have htarget : (i.embedded p bytes).target =
      "data:".text ++ (mediaType p ++ (";base64,".text ++ Base64.encode bytes)) := by
    simp [embedded]
  refine isExternal_of_data (fun c hc => ?_) htarget
  have hcarried := isCarried_target i p bytes c hc
  exact isBlank_of_inBareTarget (Bool.and_eq_true_iff.1 hcarried).1

theorem foundAt?_embedded (p : Path) (bytes : List UInt8) :
    (i.embedded p bytes).foundAt? tree base = none := if_pos (isExternal_embedded i p bytes)

theorem followable_embedded (p : Path) (bytes : List UInt8) :
    (i.embedded p bytes).Followable tree base := fun hlocal => by
  rw [isExternal_embedded] at hlocal
  cases hlocal

/-- The nearest directory settles a reference. -/
theorem source_foldl_settledAt (tree : Tree) (bases : List Path) (i : Image) :
    (bases.foldl (settledAt tree) i).source = i.settled tree bases := by
  induction bases generalizing i with
  | nil => rfl
  | cons base bases ih =>
    rw [List.foldl_cons, ih]
    cases hfound : i.foundAt? tree base with
    | none => simp [settledAt, settled, hfound]
    | some file =>
      -- From here on the reference carries its bytes, and nothing is found for it any more.
      have hnone : bases.findSome? (fun base => (i.embedded file.1 file.2).foundAt? tree base) =
          none := List.findSome?_eq_none_iff.2 fun other _ => foundAt?_embedded _ _
      simp [settledAt, settled, hfound, hnone, source_embedded]

theorem settledAt_eq_or (tree : Tree) (i : Image) (base : Path) :
    i.settledAt tree base = i ∨ ∃ p bytes, i.settledAt tree base = i.embedded p bytes := by
  unfold settledAt
  split
  · exact .inr ⟨_, _, rfl⟩
  · exact .inl rfl

/-- What is written for a settled reference is a reference again, and the next directory settles it
like the one that was there before. -/
theorem exists_settled (h : i.IsFirm) (tree : Tree) (bases : List Path) :
    ∃ j : Image, j.source = i.settled tree bases ∧ j.IsFirm ∧
      ∀ base, i.Followable tree base →
        j.Followable tree base ∧ (j.settledAt tree base).source = i.settled tree (bases ++ [base]) := by
  refine ⟨bases.foldl (settledAt tree) i, source_foldl_settledAt tree bases i, ?_, ?_⟩
  · induction bases generalizing i with
    | nil => exact h
    | cons base bases ih =>
      apply ih
      rcases settledAt_eq_or tree i base with heq | ⟨p, bytes, heq⟩
      · rw [heq]
        exact h
      · rw [heq]
        exact h.embedded p bytes
  · intro base hbase
    constructor
    · induction bases generalizing i with
      | nil => exact hbase
      | cons other bases ih =>
        rcases settledAt_eq_or tree i other with heq | ⟨p, bytes, heq⟩
        · rw [List.foldl_cons, heq]
          exact ih h hbase
        · rw [List.foldl_cons, heq]
          exact ih (h.embedded p bytes) (followable_embedded p bytes)
    · rw [← source_foldl_settledAt, List.foldl_append]
      rfl

theorem IsFirm.isPhrase_settled (h : i.IsFirm) (tree : Tree) (bases : List Path) :
    (i.settled tree bases).IsPhrase := by
  obtain ⟨j, hj, hfirm, -⟩ := exists_settled h tree bases
  exact hj ▸ hfirm.isPhrase

theorem embed_ne_source (h : i.IsFirm) {found : Path × List UInt8}
    (hf : i.foundAt? tree base = some found) (p : Path) (bytes : List UInt8) :
    i.embed p bytes ≠ i.source := by
  intro heq
  have hold := h.reads []
  have hnew := (h.embedded p bytes).reads []
  rw [source_embedded, heq, hold] at hnew
  obtain ⟨hsame, -⟩ := Prod.mk.inj (Option.some.inj hnew)
  rw [hsame, foundAt?_embedded] at hf
  cases hf

/-- The directories further out have no part in what a reference becomes exactly if its target leads
to a file from the first directory, or leads to none from any of the others. -/
theorem settled_eq_own_iff (h : i.IsFirm) (own : Path) (outer : List Path) :
    i.settled tree (own :: outer) = i.settled tree [own] ↔
      (i.foundAt? tree own).isSome ∨ ∀ base ∈ outer, i.foundAt? tree base = none := by
  cases hown : i.foundAt? tree own with
  | some file => simp [settled, hown]
  | none =>
    cases houter : outer.findSome? fun base => i.foundAt? tree base with
    | none =>
      have hnone := List.findSome?_eq_none_iff.1 houter
      have hboth : i.settled tree (own :: outer) = i.settled tree [own] := by
        simp [settled, hown, houter]
      exact iff_of_true hboth (.inr hnone)
    | some file =>
      obtain ⟨base, hbase, hfound⟩ := List.exists_of_findSome?_eq_some houter
      have hfirst : i.settled tree (own :: outer) = i.embed file.1 file.2 := by
        simp [settled, hown, houter]
      have hlast : i.settled tree [own] = i.source := by
        simp [settled, hown]
      rw [hfirst, hlast]
      refine iff_of_false (embed_ne_source h hfound _ _) ?_
      rintro (hsome | hnone)
      · cases hsome
      · rw [hnone base hbase] at hfound
        cases hfound

end Image
end Transclude

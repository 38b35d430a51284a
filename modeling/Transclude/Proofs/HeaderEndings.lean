import Transclude.Proofs.HeaderRows
import Transclude.Proofs.ShiftedLines

/-! Blocks whose rows end in line feeds, with or without carriage returns in front of them. Rows that
end in no carriage return themselves are found again, and a block goes on until the first mark behind
its first row. -/

namespace Transclude

namespace FrontMatter

def IsEnding (e : Text) : Prop := e = ['\n'] ∨ e = ['\r', '\n']

variable {e r s t : Text} {rs : List Text} {c : Char}

theorem isEnding_endingOf (sample : Text) : IsEnding (endingOf sample) := by
  unfold endingOf
  split
  · exact .inr rfl
  · exact .inl rfl

theorem IsEnding.ending?_append (h : IsEnding e) (t : Text) : ending? (e ++ t) = some (e, t) := by
  rcases h with rfl | rfl <;> rfl

theorem isEnding_of_ending? (h : ending? s = some (e, t)) : IsEnding e := by
  unfold ending? at h
  split at h
  · exact .inl (Prod.mk.inj (Option.some.inj h)).1.symm
  · exact .inr (Prod.mk.inj (Option.some.inj h)).1.symm
  · cases h

theorem IsEnding.exists_eq_append (h : IsEnding e) : ∃ x, (x = [] ∨ x = ['\r']) ∧ e = x ++ ['\n'] := by
  rcases h with rfl | rfl
  · exact ⟨[], .inl rfl, rfl⟩
  · exact ⟨['\r'], .inr rfl, rfl⟩

theorem not_mem_append_return {l x : Text} (hl : '\n' ∉ l) (hx : x = [] ∨ x = ['\r']) :
    '\n' ∉ l ++ x := by
  intro hmem
  rcases List.mem_append.1 hmem with hmem | hmem
  · exact hl hmem
  · rcases hx with rfl | rfl <;> simp at hmem

theorem IsRow.append_inj {r' x y : Text} (h : IsRow r) (h' : IsRow r') (hx : x = [] ∨ x = ['\r'])
    (hy : y = [] ∨ y = ['\r']) (heq : r ++ x = r' ++ y) : r = r' := by
  rcases hx with rfl | rfl <;> rcases hy with rfl | rfl
  · simpa using heq
  · refine absurd ?_ h.uncut
    rw [← List.append_nil r, heq, List.getLast?_append_cons]
    rfl
  · refine absurd ?_ h'.uncut
    rw [← List.append_nil r', ← heq, List.getLast?_append_cons]
    rfl
  · exact List.append_cancel_right heq

theorem closing?_row {e' : Text} (he : IsEnding e) (he' : IsEnding e') (hr : IsRow r)
    (hmark : r ≠ fenceMark) (t : Text) : closing? (e ++ (r ++ (e' ++ t))) = none := by
  obtain ⟨x, hx, rfl⟩ := he'.exists_eq_append
  rw [closing?, he.ending?_append]
  dsimp only
  split
  · rfl
  · rename_i hafter
    have hwhole := Text.after?_eq_some_iff.1 hafter
    have hfeed : '\n' ∈ r ++ (x ++ ['\n'] ++ t) := by simp
    rw [hwhole] at hfeed
    exact absurd hfeed (by decide)
  · rename_i u _ hafter
    have hwhole := Text.after?_eq_some_iff.1 hafter
    cases hend : ending? u with
    | none => rfl
    | some halves =>
      obtain ⟨f, rest⟩ := halves
      obtain ⟨y, hy, rfl⟩ := (isEnding_of_ending? hend).exists_eq_append
      rw [← append_of_ending? hend] at hwhole
      -- Both sides are cut at their first line feed.
      have hline (z : Text) (hz : z = [] ∨ z = ['\r']) (l : Text) (hl : '\n' ∉ l) (v : Text) :
          Text.cut? ['\n'] (l ++ (z ++ ['\n'] ++ v)) = some (l ++ z, v) :=
        Text.cut?_singleton_iff.2 ⟨by simp, not_mem_append_return hl hz⟩
      have hcut := hline x hx r hr.line t
      rw [hwhole, hline y hy fenceMark (by decide) rest] at hcut
      have hrows := (Prod.mk.inj (Option.some.inj hcut)).1
      have hfence : IsRow fenceMark := ⟨by decide, by decide⟩
      exact absurd (hfence.append_inj hr hy hx hrows).symm hmark

theorem closing?_mark (he : IsEnding e) (t : Text) :
    closing? (e ++ (fenceMark ++ (e ++ t))) = some (e ++ fenceMark ++ e, t) := by
  rw [closing?, he.ending?_append]
  dsimp only
  rw [Text.after?_append]
  rcases he with rfl | rfl <;> rfl

theorem cutBlock?_ending (he : IsEnding e) (hr : IsRow r) (hmark : r ≠ fenceMark) (t : Text) :
    cutBlock? (e ++ (r ++ (e ++ t))) =
      (cutBlock? (r ++ (e ++ t))).map fun (block, others) => (e ++ block, others) := by
  have hnone := closing?_row he he hr hmark t
  have hfeed : cutBlock? ('\n' :: (r ++ (e ++ t))) =
      (cutBlock? (r ++ (e ++ t))).map fun (block, others) => ('\n' :: block, others) := by
    have hnone := closing?_row (.inl rfl) he hr hmark t
    rw [List.singleton_append] at hnone
    rw [cutBlock?, hnone]
  obtain rfl | rfl := he
  · exact hfeed
  · rw [List.cons_append, List.cons_append, List.nil_append] at hnone ⊢
    rw [cutBlock?, hnone]
    dsimp only
    rw [hfeed]
    cases cutBlock? (r ++ (['\r', '\n'] ++ t)) <;> rfl

theorem cutBlock?_mark (he : IsEnding e) (t : Text) :
    cutBlock? (e ++ (fenceMark ++ (e ++ t))) = some ([], e ++ fenceMark ++ e, t) := by
  have hclose := closing?_mark he t
  obtain ⟨c, rest, hrest⟩ : ∃ c rest, e ++ (fenceMark ++ (e ++ t)) = c :: rest := by
    rcases he with rfl | rfl <;> exact ⟨_, _, rfl⟩
  rw [hrest] at hclose ⊢
  rw [cutBlock?, hclose]

theorem cutBlock?_intercalate (he : IsEnding e) (hne : rs ≠ []) (hrs : ∀ r ∈ rs, IsRow r)
    (hmark : fenceMark ∉ rs.tail) (t : Text) :
    cutBlock? (e.intercalate rs ++ (e ++ (fenceMark ++ (e ++ t)))) =
      some (e.intercalate rs, e ++ fenceMark ++ e, t) := by
  obtain ⟨r, rs, rfl⟩ := List.exists_cons_of_ne_nil hne
  rw [List.tail_cons] at hmark
  clear hne
  induction rs generalizing r with
  | nil =>
    rw [List.intercalate_singleton, cutBlock?_row (hrs r List.mem_cons_self), cutBlock?_mark he]
    simp
  | cons next rs ih =>
    obtain ⟨hr, hrest⟩ := List.forall_mem_cons.1 hrs
    have hnext : next ≠ fenceMark := fun h => hmark (h ▸ List.mem_cons_self)
    have hblock := ih next hrest (List.not_mem_of_not_mem_cons hmark)
    obtain ⟨more, hmore⟩ : ∃ more, e.intercalate (next :: rs) ++ (e ++ (fenceMark ++ (e ++ t))) =
        next ++ (e ++ more) := by
      cases rs with
      | nil => exact ⟨_, by rw [List.intercalate_singleton]⟩
      | cons x xs => exact ⟨_, by rw [List.intercalate_cons_cons, List.append_assoc, List.append_assoc]⟩
    rw [List.intercalate_cons_cons, List.append_assoc, List.append_assoc, cutBlock?_row hr, hmore,
      cutBlock?_ending he (hrest next List.mem_cons_self) hnext, ← hmore, hblock]
    simp

theorem dropReturn_of_isRow (hr : IsRow r) : Text.dropReturn r = r := if_neg hr.uncut

theorem lines_append_ending (he : IsEnding e) (hr : IsRow r) (s : Text) :
    Text.lines (r ++ (e ++ s)) = r :: Text.lines s := by
  obtain ⟨x, hx, rfl⟩ := he.exists_eq_append
  have hrx := not_mem_append_return hr.line hx
  have hrows : Text.rows (r ++ (x ++ ['\n'] ++ s)) = (r ++ x) :: Text.rows s := by
    have hjoin := Text.rows_above_append (List.forall_mem_singleton.2 hrx) s
    simpa [Text.above] using hjoin
  have hdrop : Text.dropReturn (r ++ x) = r := by
    rcases hx with rfl | rfl
    · rw [List.append_nil, dropReturn_of_isRow hr]
    · simp [Text.dropReturn]
  obtain ⟨row, rest, hs⟩ := Text.exists_rows s
  change Text.dropReturns (Text.rows _) = r :: Text.dropReturns (Text.rows s)
  rw [hrows, hs, Text.dropReturns, hdrop]

theorem lines_intercalate (he : IsEnding e) (hne : rs ≠ []) (hrs : ∀ r ∈ rs, IsRow r) :
    Text.lines (e.intercalate rs) = rs := by
  obtain ⟨r, rs, rfl⟩ := List.exists_cons_of_ne_nil hne
  clear hne
  induction rs generalizing r with
  | nil =>
    have hrow := Text.rows_of_row (hrs r List.mem_cons_self).line
    rw [List.intercalate_singleton]
    change Text.dropReturns (Text.rows r) = [r]
    rw [hrow, Text.dropReturns]
  | cons next rs ih =>
    obtain ⟨hr, hrest⟩ := List.forall_mem_cons.1 hrs
    rw [List.intercalate_cons_cons, List.append_assoc, lines_append_ending he hr, ih next hrest]

end FrontMatter
end Transclude

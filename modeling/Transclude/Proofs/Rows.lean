import Transclude.Fence.Basic

/-! The rows of a text are what stands between its line feeds. Joining texts joins the last row of
the one to the first row of the other, and blanks around a row do not change its class. -/

namespace Transclude
namespace Text

def rows (s : Text) : List Text := s.splitOn '\n'

/-- Rows with a line feed behind each of them. -/
def above (rs : List Text) : Text := rs.flatMap (· ++ ['\n'])

/-- Rows with a line feed in front of each of them. -/
def below (rs : List Text) : Text := rs.flatMap ('\n' :: ·)

theorem rows_ne_nil (s : Text) : rows s ≠ [] := List.splitOn_ne_nil '\n' s

theorem unlines_rows (s : Text) : unlines (rows s) = s := unlines_splitOn s

theorem rows_unlines {rs : List Text} (hne : rs ≠ []) (h : ∀ r ∈ rs, '\n' ∉ r) :
    rows (unlines rs) = rs := List.splitOn_intercalate '\n' h hne

theorem lines_eq_rows {s : Text} (h : '\r' ∉ s) : s.lines = rows s := by
  rw [lines, dropReturns_eq_self, rows]
  intro l hl hr
  exact h (unlines_splitOn s ▸ mem_unlines hl hr)

theorem rows_cons (c : Char) (s : Text) :
    rows (c :: s) = if c = '\n' then [] :: rows s else (rows s).modifyHead (c :: ·) := by
  simpa [rows] using List.splitOn_cons_eq_if_modifyHead (a := '\n') c s

theorem rows_newline_cons (s : Text) : rows ('\n' :: s) = [] :: rows s := rows_cons '\n' s

theorem rows_cons_of_ne {c : Char} (hc : c ≠ '\n') {s row : Text} {rest : List Text}
    (h : rows s = row :: rest) : rows (c :: s) = (c :: row) :: rest := by
  rw [rows_cons, if_neg hc, h]
  rfl

theorem exists_rows (s : Text) : ∃ row rest, rows s = row :: rest :=
  List.exists_cons_of_ne_nil (rows_ne_nil s)

theorem rows_of_row {row : Text} (h : '\n' ∉ row) : rows row = [row] :=
  List.splitOn_eq_singleton h

theorem not_mem_of_mem_splitOn {s r : Text} {x : Char} (h : r ∈ s.splitOn x) : x ∉ r := by
  induction s generalizing r with
  | nil =>
    obtain rfl : r = [] := by simpa using h
    exact List.not_mem_nil
  | cons c s ih =>
    rw [List.splitOn_cons_eq_if_modifyHead] at h
    split at h
    · rcases List.mem_cons.1 h with rfl | h
      · exact List.not_mem_nil
      · exact ih h
    · rename_i hc
      obtain ⟨a, as, hs⟩ := List.exists_cons_of_ne_nil (List.splitOn_ne_nil x s)
      rw [hs] at h ih
      rcases List.mem_cons.1 h with rfl | h
      · intro hmem
        rcases List.mem_cons.1 hmem with rfl | hmem
        · exact hc (beq_self_eq_true x)
        · exact ih List.mem_cons_self hmem
      · exact ih (List.mem_cons_of_mem a h)

theorem not_mem_of_mem_rows {s r : Text} (h : r ∈ rows s) : '\n' ∉ r := not_mem_of_mem_splitOn h

theorem not_mem_of_rows {s r : Text} {c : Char} (h : c ∉ s) (hr : r ∈ rows s) : c ∉ r :=
  fun hc => h (unlines_rows s ▸ mem_unlines hr hc)

theorem above_append_unlines (xs : List Text) {ys : List Text} (h : ys ≠ []) :
    above xs ++ unlines ys = unlines (xs ++ ys) := by
  induction xs with
  | nil => rfl
  | cons x xs ih =>
    have hne : xs ++ ys ≠ [] := by simp [h]
    obtain ⟨z, zs, hz⟩ := List.exists_cons_of_ne_nil hne
    have hjoin : unlines (x :: (xs ++ ys)) = x ++ ['\n'] ++ unlines (xs ++ ys) := by
      rw [hz]
      exact List.intercalate_cons_cons
    rw [List.cons_append, hjoin, ← ih]
    simp [above]

theorem unlines_append_below {xs : List Text} (h : xs ≠ []) (ys : List Text) :
    unlines xs ++ below ys = unlines (xs ++ ys) := by
  induction xs with
  | nil => exact absurd rfl h
  | cons x xs ih =>
    cases xs with
    | nil =>
      cases ys with
      | nil => simp [unlines, below]
      | cons y ys =>
        induction ys generalizing y with
        | nil => simp [unlines, below, List.intercalate]
        | cons z zs ihy =>
          have := ihy z
          simp_all [unlines, below, List.intercalate]
    | cons z zs =>
      have := ih (by simp)
      simp only [List.cons_append, unlines, List.intercalate_cons_cons] at this ⊢
      rw [← this]
      simp

theorem unlines_cons (row : Text) (rest : List Text) :
    unlines (row :: rest) = row ++ below rest := by
  have hjoin := unlines_append_below (List.cons_ne_nil row []) rest
  simpa [unlines] using hjoin.symm

theorem below_cons (y : Text) (ys : List Text) : below (y :: ys) = '\n' :: unlines (y :: ys) := by
  have hjoin := unlines_append_below (List.cons_ne_nil y []) ys
  rw [List.singleton_append] at hjoin
  rw [← hjoin]
  simp [below, unlines]

theorem rows_above_append {xs : List Text} (h : ∀ x ∈ xs, '\n' ∉ x) (t : Text) :
    rows (above xs ++ t) = xs ++ rows t := by
  rw [← unlines_rows t, above_append_unlines xs (rows_ne_nil t), unlines_rows,
    rows_unlines (by simp [rows_ne_nil])]
  intro r hr
  rcases List.mem_append.1 hr with hr | hr
  · exact h r hr
  · exact not_mem_of_mem_rows hr

theorem rows_append_below {ys : List Text} (h : ∀ y ∈ ys, '\n' ∉ y) (t : Text) :
    rows (t ++ below ys) = rows t ++ ys := by
  rw [← unlines_rows t, unlines_append_below (rows_ne_nil t), unlines_rows,
    rows_unlines (by simp [rows_ne_nil])]
  intro r hr
  rcases List.mem_append.1 hr with hr | hr
  · exact not_mem_of_mem_rows hr
  · exact h r hr

/-- The rows of two texts in a row: the last of the first and the first of the second are one. -/
theorem rows_append {a b x y : Text} {xs ys : List Text} (ha : rows a = xs ++ [x])
    (hb : rows b = y :: ys) : rows (a ++ b) = xs ++ (x ++ y) :: ys := by
  have hx : ∀ r ∈ xs ++ [x], '\n' ∉ r := fun r hr => not_mem_of_mem_rows (ha ▸ hr)
  have hy : ∀ r ∈ y :: ys, '\n' ∉ r := fun r hr => not_mem_of_mem_rows (hb ▸ hr)
  have hna : a = above xs ++ x := by
    rw [← unlines_rows a, ha, ← above_append_unlines xs (by simp)]
    simp [unlines, List.intercalate]
  have hnb : b = y ++ below ys := by
    rw [← unlines_rows b, hb, ← List.singleton_append, ← unlines_append_below (by simp)]
    simp [unlines, List.intercalate]
  have hxy : rows (x ++ y) = [x ++ y] := by
    refine rows_of_row fun hmem => ?_
    rcases List.mem_append.1 hmem with hmem | hmem
    · exact hx x (by simp) hmem
    · exact hy y (by simp) hmem
  have happ : a ++ b = above xs ++ (x ++ y ++ below ys) := by simp [hna, hnb]
  rw [happ, rows_above_append (fun r hr => hx r (by simp [hr])),
    rows_append_below (fun r hr => hy r (by simp [hr])), hxy]
  rfl

theorem rows_newline (s : Text) : rows (s ++ ['\n']) = rows s ++ [[]] := by
  obtain ⟨xs, x, hs⟩ := (List.eq_nil_or_concat s.rows).resolve_left (rows_ne_nil s)
  rw [List.concat_eq_append] at hs
  rw [rows_append hs (show rows ['\n'] = [[], []] from rfl), List.append_nil, hs, List.append_assoc]
  rfl

theorem trimLeft_append (s t : Text) :
    trimLeft (s ++ t) = if s.allBlank then trimLeft t else trimLeft s ++ t := by
  induction s with
  | nil => simp [allBlank]
  | cons c s ih => by_cases h : isBlank c <;> simp_all [trimLeft, allBlank]

theorem trimRight_append (s t : Text) :
    trimRight (s ++ t) = if t.allBlank then trimRight s else s ++ trimRight t := by
  have hrev (u : Text) : (trimRight u).reverse = trimLeft u.reverse := by
    simp [trimRight, trimLeft]
  have hblank : allBlank t.reverse = t.allBlank := by simp [allBlank]
  rw [← List.reverse_inj, hrev, List.reverse_append, trimLeft_append, hblank]
  split
  · rw [hrev]
  · rw [List.reverse_append, hrev]

theorem trim_append_blank {t : Text} (h : t.allBlank) (s : Text) : trim (s ++ t) = trim s := by
  have ht : trimLeft t = [] := trimLeft_eq_nil_iff.2 h
  rw [trim, trimLeft_append]
  split
  · rename_i hs
    rw [ht, trim, trimLeft_eq_nil_iff.2 hs]
  · rw [trimRight_append, if_pos h, trim]

theorem trim_blank_append {t : Text} (h : t.allBlank) (s : Text) : trim (t ++ s) = trim s := by
  rw [trim, trimLeft_append, if_pos h, trim]

theorem trimRight_append_of_last {s : Text} {c : Char} (h : isBlank c = false) (t : Text) :
    trimRight (s ++ c :: t) = s ++ c :: trimRight t := by
  have hc : allBlank (c :: t) = false := by simp [allBlank, h]
  have hone : trimRight (c :: t) = c :: trimRight t := by
    have hcut := trimRight_append [c] t
    simp only [List.singleton_append] at hcut
    rw [hcut]
    split
    · rename_i ht
      rw [trimRight_eq_nil_iff.2 ht]
      simp [trimRight, h]
    · rfl
  rw [trimRight_append, hc, if_neg Bool.false_ne_true, hone]

theorem head?_trimRight {s : Text} (h : allBlank s = false) : (trimRight s).head? = s.head? := by
  cases s with
  | nil => simp [allBlank] at h
  | cons c s =>
    by_cases hs : allBlank s
    · have hc : isBlank c = false := by
        rw [allBlank, List.all_cons, Bool.and_eq_false_iff] at h
        rcases h with h | h
        · exact h
        · exact absurd hs (by simpa [allBlank] using h)
      have hkeep := trimRight_append_of_last (s := []) hc s
      rw [List.nil_append, List.nil_append] at hkeep
      rw [hkeep]
      rfl
    · have hcut := trimRight_append [c] s
      rw [if_neg hs, List.singleton_append] at hcut
      rw [hcut]
      rfl

theorem trim_run {blanks : Text} (hb : blanks.allBlank) {c : Char} (hc : isBlank c = false) {n : Nat}
    (hn : 1 ≤ n) (rest : Text) :
    (blanks ++ List.replicate n c ++ rest).trim = List.replicate n c ++ rest.trimRight := by
  obtain ⟨m, rfl⟩ := Nat.exists_eq_add_of_le' hn
  have hleft : Text.trimLeft (List.replicate (m + 1) c ++ rest) =
      List.replicate (m + 1) c ++ rest := by
    rw [trimLeft, List.replicate_succ, List.cons_append,
      List.dropWhile_cons_of_neg (by simp [hc])]
  rw [List.append_assoc, trim_blank_append hb, trim, hleft, List.replicate_succ',
    List.append_assoc, List.append_assoc]
  exact trimRight_append_of_last hc rest

theorem trimRight_prefix (s : Text) : s.trimRight <+: s := by
  have hsuffix := List.dropWhile_suffix isBlank (l := s.reverse)
  rw [← List.reverse_prefix, List.reverse_reverse] at hsuffix
  exact hsuffix

end Text

namespace Fence

theorem opening?_congr {r r' : Text} (h : r.trim = r'.trim) : opening? r = opening? r' := by
  unfold opening?
  rw [h]

theorem level?_congr {r r' : Text} (h : r.trim = r'.trim) :
    Heading.level? r = Heading.level? r' := by
  unfold Heading.level?
  rw [h]

theorem step_congr {r r' : Text} (h : r.trim = r'.trim) (open? : Option Fence) :
    step open? r = step open? r' := by
  unfold step closedBy
  rw [h, opening?_congr h, level?_congr h]

theorem step_append_newline (open? : Option Fence) (r : Text) :
    step open? (r ++ ['\n']) = step open? r :=
  step_congr (Text.trim_append_blank (by decide) r) open?

theorem step_blank_append {t : Text} (h : t.allBlank) (open? : Option Fence) (r : Text) :
    step open? (t ++ r) = step open? r :=
  step_congr (Text.trim_blank_append h r) open?

theorem step_blank {t : Text} (h : t.allBlank) : step none t = (.plain, none) := by
  have ht : t.trim = Text.trim [] := by
    rw [Text.trim, Text.trimLeft_eq_nil_iff.2 h]
    rfl
  rw [step_congr ht]
  rfl

end Fence
end Transclude

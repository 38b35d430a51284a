import Transclude.Text.Scan

/-! Chunks put together, and passes over them. A pass puts something in place of what was found and
leaves the plain text as it is, so it does not matter to it how that text is cut. -/

namespace Transclude.Chunk

variable {α : Type}

theorem pushText_pushText (s t : Text) (chunks : List (Chunk α)) :
    pushText s (pushText t chunks) = pushText (s ++ t) chunks := by
  cases chunks with
  | nil => rfl
  | cons c cs => cases c <;> simp [pushText]

theorem merge_pushText_append (s : Text) (xs ys : List (Chunk α)) :
    merge (pushText s xs ++ ys) = pushText s (merge (xs ++ ys)) := by
  cases xs with
  | nil => rfl
  | cons x xs =>
    cases x with
    | plain t => exact (pushText_pushText s t (merge (xs ++ ys))).symm
    | found a => rfl

theorem pushText_append_found (s : Text) (xs : List (Chunk α)) (a : α) (ys : List (Chunk α)) :
    pushText s (xs ++ .found a :: ys) = pushText s xs ++ .found a :: ys := by
  cases xs with
  | nil => rfl
  | cons c xs => cases c <;> rfl

theorem merge_append_found (xs : List (Chunk α)) (a : α) (ys : List (Chunk α)) :
    merge (xs ++ .found a :: ys) = merge xs ++ .found a :: merge ys := by
  induction xs with
  | nil => rfl
  | cons c xs ih =>
    cases c with
    | plain s => rw [List.cons_append, merge, ih, pushText_append_found, merge]
    | found b => rw [List.cons_append, merge, ih, merge, List.cons_append]

theorem exists_of_pushText {s : Text} {l xs ys : List (Chunk α)} {a : α}
    (h : pushText s l = xs ++ .found a :: ys) :
    ∃ us, l = us ++ .found a :: ys ∧ xs = pushText s us := by
  unfold pushText at h
  split at h
  · rename_i t rest
    cases xs with
    | nil => cases h
    | cons c xs =>
      obtain ⟨rfl, rfl⟩ := List.cons.inj h
      exact ⟨.plain t :: xs, rfl, rfl⟩
  · rename_i hplain
    cases xs with
    | nil => cases h
    | cons c xs =>
      obtain ⟨rfl, rfl⟩ := List.cons.inj h
      refine ⟨xs, rfl, ?_⟩
      cases xs with
      | nil => rfl
      | cons c xs =>
        cases c with
        | plain t => exact absurd rfl (hplain t _)
        | found b => rfl

theorem exists_of_merge {l xs ys : List (Chunk α)} {a : α} (h : merge l = xs ++ .found a :: ys) :
    ∃ us vs, l = us ++ .found a :: vs ∧ merge us = xs ∧ merge vs = ys := by
  induction l generalizing xs with
  | nil => cases xs <;> cases h
  | cons c l ih =>
    cases c with
    | plain s =>
      obtain ⟨zs, hzs, rfl⟩ := exists_of_pushText h
      obtain ⟨us, vs, rfl, rfl, rfl⟩ := ih hzs
      exact ⟨.plain s :: us, vs, rfl, rfl, rfl⟩
    | found b =>
      cases xs with
      | nil =>
        obtain ⟨hb, rfl⟩ := List.cons.inj h
        exact ⟨[], l, by rw [hb]; rfl, rfl, rfl⟩
      | cons c xs =>
        obtain ⟨rfl, hrest⟩ := List.cons.inj h
        obtain ⟨us, vs, rfl, rfl, rfl⟩ := ih hrest
        exact ⟨.found b :: us, vs, rfl, rfl, rfl⟩

@[simp] theorem merge_merge_append (xs ys : List (Chunk α)) :
    merge (merge xs ++ ys) = merge (xs ++ ys) := by
  induction xs with
  | nil => rfl
  | cons x xs ih =>
    cases x with
    | plain s => rw [merge, merge_pushText_append, ih, List.cons_append, merge]
    | found a => rw [merge, List.cons_append, merge, ih, List.cons_append, merge]

@[simp] theorem merge_merge (xs : List (Chunk α)) : merge (merge xs) = merge xs := by
  have h := merge_merge_append xs []
  rwa [List.append_nil, List.append_nil] at h

@[simp] theorem merge_append_merge (xs ys : List (Chunk α)) :
    merge (xs ++ merge ys) = merge (xs ++ ys) := by
  induction xs with
  | nil => exact merge_merge ys
  | cons x xs ih =>
    cases x with
    | plain s => rw [List.cons_append, merge, ih, List.cons_append, merge]
    | found a => rw [List.cons_append, merge, ih, List.cons_append, merge]

theorem merge_append_congr {xs xs' ys ys' : List (Chunk α)} (hx : merge xs = merge xs')
    (hy : merge ys = merge ys') : merge (xs ++ ys) = merge (xs' ++ ys') := by
  rw [← merge_merge_append, hx, merge_merge_append, ← merge_append_merge, hy, merge_append_merge]

theorem found_mem_merge {a : α} (xs : List (Chunk α)) :
    .found a ∈ merge xs ↔ .found a ∈ xs := by
  have hpush (s : Text) (ys : List (Chunk α)) : .found a ∈ pushText s ys ↔ .found a ∈ ys := by
    fun_cases pushText s ys <;> simp
  induction xs with
  | nil => rfl
  | cons x xs ih => cases x <;> simp [merge, hpush, ih]

theorem merge_plain_append (s t : Text) (xs : List (Chunk α)) :
    merge (.plain s :: .plain t :: xs) = merge (.plain (s ++ t) :: xs) := by
  rw [merge, merge, merge, pushText_pushText]

section Passes

variable {m : Type → Type} [Monad m]

def pass (replace : α → m Text) : List (Chunk α) → m Text
  | [] => pure []
  | .plain s :: rest => (s ++ ·) <$> pass replace rest
  | .found a :: rest => do
    let s ← replace a
    (s ++ ·) <$> pass replace rest

variable [LawfulMonad m] (replace : α → m Text)

theorem pass_append (xs ys : List (Chunk α)) :
    pass replace (xs ++ ys) = pass replace xs >>= fun s => (s ++ ·) <$> pass replace ys := by
  induction xs with
  | nil => simp [pass]
  | cons x xs ih =>
    cases x with
    | plain s => simp [pass, ih]
    | found a => simp [pass, ih]

theorem pass_pushText (s : Text) (chunks : List (Chunk α)) :
    pass replace (pushText s chunks) = (s ++ ·) <$> pass replace chunks := by
  fun_cases pushText s chunks with
  | case1 t rest => simp [pass]
  | case2 => rfl

theorem pass_merge (chunks : List (Chunk α)) :
    pass replace (merge chunks) = pass replace chunks := by
  induction chunks with
  | nil => rfl
  | cons chunk rest ih =>
    cases chunk with
    | plain s => rw [merge, pass_pushText, ih, pass]
    | found a => rw [merge, pass, ih, pass]

end Passes

end Transclude.Chunk

import Transclude.FrontMatter.Block
import Transclude.Proofs.Rows

/-! The front matter of a file row by row. It stands between the first row and the next one that is a
mark, and a block of no rows does not count. -/

namespace Transclude

namespace Text

variable {r x y : Text} {rs xs ys : List Text}

theorem unlines_singleton (r : Text) : unlines [r] = r := by simp [unlines]

theorem unlines_cons_cons (r x : Text) (rs : List Text) :
    unlines (r :: x :: rs) = r ++ '\n' :: unlines (x :: rs) := by
  rw [unlines, List.intercalate_cons_cons, List.append_assoc]
  rfl

theorem mem_of_mem_unlines {c : Char} (hc : c ≠ '\n') (h : c ∈ unlines rs) : ∃ r ∈ rs, c ∈ r := by
  induction rs with
  | nil => cases h
  | cons r rs ih =>
    cases rs with
    | nil => exact ⟨r, List.mem_cons_self, unlines_singleton r ▸ h⟩
    | cons x rs =>
      rw [unlines_cons_cons, List.mem_append, List.mem_cons] at h
      rcases h with h | h | h
      · exact ⟨r, List.mem_cons_self, h⟩
      · exact absurd h hc
      · obtain ⟨u, hu, hcu⟩ := ih h
        exact ⟨u, List.mem_cons_of_mem r hu, hcu⟩

theorem not_mem_unlines {c : Char} (hc : c ≠ '\n') (h : ∀ r ∈ rs, c ∉ r) : c ∉ unlines rs := by
  intro hmem
  obtain ⟨r, hr, hcr⟩ := mem_of_mem_unlines hc hmem
  exact h r hr hcr

end Text

namespace FrontMatter

variable {s : Text} {b r mark : Text} {block behind ts : List Text}

def IsMark (mark : Text) : Prop := mark = [] ∨ mark = [byteOrderMark]

theorem ending?_eq_none {c : Char} (hn : c ≠ '\n') (hr : c ≠ '\r') : ending? (c :: s) = none := by
  unfold ending?
  split
  · rename_i heq
    exact absurd (List.cons.inj heq).1 hn
  · rename_i heq
    exact absurd (List.cons.inj heq).1 hr
  · rfl

theorem eq_of_ending? {ending rest : Text} (hr : '\r' ∉ s) (h : ending? s = some (ending, rest)) :
    ending = ['\n'] ∧ s = '\n' :: rest := by
  unfold ending? at h
  split at h
  · obtain ⟨rfl, rfl⟩ := Prod.mk.inj (Option.some.inj h)
    exact ⟨rfl, rfl⟩
  · exact absurd List.mem_cons_self hr
  · cases h

theorem closing?_eq_none {c : Char} (hn : c ≠ '\n') (hr : c ≠ '\r') : closing? (c :: s) = none := by
  rw [closing?, ending?_eq_none hn hr]

theorem closing?_unlines (hn : ∀ u ∈ r :: ts, '\n' ∉ u) (hr : ∀ u ∈ r :: ts, '\r' ∉ u) :
    closing? ('\n' :: Text.unlines (r :: ts)) =
      if r = fenceMark then
        some ('\n' :: fenceMark ++ (if ts = [] then [] else ['\n']), Text.unlines ts)
      else none := by
  have hbefore : ending? ('\n' :: Text.unlines (r :: ts)) =
      some (['\n'], Text.unlines (r :: ts)) := rfl
  rw [closing?, hbefore]
  dsimp only
  by_cases hmark : r = fenceMark
  · rw [if_pos hmark, hmark]
    cases ts with
    | nil =>
      have hall := Text.after?_append fenceMark []
      rw [List.append_nil] at hall
      rw [Text.unlines_singleton, hall]
      rfl
    | cons x xs =>
      rw [Text.unlines_cons_cons, Text.after?_append]
      rfl
  · rw [if_neg hmark]
    split
    · rfl
    · rename_i hafter
      have hwhole := Text.after?_eq_some_iff.1 hafter
      have hrows := congrArg Text.rows hwhole
      rw [Text.rows_unlines (List.cons_ne_nil r ts) hn] at hrows
      exact absurd (List.cons.inj hrows).1 hmark
    · -- With a line break behind the mark, the mark would be the whole first row.
      rename_i u _ hafter
      have hwhole := Text.after?_eq_some_iff.1 hafter
      cases hend : ending? u with
      | none => rfl
      | some halves =>
        have hu : '\r' ∉ u := by
          intro hmem
          refine Text.not_mem_unlines (by decide) hr ?_
          exact hwhole ▸ List.mem_append_right fenceMark hmem
        obtain ⟨-, hrest⟩ := eq_of_ending? hu hend
        have hrows := congrArg Text.rows hwhole
        have hjoin := Text.rows_append (show fenceMark.rows = [] ++ [fenceMark] from rfl)
          (Text.rows_newline_cons halves.2)
        rw [Text.rows_unlines (List.cons_ne_nil r ts) hn, hrest, hjoin] at hrows
        rw [List.append_nil] at hrows
        exact absurd (List.cons.inj hrows).1 hmark

/-- Whether a text is a line that can stand in front of either ending. -/
structure IsRow (r : Text) : Prop where
  line : '\n' ∉ r
  uncut : r.getLast? ≠ some '\r'

theorem IsRow.tail {c : Char} (h : IsRow (c :: r)) : IsRow r := by
  refine ⟨List.not_mem_of_not_mem_cons h.line, ?_⟩
  cases r with
  | nil => exact nofun
  | cons d r => exact h.uncut

theorem isRow_of_not_mem (hn : '\n' ∉ r) (hr : '\r' ∉ r) : IsRow r :=
  ⟨hn, fun hlast => hr (List.mem_of_getLast? hlast)⟩

theorem cutBlock?_row (h : IsRow r) (t : Text) :
    cutBlock? (r ++ t) = (cutBlock? t).map fun (block, others) => (r ++ block, others) := by
  induction r with
  | nil =>
    rw [List.nil_append]
    cases cutBlock? t <;> rfl
  | cons c r ih =>
    have hn : c ≠ '\n' := fun hc => h.line (hc ▸ List.mem_cons_self)
    have hnone : closing? (c :: (r ++ t)) = none := by
      by_cases hr : c = '\r'
      · -- A carriage return in a row has something else than a line feed behind it.
        subst hr
        cases r with
        | nil => exact absurd rfl h.uncut
        | cons d r =>
          have hd : d ≠ '\n' := fun hd => h.tail.line (hd ▸ List.mem_cons_self)
          have hend : ending? ('\r' :: (d :: r ++ t)) = none := by
            unfold ending?
            split <;> simp_all
          rw [closing?, hend]
      · exact closing?_eq_none hn hr
    rw [List.cons_append, cutBlock?, hnone, ih h.tail]
    cases cutBlock? t <;> rfl

theorem cutBlock?_unlines_cons (hn : ∀ u ∈ b :: r :: ts, '\n' ∉ u)
    (hr : ∀ u ∈ b :: r :: ts, '\r' ∉ u) :
    cutBlock? (Text.unlines (b :: r :: ts)) =
      if r = fenceMark then
        some (b, '\n' :: fenceMark ++ (if ts = [] then [] else ['\n']), Text.unlines ts)
      else
        (cutBlock? (Text.unlines (r :: ts))).map fun (block, others) =>
          (b ++ '\n' :: block, others) := by
  have hrow := isRow_of_not_mem (hn b List.mem_cons_self) (hr b List.mem_cons_self)
  rw [Text.unlines_cons_cons, cutBlock?_row hrow,
    cutBlock?, closing?_unlines (fun u hu => hn u (List.mem_cons_of_mem b hu))
      fun u hu => hr u (List.mem_cons_of_mem b hu)]
  by_cases hmark : r = fenceMark
  · rw [if_pos hmark, if_pos hmark]
    simp
  · rw [if_neg hmark, if_neg hmark]
    cases cutBlock? (Text.unlines (r :: ts)) <;> rfl

theorem cutBlock?_unlines (hblock : block ≠ []) (hfirst : fenceMark ∉ block.tail)
    (hn : ∀ u ∈ block ++ fenceMark :: behind, '\n' ∉ u)
    (hr : ∀ u ∈ block ++ fenceMark :: behind, '\r' ∉ u) :
    cutBlock? (Text.unlines (block ++ fenceMark :: behind)) =
      some (Text.unlines block, '\n' :: fenceMark ++ (if behind = [] then [] else ['\n']),
        Text.unlines behind) := by
  obtain ⟨b, rest, rfl⟩ := List.exists_cons_of_ne_nil hblock
  rw [List.tail_cons] at hfirst
  clear hblock
  induction rest generalizing b with
  | nil =>
    rw [List.singleton_append] at hn hr ⊢
    rw [cutBlock?_unlines_cons hn hr, if_pos rfl, Text.unlines_singleton]
  | cons r rest ih =>
    have hmark : r ≠ fenceMark := fun h => hfirst (h ▸ List.mem_cons_self)
    rw [List.cons_append, List.cons_append] at hn hr ⊢
    have hrest := ih r (List.not_mem_of_not_mem_cons hfirst)
      (fun u hu => hn u (List.mem_cons_of_mem b hu)) fun u hu => hr u (List.mem_cons_of_mem b hu)
    rw [List.cons_append] at hrest
    rw [cutBlock?_unlines_cons hn hr, if_neg hmark, hrest, Text.unlines_cons_cons]
    rfl

theorem cutBlock?_unlines_eq_none (hfirst : fenceMark ∉ ts) (hn : ∀ u ∈ b :: ts, '\n' ∉ u)
    (hr : ∀ u ∈ b :: ts, '\r' ∉ u) : cutBlock? (Text.unlines (b :: ts)) = none := by
  induction ts generalizing b with
  | nil =>
    have hrow := isRow_of_not_mem (hn b List.mem_cons_self) (hr b List.mem_cons_self)
    have hall := cutBlock?_row hrow []
    rw [List.append_nil] at hall
    rw [Text.unlines_singleton, hall]
    rfl
  | cons r ts ih =>
    have hmark : r ≠ fenceMark := fun h => hfirst (h ▸ List.mem_cons_self)
    rw [cutBlock?_unlines_cons hn hr, if_neg hmark, ih (List.not_mem_of_not_mem_cons hfirst)
      (fun u hu => hn u (List.mem_cons_of_mem b hu)) fun u hu => hr u (List.mem_cons_of_mem b hu)]
    rfl

/-- The rows of a file with front matter: an opening mark, a block, and the rows behind the mark that
closes it. -/
structure Headed (s mark : Text) (block behind : List Text) : Prop where
  isMark : IsMark mark
  rows_eq : s.rows = (mark ++ fenceMark) :: (block ++ fenceMark :: behind)
  filled : block ≠ []
  first : fenceMark ∉ block.tail

/-- The rows of the body: an empty one right behind the closing mark belongs to the block. -/
def bodyRows (behind : List Text) : List Text :=
  if behind.head? = some [] then behind.tail else behind

theorem dropMark_append (h : IsMark mark) (t : Text) :
    dropMark (mark ++ (fenceMark ++ t)) = (mark, fenceMark ++ t) := by
  rcases h with rfl | rfl
  · rfl
  · rfl

theorem isMark_dropMark (s : Text) : IsMark (dropMark s).1 := by
  unfold dropMark
  split
  · exact .inl rfl
  · split
    · rename_i hc
      exact .inr (hc ▸ rfl)
    · exact .inl rfl

theorem append_dropMark (s : Text) : (dropMark s).1 ++ (dropMark s).2 = s := by
  unfold dropMark
  split
  · rfl
  · split <;> rfl

theorem raw_append_body (s : Text) : (split s).raw?.getD [] ++ (split s).body = s := by
  have hmark := append_dropMark s
  unfold split
  generalize dropMark s = halves at hmark
  obtain ⟨mark, working⟩ := halves
  dsimp only at hmark ⊢
  split
  · rfl
  · rename_i first rest hfirst
    obtain ⟨opened, hopened, hending⟩ := Option.bind_eq_some_iff.1 hfirst
    split
    · rfl
    · rename_i block closing others hblock
      have hgap : ((ending? others).getD ([], others)).1 ++
          ((ending? others).getD ([], others)).2 = others := by
        cases hgap : ending? others with
        | none => rfl
        | some gap => exact append_of_ending? hgap
      dsimp only [Option.getD_some]
      rw [List.append_assoc, hgap, List.append_assoc, List.append_assoc, List.append_assoc,
        ← List.append_assoc block, append_of_cutBlock? hblock, append_of_ending? hending,
        List.append_assoc, ← Text.after?_eq_some_iff.1 hopened, hmark]

theorem not_mem_raw (h : '\r' ∉ s) : '\r' ∉ (split s).raw?.getD [] :=
  fun hc => h (raw_append_body s ▸ List.mem_append_left _ hc)

theorem not_mem_body (h : '\r' ∉ s) : '\r' ∉ (split s).body :=
  fun hc => h (raw_append_body s ▸ List.mem_append_right _ hc)

theorem Headed.eq_append (h : Headed s mark block behind) :
    s = mark ++ (fenceMark ++ '\n' :: Text.unlines (block ++ fenceMark :: behind)) := by
  obtain ⟨b, rest, rfl⟩ := List.exists_cons_of_ne_nil h.filled
  rw [← Text.unlines_rows s, h.rows_eq, List.cons_append, Text.unlines_cons_cons, List.append_assoc]

theorem Headed.split_eq (h : Headed s mark block behind) (hr : '\r' ∉ s) :
    ∃ raw, split s = ⟨some (mark ++ (fenceMark ++ raw)), scopeOf (Text.unlines block),
      Text.unlines (bodyRows behind)⟩ := by
  have hrows : ∀ u ∈ block ++ fenceMark :: behind, u ∈ s.rows := by
    rw [h.rows_eq]
    exact fun u hu => List.mem_cons_of_mem _ hu
  have hn : ∀ u ∈ block ++ fenceMark :: behind, '\n' ∉ u :=
    fun u hu => Text.not_mem_of_mem_rows (hrows u hu)
  have hcr : ∀ u ∈ block ++ fenceMark :: behind, '\r' ∉ u :=
    fun u hu => Text.not_mem_of_rows hr (hrows u hu)
  have hopen : ((fenceMark ++ '\n' :: Text.unlines (block ++ fenceMark :: behind)).after?
      fenceMark).bind ending? = some (['\n'], Text.unlines (block ++ fenceMark :: behind)) := by
    rw [Text.after?_append]
    rfl
  -- An empty row behind the block is not part of the body.
  have hgap : ((ending? (Text.unlines behind)).getD ([], Text.unlines behind)).2 =
      Text.unlines (bodyRows behind) := by
    rw [bodyRows]
    cases behind with
    | nil => rfl
    | cons r rest =>
      cases r with
      | nil => cases rest <;> rfl
      | cons c r =>
        have hmem : c :: r ∈ block ++ fenceMark :: (c :: r) :: rest := by simp
        have hend (t : Text) : ending? (c :: r ++ t) = none :=
          ending?_eq_none (List.ne_of_not_mem_cons (hn _ hmem)).symm
            (List.ne_of_not_mem_cons (hcr _ hmem)).symm
        have hbody : Text.unlines ((c :: r) :: rest) = c :: r ++ Text.below rest := by
          rw [← List.singleton_append, ← Text.unlines_append_below (by simp), Text.unlines_singleton]
        rw [hbody, hend, ← hbody]
        rfl
  have hcut := cutBlock?_unlines h.filled h.first hn hcr
  have hsplit := congrArg split h.eq_append
  unfold split at hsplit
  rw [dropMark_append h.isMark] at hsplit
  dsimp only at hsplit
  rw [hopen] at hsplit
  dsimp only at hsplit
  rw [hcut] at hsplit
  dsimp only at hsplit
  rw [hgap, List.append_assoc, List.append_assoc, List.append_assoc, List.append_assoc] at hsplit
  exact ⟨_, hsplit⟩

theorem exists_headed (hr : '\r' ∉ s) (h : (split s).raw? ≠ none) :
    ∃ mark block behind, Headed s mark block behind := by
  have hmark := isMark_dropMark s
  have hs := append_dropMark s
  unfold split at h
  generalize dropMark s = halves at h hmark hs
  obtain ⟨mark, working⟩ := halves
  dsimp only at h hmark hs
  split at h
  · exact absurd rfl h
  · rename_i first rest hfirst
    obtain ⟨opened, hopened, hending⟩ := Option.bind_eq_some_iff.1 hfirst
    have hworking := Text.after?_eq_some_iff.1 hopened
    have hcr : '\r' ∉ opened := by
      intro hmem
      refine hr (hs ▸ List.mem_append_right mark ?_)
      exact hworking ▸ List.mem_append_right fenceMark hmem
    obtain ⟨-, rfl⟩ := eq_of_ending? hcr hending
    have hrows : s.rows = (mark ++ fenceMark) :: rest.rows := by
      have hhead : (mark ++ fenceMark).rows = [] ++ [mark ++ fenceMark] := by
        rcases hmark with rfl | rfl <;> rfl
      have hjoin := Text.rows_append hhead (Text.rows_newline_cons rest)
      rw [← hs, hworking, ← List.append_assoc, hjoin, List.append_nil, List.nil_append]
    obtain ⟨b, ts, hts⟩ := List.exists_cons_of_ne_nil (Text.rows_ne_nil rest)
    have hmem : ∀ u ∈ b :: ts, u ∈ s.rows := by
      rw [hrows, hts]
      exact fun u hu => List.mem_cons_of_mem _ hu
    by_cases hfirst : fenceMark ∈ ts
    · obtain ⟨bs, behind, rfl, hbs⟩ := List.eq_append_cons_of_mem hfirst
      exact ⟨mark, b :: bs, behind, hmark, by rw [hrows, hts]; rfl, List.cons_ne_nil b bs, hbs⟩
    · have hnone : cutBlock? rest = none := by
        rw [← Text.unlines_rows rest, hts]
        exact cutBlock?_unlines_eq_none hfirst (fun u hu => Text.not_mem_of_mem_rows (hmem u hu))
          fun u hu => Text.not_mem_of_rows hr (hmem u hu)
      rw [hnone] at h
      exact absurd rfl h

end FrontMatter
end Transclude

import Transclude.Proofs.CollectionOrder
import Transclude.Proofs.DeclaredRows

/-! What is read from front matters, and put together from that, is what front matters can declare.
Names are trimmed and have no colon in them, and no item runs over the end of a line. -/

namespace Transclude

namespace Text

theorem trim_trim (s : Text) : s.trim.trim = s.trim := by
  have hleft : trimLeft (trimLeft s) = trimLeft s := List.dropWhile_idempotent isBlank s
  have hright := trim_trimRight (trimLeft s)
  rw [← trim] at hright
  rw [hright, trim, hleft, trim]

theorem allBlank_trim (s : Text) : s.trim.allBlank = s.allBlank := by
  have hleft : trimLeft (trimLeft s) = trimLeft s := List.dropWhile_idempotent isBlank s
  rw [trim, allBlank_trimRight, Bool.eq_iff_iff, ← trimLeft_eq_nil_iff, hleft, trimLeft_eq_nil_iff]

end Text

namespace Value

def OneLine (v : Value) : Prop := ∀ item ∈ v.items, (itemText item).OneLine

variable {v w : Value}

theorem distinctFrom_subset (seen : List Text) (items : List (Option Text)) :
    distinctFrom seen items ⊆ items := by
  induction items generalizing seen with
  | nil => exact List.Subset.refl _
  | cons item rest ih =>
    rw [distinctFrom]
    split
    · exact fun _ h => List.mem_cons_of_mem item (ih seen h)
    · exact List.cons_subset_cons item (ih _)

theorem OneLine.union (hv : v.OneLine) (hw : w.OneLine) :
    OneLine (.list (union v.items w.items)) := by
  intro item hitem
  rcases List.mem_append.1 (distinctFrom_subset _ _ hitem) with h | h
  · exact hv item h
  · exact hw item h

theorem OneLine.inherit (hv : v.OneLine) (hw : w.OneLine) : (v.inherit w).OneLine := by
  unfold Value.inherit
  split
  · exact hv.union hw
  · exact hw

theorem OneLine.absorb (hv : v.OneLine) (hw : w.OneLine) : (v.absorb w).OneLine := by
  unfold Value.absorb
  split
  · exact hv.union hw
  · exact hv

theorem OneLine.distinct (hv : v.OneLine) : v.distinct.OneLine := by
  cases v with
  | scalar item => exact hv
  | list items => exact fun item hitem => hv item (distinctFrom_subset _ _ hitem)

end Value

namespace Scope

variable {s t : Scope} {name : Text} {v : Value}

theorem mem_entries_iff : (name, v) ∈ s.entries ↔ s.get? name = some v := by
  rw [get?, List.lookup_eq_some_iff]
  constructor
  · intro h
    obtain ⟨before, behind, hs⟩ := List.append_of_mem h
    refine ⟨before, behind, hs, fun e he => ?_⟩
    have hincreasing := s.increasing
    rw [hs] at hincreasing
    have hlt := (List.pairwise_append.1 hincreasing).2.2 e he (name, v) List.mem_cons_self
    exact bne_iff_ne.2 fun heq => List.lt_irrefl name (heq ▸ hlt)
  · rintro ⟨before, behind, hs, -⟩
    rw [hs]
    exact List.mem_append_right before List.mem_cons_self

theorem declarable_iff :
    s.Declarable ↔ ∀ name v, s.get? name = some v → FrontMatter.IsName name ∧ v.OneLine := by
  constructor
  · exact fun h name v hv => h (name, v) (mem_entries_iff.2 hv)
  · exact fun h e he => h e.1 e.2 (mem_entries_iff.1 he)

theorem declarable_empty : Scope.empty.Declarable := nofun

theorem Declarable.insert (hs : s.Declarable) (hname : FrontMatter.IsName name) (hv : v.OneLine) :
    (s.insert name v).Declarable := by
  intro e he
  rcases mem_insertNamed he with rfl | he
  · exact ⟨hname, hv⟩
  · exact hs e he

theorem Declarable.inherit (hs : s.Declarable) (ht : t.Declarable) : (s.inherit t).Declarable := by
  rw [declarable_iff] at hs ht ⊢
  intro name v hv
  rw [get?_inherit] at hv
  cases htv : t.get? name with
  | none => exact hs name v (by simpa [htv] using hv)
  | some w =>
    obtain ⟨hname, hw⟩ := ht name w htv
    refine ⟨hname, ?_⟩
    cases hsv : s.get? name with
    | none =>
      rw [htv, hsv] at hv
      exact Option.some.inj hv ▸ hw
    | some u =>
      rw [htv, hsv] at hv
      exact Option.some.inj hv ▸ (hs name u hsv).2.inherit hw

theorem Declarable.absorb (hs : s.Declarable) (ht : t.Declarable) : (s.absorb t).Declarable := by
  rw [declarable_iff] at hs ht ⊢
  intro name v hv
  rw [get?_absorb] at hv
  cases hsv : s.get? name with
  | none => exact ht name v (by simpa [hsv] using hv)
  | some w =>
    obtain ⟨hname, hw⟩ := hs name w hsv
    refine ⟨hname, ?_⟩
    cases htv : t.get? name with
    | none =>
      rw [hsv, htv] at hv
      exact Option.some.inj hv ▸ hw.distinct
    | some u =>
      rw [hsv, htv] at hv
      exact Option.some.inj hv ▸ hw.absorb (ht name u htv).2

theorem Declarable.foldl_absorb {us : List Scope} (hs : s.Declarable)
    (hus : ∀ u ∈ us, u.Declarable) : (us.foldl Scope.absorb s).Declarable := by
  induction us generalizing s with
  | nil => exact hs
  | cons u us ih =>
    obtain ⟨hu, hrest⟩ := List.forall_mem_cons.1 hus
    exact ih (hs.absorb hu) hrest

end Scope

namespace FrontMatter

variable {line name value s block : Text}

theorem isName_trim (hline : line.OneLine) (hcut : Text.cut? [':'] line = some (name, value))
    (hname : name.allBlank = false) : IsName name.trim := by
  obtain ⟨rfl, hcolon⟩ := Text.cut?_singleton_iff.1 hcut
  refine ⟨(Text.allBlank_trim name).trans hname, Text.trim_trim name,
    fun hc => hcolon (Text.trim_subset name hc), hline.of_subset fun c hc => ?_⟩
  exact List.mem_append_left _ (Text.trim_subset name hc)

theorem item?_subset {item : Text} (h : item? line = some item) : item ⊆ line := by
  have hspan := Text.spanBlanks_append line
  unfold item? at h
  split at h
  · cases h
  · rename_i gap body _ hblanks
    rw [hblanks] at hspan
    split at h
    · rename_i rest
      dsimp only at h
      split at h
      · cases h
      · obtain rfl := Option.some.inj h
        intro c hc
        rw [← hspan]
        have hrest : c ∈ rest := List.dropWhile_subset _ (unquote_subset _ hc)
        exact List.mem_append_right gap (List.mem_cons_of_mem '-' hrest)
    · cases h

namespace Reading

variable {r : Reading}

/-- Whether the scope read so far can be declared, with what is still open. -/
structure Declarable (r : Reading) : Prop where
  scope : r.scope.Declarable
  opened : ∀ name items, r.open? = some (name, items) → IsName name ∧ ∀ item ∈ items, item.OneLine

theorem Declarable.close (h : r.Declarable) : r.close.Declarable := by
  obtain ⟨scope, open?⟩ := r
  cases open? with
  | none => exact h.scope
  | some found =>
    obtain ⟨name, items⟩ := found
    obtain ⟨hname, hitems⟩ := h.opened name items rfl
    cases items with
    | nil =>
      refine h.scope.insert hname fun item hitem => ?_
      obtain rfl := List.mem_singleton.1 hitem
      exact ⟨List.not_mem_nil, List.not_mem_nil⟩
    | cons first rest =>
      refine h.scope.insert hname fun item hitem => ?_
      obtain ⟨t, ht, rfl⟩ := List.mem_map.1 hitem
      exact hitems t ht

theorem Declarable.declare (h : r.Declarable) (hline : line.OneLine) :
    (r.declare line).Declarable := by
  have hnothing : Declarable ⟨r.close, none⟩ := ⟨h.close, nofun⟩
  unfold Reading.declare
  split
  · exact hnothing
  · rename_i name value hcut
    split
    · exact hnothing
    · rename_i hname
      have hname := isName_trim hline hcut (by simpa using hname)
      split
      · refine ⟨h.close, fun other items hopen => ?_⟩
        obtain ⟨rfl, rfl⟩ := Prod.mk.inj (Option.some.inj hopen)
        exact ⟨hname, nofun⟩
      · refine ⟨h.close.insert hname fun item hitem => ?_, nofun⟩
        obtain rfl := List.mem_singleton.1 hitem
        refine hline.of_subset fun c hc => ?_
        rw [(Text.cut?_singleton_iff.1 hcut).1]
        have hvalue : c ∈ value := Text.trim_subset value (unquote_subset _ hc)
        exact List.mem_append_right name (List.mem_cons_of_mem ':' hvalue)

theorem Declarable.step (h : r.Declarable) (hline : line.OneLine) : (r.step line).Declarable := by
  unfold Reading.step
  split
  · exact h
  · split
    · rename_i name items item hopen hitem
      obtain ⟨hname, hitems⟩ := h.opened name items hopen
      refine ⟨h.scope, fun other more hmore => ?_⟩
      obtain ⟨rfl, rfl⟩ := Prod.mk.inj (Option.some.inj hmore)
      refine ⟨hname, fun t ht => ?_⟩
      rcases List.mem_append.1 ht with ht | ht
      · exact hitems t ht
      · obtain rfl := List.mem_singleton.1 ht
        exact hline.of_subset (item?_subset hitem)
    · exact h.declare hline

theorem Declarable.foldl {lines : List Text} (h : r.Declarable) (hlines : ∀ l ∈ lines, l.OneLine) :
    (lines.foldl Reading.step r).Declarable := by
  induction lines generalizing r with
  | nil => exact h
  | cons line lines ih =>
    obtain ⟨hline, hrest⟩ := List.forall_mem_cons.1 hlines
    exact ih (h.step hline) hrest

end Reading

theorem declarable_scopeOf (hr : '\r' ∉ block) : (scopeOf block).Declarable := by
  have hstart : Reading.start.Declarable := ⟨Scope.declarable_empty, nofun⟩
  refine (hstart.foldl fun l hl => ?_).close
  rw [Text.lines_eq_rows hr] at hl
  exact ⟨Text.not_mem_of_mem_rows hl, Text.not_mem_of_rows hr hl⟩

theorem scope_of_raw?_eq_none (h : (split s).raw? = none) : (split s).scope = .empty := by
  unfold split at h ⊢
  generalize dropMark s = halves at h ⊢
  obtain ⟨mark, working⟩ := halves
  dsimp only at h ⊢
  split
  · rfl
  · rename_i hfirst
    rw [hfirst] at h
    dsimp only at h
    split
    · rfl
    · rename_i hblock
      rw [hblock] at h
      cases h

theorem declarable_split (hr : '\r' ∉ s) : (split s).scope.Declarable := by
  cases hraw : (split s).raw? with
  | none =>
    rw [scope_of_raw?_eq_none hraw]
    exact Scope.declarable_empty
  | some raw =>
    obtain ⟨mark, block, behind, h⟩ := exists_headed hr (by simp [hraw])
    obtain ⟨others, hsplit⟩ := h.split_eq hr
    rw [hsplit]
    refine declarable_scopeOf (Text.not_mem_unlines (by decide) fun row hrow => ?_)
    refine Text.not_mem_of_rows hr ?_
    rw [h.rows_eq]
    exact List.mem_cons_of_mem _ (List.mem_append_left _ hrow)

end FrontMatter

namespace Workspace

variable {w : Workspace}

theorem declarable_declared (w : Workspace) (file : Path) : (w.declared file).Declarable := by
  unfold declared
  cases hfront : w.front? file with
  | none => exact Scope.declarable_empty
  | some front =>
    obtain ⟨entry, s, -, hread, rfl⟩ := front?_eq_some_iff.1 hfront
    exact FrontMatter.declarable_split (Tree.not_mem_of_readEntry hread)

theorem declarable_collect {chain : List Path} {file : Path} {inherited root : Scope}
    (hin : inherited.Declarable) (h : (collect w chain file inherited).outcome = .ok root) :
    root.Declarable := by
  have hrun : collect w chain file inherited =
      ⟨(collect w chain file inherited).events, .ok root⟩ := Run.ext rfl h
  obtain ⟨rest, hrest, rfl⟩ := collect_eq_foldl hrun
  refine Scope.Declarable.foldl_absorb ((declarable_declared w file).inherit hin) fun u hu => ?_
  have hmem : u ∈ w.declarations (collect w chain file inherited).events :=
    hrest ▸ List.mem_cons_of_mem _ hu
  obtain ⟨other, -, rfl⟩ := List.mem_map.1 hmem
  exact declarable_declared w other

end Workspace
end Transclude

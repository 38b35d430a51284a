import Transclude.Proofs.CollectionOrder

/-! The visits of a collection. In a collection that succeeds every visit succeeds, its events are
among those of the whole, and its scope extends into the root scope. -/

namespace Transclude

namespace Value

theorem Grows.trans {u v w : Value} (huv : u.Grows v) (hvw : v.Grows w) : u.Grows w := by
  rcases hvw with hlist | rfl
  · exact .inl hlist
  · exact huv

theorem grows_absorb_left {v w : Value} (h : v.Grows w) : w.Grows (v.absorb w) := by
  unfold absorb
  split
  · exact .inl rfl
  · rename_i hnone
    rcases h with hlist | rfl
    · simp [hlist] at hnone
    · exact .refl w

end Value

namespace Scope

theorem Extends.refl (s : Scope) : s.Extends s := fun _ v hv => ⟨v, hv, .refl v⟩

theorem Extends.trans {s t u : Scope} (hst : s.Extends t) (htu : t.Extends u) : s.Extends u := by
  intro name v hv
  obtain ⟨w, hw, hvw⟩ := hst name v hv
  obtain ⟨z, hz, hwz⟩ := htu name w hw
  exact ⟨z, hz, hvw.trans hwz⟩

theorem Extends.isSome {s t : Scope} (h : s.Extends t) {name : Text}
    (hs : (s.get? name).isSome) : (t.get? name).isSome := by
  obtain ⟨v, hv⟩ := Option.isSome_iff_exists.1 hs
  obtain ⟨w, hw, -⟩ := h name v hv
  rw [hw]
  rfl

theorem extends_foldl_absorb (s : Scope) (us : List Scope) : s.Extends (us.foldl absorb s) := by
  induction us generalizing s with
  | nil => exact .refl s
  | cons u us ih => exact (extends_absorb (.refl s) u).trans (ih (s.absorb u))

theorem Extends.into_absorb {s t : Scope} (h : s.Extends t) : t.Extends (s.absorb t) := by
  intro name v hv
  rw [get?_absorb, hv]
  cases hs : s.get? name with
  | none => exact ⟨v, rfl, .refl v⟩
  | some w =>
    obtain ⟨u, hu, hgrows⟩ := h name w hs
    obtain rfl := Option.some.inj (hu.symm.trans hv)
    exact ⟨w.absorb u, rfl, Value.grows_absorb_left hgrows⟩

theorem isSome_inherit {deeper nearer : Scope} {name : Text} (h : (deeper.get? name).isSome) :
    ((deeper.inherit nearer).get? name).isSome := by
  obtain ⟨v, hv⟩ := Option.isSome_iff_exists.1 h
  rw [get?_inherit, hv]
  cases nearer.get? name <;> rfl

end Scope

theorem Run.exists_of_foldlM_append {α β : Type} {f : β → α → Run β} {xs ys : List α} {a : α}
    {b c : β} {events : List Event} (h : (xs ++ a :: ys).foldlM f b = ⟨events, .ok c⟩) :
    ∃ e₁ b₁ e₂ b₂ e₃, xs.foldlM f b = ⟨e₁, .ok b₁⟩ ∧ f b₁ a = ⟨e₂, .ok b₂⟩ ∧
      ys.foldlM f b₂ = ⟨e₃, .ok c⟩ ∧ events = e₁ ++ (e₂ ++ e₃) := by
  rw [List.foldlM_append] at h
  obtain ⟨e₁, b₁, rest, hxs, hrest, rfl⟩ := bind_eq_ok_iff.1 h
  rw [List.foldlM_cons] at hrest
  obtain ⟨e₂, b₂, e₃, ha, hys, rfl⟩ := bind_eq_ok_iff.1 hrest
  exact ⟨e₁, b₁, e₂, b₂, e₃, hxs, ha, hys, rfl⟩

theorem Include.parse?_of_read {argument : Text} {i : Include}
    (h : Include.read argument = .ok i) : Include.parse? argument = some i := by
  unfold Include.read at h
  split at h
  · cases h
  · rename_i j hj
    rw [hj, Except.ok.inj h]

def includePaths (arguments : List Text) : List Text :=
  arguments.filterMap fun argument => (Include.parse? argument).map Include.path

namespace Workspace

variable {w : Workspace}

theorem collectInclude_eq_ok {visit : Path → Scope → Run Scope} {file : Path} {scope next : Scope}
    {argument : Text} {events : List Event}
    (h : collectInclude w visit file scope argument = ⟨events, .ok next⟩) :
    ∃ i written names, Include.parse? argument = some i ∧
      fillTemplate [scope] file.toText i.path = .ok (written, names) ∧
      (written ≠ [] →
        (w.tree.lookup (w.target file.parent written) = .missing ∧ ∃ marker,
          w.reportMissing (w.target file.parent written) (some file) names =
            ⟨events, .ok marker⟩) ∨
        ∃ entry child, w.tree.lookup (w.target file.parent written) = .found entry ∧
          visit (w.target file.parent written) scope = ⟨events, .ok child⟩ ∧
          next = scope.absorb child) := by
  unfold collectInclude at h
  obtain ⟨_, i, _, hread, htail, rfl⟩ := Run.bind_eq_ok_iff.1 h
  obtain ⟨rfl, hi⟩ := Run.ofExcept_eq_ok_iff.1 hread
  obtain ⟨_, ⟨written, names⟩, _, hpath, hrest, rfl⟩ := Run.bind_eq_ok_iff.1 htail
  obtain ⟨rfl, hfill⟩ := Run.ofExcept_eq_ok_iff.1 hpath
  refine ⟨i, written, names, Include.parse?_of_read hi, hfill, fun hwritten => ?_⟩
  dsimp only at hrest
  simp only [List.nil_append]
  rw [if_neg hwritten] at hrest
  split at hrest
  · exact absurd hrest Run.stop_ne_ok
  · rename_i hlookup
    obtain ⟨_, marker, _, hmissing, hback, rfl⟩ := Run.bind_eq_ok_iff.1 hrest
    obtain ⟨rfl, rfl⟩ := Run.pure_eq_ok_iff.1 hback
    rw [List.append_nil]
    exact .inl ⟨hlookup, marker, hmissing⟩
  · rename_i entry hlookup
    obtain ⟨_, child, _, hvisit, hback, rfl⟩ := Run.bind_eq_ok_iff.1 hrest
    obtain ⟨rfl, rfl⟩ := Run.pure_eq_ok_iff.1 hback
    rw [List.append_nil]
    exact .inr ⟨entry, child, hlookup, hvisit, rfl⟩

theorem collect_eq_ok {chain : List Path} {file : Path} {inherited out : Scope}
    {events : List Event} (h : collect w chain file inherited = ⟨events, .ok out⟩) :
    file ∉ chain ∧ ∃ front walk, w.front? file = some front ∧
      (includeArguments (Token.tokenize front.body)).foldlM
        (collectInclude w (collect w (chain ++ [file])) file) (front.scope.inherit inherited) =
          ⟨walk, .ok out⟩ ∧ events = .collecting file :: walk := by
  rw [collect] at h
  split at h
  · exact absurd h Run.fail_ne_ok
  · rename_i hc
    split at h
    · exact absurd h Run.stop_ne_ok
    · rename_i entry he
      obtain ⟨_, _, _, hemit, hread, rfl⟩ := Run.bind_eq_ok_iff.1 h
      obtain rfl := Run.emit_eq_ok_iff.1 hemit
      obtain ⟨_, s, walk, hsource, hwalk, rfl⟩ := Run.bind_eq_ok_iff.1 hread
      obtain ⟨rfl, hs⟩ := read_eq_ok_iff.1 hsource
      exact ⟨hc, _, walk, front?_eq_some_iff.2 ⟨entry, s, he, hs, rfl⟩, hwalk, rfl⟩

theorem flat_collect (chain : List Path) : w.Flat (collect w chain) := by
  intro file scope events child h
  obtain ⟨rest, hrest, rfl⟩ := collect_eq_foldl h
  rw [hrest, Scope.absorb_foldl (Scope.extends_inherit _ _), Scope.absorb_inherit]
  rfl

theorem extends_collect {chain : List Path} {file : Path} {inherited out : Scope}
    {events : List Event} (h : collect w chain file inherited = ⟨events, .ok out⟩) :
    inherited.Extends out := by
  obtain ⟨rest, -, rfl⟩ := collect_eq_foldl h
  exact (Scope.extends_inherit _ _).trans (Scope.extends_foldl_absorb _ _)

/-- Whether the visit of a file gets to an include directive, with these variables collected. -/
def Meets (w : Workspace) (chain : List Path) (file : Path) (inherited scope : Scope)
    (i : Include) : Prop :=
  ∃ front before argument after, w.front? file = some front ∧
    includeArguments (Token.tokenize front.body) = before ++ argument :: after ∧
    (before.foldlM (collectInclude w (collect w (chain ++ [file])) file)
      (front.scope.inherit inherited)).outcome = .ok scope ∧
    Include.parse? argument = some i

/-- The visits of the collection that starts at an entry: the files above, the file, and the
variables that it inherits. -/
inductive Visits (w : Workspace) (entry : Path) : List Path → Path → Scope → Prop
  | entry : Visits w entry [] entry .empty
  | deeper {chain : List Path} {file : Path} {inherited scope : Scope} {i : Include}
      {written : Text} {names : List Text} (hvisit : Visits w entry chain file inherited)
      (hmeets : w.Meets chain file inherited scope i)
      (hfill : fillTemplate [scope] file.toText i.path = .ok (written, names))
      (hwritten : written ≠ [])
      (hthere : (w.tree.entryAt? (w.target file.parent written).names).isSome) :
      Visits w entry (chain ++ [file]) (w.target file.parent written) scope

def CollectsTarget (w : Workspace) (entry target : Path) : Prop :=
  ∃ chain file inherited scope i written names, w.Visits entry chain file inherited ∧
    w.Meets chain file inherited scope i ∧
    fillTemplate [scope] file.toText i.path = .ok (written, names) ∧ written ≠ [] ∧
    w.target file.parent written = target

/-- A directive that a successful visit gets to is followed, and what that yields is kept. -/
theorem Meets.followed {chain : List Path} {file : Path} {inherited scope out : Scope}
    {i : Include} {events : List Event} (hmeets : w.Meets chain file inherited scope i)
    (h : collect w chain file inherited = ⟨events, .ok out⟩) :
    ∃ argument own next, Include.parse? argument = some i ∧
      collectInclude w (collect w (chain ++ [file])) file scope argument = ⟨own, .ok next⟩ ∧
      (∀ e ∈ own, e ∈ events) ∧ next.Extends out := by
  obtain ⟨front, before, argument, after, hfront, hsplit, hbefore, hparse⟩ := hmeets
  obtain ⟨-, front', walk, hfront', hwalk, rfl⟩ := collect_eq_ok h
  obtain rfl := Option.some.inj (hfront.symm.trans hfront')
  rw [hsplit] at hwalk
  obtain ⟨e₁, s₁, own, next, e₃, hxs, hone, hys, rfl⟩ := Run.exists_of_foldlM_append hwalk
  obtain rfl : s₁ = scope := by
    rw [hxs] at hbefore
    exact Except.ok.inj hbefore
  refine ⟨argument, own, next, hparse, hone, fun e he => ?_, ?_⟩
  · exact List.mem_cons_of_mem _ (List.mem_append_right _ (List.mem_append_left _ he))
  · rw [foldlM_collectInclude (flat_collect _) hys]
    exact Scope.extends_foldl_absorb _ _

theorem Visits.succeeds {entry : Path} {root : Scope} {events : List Event}
    (hroot : collect w [] entry .empty = ⟨events, .ok root⟩) {chain : List Path} {file : Path}
    {inherited : Scope} (h : w.Visits entry chain file inherited) :
    ∃ own out, collect w chain file inherited = ⟨own, .ok out⟩ ∧ (∀ e ∈ own, e ∈ events) ∧
      out.Extends root := by
  induction h with
  | entry => exact ⟨events, root, hroot, fun _ => id, .refl root⟩
  | @deeper chain file inherited scope i written names hvisit hmeets hfill hwritten hthere ih =>
    obtain ⟨own, out, hcollect, hevents, hextends⟩ := ih
    obtain ⟨argument, below, next, hparse, hone, hbelow, hnext⟩ := hmeets.followed hcollect
    obtain ⟨j, written', names', hparse', hfill', hleads⟩ := collectInclude_eq_ok hone
    obtain rfl := Option.some.inj (hparse.symm.trans hparse')
    obtain ⟨rfl, rfl⟩ := Prod.mk.inj (Except.ok.inj (hfill.symm.trans hfill'))
    rcases hleads hwritten with ⟨hmissing, -⟩ | ⟨e, child, -, hchild, rfl⟩
    · obtain ⟨e, he⟩ := Option.isSome_iff_exists.1 hthere
      rw [Tree.lookup, he] at hmissing
      cases hmissing
    · refine ⟨below, child, hchild, fun e he => hevents e (hbelow e he), ?_⟩
      have hinto : child.Extends (scope.absorb child) := (extends_collect hchild).into_absorb
      exact (hinto.trans hnext).trans hextends

/-- The variables that a visited file declares are all in the root scope. -/
theorem Visits.isSome_root {entry : Path} {root : Scope} {events : List Event}
    (hroot : collect w [] entry .empty = ⟨events, .ok root⟩) {chain : List Path} {file : Path}
    {inherited : Scope} (h : w.Visits entry chain file inherited) {front : FrontMatter}
    (hfront : w.front? file = some front) {name : Text} (hname : (front.scope.get? name).isSome) :
    (root.get? name).isSome := by
  obtain ⟨own, out, hcollect, -, hextends⟩ := h.succeeds hroot
  obtain ⟨-, front', walk, hfront', hwalk, -⟩ := collect_eq_ok hcollect
  obtain rfl := Option.some.inj (hfront.symm.trans hfront')
  have hout : (front.scope.inherit inherited).Extends out := by
    rw [foldlM_collectInclude (flat_collect _) hwalk]
    exact Scope.extends_foldl_absorb _ _
  exact (hout.trans hextends).isSome (Scope.isSome_inherit hname)

theorem exists_meets {chain : List Path} {file : Path} {inherited out : Scope}
    {events : List Event} (h : collect w chain file inherited = ⟨events, .ok out⟩)
    {front : FrontMatter} (hfront : w.front? file = some front) {path : Text}
    (hpath : path ∈ includePaths (includeArguments (Token.tokenize front.body))) :
    ∃ scope i, w.Meets chain file inherited scope i ∧ i.path = path := by
  obtain ⟨argument, hmem, hread⟩ := List.mem_filterMap.1 hpath
  obtain ⟨i, hparse, rfl⟩ := Option.map_eq_some_iff.1 hread
  obtain ⟨before, after, hsplit⟩ := List.append_of_mem hmem
  obtain ⟨-, front', walk, hfront', hwalk, -⟩ := collect_eq_ok h
  obtain rfl := Option.some.inj (hfront.symm.trans hfront')
  rw [hsplit] at hwalk
  obtain ⟨e₁, scope, e₂, next, e₃, hbefore, -, -, -⟩ := Run.exists_of_foldlM_append hwalk
  exact ⟨scope, i, ⟨front, before, argument, after, hfront, hsplit, by rw [hbefore], hparse⟩, rfl⟩

/-- The variables that a visit works with extend into the root scope. -/
theorem Visits.extends_root {entry : Path} {root : Scope} {events : List Event}
    (hroot : collect w [] entry .empty = ⟨events, .ok root⟩) {chain : List Path} {file : Path}
    {inherited scope : Scope} {i : Include} (h : w.Visits entry chain file inherited)
    (hmeets : w.Meets chain file inherited scope i) : scope.Extends root := by
  obtain ⟨own, out, hcollect, -, hextends⟩ := h.succeeds hroot
  obtain ⟨argument, below, next, -, hone, -, hnext⟩ := hmeets.followed hcollect
  have hstep : scope.Extends next := by
    rw [collectInclude_eq_foldl (flat_collect _) hone]
    exact Scope.extends_foldl_absorb _ _
  exact (hstep.trans hnext).trans hextends

end Workspace
end Transclude

import Transclude.Proofs.Visits

/-! Include paths as a collection fills them in. A path that is settled by then, with variables
written as they are in the root scope, leads to the same target in an expansion. -/

namespace Transclude

theorem Placeholder.value_of_alike {scope root : Scope} {file : Text} {p : Placeholder} {v : Value}
    (h : p.value [scope] file = .ok v)
    (halike : (root.present? p.name).map Value.render = (scope.present? p.name).map Value.render)
    (other : Scope) : ∃ u, p.value [root, other] file = .ok u ∧ u.render = v.render := by
  unfold value at h ⊢
  split at h
  · cases h
  · rename_i hname
    rw [if_neg hname]
    cases hscope : scope.present? p.name with
    | none => simp [hscope] at h
    | some w =>
      obtain rfl : w = v := by simpa [hscope] using h
      rw [hscope] at halike
      obtain ⟨u, hu, hrender⟩ := Option.map_eq_some_iff.1 halike
      exact ⟨u, by simp [hu], hrender⟩

theorem fillTemplate_of_alike {scope root : Scope} {file template written : Text}
    {names : List Text} (h : fillTemplate [scope] file template = .ok (written, names))
    (halike : ∀ name ∈ names,
      (root.present? name).map Value.render = (scope.present? name).map Value.render)
    (other : Scope) : fillTemplate [root, other] file template = .ok (written, names) := by
  unfold fillTemplate at h ⊢
  generalize Placeholder.pattern.scan template = chunks at h ⊢
  induction chunks generalizing written names with
  | nil => exact h
  | cons chunk rest ih =>
    cases chunk with
    | plain s =>
      obtain ⟨⟨others, found⟩, hothers, hr⟩ := Except.bind_eq_ok_iff.1 h
      obtain ⟨rfl, rfl⟩ := Prod.mk.inj (Except.ok.inj hr)
      rw [Placeholder.fill, ih halike hothers]
      rfl
    | found p =>
      obtain ⟨v, hv, h⟩ := Except.bind_eq_ok_iff.1 h
      obtain ⟨⟨others, found⟩, hothers, hr⟩ := Except.bind_eq_ok_iff.1 h
      obtain ⟨rfl, rfl⟩ := Prod.mk.inj (Except.ok.inj hr)
      obtain ⟨hname, hnames⟩ := List.forall_mem_cons.1 halike
      obtain ⟨u, hu, hrender⟩ := Placeholder.value_of_alike hv hname other
      rw [Placeholder.fill, hu, ih hnames hothers, ← hrender]
      rfl

theorem exists_present_of_mem {scope : Scope} {file template written : Text} {names : List Text}
    (h : fillTemplate [scope] file template = .ok (written, names)) {name : Text}
    (hname : name ∈ names) : ∃ v, scope.present? name = some v := by
  unfold fillTemplate at h
  generalize Placeholder.pattern.scan template = chunks at h
  induction chunks generalizing written names with
  | nil =>
    obtain ⟨-, rfl⟩ := Prod.mk.inj (Except.ok.inj h)
    cases hname
  | cons chunk rest ih =>
    cases chunk with
    | plain s =>
      obtain ⟨⟨others, found⟩, hothers, hr⟩ := Except.bind_eq_ok_iff.1 h
      obtain ⟨-, rfl⟩ := Prod.mk.inj (Except.ok.inj hr)
      exact ih hname hothers
    | found p =>
      obtain ⟨v, hv, h⟩ := Except.bind_eq_ok_iff.1 h
      obtain ⟨⟨others, found⟩, hothers, hr⟩ := Except.bind_eq_ok_iff.1 h
      obtain ⟨-, rfl⟩ := Prod.mk.inj (Except.ok.inj hr)
      rcases List.mem_cons.1 hname with rfl | hmem
      · unfold Placeholder.value at hv
        split at hv
        · cases hv
        · cases hscope : scope.present? p.name with
          | none => simp [hscope] at hv
          | some u => exact ⟨u, rfl⟩
      · exact ih hmem hothers

namespace Workspace

/-- Whether every variable in an include path is written as in the root scope when a collection gets
to that path. -/
def SettlesPaths (w : Workspace) (entry : Path) (root : Scope) : Prop :=
  ∀ chain file inherited scope i written names, w.Visits entry chain file inherited →
    w.Meets chain file inherited scope i →
    fillTemplate [scope] file.toText i.path = .ok (written, names) →
    ∀ name ∈ names,
      (root.present? name).map Value.render = (scope.present? name).map Value.render

/-- What a collection did at an include path of a file that it visited. -/
structure Followed (w : Workspace) (entry : Path) (events : List Event) (chain : List Path)
    (file : Path) (path written : Text) (names : List Text) : Prop where
  met : ∃ inherited scope i, w.Visits entry chain file inherited ∧
    w.Meets chain file inherited scope i ∧ i.path = path ∧
    fillTemplate [scope] file.toText path = .ok (written, names)
  leads : written ≠ [] →
    (w.tree.lookup (w.target file.parent written) = .missing ∧
      ∀ e ∈ (w.reportMissing (w.target file.parent written) (some file) names).events,
        e ∈ events) ∨
    ∃ found, w.tree.lookup (w.target file.parent written) = .found found

variable {w : Workspace} {entry : Path} {root : Scope} {events : List Event} {chain : List Path}
  {file : Path} {inherited : Scope}

theorem settlesPaths_of_scalars (hroot : collect w [] entry .empty = ⟨events, .ok root⟩)
    (hscalars : ∀ chain file inherited scope i written names, w.Visits entry chain file inherited →
      w.Meets chain file inherited scope i →
      fillTemplate [scope] file.toText i.path = .ok (written, names) →
      ∀ name ∈ names, ∀ items, root.get? name ≠ some (.list items)) :
    w.SettlesPaths entry root := by
  intro chain file inherited scope i written names hvisit hmeets hfill name hname
  have hextends := hvisit.extends_root hroot hmeets
  obtain ⟨v, hv⟩ := exists_present_of_mem hfill hname
  obtain ⟨hget, hsome⟩ := Option.filter_eq_some_iff.1 hv
  obtain ⟨u, hu, hlist | rfl⟩ := hextends name v hget
  · cases u with
    | scalar item => cases hlist
    | list items => exact absurd hu (hscalars _ _ _ _ _ _ _ hvisit hmeets hfill name hname items)
  · rw [Scope.present?, Scope.present?, hu, hget]

theorem Visits.exists_followed (hroot : collect w [] entry .empty = ⟨events, .ok root⟩)
    (hsettles : w.SettlesPaths entry root) (h : w.Visits entry chain file inherited)
    {front : FrontMatter} (hfront : w.front? file = some front) {path : Text}
    (hpath : path ∈ includePaths (includeArguments (Token.tokenize front.body))) :
    ∃ written names, w.Followed entry events chain file path written names ∧
      ∀ other, fillTemplate [root, other] file.toText path = .ok (written, names) := by
  obtain ⟨own, out, hcollect, hown, -⟩ := h.succeeds hroot
  obtain ⟨scope, i, hmeets, rfl⟩ := exists_meets hcollect hfront hpath
  obtain ⟨argument, below, next, hparse, hone, hbelow, -⟩ := hmeets.followed hcollect
  obtain ⟨j, written, names, hparse', hfill, hleads⟩ := collectInclude_eq_ok hone
  obtain rfl := Option.some.inj (hparse.symm.trans hparse')
  have halike := hsettles _ _ _ _ _ _ _ h hmeets hfill
  refine ⟨written, names, ⟨⟨inherited, scope, i, h, hmeets, rfl, hfill⟩, fun hwritten => ?_⟩,
    fillTemplate_of_alike hfill halike⟩
  rcases hleads hwritten with ⟨hmissing, marker, hreport⟩ | ⟨found, child, hfound, -, -⟩
  · refine .inl ⟨hmissing, fun e he => hown e (hbelow e ?_)⟩
    rwa [hreport] at he
  · exact .inr ⟨found, hfound⟩

theorem Followed.collectsTarget {path written : Text} {names : List Text}
    (h : w.Followed entry events chain file path written names) (hwritten : written ≠ []) :
    w.CollectsTarget entry (w.target file.parent written) := by
  obtain ⟨inherited, scope, i, hvisit, hmeets, rfl, hfill⟩ := h.met
  exact ⟨chain, file, inherited, scope, i, written, names, hvisit, hmeets, hfill, hwritten, rfl⟩

theorem Followed.visits {path written : Text} {names : List Text}
    (h : w.Followed entry events chain file path written names) (hwritten : written ≠ [])
    (hthere : (w.tree.entryAt? (w.target file.parent written).names).isSome) :
    ∃ scope, w.Visits entry (chain ++ [file]) (w.target file.parent written) scope := by
  obtain ⟨inherited, scope, i, hvisit, hmeets, rfl, hfill⟩ := h.met
  exact ⟨scope, hvisit.deeper hmeets hfill hwritten hthere⟩

end Workspace

end Transclude

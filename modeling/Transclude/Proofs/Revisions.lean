import Transclude.Proofs.UnselectedChanges
import Transclude.Proofs.Visits

/-! A file with other words in it, and every other file as it was. A collection that succeeds yields
the same variables over both versions: their front matter and their include directives are the same. -/

namespace Transclude

namespace Run

variable {α β : Type}

/-- Whether what a run yields, if anything, is what another one yields. -/
def Preserved (x y : Run α) : Prop := ∀ a, x.outcome = .ok a → y.outcome = .ok a

theorem Preserved.refl (x : Run α) : Preserved x x := fun _ => id

theorem preserved_stop (fault : Fault) (y : Run α) : Preserved (stop fault) y := nofun

theorem Preserved.bind {x y : Run α} {f g : α → Run β} (hxy : Preserved x y)
    (hfg : ∀ a, x.outcome = .ok a → Preserved (f a) (g a)) : Preserved (x >>= f) (y >>= g) := by
  intro b hb
  obtain ⟨a, ha, hb⟩ := outcome_bind_eq_ok_iff.1 hb
  exact outcome_bind_eq_ok_iff.2 ⟨a, hxy a ha, hfg a ha b hb⟩

theorem Preserved.map {x y : Run α} (h : Preserved x y) (f : α → β) :
    Preserved (f <$> x) (f <$> y) := by
  rw [map_eq_pure_bind, map_eq_pure_bind]
  exact h.bind fun a _ => .refl _

theorem Preserved.foldlM {f g : β → α → Run β} {l : List α}
    (h : ∀ b, ∀ a ∈ l, Preserved (f b a) (g b a)) (b : β) :
    Preserved (l.foldlM f b) (l.foldlM g b) := by
  induction l generalizing b with
  | nil => exact .refl _
  | cons a l ih =>
    rw [List.foldlM_cons, List.foldlM_cons]
    obtain ⟨ha, hl⟩ := List.forall_mem_cons.1 (fun a ha b => h b a ha)
    exact (ha b).bind fun c _ => ih (fun b a hmem => hl a hmem b) c

end Run

theorem Token.preserved_pass {f g : Directive → Run Text} {tokens : List Token}
    (h : ∀ d, .found d ∈ tokens → Run.Preserved (f d) (g d)) :
    Run.Preserved (pass f tokens) (pass g tokens) := by
  induction tokens with
  | nil => exact .refl _
  | cons token rest ih =>
    have hrest := ih fun d hd => h d (List.mem_cons_of_mem token hd)
    cases token with
    | plain s => exact hrest.map _
    | found d => exact (h d List.mem_cons_self).bind fun s _ => hrest.map _

namespace Tree

variable {t : Tree} {names : List Text}

theorem entryAt?_put (h : names ≠ []) (entry : Entry) (other : List Text) :
    (t.put names entry).entryAt? other = if other = names then some entry else t.entryAt? other := by
  have hlookup : (t.put names entry).entries.lookup other =
      if other = names then some entry else t.entries.lookup other := by
    unfold put
    split
    · rename_i hthere
      -- An entry that exists is replaced in place, so the keys and their order stay.
      refine Eq.trans (b := (t.entries.lookup other).map fun old =>
        if other = names then entry else old) ?_ ?_
      · clear hthere
        induction t.entries with
        | nil => rfl
        | cons e es ih =>
          obtain ⟨key, old⟩ := e
          rw [List.map_cons, List.lookup_cons, List.lookup_cons, ih]
          by_cases hkey : other = key
          · simp [hkey]
          · simp [beq_false_of_ne hkey]
      split
      · rename_i hother
        rw [hother]
        obtain ⟨old, hold⟩ := Option.isSome_iff_exists.1 hthere
        rw [hold]
        rfl
      · exact Option.map_id'
    · rename_i hnone
      rw [List.lookup_append]
      split
      · rename_i hother
        rw [hother, Option.not_isSome_iff_eq_none.1 hnone]
        simp
      · rename_i hother
        rw [List.lookup_cons, beq_false_of_ne hother]
        simp
  unfold entryAt?
  by_cases hother : other = []
  · rw [if_pos hother, if_pos hother, if_neg fun hnames => h (hnames.symm.trans hother)]
  · rw [if_neg hother, if_neg hother, hlookup]

theorem walk_congr {u : Tree}
    (h : ∀ names, t.entryAt? names = some .directory ↔ u.entryAt? names = some .directory)
    (here rest : List Text) : t.walk here rest = u.walk here rest := by
  induction rest generalizing here with
  | nil => rfl
  | cons name rest ih =>
    unfold walk
    by_cases hdir : t.entryAt? here = some .directory
    · rw [hdir, (h here).1 hdir]
      dsimp only
      rw [ih, ih]
    · have hdir' : u.entryAt? here ≠ some .directory := fun hu => hdir ((h here).2 hu)
      split
      · contradiction
      · rfl

end Tree

namespace Workspace

def withFile (w : Workspace) (names : List Text) (bytes : List UInt8) : Workspace :=
  { w with tree := w.tree.put names (.file bytes) }

/-- A file of a workspace, and bytes for it that put other words in its body. -/
structure Revision (w : Workspace) where
  file : Path
  bytes : List UInt8
  rewording : Rewording
  raw? : Option Text
  scope : Scope
  was : w.front? file = some ⟨raw?, scope, rewording.source⟩
  becomes : (w.withFile file.names bytes).front? file = some ⟨raw?, scope, rewording.target⟩

theorem front?_congr (w : Workspace) {p q : Path} (h : p.names = q.names) :
    w.front? p = w.front? q := by
  have hread (entry : Entry) :
      (Tree.readEntry p entry).toOption = (Tree.readEntry q entry).toOption := by
    cases entry with
    | directory => rfl
    | file bytes => rfl
  unfold front?
  rw [h]
  cases w.tree.entryAt? q.names with
  | none => rfl
  | some entry => exact congrArg (Option.map FrontMatter.split) (hread entry)

variable {w : Workspace}

theorem outcome_collect {chain : List Path} {file : Path} {inherited : Scope} {front : FrontMatter}
    (hc : file ∉ chain) (h : w.front? file = some front) :
    (collect w chain file inherited).outcome =
      ((includeArguments (Token.tokenize front.body)).foldlM
        (collectInclude w (collect w (chain ++ [file])) file)
        (front.scope.inherit inherited)).outcome := by
  obtain ⟨entry, s, hentry, hread, rfl⟩ := front?_eq_some_iff.1 h
  have hsource : w.read file entry = pure s := by rw [read, hread]
  rw [collect, dif_neg hc]
  split
  · rename_i hnone
    cases hnone.symm.trans hentry
  · rename_i e he
    obtain rfl := Option.some.inj (he.symm.trans hentry)
    rw [Run.outcome_bind_of_ok rfl, hsource, pure_bind]

namespace Revision

variable (v : w.Revision)

def applied : Workspace := w.withFile v.file.names v.bytes

def former : FrontMatter := ⟨v.raw?, v.scope, v.rewording.source⟩

def latter : FrontMatter := ⟨v.raw?, v.scope, v.rewording.target⟩

theorem exists_former : ∃ bytes, w.tree.entryAt? v.file.names = some (.file bytes) := by
  obtain ⟨entry, s, hentry, hread, -⟩ := front?_eq_some_iff.1 v.was
  cases entry with
  | directory => cases hread
  | file bytes => exact ⟨bytes, hentry⟩

theorem names_ne_nil : v.file.names ≠ [] := by
  intro hnil
  obtain ⟨bytes, hbytes⟩ := v.exists_former
  rw [Tree.entryAt?, if_pos hnil] at hbytes
  cases hbytes

theorem entryAt?_applied (names : List Text) :
    v.applied.tree.entryAt? names =
      if names = v.file.names then some (.file v.bytes) else w.tree.entryAt? names :=
  Tree.entryAt?_put v.names_ne_nil _ names

variable {v}

theorem entryAt?_of_ne {names : List Text} (h : names ≠ v.file.names) :
    v.applied.tree.entryAt? names = w.tree.entryAt? names := by
  rw [entryAt?_applied, if_neg h]

theorem isSome_entryAt? (names : List Text) :
    (v.applied.tree.entryAt? names).isSome = (w.tree.entryAt? names).isSome := by
  rw [entryAt?_applied]
  split
  · rename_i hnames
    obtain ⟨bytes, hbytes⟩ := v.exists_former
    rw [hnames, hbytes]
    rfl
  · rfl

theorem follow_applied (p : Path) : v.applied.tree.follow p = w.tree.follow p := by
  have hdir (names : List Text) : v.applied.tree.entryAt? names = some .directory ↔
      w.tree.entryAt? names = some .directory := by
    rw [entryAt?_applied]
    split
    · rename_i hnames
      obtain ⟨bytes, hbytes⟩ := v.exists_former
      rw [hnames, hbytes]
      exact iff_of_false nofun nofun
    · exact Iff.rfl
  unfold Tree.follow
  rw [Tree.walk_congr hdir]

theorem front?_of_ne {p : Path} (h : p.names ≠ v.file.names) :
    v.applied.front? p = w.front? p := by
  unfold front?
  rw [entryAt?_of_ne h]

theorem front?_of_eq {p : Path} (h : p.names = v.file.names) :
    w.front? p = some v.former ∧ v.applied.front? p = some v.latter :=
  ⟨(w.front?_congr h).trans v.was, (v.applied.front?_congr h).trans v.becomes⟩

theorem exists_front {p : Path} {front : FrontMatter} (h : w.front? p = some front) :
    ∃ front', v.applied.front? p = some front' ∧ front'.scope = front.scope ∧
      includeArguments (Token.tokenize front'.body) =
        includeArguments (Token.tokenize front.body) := by
  by_cases hp : p.names = v.file.names
  · obtain ⟨hwas, hbecomes⟩ := front?_of_eq hp
    obtain rfl := Option.some.inj (hwas.symm.trans h)
    exact ⟨v.latter, hbecomes, rfl, v.rewording.includeArguments_eq⟩
  · exact ⟨front, (front?_of_ne hp).trans h, rfl, rfl⟩

theorem preserved_collectInclude {visit visit' : Path → Scope → Run Scope}
    (h : ∀ target scope, Run.Preserved (visit target scope) (visit' target scope)) (file : Path)
    (scope : Scope) (argument : Text) :
    Run.Preserved (collectInclude w visit file scope argument)
      (collectInclude v.applied visit' file scope argument) := by
  refine (Run.Preserved.refl _).bind fun i _ => (Run.Preserved.refl _).bind fun filled _ => ?_
  obtain ⟨written, names⟩ := filled
  dsimp only
  split
  · exact .refl _
  have htarget : v.applied.target file.parent written = w.target file.parent written := rfl
  rw [htarget]
  have hthere := isSome_entryAt? (v := v) (w.target file.parent written).names
  unfold Tree.lookup
  rw [follow_applied]
  cases hold : w.tree.entryAt? (w.target file.parent written).names with
  | none =>
    rw [hold] at hthere
    have hnone : v.applied.tree.entryAt? (w.target file.parent written).names = none :=
      Option.not_isSome_iff_eq_none.1 (by simp [hthere])
    rw [hnone]
    dsimp only
    by_cases hlong : w.tree.follow (w.target file.parent written) = .tooLong
    · rw [if_pos hlong]
      exact .refl _
    · rw [if_neg hlong]
      exact .refl _
  | some entry =>
    rw [hold] at hthere
    obtain ⟨entry', hentry'⟩ := Option.isSome_iff_exists.1 hthere
    rw [hentry']
    exact (h _ scope).bind fun child _ => .refl _

theorem preserved_collect (chain : List Path) (file : Path) (inherited : Scope) :
    Run.Preserved (collect w chain file inherited) (collect v.applied chain file inherited) := by
  -- By the files that are not on the chain yet, of which each visit below has one fewer.
  induction hn : w.tree.unvisited chain using Nat.strongRecOn generalizing chain file inherited with
  | ind n ih =>
    intro out hout
    obtain ⟨hc, front, walk, hfront, hwalk, -⟩ := collect_eq_ok (Run.ext rfl hout)
    obtain ⟨front', hfront', hscope, harguments⟩ := exists_front (v := v) hfront
    obtain ⟨entry, s, hentry, -, -⟩ := front?_eq_some_iff.1 hfront
    rw [outcome_collect hc hfront', hscope, harguments]
    refine Run.Preserved.foldlM (fun scope argument _ => ?_) _ out (congrArg Run.outcome hwalk)
    exact preserved_collectInclude
      (fun target scope => ih _ (hn ▸ Tree.unvisited_lt hentry hc) _ target scope rfl) file scope
      argument

end Revision
end Workspace
end Transclude

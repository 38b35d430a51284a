import Transclude.Collection
import Transclude.Proofs.RunInversion
import Transclude.Proofs.ScopeAbsorption
import Transclude.Proofs.Sources

/-! The root scope depends on the order in which a collection enters the files, and on nothing else
of the way they include one another. Inside a nested file the scope is built from the other side,
its own items in front of those it inherits; handing it back turns it round again. -/

namespace Transclude

/-- The variables that a file declares itself; none if it cannot be read. -/
def Workspace.declared (w : Workspace) (file : Path) : Scope :=
  ((w.front? file).map FrontMatter.scope).getD .empty

/-- The files that a collection enters, in order. A file that is entered twice counts twice. -/
def entered (events : List Event) : List Path :=
  events.filterMap fun
    | .collecting file => some file
    | _ => none

def Workspace.declarations (w : Workspace) (events : List Event) : List Scope :=
  (entered events).map w.declared

namespace Workspace

variable {w : Workspace}

theorem declarations_append (xs ys : List Event) :
    w.declarations (xs ++ ys) = w.declarations xs ++ w.declarations ys := by
  simp only [declarations, entered, List.filterMap_append, List.map_append]

theorem declared_of_readEntry {file : Path} {entry : Entry} {s : Text}
    (he : w.tree.entryAt? file.names = some entry) (hs : Tree.readEntry file entry = .ok s) :
    w.declared file = (FrontMatter.split s).scope := by
  rw [declared, front?_eq_some_iff.2 ⟨entry, s, he, hs, rfl⟩]
  rfl

theorem declarations_of_reportMissing {target : Path} {source? : Option Path}
    {placeholders : List Text} {events : List Event} {marker : Text}
    (h : w.reportMissing target source? placeholders = ⟨events, .ok marker⟩) :
    w.declarations events = [] := by
  unfold reportMissing at h
  dsimp only at h
  split at h
  · obtain ⟨_, _, _, hfail, -, -⟩ := Run.bind_eq_ok_iff.1 h
    exact absurd hfail Run.fail_ne_ok
  · obtain ⟨_, _, _, hemit, hmarker, rfl⟩ := Run.bind_eq_ok_iff.1 h
    obtain rfl := Run.emit_eq_ok_iff.1 hemit
    obtain ⟨rfl, -⟩ := Run.pure_eq_ok_iff.1 hmarker
    rfl

/-- Whether every visit below a file hands back what folds into the visitor's scope as if the
files it enters were absorbed one by one. -/
def Flat (w : Workspace) (visit : Path → Scope → Run Scope) : Prop :=
  ∀ target scope events child, visit target scope = ⟨events, .ok child⟩ →
    scope.absorb child = (w.declarations events).foldl Scope.absorb scope

variable {visit : Path → Scope → Run Scope}

theorem collectInclude_eq_foldl (hv : w.Flat visit) {file : Path} {scope after : Scope}
    {argument : Text} {events : List Event}
    (h : collectInclude w visit file scope argument = ⟨events, .ok after⟩) :
    after = (w.declarations events).foldl Scope.absorb scope := by
  unfold collectInclude at h
  obtain ⟨_, i, _, hread, htail, rfl⟩ := Run.bind_eq_ok_iff.1 h
  obtain ⟨rfl, -⟩ := Run.ofExcept_eq_ok_iff.1 hread
  obtain ⟨_, ⟨path, placeholders⟩, _, hfill, hrest, rfl⟩ := Run.bind_eq_ok_iff.1 htail
  obtain ⟨rfl, -⟩ := Run.ofExcept_eq_ok_iff.1 hfill
  dsimp only at hrest
  simp only [List.nil_append]
  split at hrest
  · obtain ⟨rfl, rfl⟩ := Run.pure_eq_ok_iff.1 hrest
    rfl
  · split at hrest
    · exact absurd hrest Run.stop_ne_ok
    · obtain ⟨_, _, _, hmissing, hback, rfl⟩ := Run.bind_eq_ok_iff.1 hrest
      obtain ⟨rfl, rfl⟩ := Run.pure_eq_ok_iff.1 hback
      rw [List.append_nil, declarations_of_reportMissing hmissing]
      rfl
    · obtain ⟨_, child, _, hvisit, hback, rfl⟩ := Run.bind_eq_ok_iff.1 hrest
      obtain ⟨rfl, rfl⟩ := Run.pure_eq_ok_iff.1 hback
      rw [List.append_nil]
      exact hv _ _ _ _ hvisit

theorem foldlM_collectInclude (hv : w.Flat visit) {file : Path} {arguments : List Text}
    {scope after : Scope} {events : List Event}
    (h : arguments.foldlM (collectInclude w visit file) scope = ⟨events, .ok after⟩) :
    after = (w.declarations events).foldl Scope.absorb scope := by
  induction arguments generalizing scope events with
  | nil =>
    obtain ⟨rfl, rfl⟩ := Run.pure_eq_ok_iff.1 h
    rfl
  | cons argument rest ih =>
    rw [List.foldlM_cons] at h
    obtain ⟨_, next, _, hone, hrest, rfl⟩ := Run.bind_eq_ok_iff.1 h
    rw [ih hrest, declarations_append, List.foldl_append, ← collectInclude_eq_foldl hv hone]

theorem collect_eq_foldl {chain : List Path} {file : Path} {inherited root : Scope}
    {events : List Event} (h : collect w chain file inherited = ⟨events, .ok root⟩) :
    ∃ rest, w.declarations events = w.declared file :: rest ∧
      root = rest.foldl Scope.absorb ((w.declared file).inherit inherited) := by
  -- By the files that are not on the chain yet, of which each deeper visit has one fewer.
  induction hn : w.tree.unvisited chain using Nat.strongRecOn
    generalizing chain file inherited root events with
  | ind n ih =>
    rw [collect] at h
    split at h
    · exact absurd h Run.fail_ne_ok
    · rename_i hc
      split at h
      · exact absurd h Run.stop_ne_ok
      · rename_i entry he
        obtain ⟨_, _, _, hemit, hread, rfl⟩ := Run.bind_eq_ok_iff.1 h
        obtain rfl := Run.emit_eq_ok_iff.1 hemit
        obtain ⟨_, s, walk, hsource, hwalk, rfl⟩ := Run.bind_eq_ok_iff.1 hread
        obtain ⟨rfl, hs⟩ := read_eq_ok_iff.1 hsource
        have hflat : w.Flat fun target scope => collect w (chain ++ [file]) target scope := by
          intro target scope below child hchild
          obtain ⟨rest, hrest, rfl⟩ :=
            ih _ (hn ▸ Tree.unvisited_lt he hc) hchild rfl
          -- The deeper file's scope extends the one it inherited from, so it may be taken apart.
          rw [hrest, Scope.absorb_foldl (Scope.extends_inherit _ _), Scope.absorb_inherit]
          rfl
        rw [declared_of_readEntry he hs]
        refine ⟨w.declarations walk, ?_, foldlM_collectInclude hflat hwalk⟩
        rw [← declared_of_readEntry he hs]
        rfl

/-- A collected scope, absorbed by the scope it inherited from, is what absorbing the variables of
the entered files one after another gives, whatever the nesting. For a build it is the root scope. -/
theorem absorb_collect_eq_foldl (w : Workspace) (chain : List Path) (file : Path)
    (inherited root : Scope) (h : (collect w chain file inherited).outcome = .ok root) :
    inherited.absorb root =
        (w.declarations (collect w chain file inherited).events).foldl Scope.absorb inherited ∧
      (inherited = .empty →
        root = (w.declarations (collect w chain file inherited).events).foldl Scope.absorb .empty) := by
  have hrun : collect w chain file inherited =
      ⟨(collect w chain file inherited).events, .ok root⟩ := Run.ext rfl h
  obtain ⟨rest, hrest, hroot⟩ := collect_eq_foldl hrun
  have hfold : inherited.absorb root =
      (w.declarations (collect w chain file inherited).events).foldl Scope.absorb inherited := by
    rw [hrest, hroot, Scope.absorb_foldl (Scope.extends_inherit _ _), Scope.absorb_inherit]
    rfl
  refine ⟨hfold, ?_⟩
  rintro rfl
  rw [← hfold, Scope.empty_absorb]

/-- A file with one item, one nested below it with a list, and a third that both include: the
inherited item comes first, and the list with a repetition is taken in twice. -/
theorem absorb_collect_eq_foldl_of_diamond :
    let w := Workspace.holding [
      ("main", "---\nt: x\n---\n\x7b!include(a)!\x7d\n\x7b!include(b)!\x7d\n"),
      ("a", "---\nt:\n - y\n---\n\x7b!include(b)!\x7d"),
      ("b", "---\nt:\n - z\n - z\n---\n")]
    let scope (v : Value) : Scope := .ofList [("t".text, v)]
    let inherited := scope (.scalar (some "p".text))
    let root := scope (.list [some "p".text, some "y".text, some "z".text])
    (collect w [] (.named "main") inherited).outcome = .ok root ∧
      inherited.absorb root =
        [scope (.scalar (some "x".text)), scope (.list [some "y".text]),
          scope (.list [some "z".text, some "z".text]),
          scope (.list [some "z".text, some "z".text])].foldl Scope.absorb inherited := by
  intro w scope inherited root
  have hroot : (collect w [] (.named "main") inherited).outcome = .ok root :=
    Except.ok_of_toOption (by decide +kernel)
  have hfold := (absorb_collect_eq_foldl w [] (.named "main") inherited root hroot).1
  have hdeclared : w.declarations (collect w [] (.named "main") inherited).events =
      [scope (.scalar (some "x".text)), scope (.list [some "y".text]),
        scope (.list [some "z".text, some "z".text]),
        scope (.list [some "z".text, some "z".text])] := by
    decide +kernel
  exact ⟨hroot, hdeclared ▸ hfold⟩

end Workspace
end Transclude

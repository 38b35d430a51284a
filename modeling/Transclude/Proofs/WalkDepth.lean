import Mathlib.Logic.Function.Iterate
import Transclude.Proofs.IncludeSites

/-! How deep the walks along include directives go. Each of them is a step repeated along the chain
of includes, and as every file on a chain is there and stands on it once, the steps beyond the number
of paths in the tree are never asked for. -/

namespace Transclude

theorem Tree.unvisited_le (t : Tree) (chain : List Path) : t.unvisited chain ≤ t.paths.length :=
  List.length_filter_le _ _

namespace Workspace

variable (w : Workspace)

/-- The visit of one file, with `visit` for the visits below it. -/
def collectStep (visit : List Path → Path → Scope → Run Scope) (chain : List Path) (file : Path)
    (inherited : Scope) : Run Scope :=
  if file ∈ chain then .fail (.circularInclude (chain ++ [file]))
  else
    match w.tree.entryAt? file.names with
    | none => .stop (w.absentFile file)
    | some entry => do
      .emit (.collecting file)
      let front := FrontMatter.split (← w.read file entry)
      (includeArguments (Token.tokenize front.body)).foldlM
        (collectInclude w (visit (chain ++ [file])) file) (front.scope.inherit inherited)

variable {w}

theorem collect_eq_step (chain : List Path) (file : Path) (inherited : Scope) :
    collect w chain file inherited = w.collectStep (collect w) chain file inherited := by
  rw [collect]
  by_cases hc : file ∈ chain
  · rw [dif_pos hc, collectStep, if_pos hc]
  · rw [dif_neg hc]
    split
    · rename_i he
      rw [collectStep, if_neg hc, he]
    · rename_i entry he
      have hstep : w.collectStep (collect w) chain file inherited =
          .emit (.collecting file) >>= fun _ => w.read file entry >>= fun source =>
            (includeArguments (Token.tokenize (FrontMatter.split source).body)).foldlM
              (collectInclude w (collect w (chain ++ [file])) file)
              ((FrontMatter.split source).scope.inherit inherited) := by
        rw [collectStep, if_neg hc, he]
      rw [hstep]

/-- A step depends only on the visits below a file that is there and new to the chain. -/
theorem collectStep_congr {visit visit' : List Path → Path → Scope → Run Scope} {chain : List Path}
    {file : Path} (h : ∀ entry, w.tree.entryAt? file.names = some entry → file ∉ chain →
      visit (chain ++ [file]) = visit' (chain ++ [file])) (inherited : Scope) :
    w.collectStep visit chain file inherited = w.collectStep visit' chain file inherited := by
  unfold collectStep
  by_cases hc : file ∈ chain
  · rw [if_pos hc, if_pos hc]
  · rw [if_neg hc, if_neg hc]
    cases he : w.tree.entryAt? file.names with
    | none => rfl
    | some entry => rw [h entry he hc]

theorem iterate_collectStep {n : Nat} {chain : List Path} (hn : w.tree.unvisited chain < n)
    (limit : List Path → Path → Scope → Run Scope) (file : Path) (inherited : Scope) :
    w.collectStep^[n] limit chain file inherited = collect w chain file inherited := by
  induction n generalizing chain file inherited with
  | zero => exact absurd hn (Nat.not_lt_zero _)
  | succ n ih =>
    rw [Function.iterate_succ_apply', collect_eq_step]
    refine collectStep_congr (fun entry he hc => ?_) inherited
    have hless : w.tree.unvisited (chain ++ [file]) < w.tree.unvisited chain :=
      Tree.unvisited_lt he hc
    funext target scope
    exact ih (by omega) target scope

end Workspace

namespace Expander

variable (x : Expander)

/-- What the includes of a file are expanded with: a chain, a directory, variables and an offset. -/
abbrev Visit := List Path → Path → Scope → Int → Include → Run Text

def includeStep (visit : Visit) : Visit := fun chain base scope offset i => do
  let w := x.workspace
  let (path, placeholders) ← .ofExcept
    (fillTemplate [x.rootScope, scope] (chain.getLast?.getD base).toText i.path)
  if path = [] then return []
  let target := w.target base path
  if target ∈ chain then .fail (.circularInclude (chain ++ [target]))
  else
    match w.tree.entryAt? target.names with
    | none =>
      match w.tree.lookup target with
      | .tooLong => .stop (.path (.nameTooLong target))
      | _ =>
        .emit (.notFound target)
        w.reportMissing target chain.getLast? placeholders
    | some entry =>
      .emit (.including target)
      let front := FrontMatter.split (← w.read target entry)
      let snippet ← .ofExcept (Heading.select i.heading? front.body)
      let shift ← .ofExcept (Heading.shiftTo i.level? (snippet.level?.map Int.ofNat) offset)
      let body := if shift = 0 then snippet.body else Heading.shift shift snippet.body
      let expanded ← x.expandBody
        (visit (chain ++ [target]) target.parent (front.scope.inherit scope) (offset + shift))
        target.parent (chain ++ [target]) body
      if i.level?.getD [] = [] ∧ offset ≠ 0 then return Heading.shift offset expanded
      else return expanded

def expandFileWith (visit : Visit) (chain : List Path) (file : Path) (inherited : Scope) :
    Run Expanded :=
  match x.workspace.tree.entryAt? file.names with
  | none => .stop (x.workspace.absentFile file)
  | some entry => do
    .emit (.processing file)
    let front := FrontMatter.split (← x.workspace.read file entry)
    let scope := front.scope.inherit inherited
    let body ← x.expandBody (visit (chain ++ [file]) file.parent scope 0) file.parent
      (chain ++ [file]) front.body
    return ⟨body, front.raw?, scope⟩

theorem expandFile_eq_with (chain : List Path) (file : Path) (inherited : Scope) :
    x.expandFile chain file inherited = x.expandFileWith x.expandInclude chain file inherited := rfl

variable {x}

theorem expandInclude_eq_step (chain : List Path) (base : Path) (scope : Scope) (offset : Int)
    (i : Include) : x.expandInclude chain base scope offset i =
      x.includeStep x.expandInclude chain base scope offset i := by
  rw [expandInclude, includeStep]
  refine congrArg (Run.ofExcept _ >>= ·) (funext fun filled => ?_)
  obtain ⟨path, placeholders⟩ := filled
  dsimp only
  by_cases hpath : path = []
  · rw [if_pos hpath, if_pos hpath]
  rw [if_neg hpath, if_neg hpath]
  by_cases hc : x.workspace.target base path ∈ chain
  · rw [dif_pos hc, if_pos hc]
  · rw [dif_neg hc, if_neg hc]
    split
    · rename_i he
      rewrite [he]
      rfl
    · rename_i entry he
      rw [he]

theorem includeStep_congr {visit visit' : Visit} {chain : List Path}
    (h : ∀ target entry, x.workspace.tree.entryAt? target.names = some entry → target ∉ chain →
      visit (chain ++ [target]) = visit' (chain ++ [target])) (base : Path) (scope : Scope)
    (offset : Int) (i : Include) :
    x.includeStep visit chain base scope offset i =
      x.includeStep visit' chain base scope offset i := by
  unfold includeStep
  refine congrArg (Run.ofExcept _ >>= ·) (funext fun filled => ?_)
  obtain ⟨path, placeholders⟩ := filled
  dsimp only
  by_cases hpath : path = []
  · rw [if_pos hpath, if_pos hpath]
  rw [if_neg hpath, if_neg hpath]
  by_cases hc : x.workspace.target base path ∈ chain
  · rw [if_pos hc, if_pos hc]
  · rw [if_neg hc, if_neg hc]
    cases he : x.workspace.tree.entryAt? (x.workspace.target base path).names with
    | none => rfl
    | some entry => rw [h _ entry he hc]

theorem iterate_includeStep {n : Nat} {chain : List Path}
    (hn : x.workspace.tree.unvisited chain < n) (limit : Visit) :
    x.includeStep^[n] limit chain = x.expandInclude chain := by
  induction n generalizing chain with
  | zero => exact absurd hn (Nat.not_lt_zero _)
  | succ n ih =>
    funext base scope offset i
    rw [Function.iterate_succ_apply', expandInclude_eq_step]
    refine includeStep_congr (fun target entry he hc => ?_) base scope offset i
    have hless : x.workspace.tree.unvisited (chain ++ [target]) < x.workspace.tree.unvisited chain :=
      Tree.unvisited_lt he hc
    exact ih (by omega)

theorem expandFileWith_iterate {n : Nat} (hn : x.workspace.tree.paths.length < n) (limit : Visit)
    (chain : List Path) (file : Path) (inherited : Scope) :
    x.expandFileWith (x.includeStep^[n] limit) chain file inherited =
      x.expandFile chain file inherited := by
  have hunvisited : x.workspace.tree.unvisited (chain ++ [file]) < n :=
    Nat.lt_of_le_of_lt (Tree.unvisited_le _ _) hn
  rw [expandFile_eq_with, expandFileWith, iterate_includeStep hunvisited]
  rfl

end Expander
end Transclude

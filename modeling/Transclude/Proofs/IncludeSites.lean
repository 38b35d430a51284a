import Transclude.Expansion
import Transclude.Proofs.RunInversion
import Transclude.Proofs.Sources

/-! Where an include directive leads. Its path is filled in, and what is put in for it is the content
of the file there, moved to its level, expanded, and handed back. This second step depends on the
directive only through what it selects and where it puts it. -/

namespace Transclude

/-- An include that is followed: the file it leads to, what is selected there, and how far that is
moved before it is expanded. -/
structure Site where
  target : Path
  front : FrontMatter
  snippet : Snippet
  shift : Int

namespace Site

def body (t : Site) : Text :=
  if t.shift = 0 then t.snippet.body else Heading.shift t.shift t.snippet.body

end Site

/-- What is put in of an expanded text: without a level of its own it moves with its includer. -/
def Include.handBack (i : Include) (offset : Int) (s : Text) : Text :=
  if i.level?.getD [] = [] ∧ offset ≠ 0 then Heading.shift offset s else s

def Include.siteIn (i : Include) (offset : Int) (target : Path) (front : FrontMatter) :
    Except Problem Site := do
  let snippet ← Heading.select i.heading? front.body
  let shift ← Heading.shiftTo i.level? (snippet.level?.map Int.ofNat) offset
  return ⟨target, front, snippet, shift⟩

theorem Include.siteIn_eq_ok_iff {i : Include} {offset : Int} {target : Path} {front : FrontMatter}
    {t : Site} :
    i.siteIn offset target front = .ok t ↔ t.target = target ∧ t.front = front ∧
      Heading.select i.heading? front.body = .ok t.snippet ∧
      Heading.shiftTo i.level? (t.snippet.level?.map Int.ofNat) offset = .ok t.shift := by
  constructor
  · intro h
    obtain ⟨snippet, hsnippet, h⟩ := Except.bind_eq_ok_iff.1 h
    obtain ⟨shift, hshift, h⟩ := Except.bind_eq_ok_iff.1 h
    obtain rfl := Except.ok.inj h
    exact ⟨rfl, rfl, hsnippet, hshift⟩
  · rintro ⟨rfl, rfl, hsnippet, hshift⟩
    exact Except.bind_eq_ok_iff.2 ⟨_, hsnippet, Except.bind_eq_ok_iff.2 ⟨_, hshift, rfl⟩⟩

theorem Include.target_of_siteIn {i : Include} {offset : Int} {target : Path} {front : FrontMatter}
    {t : Site} (h : i.siteIn offset target front = .ok t) : t.target = target :=
  (siteIn_eq_ok_iff.1 h).1

theorem Run.ofExcept_bind {α β : Type} (x : Except Problem α) (f : α → Except Problem β) :
    ofExcept (x >>= f) = ofExcept x >>= fun a => ofExcept (f a) := by
  cases x <;> rfl

theorem currentFile_concat (chain : List Path) (file : Path) :
    currentFile (chain ++ [file]) = file.toText := by
  simp [currentFile]

namespace Expander

/-- Whether an include of the file on top of `chain` is followed to a site. -/
structure Opens (x : Expander) (chain : List Path) (base : Path) (scope : Scope) (offset : Int)
    (i : Include) (t : Site) : Prop where
  path : ∃ written names,
    fillTemplate [x.rootScope, scope] (chain.getLast?.getD base).toText i.path =
      .ok (written, names) ∧ written ≠ [] ∧ x.workspace.target base written = t.target
  fresh : t.target ∉ chain
  front : x.workspace.front? t.target = some t.front
  selected : Heading.select i.heading? t.front.body = .ok t.snippet
  shifted : Heading.shiftTo i.level? (t.snippet.level?.map Int.ofNat) offset = .ok t.shift

section

variable {x : Expander} {chain : List Path} {base : Path} {scope : Scope} {offset : Int}
  {i : Include} {t : Site}

theorem Opens.siteIn (h : x.Opens chain base scope offset i t) :
    i.siteIn offset t.target t.front = .ok t :=
  Include.siteIn_eq_ok_iff.2 ⟨rfl, rfl, h.selected, h.shifted⟩

theorem opens_of_siteIn {written : Text} {names : List Text} {front : FrontMatter}
    (hfill : fillTemplate [x.rootScope, scope] (chain.getLast?.getD base).toText i.path =
      .ok (written, names)) (hwritten : written ≠ [])
    (hfresh : x.workspace.target base written ∉ chain)
    (hfront : x.workspace.front? (x.workspace.target base written) = some front)
    (ht : i.siteIn offset (x.workspace.target base written) front = .ok t) :
    x.Opens chain base scope offset i t := by
  obtain ⟨htarget, rfl, hselected, hshifted⟩ := Include.siteIn_eq_ok_iff.1 ht
  rw [← htarget] at hfresh hfront
  exact ⟨⟨written, names, hfill, hwritten, htarget.symm⟩, hfresh, hfront, hselected, hshifted⟩

theorem Opens.unique {u : Site} (ht : x.Opens chain base scope offset i t)
    (hu : x.Opens chain base scope offset i u) : t = u := by
  obtain ⟨⟨written, names, hfill, -, htarget⟩, -, hfront, hselected, hshifted⟩ := ht
  obtain ⟨⟨written', names', hfill', -, htarget'⟩, -, hfront', hselected', hshifted'⟩ := hu
  obtain ⟨target, front, snippet, shift⟩ := t
  obtain ⟨target', front', snippet', shift'⟩ := u
  obtain ⟨rfl, rfl⟩ := Prod.mk.inj (Except.ok.inj (hfill.symm.trans hfill'))
  obtain rfl : target = target' := htarget.symm.trans htarget'
  obtain rfl : front = front' := Option.some.inj (hfront.symm.trans hfront')
  obtain rfl : snippet = snippet' := Except.ok.inj (hselected.symm.trans hselected')
  obtain rfl : shift = shift' := Except.ok.inj (hshifted.symm.trans hshifted')
  rfl

end

def expandSite (x : Expander) (chain : List Path) (scope : Scope) (offset : Int) (t : Site) :
    Run Text :=
  x.expandContent (chain ++ [t.target]) t.target.parent (t.front.scope.inherit scope)
    (offset + t.shift) t.body

variable (x : Expander) (chain : List Path) (base : Path) (scope : Scope) (offset : Int)
  (i : Include)

def expandTarget (placeholders : List Text) (target : Path) : Run Text :=
  if target ∈ chain then .fail (.circularInclude (chain ++ [target]))
  else
    match x.workspace.tree.entryAt? target.names with
    | none =>
      match x.workspace.tree.lookup target with
      | .tooLong => .stop (.path (.nameTooLong target))
      | _ => do
        .emit (.notFound target)
        x.workspace.reportMissing target chain.getLast? placeholders
    | some entry => do
      .emit (.including target)
      let source ← x.workspace.read target entry
      let t ← .ofExcept (i.siteIn offset target (FrontMatter.split source))
      i.handBack offset <$> x.expandSite chain scope offset t

theorem expandInclude_eq :
    x.expandInclude chain base scope offset i =
      .ofExcept (fillTemplate [x.rootScope, scope] (chain.getLast?.getD base).toText i.path) >>=
        fun (path, placeholders) =>
          if path = [] then pure []
          else x.expandTarget chain scope offset i placeholders (x.workspace.target base path) := by
  rw [expandInclude]
  refine congrArg (Run.ofExcept _ >>= ·) (funext fun filled => ?_)
  obtain ⟨path, placeholders⟩ := filled
  dsimp only
  by_cases hpath : path = []
  · rw [if_pos hpath, if_pos hpath]
  rw [if_neg hpath, if_neg hpath, expandTarget]
  by_cases hc : x.workspace.target base path ∈ chain
  · rw [dif_pos hc, if_pos hc]
  rw [dif_neg hc, if_neg hc]
  have hback (s : Text) : (if i.level?.getD [] = [] ∧ offset ≠ 0 then
      pure (Heading.shift offset s) else pure s : Run Text) = pure (i.handBack offset s) := by
    rw [Include.handBack]
    split <;> rfl
  split
  · rename_i he
    rewrite [he]
    rfl
  · rename_i entry he
    rw [he]
    simp only [Include.siteIn, Run.ofExcept_bind, bind_assoc, hback, map_eq_pure_bind]
    rfl

variable {x chain base scope offset i}

theorem expandTarget_of_front {placeholders : List Text} {target : Path} {front : FrontMatter}
    (hfresh : target ∉ chain) (h : x.workspace.front? target = some front) :
    x.expandTarget chain scope offset i placeholders target =
      .emit (.including target) >>= fun _ => .ofExcept (i.siteIn offset target front) >>= fun t =>
        i.handBack offset <$> x.expandSite chain scope offset t := by
  obtain ⟨entry, source, hentry, hread, rfl⟩ := Workspace.exists_read_of_front? h
  rw [expandTarget, if_neg hfresh, hentry]
  dsimp only
  rw [hread, pure_bind]

theorem expandInclude_eq_of_opens {t : Site} (h : x.Opens chain base scope offset i t) :
    x.expandInclude chain base scope offset i =
      .emit (.including t.target) >>= fun _ =>
        i.handBack offset <$> x.expandSite chain scope offset t := by
  obtain ⟨written, names, hfill, hwritten, htarget⟩ := h.path
  rw [expandInclude_eq, hfill]
  change (if written = [] then pure [] else x.expandTarget _ _ _ _ _ _) = _
  rw [if_neg hwritten, htarget, expandTarget_of_front h.fresh h.front, h.siteIn]
  rfl

theorem expandInclude_of_opens {t : Site} (h : x.Opens chain base scope offset i t) :
    (x.expandInclude chain base scope offset i).outcome =
      (i.handBack offset <$> x.expandSite chain scope offset t).outcome := by
  rw [expandInclude_eq_of_opens h, Run.outcome_bind_of_ok rfl]

theorem expandFile_of_front {file : Path} {front : FrontMatter}
    (h : x.workspace.front? file = some front) (inherited : Scope) :
    (x.expandFile chain file inherited).outcome =
      ((fun s => (⟨s, front.raw?, front.scope.inherit inherited⟩ : Expanded)) <$>
        x.expandContent (chain ++ [file]) file.parent (front.scope.inherit inherited) 0
          front.body).outcome := by
  obtain ⟨entry, source, hentry, hread, rfl⟩ := Workspace.exists_read_of_front? h
  unfold expandFile
  rw [hentry]
  dsimp only
  rw [Run.outcome_bind_of_ok rfl, hread, pure_bind, map_eq_pure_bind]

theorem body_expandFile {file : Path} {entry : Entry}
    (h : x.workspace.tree.entryAt? file.names = some entry) (inherited : Scope) :
    Expanded.body <$> x.expandFile chain file inherited =
      .emit (.processing file) >>= fun _ => x.workspace.read file entry >>= fun source =>
        x.expandContent (chain ++ [file]) file.parent
          ((FrontMatter.split source).scope.inherit inherited) 0 (FrontMatter.split source).body := by
  unfold expandFile
  rw [h]
  simp

end Expander
end Transclude

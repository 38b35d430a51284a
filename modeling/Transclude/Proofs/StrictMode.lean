import Mathlib.Data.List.TakeWhile
import Transclude.Proofs.IncludeSites
import Transclude.Proofs.LenientFaults
import Transclude.Proofs.RunEvents
import Transclude.Proofs.WalkDepth

/-! Strict mode. It changes nothing up to the first missing include, and there it ends the build: a
strict build is the lenient one, cut short where that would first make a note. -/

namespace Transclude

namespace Run

variable {α β : Type}

/-- A run that ends where it first notes a missing include, which becomes its fault. -/
def promoted (x : Run α) : Run α :=
  match x.events.findSome? Event.missing? with
  | none => x
  | some m => ⟨x.events.takeWhile (·.missing? = none), .error (.problem (.missingInclude m))⟩

variable {x : Run α}

theorem promoted_of_none (h : x.events.findSome? Event.missing? = none) : x.promoted = x := by
  rw [promoted, h]

theorem promoted_of_some {m : MissingInclude} (h : x.events.findSome? Event.missing? = some m) :
    x.promoted =
      ⟨x.events.takeWhile (·.missing? = none), .error (.problem (.missingInclude m))⟩ := by
  rw [promoted, h]

theorem promoted_of_emits (h : Emits (·.missing? = none) x) : x.promoted = x :=
  promoted_of_none (List.findSome?_eq_none_iff.2 h)

theorem takeWhile_append_of_none {xs : List Event} (h : xs.findSome? Event.missing? = none)
    (ys : List Event) : (xs ++ ys).takeWhile (·.missing? = none) =
      xs ++ ys.takeWhile (·.missing? = none) :=
  List.takeWhile_append_of_pos fun event hevent =>
    decide_eq_true (List.findSome?_eq_none_iff.1 h event hevent)

theorem takeWhile_append_of_some {xs : List Event} {m : MissingInclude}
    (h : xs.findSome? Event.missing? = some m) (ys : List Event) :
    (xs ++ ys).takeWhile (·.missing? = none) = xs.takeWhile (·.missing? = none) := by
  obtain ⟨before, event, after, rfl, hevent, hbefore⟩ := List.findSome?_eq_some_iff.1 h
  have hstop (zs : List Event) : (before ++ event :: zs).takeWhile (·.missing? = none) = before := by
    rw [takeWhile_append_of_none (List.findSome?_eq_none_iff.2 hbefore),
      List.takeWhile_cons_of_neg (by simp [hevent]), List.append_nil]
  rw [List.append_assoc, List.cons_append, hstop, hstop]

theorem promoted_bind (x : Run α) (f : α → Run β) :
    (x >>= f).promoted = x.promoted >>= fun a => (f a).promoted := by
  cases hx : x.events.findSome? Event.missing? with
  | some m =>
    -- The run is cut short before `f` has its turn.
    have hevents : ∃ ys, (x >>= f).events = x.events ++ ys := by
      cases ho : x.outcome with
      | ok a => exact ⟨(f a).events, by rw [bind_of_ok ho]⟩
      | error fault => exact ⟨[], by rw [bind_of_error ho, List.append_nil]⟩
    obtain ⟨ys, hys⟩ := hevents
    have hfirst : (x >>= f).events.findSome? Event.missing? = some m := by
      rw [hys, List.findSome?_append, hx, Option.some_or]
    rw [promoted_of_some hfirst, promoted_of_some hx, hys, takeWhile_append_of_some hx]
    rfl
  | none =>
    rw [promoted_of_none hx]
    cases ho : x.outcome with
    | error fault =>
      rw [bind_of_error ho, bind_of_error ho]
      exact promoted_of_none hx
    | ok a =>
      rw [bind_of_ok ho, bind_of_ok ho]
      have hevents : (x.events ++ (f a).events).findSome? Event.missing? =
          (f a).events.findSome? Event.missing? := by
        rw [List.findSome?_append, hx, Option.none_or]
      cases hf : (f a).events.findSome? Event.missing? with
      | none =>
        rw [promoted_of_none hf]
        exact promoted_of_none (hevents.trans hf)
      | some m =>
        rw [promoted_of_some hf]
        refine (promoted_of_some (hevents.trans hf)).trans ?_
        rw [takeWhile_append_of_none hx]

theorem promoted_map (f : α → β) (x : Run α) : (f <$> x).promoted = f <$> x.promoted := by
  rw [map_eq_pure_bind, map_eq_pure_bind, promoted_bind]
  rfl

theorem promoted_foldlM {f g : β → α → Run β} (h : ∀ b a, f b a = (g b a).promoted) (xs : List α)
    (b : β) : xs.foldlM f b = (xs.foldlM g b).promoted := by
  induction xs generalizing b with
  | nil => rfl
  | cons a xs ih =>
    rw [List.foldlM_cons, List.foldlM_cons, promoted_bind, h]
    exact congrArg _ (funext ih)

end Run

open Run

theorem Token.promoted_pass {f g : Directive → Run Text} (h : ∀ d, f d = (g d).promoted)
    (tokens : List Token) : pass f tokens = (pass g tokens).promoted := by
  induction tokens with
  | nil => rfl
  | cons token rest ih =>
    cases token with
    | plain s => rw [pass, pass, promoted_map, ih]
    | found d =>
      rw [pass, pass, promoted_bind, h]
      refine congrArg _ (funext fun s => ?_)
      rw [promoted_map, ih]

namespace Workspace

def inMode (w : Workspace) (strict : Bool) : Workspace :=
  { w with settings := { w.settings with strictMode := strict } }

variable (w : Workspace)

theorem tree_inMode (strict : Bool) : (w.inMode strict).tree = w.tree := rfl

theorem target_inMode (strict : Bool) : (w.inMode strict).target = w.target := rfl

theorem promoted_read (p : Path) (entry : Entry) : (w.read p entry).promoted = w.read p entry :=
  promoted_of_emits (w.emits_read p entry)

theorem collectInclude_inMode {visit visit' : Path → Scope → Run Scope}
    (h : ∀ target scope, visit target scope = (visit' target scope).promoted) (file : Path)
    (scope : Scope) (argument : Text) :
    collectInclude (w.inMode true) visit file scope argument =
      (collectInclude (w.inMode false) visit' file scope argument).promoted := by
  unfold collectInclude
  rw [promoted_bind]
  refine congrArg _ (funext fun i => ?_)
  rw [promoted_bind]
  refine congrArg _ (funext fun filled => ?_)
  obtain ⟨path, placeholders⟩ := filled
  dsimp only
  split
  · rfl
  simp only [tree_inMode, target_inMode]
  cases w.tree.lookup (w.target file.parent path) with
  | tooLong => rfl
  | missing =>
    dsimp only
    rw [promoted_bind]
    rfl
  | found entry =>
    dsimp only
    rw [promoted_bind]
    exact congrArg (· >>= _) (h _ scope)

theorem collectStep_inMode {visit visit' : List Path → Path → Scope → Run Scope}
    {chain : List Path} {file : Path}
    (h : ∀ entry, w.tree.entryAt? file.names = some entry → file ∉ chain → ∀ target scope,
      visit (chain ++ [file]) target scope = (visit' (chain ++ [file]) target scope).promoted)
    (inherited : Scope) :
    (w.inMode true).collectStep visit chain file inherited =
      ((w.inMode false).collectStep visit' chain file inherited).promoted := by
  unfold collectStep
  by_cases hc : file ∈ chain
  · rw [if_pos hc, if_pos hc]
    rfl
  rw [if_neg hc, if_neg hc, tree_inMode, tree_inMode]
  cases he : w.tree.entryAt? file.names with
  | none => rfl
  | some entry =>
    dsimp only
    rw [promoted_bind]
    refine congrArg _ (funext fun _ => ?_)
    rw [promoted_bind, promoted_read]
    refine congrArg _ (funext fun source => ?_)
    exact promoted_foldlM (w.collectInclude_inMode (h entry he hc) file) _ _

/-- A strict collection is the lenient one, cut short. -/
theorem collect_inMode (chain : List Path) (file : Path) (inherited : Scope) :
    collect (w.inMode true) chain file inherited =
      (collect (w.inMode false) chain file inherited).promoted := by
  -- By the files that are not on the chain yet, of which each visit below has one fewer.
  induction hn : w.tree.unvisited chain using Nat.strongRecOn generalizing chain file inherited with
  | ind n ih =>
    rw [collect_eq_step, collect_eq_step]
    refine w.collectStep_inMode (fun entry he hc target scope => ?_) inherited
    exact ih _ (hn ▸ Tree.unvisited_lt he hc) _ target scope rfl

end Workspace

theorem promoted_includeReplaced {expand expand' : Include → Run Text}
    (h : ∀ i, expand i = (expand' i).promoted) (d : Directive) :
    includeReplaced expand d = (includeReplaced expand' d).promoted := by
  cases d with
  | includeFile argument =>
    rw [includeReplaced, includeReplaced, promoted_bind]
    exact congrArg _ (funext h)
  | _ => rfl

namespace Expander

def inMode (x : Expander) (strict : Bool) : Expander :=
  { x with workspace := x.workspace.inMode strict }

variable (x : Expander)

theorem tree_inMode (strict : Bool) : (x.inMode strict).workspace.tree = x.workspace.tree := rfl

theorem expandBody_inMode {expand expand' : Include → Run Text}
    (h : ∀ i, expand i = (expand' i).promoted) (base : Path) (chain : List Path) (body : Text) :
    (x.inMode true).expandBody expand base chain body =
      ((x.inMode false).expandBody expand' base chain body).promoted := by
  have hresolve := promoted_of_emits (emits_resolveConditionals (P := (·.missing? = none))
    (fun _ => rfl) (fun _ => rfl) x.rootScope (currentFile chain) body)
  have hfill (s : Text) := promoted_of_emits (emits_substitute (P := (·.missing? = none))
    (fun _ _ => rfl) x.rootScope (currentFile chain) s)
  have hembed (s : Text) := promoted_of_emits
    (Image.emits_embedAll (P := (·.missing? = none)) x.workspace.tree base s)
  unfold expandBody
  simp only [promoted_bind, expandTokens_eq_pass]
  change resolveConditionals x.rootScope (currentFile chain) body >>= _ =
    (resolveConditionals x.rootScope (currentFile chain) body).promoted >>= _
  rw [hresolve]
  refine congrArg _ (funext fun resolved => ?_)
  rw [Token.promoted_pass (promoted_includeReplaced h)]
  refine congrArg _ (funext fun joined => ?_)
  change substitute x.rootScope (currentFile chain) joined >>= _ =
    (substitute x.rootScope (currentFile chain) joined).promoted >>= _
  rw [hfill]
  refine congrArg _ (funext fun replaced => ?_)
  change (if x.embedImages then _ else _) = Run.promoted (if x.embedImages then _ else _)
  split
  · exact (hembed replaced).symm
  · rfl

theorem expandTarget_inMode {chain : List Path} {scope : Scope} {offset : Int} {i : Include}
    {target : Path}
    (h : ∀ entry, x.workspace.tree.entryAt? target.names = some entry → target ∉ chain →
      ∀ base scope offset body,
        (x.inMode true).expandContent (chain ++ [target]) base scope offset body =
          ((x.inMode false).expandContent (chain ++ [target]) base scope offset body).promoted)
    (placeholders : List Text) :
    (x.inMode true).expandTarget chain scope offset i placeholders target =
      ((x.inMode false).expandTarget chain scope offset i placeholders target).promoted := by
  unfold expandTarget
  by_cases hc : target ∈ chain
  · rw [if_pos hc, if_pos hc]
    rfl
  rw [if_neg hc, if_neg hc, tree_inMode, tree_inMode]
  cases he : x.workspace.tree.entryAt? target.names with
  | none =>
    dsimp only
    split
    · rfl
    · rw [promoted_bind]
      rfl
  | some entry =>
    simp only [promoted_bind, promoted_map]
    refine congrArg _ (funext fun _ => ?_)
    rw [Workspace.promoted_read]
    refine congrArg _ (funext fun source => ?_)
    cases hsite : i.siteIn offset target (FrontMatter.split source) with
    | error p => rfl
    | ok t =>
      have hcontent := h entry he hc t.target.parent (t.front.scope.inherit scope)
        (offset + t.shift) t.body
      rw [← Include.target_of_siteIn hsite] at hcontent
      exact congrArg (i.handBack offset <$> ·) hcontent

theorem expandContent_inMode (chain : List Path) (base : Path) (scope : Scope) (offset : Int)
    (body : Text) : (x.inMode true).expandContent chain base scope offset body =
      ((x.inMode false).expandContent chain base scope offset body).promoted := by
  -- By the files that are not on the chain yet, of which each file below has one fewer.
  induction hn : x.workspace.tree.unvisited chain using Nat.strongRecOn
    generalizing chain base scope offset body with
  | ind n ih =>
    refine x.expandBody_inMode (fun i => ?_) base chain body
    rw [expandInclude_eq, expandInclude_eq, promoted_bind]
    refine congrArg _ (funext fun filled => ?_)
    obtain ⟨path, placeholders⟩ := filled
    dsimp only
    split
    · rfl
    · refine x.expandTarget_inMode (fun entry he hc base scope offset body => ?_) placeholders
      exact ih _ (hn ▸ Tree.unvisited_lt he hc) _ base scope offset body rfl

theorem expandFile_inMode (chain : List Path) (file : Path) (inherited : Scope) :
    (x.inMode true).expandFile chain file inherited =
      ((x.inMode false).expandFile chain file inherited).promoted := by
  unfold expandFile
  rw [tree_inMode, tree_inMode]
  split
  · rfl
  · simp only [promoted_bind]
    refine congrArg _ (funext fun _ => ?_)
    rw [Workspace.promoted_read]
    refine congrArg _ (funext fun source => ?_)
    rw [expandContent_inMode]
    rfl

end Expander

theorem emits_arrangeLists {P : Event → Prop} (h : ∀ list attributes, P (.itemAdded list attributes))
    (file standard s : Text) : Emits P (arrangeLists file standard s) := by
  have hharvest : Emits P (Harvest.ofText file standard s).run := by
    intro event hevent
    obtain ⟨⟨list, item⟩, -, rfl⟩ := List.mem_map.1 hevent
    exact h list item.attributes
  exact hharvest.bind fun _ _ => (emits_ofExcept _).bind fun _ _ => emits_pure _

theorem build_inMode (w : Workspace) (options : Options) (entry : Path) :
    build (w.inMode true) options entry = (build (w.inMode false) options entry).promoted := by
  have harrange (s : Text) := promoted_of_emits (emits_arrangeLists (P := (·.missing? = none))
    (fun _ _ => rfl) entry.toText w.settings.defaultListName s)
  unfold build
  simp only [promoted_bind, w.collect_inMode]
  refine congrArg _ (funext fun _ => congrArg _ (funext fun scope => ?_))
  refine congrArg _ (funext fun _ => ?_)
  have hexpand := (Expander.mk w scope options.embedImages).expandFile_inMode [] entry .empty
  refine (congrArg (· >>= _) hexpand).trans (congrArg _ (funext fun expanded => ?_))
  exact congrArg (· >>= _) (harrange expanded.body).symm

namespace Builder

/-- A build whose run is cut short where it first notes a missing include reports that include. -/
theorem sessionOf_promoted {run : Run Text} {m : MissingInclude}
    (h : run.events.findSome? Event.missing? = some m) :
    (sessionOf run.promoted).diagnostics = [m.message] := by
  obtain ⟨missed, hnoted, hsession⟩ := exists_noted run.promoted
  rw [promoted_of_some h] at hnoted hsession
  have hnone : (run.events.takeWhile (·.missing? = none)).findSome? Event.missing? = none :=
    List.findSome?_eq_none_iff.2 fun event hevent => by
      simpa using List.mem_takeWhile_imp hevent
  rw [promoted_of_some h, hsession, hnoted.eq_nil hnone]
  rfl

theorem exists_sessionOf_eq_cons {run : Run Text} {m : MissingInclude}
    (h : run.events.findSome? Event.missing? = some m) :
    ∃ others, (sessionOf run).diagnostics = m.message :: others := by
  obtain ⟨missed, hnoted, hsession⟩ := exists_noted run
  obtain ⟨rest, rfl⟩ := List.head?_eq_some_iff.1 (hnoted.head.trans h)
  rw [hsession]
  split <;> exact ⟨_, rfl⟩

theorem not_isMissingNote_of_none {run : Run Text} (hrun : run.Tolerant)
    (h : run.events.findSome? Event.missing? = none) :
    ∀ d ∈ (sessionOf run).diagnostics, ¬ d.IsMissingNote := by
  obtain ⟨missed, hnoted, hsession⟩ := exists_noted run
  rw [hsession, hnoted.eq_nil h]
  cases houtcome : run.outcome with
  | ok document => exact nofun
  | error fault => exact List.forall_mem_singleton.2 (hrun.not_isMissingNote houtcome)

/-- Strict mode makes a fault of the first missing include and changes nothing else: without one the
build is the same, and otherwise it stops with that message as its only diagnostic. -/
theorem build_strictly (b : Builder) (w : Workspace) :
    let lenient := b.build (w.inMode false)
    let strict := b.build (w.inMode true)
    ((∀ d ∈ lenient.1.session.diagnostics, ¬ d.IsMissingNote) → strict = lenient) ∧
      ∀ before first after, lenient.1.session.diagnostics = before ++ first :: after →
        (∀ d ∈ before, ¬ d.IsMissingNote) → first.IsMissingNote →
          (∃ p, strict.2.outcome = .error (.problem p) ∧ p.message = first) ∧
            strict.1.session.diagnostics = [first] := by
  intro lenient strict
  have hrun := build_inMode w b.options b.entry
  cases hfirst : (Transclude.build (w.inMode false) b.options b.entry).events.findSome?
      Event.missing? with
  | none =>
    have hsame : strict = lenient := by
      change b.build (w.inMode true) = b.build (w.inMode false)
      rw [Builder.build, Builder.build, hrun, promoted_of_none hfirst]
    have hnone : ∀ d ∈ lenient.1.session.diagnostics, ¬ d.IsMissingNote :=
      not_isMissingNote_of_none (tolerant_build rfl b.options b.entry) hfirst
    refine ⟨fun _ => hsame, fun before first after hsplit _ hnote => ?_⟩
    rw [hsplit] at hnone
    exact absurd hnote (hnone first (List.mem_append_right _ List.mem_cons_self))
  | some m =>
    -- The first note of the lenient build is where the strict one stops.
    obtain ⟨others, hothers⟩ : ∃ others, lenient.1.session.diagnostics = m.message :: others :=
      exists_sessionOf_eq_cons hfirst
    rw [hothers]
    refine ⟨fun hnone => absurd ⟨m, rfl⟩ (hnone _ List.mem_cons_self), ?_⟩
    intro before first after hsplit hbefore _
    obtain rfl : m.message = first := by
      cases before with
      | nil => exact (List.cons.inj hsplit).1
      | cons d ds =>
        obtain ⟨rfl, -⟩ := List.cons.inj hsplit
        exact absurd ⟨m, rfl⟩ (hbefore _ List.mem_cons_self)
    refine ⟨⟨.missingInclude m, ?_, rfl⟩, ?_⟩
    · change (Transclude.build (w.inMode true) b.options b.entry).outcome = _
      rw [hrun, promoted_of_some hfirst]
    · change (sessionOf (Transclude.build (w.inMode true) b.options b.entry)).diagnostics = _
      rw [hrun, sessionOf_promoted hfirst]

end Builder

namespace GappedDocument

def workspace : Workspace := .holding [("main", "\x7b!include(gone)!\x7d\x7b!var(name)!\x7d")]

def builder : Builder := ⟨.named "main", ⟨none, false, false⟩, .fresh, .empty⟩

def gap : MissingInclude := ⟨"gone".text, some "main".text, []⟩

theorem build_strictly_of_gap :
    (builder.build (workspace.inMode false)).1.session.diagnostics =
        [gap.message, (Problem.undefinedVariable "name".text "/main".text).message] ∧
      (∃ p, (builder.build (workspace.inMode true)).2.outcome = .error (.problem p) ∧
        p.message = gap.message) ∧
      (builder.build (workspace.inMode true)).1.session.diagnostics = [gap.message] := by
  have hlenient : (builder.build (workspace.inMode false)).1.session.diagnostics =
      [gap.message, (Problem.undefinedVariable "name".text "/main".text).message] := by
    decide +kernel
  exact ⟨hlenient, (Builder.build_strictly builder workspace).2 [] gap.message _ hlenient nofun
    ⟨gap, rfl⟩⟩

end GappedDocument

end Transclude

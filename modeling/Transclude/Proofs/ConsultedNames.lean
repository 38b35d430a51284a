import Transclude.Proofs.IncludeGraph

/-! The variables that steer an expansion: those in the conditions that it looks at, and those in the
include paths that it comes to. A condition behind the arm that is kept, or within one that is not,
is not looked at. -/

namespace Transclude

mutual

def Block.compared (scope : Scope) (file : Text) : Block → List Text
  | .empty => []
  | .token _ next => next.compared scope file
  | .region arms next => arms.compared scope file ++ next.compared scope file

def Arms.compared (scope : Scope) (file : Text) : Arms → List Text
  | .close => []
  | .arm _ guard? body next =>
    (guard?.map Condition.name).toList ++
      match (guardHolds scope file guard?).outcome with
      | .ok true => body.compared scope file
      | .ok false => next.compared scope file
      | .error _ => []

end

def comparedNames (scope : Scope) (file s : Text) : List Text :=
  match Block.parseAll file (Token.tokenize s) with
  | .ok block => block.compared scope file
  | .error _ => []

def placeholderNames (template : Text) : List Text :=
  ((Placeholder.pattern.scan template).filterMap Chunk.item?).map Placeholder.name

theorem Run.bind_congr {α β : Type} {x : Run α} {f g : α → Run β}
    (h : ∀ a, x.outcome = .ok a → f a = g a) : x >>= f = x >>= g := by
  cases houtcome : x.outcome with
  | error fault => rw [bind_of_error houtcome, bind_of_error houtcome]
  | ok a => rw [bind_of_ok houtcome, bind_of_ok houtcome, h a houtcome]

variable {scope other : Scope} {file : Text}

theorem guardHolds_congr {guard? : Option Condition}
    (h : ∀ name ∈ (guard?.map Condition.name).toList, other.get? name = scope.get? name) :
    guardHolds other file guard? = guardHolds scope file guard? := by
  cases guard? with
  | none => rfl
  | some c =>
    rw [guardHolds, guardHolds, Condition.holds, Condition.holds, h c.name List.mem_cons_self]

mutual

theorem Block.render_congr : (b : Block) →
    (∀ name ∈ b.compared scope file, other.get? name = scope.get? name) →
    b.render other file = b.render scope file
  | .empty, _ => by rw [Block.render, Block.render]
  | .token t next, h => by
    rw [Block.compared] at h
    rw [Block.render, Block.render, next.render_congr h]
  | .region arms next, h => by
    rw [Block.compared] at h
    obtain ⟨harms, hnext⟩ := List.forall_mem_append.1 h
    rw [Block.render, Block.render, arms.render_congr harms, next.render_congr hnext]

theorem Arms.render_congr : (arms : Arms) →
    (∀ name ∈ arms.compared scope file, other.get? name = scope.get? name) → {n : Nat} →
    arms.render other file n = arms.render scope file n
  | .close, _, n => by rw [Arms.render, Arms.render]
  | .arm marker guard? body next, h, n => by
    rw [Arms.compared] at h
    obtain ⟨hguard, hrest⟩ := List.forall_mem_append.1 h
    rw [Arms.render, Arms.render, guardHolds_congr hguard]
    refine Run.bind_congr fun holds hholds => ?_
    rw [hholds] at hrest
    cases holds with
    | true => exact congrArg (Run.emit (.kept n) >>= ·) (funext fun _ => body.render_congr hrest)
    | false => exact next.render_congr hrest

end

theorem resolveConditionals_congr {s : Text}
    (h : ∀ name ∈ comparedNames scope file s, other.get? name = scope.get? name) :
    resolveConditionals other file s = resolveConditionals scope file s := by
  unfold resolveConditionals
  unfold comparedNames at h
  cases hparse : Block.parseAll file (Token.tokenize s) with
  | error p => rfl
  | ok block =>
    rw [hparse] at h
    exact block.render_congr h

theorem fillTemplate_congr {template : Text} {scopes : List Scope}
    (h : ∀ name ∈ placeholderNames template, other.get? name = scope.get? name) :
    fillTemplate (other :: scopes) file template = fillTemplate (scope :: scopes) file template := by
  unfold placeholderNames at h
  unfold fillTemplate
  generalize Placeholder.pattern.scan template = chunks at h
  induction chunks with
  | nil => rfl
  | cons chunk rest ih =>
    cases chunk with
    | plain s => rw [Placeholder.fill, Placeholder.fill, ih h]
    | found p =>
      have hp := h p.name List.mem_cons_self
      have hvalue : p.value (other :: scopes) file = p.value (scope :: scopes) file := by
        rw [Placeholder.value, Placeholder.value, List.findSome?_cons, List.findSome?_cons,
          Scope.present?, Scope.present?, hp]
      rw [Placeholder.fill, Placeholder.fill, hvalue,
        ih fun name hname => h name (List.mem_cons_of_mem _ hname)]

namespace Expander

/-- Whether an expansion of an entry looks a variable up in the root scope for a condition or for an
include path. -/
def Consults (x : Expander) (entry : Path) (name : Text) : Prop :=
  ∃ fr, x.Reaches entry fr ∧
    (name ∈ comparedNames x.rootScope (currentFile fr.chain) fr.body ∨
      ∃ argument i, argument ∈ x.arguments fr ∧ Include.parse? argument = some i ∧
        name ∈ placeholderNames i.path)

end Expander

end Transclude

import Transclude.Proofs.IncludeWays

/-! What a run comes to when one problem counts as much as another. Runs that are put together alike
from parts with the same verdicts have the same verdict. -/

namespace Transclude

def Fault.withoutProblem : Fault → Option Fault
  | .problem _ => none
  | fault => some fault

namespace Run

variable {α β : Type}

def verdict (x : Run α) : Except (Option Fault) α := x.outcome.mapError Fault.withoutProblem

theorem verdict_eq_ok_iff {x : Run α} {a : α} : x.verdict = .ok a ↔ x.outcome = .ok a := by
  unfold verdict
  cases x.outcome with
  | ok b => exact ⟨fun h => congrArg _ (Except.ok.inj h), fun h => congrArg _ (Except.ok.inj h)⟩
  | error fault => constructor <;> rintro ⟨⟩

theorem verdict_eq_problem_iff {x : Run α} :
    x.verdict = .error none ↔ ∃ p, x.outcome = .error (.problem p) := by
  unfold verdict
  cases x.outcome with
  | ok b =>
    constructor
    · rintro ⟨⟩
    · rintro ⟨p, ⟨⟩⟩
  | error fault =>
    cases fault with
    | problem p => exact iff_of_true rfl ⟨p, rfl⟩
    | _ =>
      constructor
      · rintro ⟨⟩
      · rintro ⟨p, ⟨⟩⟩

theorem verdict_bind (x : Run α) (f : α → Run β) :
    (x >>= f).verdict = x.verdict >>= fun a => (f a).verdict := by
  unfold verdict
  rw [outcome_bind]
  cases x.outcome <;> rfl

theorem verdict_bind_congr {x y : Run α} {f g : α → Run β} (h : x.verdict = y.verdict)
    (hfg : ∀ a, (f a).verdict = (g a).verdict) : (x >>= f).verdict = (y >>= g).verdict := by
  rw [verdict_bind, verdict_bind, h, funext hfg]

theorem verdict_map_congr {x y : Run α} (h : x.verdict = y.verdict) (f : α → β) :
    (f <$> x).verdict = (f <$> y).verdict := by
  rw [map_eq_pure_bind, map_eq_pure_bind]
  exact verdict_bind_congr h fun _ => rfl

theorem verdict_bind_of_problem {x : Run α} (h : x.verdict = .error none) (f : α → Run β) :
    (x >>= f).verdict = .error none := by
  rw [verdict_bind, h]
  rfl

end Run

theorem Token.verdict_pass_congr {f g : Directive → Run Text}
    (h : ∀ d, (f d).verdict = (g d).verdict) (tokens : List Token) :
    (pass f tokens).verdict = (pass g tokens).verdict := by
  induction tokens with
  | nil => rfl
  | cons token rest ih =>
    cases token with
    | plain s => exact Run.verdict_map_congr ih _
    | found d => exact Run.verdict_bind_congr (h d) fun s => Run.verdict_map_congr ih _

namespace Expander

variable {x : Expander} {expand expand' : Include → Run Text} {base : Path}
  {chain chain' : List Path}

theorem verdict_expandBody_congr (hx : x.embedImages = false)
    (hfile : currentFile chain = currentFile chain')
    (h : ∀ i, (expand i).verdict = (expand' i).verdict) (body : Text) :
    (x.expandBody expand base chain body).verdict =
      (x.expandBody expand' base chain' body).verdict := by
  rw [expandBody_eq hx, expandBody_eq hx, hfile]
  refine Run.verdict_bind_congr rfl fun resolved => ?_
  refine Run.verdict_bind_congr (Token.verdict_pass_congr (fun d => ?_) _) fun joined => rfl
  cases d with
  | includeFile argument => exact Run.verdict_bind_congr rfl h
  | _ => rfl

end Expander
end Transclude

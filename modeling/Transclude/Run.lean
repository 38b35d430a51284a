import Transclude.Journal

/-! Runs: a journal of what happened and, at its end, a value or the fault that cut it short. -/

namespace Transclude

structure Run (α : Type) where
  events : List Event
  outcome : Except Fault α

namespace Run

variable {α β γ : Type}

instance : Monad Run where
  pure a := ⟨[], .ok a⟩
  bind x f :=
    match x.outcome with
    | .ok a =>
      let y := f a
      ⟨x.events ++ y.events, y.outcome⟩
    | .error e => ⟨x.events, .error e⟩

def emit (event : Event) : Run Unit := ⟨[event], .ok ()⟩

def stop (fault : Fault) : Run α := ⟨[], .error fault⟩

def fail (p : Problem) : Run α := stop (.problem p)

def ofExcept (x : Except Problem α) : Run α := ⟨[], x.mapError .problem⟩

theorem ext {x y : Run α} (he : x.events = y.events) (ho : x.outcome = y.outcome) : x = y := by
  cases x; cases y; simp_all

instance : LawfulMonad Run :=
  LawfulMonad.mk' Run
    (fun x => by
      obtain ⟨es, e | a⟩ := x
      · rfl
      · simp [Functor.map])
    (fun a f => by simp [bind, pure])
    (fun x f g => by
      obtain ⟨es, e | a⟩ := x
      · rfl
      · apply Run.ext <;> (simp only [bind]; split <;> simp_all))

@[simp] theorem events_pure (a : α) : (pure a : Run α).events = [] := rfl

@[simp] theorem outcome_pure (a : α) : (pure a : Run α).outcome = .ok a := rfl

theorem bind_of_ok {x : Run α} {a : α} (h : x.outcome = .ok a) (f : α → Run β) :
    x >>= f = ⟨x.events ++ (f a).events, (f a).outcome⟩ := by
  simp [bind, h]

theorem bind_of_error {x : Run α} {e : Fault} (h : x.outcome = .error e) (f : α → Run β) :
    x >>= f = ⟨x.events, .error e⟩ := by
  simp [bind, h]

end Run
end Transclude

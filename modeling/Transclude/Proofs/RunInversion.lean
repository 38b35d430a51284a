import Transclude.Workspace

/-! Runs that end with a value, taken apart into the runs they were put together from. -/

theorem Except.ok_of_toOption {ε α : Type} {x : Except ε α} {a : α} (h : x.toOption = some a) :
    x = .ok a := by
  cases x with
  | error e => cases h
  | ok b => exact congrArg Except.ok (Option.some.inj h)

theorem Except.bind_eq_ok_iff {ε α β : Type} {x : Except ε α} {f : α → Except ε β} {b : β} :
    x >>= f = .ok b ↔ ∃ a, x = .ok a ∧ f a = .ok b := by
  cases x with
  | error e => exact iff_of_false nofun nofun
  | ok a =>
    constructor
    · intro h
      exact ⟨a, rfl, h⟩
    · rintro ⟨_, ha, hb⟩
      obtain rfl := Except.ok.inj ha
      exact hb

namespace Transclude.Run

variable {α β : Type}

theorem bind_eq_ok_iff {x : Run α} {f : α → Run β} {events : List Event} {b : β} :
    x >>= f = ⟨events, .ok b⟩ ↔
      ∃ before a after, x = ⟨before, .ok a⟩ ∧ f a = ⟨after, .ok b⟩ ∧ events = before ++ after := by
  obtain ⟨before, a | a⟩ := x
  · constructor
    · intro h
      exact nomatch congrArg Run.outcome h
    · rintro ⟨_, _, _, h, -, -⟩
      exact nomatch congrArg Run.outcome h
  · rw [bind_of_ok rfl]
    constructor
    · intro h
      injection h with he ho
      exact ⟨before, a, (f a).events, rfl, Run.ext rfl ho, he.symm⟩
    · rintro ⟨_, _, after, h, hf, rfl⟩
      injection h with he ha
      injection ha with ha
      subst he ha
      rw [hf]

theorem outcome_bind_of_ok {x : Run α} {a : α} (h : x.outcome = .ok a) (f : α → Run β) :
    (x >>= f).outcome = (f a).outcome := by
  rw [bind_of_ok h]

theorem outcome_bind (x : Run α) (f : α → Run β) :
    (x >>= f).outcome = x.outcome >>= fun a => (f a).outcome := by
  cases hx : x.outcome with
  | error e => rw [bind_of_error hx]; rfl
  | ok a => rw [outcome_bind_of_ok hx]; rfl

theorem outcome_map (f : α → β) (x : Run α) : (f <$> x).outcome = f <$> x.outcome := by
  rw [map_eq_pure_bind, outcome_bind]
  rfl

theorem outcome_bind_eq_ok_iff {x : Run α} {f : α → Run β} {b : β} :
    (x >>= f).outcome = .ok b ↔ ∃ a, x.outcome = .ok a ∧ (f a).outcome = .ok b := by
  constructor
  · intro h
    cases hx : x.outcome with
    | error e =>
      rw [bind_of_error hx] at h
      cases h
    | ok a =>
      rw [outcome_bind_of_ok hx] at h
      exact ⟨a, rfl, h⟩
  · rintro ⟨a, ha, hb⟩
    rw [outcome_bind_of_ok ha, hb]

theorem outcome_map_eq_ok_iff {x : Run α} {f : α → β} {b : β} :
    (f <$> x).outcome = .ok b ↔ ∃ a, x.outcome = .ok a ∧ f a = b := by
  rw [map_eq_pure_bind, outcome_bind_eq_ok_iff]
  simp only [outcome_pure, Except.ok.injEq]

theorem pure_eq_ok_iff {a b : α} {events : List Event} :
    (pure a : Run α) = ⟨events, .ok b⟩ ↔ events = [] ∧ a = b := by
  constructor
  · intro h
    injection h with he ho
    exact ⟨he.symm, Except.ok.inj ho⟩
  · rintro ⟨rfl, rfl⟩
    rfl

theorem emit_eq_ok_iff {event : Event} {events : List Event} {u : Unit} :
    emit event = ⟨events, .ok u⟩ ↔ events = [event] := by
  constructor
  · intro h
    injection h with he
    exact he.symm
  · rintro rfl
    rfl

theorem stop_ne_ok {fault : Fault} {events : List Event} {a : α} :
    stop fault ≠ ⟨events, .ok a⟩ := fun h => nomatch congrArg Run.outcome h

theorem fail_ne_ok {p : Problem} {events : List Event} {a : α} :
    fail p ≠ ⟨events, .ok a⟩ := stop_ne_ok

theorem ofExcept_eq_ok_iff {x : Except Problem α} {events : List Event} {a : α} :
    ofExcept x = ⟨events, .ok a⟩ ↔ events = [] ∧ x = .ok a := by
  cases x with
  | error p =>
    constructor
    · intro h
      exact nomatch congrArg Run.outcome h
    · rintro ⟨-, h⟩
      cases h
  | ok b =>
    constructor
    · intro h
      injection h with he ho
      exact ⟨he.symm, congrArg Except.ok (Except.ok.inj ho)⟩
    · rintro ⟨rfl, h⟩
      obtain rfl := Except.ok.inj h
      rfl

end Transclude.Run

namespace Transclude.Workspace

theorem read_eq_ok_iff {w : Workspace} {p : Path} {entry : Entry} {events : List Event} {s : Text} :
    w.read p entry = ⟨events, .ok s⟩ ↔ events = [] ∧ Tree.readEntry p entry = .ok s := by
  unfold read
  cases Tree.readEntry p entry with
  | ok t => simpa using Run.pure_eq_ok_iff (a := t)
  | error e => simpa using Run.fail_ne_ok

end Transclude.Workspace

import Transclude.Proofs.IncludeWays

/-! Pieces of text that a run brings along. The run takes the same course for all pieces of a kind:
it ends with the same fault for each of them, or with the same text around each. -/

namespace Transclude

/-- Whether a run with a piece of some kind in it takes the same course for every piece, with
`front?` as the text in front of it in the end. -/
def Carries {ι : Type} (P : ι → Prop) (piece : ι → Text) (front? : Option Text)
    (run : ι → Except Fault Text) : Prop :=
  (∃ fault, ∀ i, P i → run i = .error fault) ∨
    ∃ front behind, front? = some front ∧ ∀ i, P i → run i = .ok (front ++ piece i ++ behind)

namespace Carries

variable {ι : Type} {P : ι → Prop} {piece piece' : ι → Text} {front? : Option Text}
  {run run' : ι → Except Fault Text}

theorem congr (h : Carries P piece front? run) (hr : ∀ i, P i → run' i = run i) :
    Carries P piece front? run' := by
  rcases h with ⟨fault, herror⟩ | ⟨front, behind, hfront, hok⟩
  · exact .inl ⟨fault, fun i hi => (hr i hi).trans (herror i hi)⟩
  · exact .inr ⟨front, behind, hfront, fun i hi => (hr i hi).trans (hok i hi)⟩

theorem exists_outcome (h : Carries P piece front? run) :
    ∃ outcome : Except Fault (Text × Text), ∀ i, P i →
      run i = (fun p => p.1 ++ piece i ++ p.2) <$> outcome := by
  rcases h with ⟨fault, herror⟩ | ⟨front, behind, -, hok⟩
  · exact ⟨.error fault, herror⟩
  · exact ⟨.ok (front, behind), hok⟩

theorem bind (h : Carries P piece front? run) {next : Text → Except Fault Text}
    {onward : Text → Option Text}
    (hn : ∀ front ∈ front?, ∀ behind,
      Carries P piece' (onward front) fun i => next (front ++ piece i ++ behind)) :
    Carries P piece' (front? >>= onward) fun i => run i >>= next := by
  rcases h with ⟨fault, herror⟩ | ⟨front, behind, rfl, hok⟩
  · refine .inl ⟨fault, fun i hi => ?_⟩
    show run i >>= next = _
    rw [herror i hi]
    rfl
  · rcases hn front rfl behind with ⟨fault, herror⟩ | ⟨after, more, hafter, hok'⟩
    · refine .inl ⟨fault, fun i hi => ?_⟩
      show run i >>= next = _
      rw [hok i hi]
      exact herror i hi
    · refine .inr ⟨after, more, hafter, fun i hi => ?_⟩
      show run i >>= next = _
      rw [hok i hi]
      exact hok' i hi

theorem of_run {first behind : Run Text}
    (h : ∀ i, P i → run i = (first >>= fun a => (a ++ piece i ++ ·) <$> behind).outcome) :
    Carries P piece first.outcome.toOption run := by
  cases hfirst : first.outcome with
  | error fault =>
    refine .inl ⟨fault, fun i hi => ?_⟩
    rw [h i hi, Run.bind_of_error hfirst]
  | ok a =>
    have hrun (i : ι) (hi : P i) : run i = (a ++ piece i ++ ·) <$> behind.outcome := by
      rw [h i hi, Run.outcome_bind_of_ok hfirst, Run.outcome_map]
    cases hbehind : behind.outcome with
    | error fault =>
      refine .inl ⟨fault, fun i hi => ?_⟩
      rw [hrun i hi, hbehind]
      rfl
    | ok b =>
      refine .inr ⟨a, b, rfl, fun i hi => ?_⟩
      rw [hrun i hi, hbehind]
      rfl

end Carries

theorem Include.handBack_around {ι : Type} {P : ι → Prop} {piece : ι → Text} (i : Include)
    (offset : Int) {front rest : Text}
    (h : i.level?.getD [] = [] ∧ offset ≠ 0 → ∃ behind, ∀ j, P j →
      Heading.shift offset (front ++ piece j ++ rest) =
        Heading.shift offset front ++ piece j ++ behind) :
    ∃ behind, ∀ j, P j →
      i.handBack offset (front ++ piece j ++ rest) =
        i.handBack offset front ++ piece j ++ behind := by
  unfold handBack
  by_cases hmoves : i.level?.getD [] = [] ∧ offset ≠ 0
  · obtain ⟨behind, hbehind⟩ := h hmoves
    refine ⟨behind, fun j hj => ?_⟩
    rw [if_pos hmoves, if_pos hmoves, hbehind j hj]
  · refine ⟨rest, fun j _ => ?_⟩
    rw [if_neg hmoves, if_neg hmoves]

namespace Expander

variable {x : Expander}

/-- What stands in front of a piece behind the includes of a leg, `front` being what stands in front
of it in the text that is put in for the include. -/
def joinedFront (x : Expander) (leg : Leg) (front : Text) : Option Text :=
  (Token.pass (x.putIn leg.frame) leg.before).outcome.toOption.map
    (· ++ leg.directive.handBack leg.frame.offset front)

theorem carries_around {ι : Type} {P : ι → Prop} {piece : ι → Text} {leg : Leg}
    {front? : Option Text} {run : ι → Except Fault Text} {onward : Text → Option Text}
    (h : Carries P piece front? run)
    (hback : ∀ front ∈ front?, ∀ rest, ∃ behind, ∀ i, P i →
      leg.directive.handBack leg.frame.offset (front ++ piece i ++ rest) =
        leg.directive.handBack leg.frame.offset front ++ piece i ++ behind)
    (hpass : ∀ front ∈ front?, ∀ joined ∈ x.joinedFront leg front, ∀ rest,
      Carries P piece (onward joined) fun i =>
        (Token.pass (x.fillIn leg.frame) (Token.tokenize (joined ++ piece i ++ rest))).outcome) :
    Carries P piece (front? >>= fun front => x.joinedFront leg front >>= onward)
      fun i => x.around leg (run i) := by
  -- The includes in front of the way on come first and do not depend on what it brings.
  cases hbefore : (Token.pass (x.putIn leg.frame) leg.before).outcome with
  | error fault =>
    refine .inl ⟨fault, fun i _ => ?_⟩
    show x.around leg (run i) = _
    rw [around, hbefore]
    rfl
  | ok a =>
    have haround (i : ι) : x.around leg (run i) =
        run i >>= fun s =>
          (Token.pass (x.putIn leg.frame) leg.after).outcome >>= fun b =>
            (Token.pass (x.fillIn leg.frame)
              (Token.tokenize (a ++ leg.directive.handBack leg.frame.offset s ++ b))).outcome := by
      rw [around, hbefore]
      rfl
    simp only [haround]
    refine h.bind fun front hfront rest => ?_
    have hjoined : x.joinedFront leg front =
        some (a ++ leg.directive.handBack leg.frame.offset front) := by
      rw [joinedFront, hbefore]
      rfl
    obtain ⟨behind, hbehind⟩ := hback front hfront rest
    have honward := hpass front hfront _ hjoined
    rw [hjoined]
    cases hafter : (Token.pass (x.putIn leg.frame) leg.after).outcome with
    | error fault => exact .inl ⟨fault, fun i _ => rfl⟩
    | ok b =>
      refine (honward (behind ++ b)).congr fun i hi => ?_
      have hjoin : a ++ leg.directive.handBack leg.frame.offset (front ++ piece i ++ rest) ++ b =
          a ++ leg.directive.handBack leg.frame.offset front ++ piece i ++ (behind ++ b) := by
        rw [hbehind i hi]
        simp
      exact congrArg
        (fun joined => (Token.pass (x.fillIn leg.frame) (Token.tokenize joined)).outcome) hjoin

end Expander
end Transclude

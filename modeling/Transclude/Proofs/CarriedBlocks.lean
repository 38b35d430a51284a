import Transclude.Proofs.BlockShifts
import Transclude.Proofs.CarriedTexts

/-! A fenced block on its way from the file it stands in up to the entry. At every frame the passes
and the shifts read the text in front of it anew; as long as each of these texts leaves the block at
the margin, what becomes of the entry is the same for any block, but for the block itself. -/

namespace Transclude

namespace Token

variable {front : Text}

def passedFront (replace : Directive → Run Text) (front : Text) : Option Text :=
  (pass replace (tokenize (Text.upperRows front))).outcome.toOption.map (· ++ Text.lastRow front)

theorem carries_pass (replace : Directive → Run Text) (hf : AtMargin front) (rest : Text) :
    Carries IsBlock Text.unlines (passedFront replace front) fun block =>
      (pass replace (tokenize (front ++ Text.unlines block ++ rest))).outcome := by
  have hrun (block : List Text) (hb : IsBlock block) :
      (pass replace (tokenize (front ++ Text.unlines block ++ rest))).outcome =
        (((· ++ Text.lastRow front) <$> pass replace (tokenize (Text.upperRows front))) >>=
          fun a => (a ++ Text.unlines block ++ ·) <$>
            ((Text.firstRow rest ++ ·) <$> pass replace (tokenize (Text.lowerRows rest)))).outcome := by
    rw [pass_block replace hf hb]
    simp
  have hfront :
      ((· ++ Text.lastRow front) <$>
          pass replace (tokenize (Text.upperRows front))).outcome.toOption =
        passedFront replace front := by
    rw [Run.outcome_map, passedFront]
    cases (pass replace (tokenize (Text.upperRows front))).outcome <;> rfl
  exact hfront ▸ Carries.of_run hrun

end Token

/-- Whether an include without a level of its own moves along with an includer that was shifted. -/
def Include.MovesAlong (i : Include) (offset : Int) : Prop := i.level?.getD [] = [] ∧ offset ≠ 0

instance (i : Include) (offset : Int) : Decidable (i.MovesAlong offset) :=
  inferInstanceAs (Decidable (_ ∧ _))

theorem Include.handBack_block (i : Include) (offset : Int) {front : Text}
    (hf : i.MovesAlong offset → AtMargin front) (rest : Text) :
    ∃ behind, ∀ block, IsBlock block →
      i.handBack offset (front ++ Text.unlines block ++ rest) =
        i.handBack offset front ++ Text.unlines block ++ behind :=
  i.handBack_around offset fun hmoves => Heading.shift_block (hf hmoves) offset rest

namespace Expander

variable {x : Expander}

/-- What stands in front of a block once the first frame of a way is expanded, `front?` being what
stands in front of it at the end of the way. -/
def surfaced (x : Expander) (front? : Option Text) : List Leg → Option Text
  | [] => front?
  | leg :: way =>
    x.surfaced front? way >>= fun front =>
      x.joinedFront leg front >>= Token.passedFront (x.fillIn leg.frame)

def frontsOf (x : Expander) (leg : Leg) (front : Text) : List Text :=
  (if leg.directive.MovesAlong leg.frame.offset then [front] else []) ++
    (x.joinedFront leg front).toList

def fronts (x : Expander) (front? : Option Text) : List Leg → List Text
  | [] => []
  | leg :: way => x.fronts front? way ++ (x.surfaced front? way).toList.flatMap (x.frontsOf leg)

theorem carries_around_block {leg : Leg} {front? : Option Text}
    {run : List Text → Except Fault Text} (h : Carries IsBlock Text.unlines front? run)
    (hf : ∀ front ∈ front?, ∀ w ∈ x.frontsOf leg front, AtMargin w) :
    Carries IsBlock Text.unlines
      (front? >>= fun front => x.joinedFront leg front >>= Token.passedFront (x.fillIn leg.frame))
      fun block => x.around leg (run block) := by
  -- The text in front of the block is read twice: as it is handed back, and joined.
  refine carries_around h (fun front hfront rest => ?_) fun front hfront joined hjoined rest => ?_
  · apply leg.directive.handBack_block leg.frame.offset
    intro hmoves
    refine hf front hfront _ (List.mem_append_left _ ?_)
    rw [if_pos hmoves]
    exact List.mem_singleton_self _
  · apply Token.carries_pass
    exact hf front hfront _ (List.mem_append_right _ (Option.mem_toList.2 hjoined))

theorem carries_surround {way : List Leg} {front? : Option Text}
    {run : List Text → Except Fault Text} (h : Carries IsBlock Text.unlines front? run)
    (hf : ∀ w ∈ x.fronts front? way, AtMargin w) :
    Carries IsBlock Text.unlines (x.surfaced front? way) fun block => x.surround way (run block) := by
  induction way with
  | nil => exact h
  | cons leg way ih =>
    obtain ⟨hway, hleg⟩ := List.forall_mem_append.1 hf
    refine carries_around_block (ih hway) fun front hfront w hw => ?_
    refine hleg w (List.mem_flatMap.2 ⟨front, ?_, hw⟩)
    exact Option.mem_toList.2 hfront

end Expander
end Transclude

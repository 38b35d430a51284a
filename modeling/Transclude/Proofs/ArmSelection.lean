import Transclude.Proofs.RegionReadings

/-! Conditional regions read from left to right. How each open region stands is kept on a stack, and
a token is left in the text if every one of them is in the arm that it keeps. -/

namespace Transclude

/-- How an open region stands: in the arm it keeps, in front of that one, or behind it. -/
inductive Mode where
  | kept
  | waiting
  | passed
deriving DecidableEq

namespace Mode

def live (modes : List Mode) : Bool := modes.all (· = .kept)

variable (scope : Scope) (file : Text)

def behindGuard (argument : Text) : Except Fault Mode :=
  match Condition.parse file argument with
  | .error p => .error (.problem p)
  | .ok guard => (fun holds => if holds then .kept else .waiting) <$> (guard.holds scope file).outcome

def behind : List Mode → Directive → Except Fault (List Mode)
  | modes, .ifHolds _ argument =>
    if live modes then (· :: modes) <$> behindGuard scope file argument else .ok (.passed :: modes)
  | .waiting :: outer, .elseIf _ argument => (· :: outer) <$> behindGuard scope file argument
  | _ :: outer, .elseIf _ _ => .ok (.passed :: outer)
  | .waiting :: outer, .otherwise => .ok (.kept :: outer)
  | _ :: outer, .otherwise => .ok (.passed :: outer)
  | _ :: outer, .endIf => .ok outer
  | modes, _ => .ok modes

def behindToken (modes : List Mode) : Token → Except Fault (List Mode)
  | .plain _ => .ok modes
  | .found d => behind scope file modes d

def remainder (modes : List Mode) (t : Token) : Text :=
  if t.isMarker ∨ live modes = false then [] else t.source

def select : List Mode → List Token → Except Fault Text
  | _, [] => .ok []
  | modes, t :: rest => do
    let next ← behindToken scope file modes t
    (remainder modes t ++ ·) <$> select next rest

def behindTokens (modes : List Mode) (tokens : List Token) : Except Fault (List Mode) :=
  tokens.foldlM (behindToken scope file) modes

variable {scope file} {modes outer : List Mode} {t : Token} {rest : List Token}

theorem behindToken_of_not_isMarker (ht : t.isMarker = false) (modes : List Mode) :
    behindToken scope file modes t = .ok modes := by
  cases t with
  | plain s => rfl
  | found d => cases modes <;> cases d <;> first | rfl | cases ht

theorem behindToken_of_decided {mode : Mode} (h : mode ≠ .waiting) (outer : List Mode) :
    behindToken scope file (mode :: outer) (.found .otherwise) = .ok (.passed :: outer) ∧
      ∀ gap argument, behindToken scope file (mode :: outer) (.found (.elseIf gap argument)) =
        .ok (.passed :: outer) := by
  cases mode with
  | waiting => exact absurd rfl h
  | _ => exact ⟨rfl, fun _ _ => rfl⟩

theorem select_of_not_isMarker (ht : t.isMarker = false) (hlive : live modes) :
    select scope file modes (t :: rest) = (t.source ++ ·) <$> select scope file modes rest := by
  rw [select, behindToken_of_not_isMarker ht, remainder, if_neg (by simp [ht, hlive])]
  rfl

theorem select_of_dropped (ht : t.isMarker = false) (hlive : live modes = false) :
    select scope file modes (t :: rest) = select scope file modes rest := by
  rw [select, behindToken_of_not_isMarker ht, remainder, if_pos (.inr hlive)]
  exact id_map (select scope file modes rest)

theorem select_of_isMarker (ht : t.isMarker) {next : List Mode}
    (hnext : behindToken scope file modes t = .ok next) :
    select scope file modes (t :: rest) = select scope file next rest := by
  rw [select, hnext, remainder, if_pos (.inl ht)]
  exact id_map (select scope file next rest)

theorem select_of_error {fault : Fault} (hnext : behindToken scope file modes t = .error fault) :
    select scope file modes (t :: rest) = .error fault := by
  rw [select, hnext]
  rfl

end Mode

open Mode

variable {scope : Scope} {file : Text}

/-- What the arms that are still to come leave of a region. -/
def Arms.remains (scope : Scope) (file : Text) (arms : Arms) : Mode → Except Fault Text
  | .waiting => (arms.render scope file 0).outcome
  | _ => .ok []

theorem Arms.remains_of_decided (arms : Arms) {mode : Mode} (h : mode ≠ .waiting) :
    arms.remains scope file mode = .ok [] := by
  cases mode with
  | waiting => exact absurd rfl h
  | _ => rfl

theorem Arms.outcome_render : (arms : Arms) → (m n : Nat) →
    (arms.render scope file m).outcome = (arms.render scope file n).outcome
  | .close, m, n => by rw [render, render]
  | .arm marker guard? body next, m, n => by
    rw [render, render, Run.outcome_bind, Run.outcome_bind]
    refine congrArg ((guardHolds scope file guard?).outcome >>= ·) (funext fun holds => ?_)
    cases holds with
    | true => rfl
    | false => exact next.outcome_render (m + 1) (n + 1)

theorem Arms.outcome_render_arm {marker : Directive} {guard : Condition} {body : Block}
    {next : Arms} :
    (Arms.render scope file 0 (.arm marker (some guard) body next)).outcome =
      (guard.holds scope file).outcome >>= fun holds =>
        if holds then (body.render scope file).outcome
        else (next.render scope file 0).outcome := by
  rw [render, Run.outcome_bind]
  refine congrArg ((guard.holds scope file).outcome >>= ·) (funext fun holds => ?_)
  cases holds with
  | true => rfl
  | false => exact next.outcome_render 1 0

/-- What a region leaves from one of its arms on. -/
def Block.remainsWith (scope : Scope) (file : Text) (body : Block) (arms : Arms) :
    Mode → Except Fault Text
  | .kept => (body.render scope file).outcome
  | mode => arms.remains scope file mode

theorem Except.bind_ok_nil {α : Type} (x : Except Fault (List α)) :
    (Except.ok [] >>= fun s => (s ++ ·) <$> x) = x := id_map x

theorem Except.bind_append_assoc (x y z : Except Fault Text) :
    (x >>= fun s => (s ++ ·) <$> (y >>= fun t => (t ++ ·) <$> z)) =
      (x >>= fun s => y >>= fun t => .ok (s ++ t)) >>= fun u => (u ++ ·) <$> z := by
  cases x <;> cases y <;> cases z <;>
    simp [Functor.map, Except.map, bind, Except.bind]

/-- An arm is passed over, or its body is left, according to the mode that it is read in. -/
theorem select_arm {body : Block} {arms : Arms} {us vs : List Token}
    (hbody : ∀ modes rest, select scope file modes (us ++ rest) =
      if live modes then
        (body.render scope file).outcome >>= fun s => (s ++ ·) <$> select scope file modes rest
      else select scope file modes rest)
    (harms : ∀ mode outer rest, (mode = .waiting → live outer) →
      select scope file (mode :: outer) (vs ++ rest) =
        arms.remains scope file mode >>= fun s => (s ++ ·) <$> select scope file outer rest)
    {mode : Mode} {outer : List Mode} (houter : mode ≠ .passed → live outer)
    (rest : List Token) :
    select scope file (mode :: outer) (us ++ (vs ++ rest)) =
      Block.remainsWith scope file body arms mode >>= fun s =>
        (s ++ ·) <$> select scope file outer rest := by
  cases mode with
  | kept =>
    have hlive : live (.kept :: outer) := houter nofun
    rw [hbody, if_pos hlive, harms .kept outer rest nofun]
    exact congrArg ((body.render scope file).outcome >>= ·)
      (funext fun s => congrArg ((s ++ ·) <$> ·) (Except.bind_ok_nil _))
  | waiting =>
    rw [hbody, if_neg (by simp [live]), harms .waiting outer rest fun _ => houter nofun]
    rfl
  | passed =>
    rw [hbody, if_neg (by simp [live]), harms .passed outer rest nofun]
    rfl

theorem select_endIf (mode : Mode) (outer : List Mode) (rest : List Token) :
    select scope file (mode :: outer) (.found .endIf :: rest) =
      Arms.close.remains scope file mode >>= fun s => (s ++ ·) <$> select scope file outer rest := by
  have hnext : behindToken scope file (mode :: outer) (.found .endIf) = .ok outer := by
    cases mode <;> rfl
  have hclose : Arms.close.remains scope file mode = .ok [] := by
    by_cases hwaiting : mode = .waiting
    · rw [hwaiting, Arms.remains, Arms.render]
      rfl
    · exact Arms.remains_of_decided _ hwaiting
  rw [select_of_isMarker rfl hnext, hclose, Except.bind_ok_nil]

mutual

theorem Block.Derives.select_append {b : Block} {ts : List Token} :
    b.Derives file ts → ∀ modes rest, select scope file modes (ts ++ rest) =
      if live modes then
        (b.render scope file).outcome >>= fun s => (s ++ ·) <$> select scope file modes rest
      else select scope file modes rest
  | .empty, modes, rest => by
    change _ = if live modes then Except.ok [] >>= fun s => (s ++ ·) <$> _ else _
    rw [Except.bind_ok_nil, ite_self]
    rfl
  | @Block.Derives.token _ t next _ ht hnext, modes, rest => by
    have ih := hnext.select_append modes rest
    rw [List.cons_append]
    cases hlive : live modes with
    | true =>
      rw [select_of_not_isMarker ht hlive, ih, if_pos hlive, if_pos rfl, Block.render,
        Run.outcome_bind]
      exact Except.bind_append_assoc (.ok t.source) _ _
    | false =>
      rw [select_of_dropped ht hlive, ih, hlive]
      rfl
  | @Block.Derives.region _ gap argument guard body next arms us vs ts hguard hbody harms hnext,
      modes, rest => by
    have harm {mode : Mode} (houter : mode ≠ .passed → live modes) (rest : List Token) :=
      select_arm hbody.select_append harms.select_append houter rest
    rw [List.cons_append, List.append_assoc, List.append_assoc]
    cases hlive : live modes with
    | true =>
      -- The guard is read once on either side, so a fault of it ends both.
      have hguarded : behindToken scope file modes (.found (.ifHolds gap argument)) =
          (· :: modes) <$> (fun holds => if holds then .kept else .waiting) <$>
            (guard.holds scope file).outcome := by
        cases modes <;> simp [behindToken, behind, hlive, behindGuard, hguard]
      have hrender : (Block.render scope file (.region (.arm (.ifHolds gap argument) (some guard)
          body arms) next)).outcome =
          ((guard.holds scope file).outcome >>= fun holds => if holds then
            (body.render scope file).outcome else (arms.render scope file 0).outcome) >>= fun s =>
              (next.render scope file).outcome >>= fun t => .ok (s ++ t) := by
        rw [Block.render, Run.outcome_bind, Arms.outcome_render_arm]
        simp only [Run.outcome_bind]
        rfl
      rw [if_pos rfl, hrender]
      cases hholds : (guard.holds scope file).outcome with
      | error fault =>
        rw [hholds] at hguarded
        exact select_of_error hguarded
      | ok holds =>
        rw [hholds] at hguarded
        rw [select_of_isMarker rfl hguarded, harm (fun _ => hlive), hnext.select_append, if_pos hlive,
          Except.bind_append_assoc]
        cases holds with
        | true => rfl
        | false => rfl
    | false =>
      -- In a dropped region no guard is read: its arms are passed over up to the end mark.
      have hmode : behindToken scope file modes (.found (.ifHolds gap argument)) =
          .ok (.passed :: modes) := by
        cases modes <;> simp [behindToken, behind, hlive]
      rw [select_of_isMarker rfl hmode, harm nofun, hnext.select_append, hlive]
      exact Except.bind_ok_nil _

theorem Arms.Follow.select_append {arms : Arms} {ts : List Token} :
    arms.Follow file ts → ∀ mode outer rest, (mode = .waiting → live outer) →
      select scope file (mode :: outer) (ts ++ rest) =
        arms.remains scope file mode >>= fun s => (s ++ ·) <$> select scope file outer rest
  | .endIf, mode, outer, rest, _ => select_endIf mode outer rest
  | @Arms.Follow.otherwise _ body _ hbody, mode, outer, rest, hmode => by
    have harm {mode : Mode} (houter : mode ≠ .passed → live outer) :=
      select_arm hbody.select_append Arms.Follow.endIf.select_append houter rest
    rw [List.cons_append, List.append_assoc]
    by_cases hwaiting : mode = .waiting
    · subst hwaiting
      have hnext : behindToken scope file (.waiting :: outer) (.found .otherwise) =
        .ok (.kept :: outer) := rfl
      have hrender : (Arms.arm .otherwise none body .close).remains scope file .waiting =
          (body.render scope file).outcome := by
        rw [Arms.remains, Arms.render]
        rfl
      rw [select_of_isMarker rfl hnext, harm fun _ => hmode rfl, hrender]
      rfl
    · -- An arm was kept before or none is to be: the rest is passed over.
      rw [select_of_isMarker rfl (behindToken_of_decided hwaiting outer).1, harm nofun,
        Arms.remains_of_decided _ hwaiting]
      rfl
  | @Arms.Follow.elseIf _ gap argument guard body arms _ _ hguard hbody harms, mode, outer, rest,
      hmode => by
    have harm {mode : Mode} (houter : mode ≠ .passed → live outer) :=
      select_arm hbody.select_append harms.select_append houter rest
    rw [List.cons_append, List.append_assoc]
    by_cases hwaiting : mode = .waiting
    · subst hwaiting
      have hguarded : behindToken scope file (.waiting :: outer) (.found (.elseIf gap argument)) =
          (· :: outer) <$> (fun holds => if holds then .kept else .waiting) <$>
            (guard.holds scope file).outcome := by
        simp [behindToken, behind, behindGuard, hguard]
      rw [Arms.remains, Arms.outcome_render_arm]
      cases hholds : (guard.holds scope file).outcome with
      | error fault =>
        rw [hholds] at hguarded
        exact select_of_error hguarded
      | ok holds =>
        rw [hholds] at hguarded
        rw [select_of_isMarker rfl hguarded, harm fun _ => hmode rfl]
        cases holds with
        | true => rfl
        | false => rfl
    · rw [select_of_isMarker rfl ((behindToken_of_decided hwaiting outer).2 gap argument),
        harm nofun, Arms.remains_of_decided _ hwaiting]
      rfl

end

theorem Block.Derives.outcome_render {b : Block} {ts : List Token} (h : b.Derives file ts)
    (scope : Scope) : (b.render scope file).outcome = select scope file [] ts := by
  have hlive : live [] := rfl
  have hall : select scope file [] (ts ++ []) =
      (b.render scope file).outcome >>= fun s => (s ++ ·) <$> select scope file [] [] := by
    rw [h.select_append, if_pos hlive]
  rw [List.append_nil] at hall
  rw [hall]
  cases (b.render scope file).outcome with
  | error fault => rfl
  | ok s => simp [select, Functor.map, Except.map, bind, Except.bind]

namespace Mode

theorem select_append_congr {before xs ys : List Token} {modes next : List Mode}
    (hbehind : behindTokens scope file modes before = .ok next)
    (h : select scope file next xs = select scope file next ys) :
    select scope file modes (before ++ xs) = select scope file modes (before ++ ys) := by
  induction before generalizing modes with
  | nil =>
    obtain rfl := Except.ok.inj hbehind
    exact h
  | cons t before ih =>
    obtain ⟨middle, hmiddle, hnext⟩ := Except.bind_eq_ok_iff.1 hbehind
    rw [List.cons_append, List.cons_append, select, select, hmiddle]
    exact congrArg (fun s => (remainder modes t ++ ·) <$> s) (ih hnext)

end Mode

end Transclude

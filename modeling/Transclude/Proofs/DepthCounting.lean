import Transclude.Proofs.ArmSelection

/-! Conditional regions resolved without a tree. The tokens of a region are cut where a count of the
open regions says that a marker belongs to it, one arm is kept, and what is kept is resolved in the
same way. The variables that are looked up are noted, and no other one has an influence. -/

namespace Transclude

/-- The tokens behind the opening marker of a region: those of its first arm, those of each further
arm with the marker in front of them, and those behind the region. -/
structure RegionCut where
  first : List Token
  further : List (Directive × List Token)
  behind : List Token

namespace RegionCut

def prepend (front : List Token) (r : RegionCut) : RegionCut :=
  { r with first := front ++ r.first }

def nextArm (marker : Directive) (r : RegionCut) : RegionCut :=
  ⟨[], (marker, r.first) :: r.further, r.behind⟩

/-- Cuts the rest of a region, where `depth` counts the regions that are open. -/
def ofTokens? : Nat → List Token → Option RegionCut
  | _, [] => none
  | depth, .found (.ifHolds gap argument) :: rest =>
    (ofTokens? (depth + 1) rest).map (prepend [.found (.ifHolds gap argument)])
  | depth, .found .endIf :: rest =>
    if depth = 1 then some ⟨[], [], rest⟩
    else (ofTokens? (depth - 1) rest).map (prepend [.found .endIf])
  | depth, .found d :: rest =>
    if depth = 1 ∧ d.isMarker then (ofTokens? depth rest).map (nextArm d)
    else (ofTokens? depth rest).map (prepend [.found d])
  | depth, .plain s :: rest => (ofTokens? depth rest).map (prepend [.plain s])

def bodies (r : RegionCut) : List (List Token) := r.first :: r.further.map Prod.snd

def body (r : RegionCut) (arm : Nat) : List Token := r.bodies.getD arm []

theorem ofTokens?_cons {depth : Nat} {t : Token} {rest : List Token} {r : RegionCut}
    (h : ofTokens? depth (t :: rest) = some r) :
    r = ⟨[], [], rest⟩ ∨
      ∃ other u, ofTokens? other rest = some u ∧ (r = u.prepend [t] ∨ ∃ d, r = u.nextArm d) := by
  have hinner {other : Nat} (h : (ofTokens? other rest).map (prepend [t]) = some r) :
      ∃ other u, ofTokens? other rest = some u ∧ (r = u.prepend [t] ∨ ∃ d, r = u.nextArm d) := by
    obtain ⟨u, hu, rfl⟩ := Option.map_eq_some_iff.1 h
    exact ⟨other, u, hu, .inl rfl⟩
  unfold ofTokens? at h
  split at h
  · rename_i heq
    cases heq
  · rename_i heq
    obtain ⟨rfl, rfl⟩ := List.cons.inj heq
    exact .inr (hinner h)
  · rename_i heq
    obtain ⟨rfl, rfl⟩ := List.cons.inj heq
    split at h
    · exact .inl (Option.some.inj h).symm
    · exact .inr (hinner h)
  · rename_i d _ _ _ heq
    obtain ⟨rfl, rfl⟩ := List.cons.inj heq
    split at h
    · obtain ⟨u, hu, rfl⟩ := Option.map_eq_some_iff.1 h
      exact .inr ⟨_, u, hu, .inr ⟨d, rfl⟩⟩
    · exact .inr (hinner h)
  · rename_i heq
    obtain ⟨rfl, rfl⟩ := List.cons.inj heq
    exact .inr (hinner h)

theorem length_of_ofTokens? {depth : Nat} {tokens : List Token} {r : RegionCut}
    (h : ofTokens? depth tokens = some r) :
    (∀ us ∈ r.bodies, us.length < tokens.length) ∧ r.behind.length < tokens.length := by
  induction tokens generalizing depth r with
  | nil => cases h
  | cons t rest ih =>
    have hpos : 0 < (t :: rest).length := Nat.zero_lt_succ rest.length
    rcases ofTokens?_cons h with rfl | ⟨other, u, hu, rfl | ⟨d, rfl⟩⟩
    · exact ⟨List.forall_mem_singleton.2 hpos, Nat.lt_succ_self rest.length⟩
    · obtain ⟨hbodies, hbehind⟩ := ih hu
      obtain ⟨hfirst, hfurther⟩ := List.forall_mem_cons.1 hbodies
      refine ⟨List.forall_mem_cons.2 ⟨Nat.succ_lt_succ hfirst, fun us hus => ?_⟩,
        Nat.lt_succ_of_lt hbehind⟩
      exact Nat.lt_succ_of_lt (hfurther us hus)
    · obtain ⟨hbodies, hbehind⟩ := ih hu
      refine ⟨List.forall_mem_cons.2 ⟨hpos, fun us hus => ?_⟩, Nat.lt_succ_of_lt hbehind⟩
      exact Nat.lt_succ_of_lt (hbodies us hus)

theorem length_body {depth : Nat} {tokens : List Token} {r : RegionCut}
    (h : ofTokens? depth tokens = some r) (arm : Nat) :
    (r.body arm).length < tokens.length := by
  obtain ⟨hbodies, hbehind⟩ := length_of_ofTokens? h
  rw [body, List.getD_eq_getElem?_getD]
  cases hget : r.bodies[arm]? with
  | none => exact Nat.lt_of_le_of_lt (Nat.zero_le _) hbehind
  | some us => exact hbodies us (List.mem_of_getElem? hget)

end RegionCut

/-- A computation that notes the names of the variables that it looks up. -/
structure Lookups (α : Type) where
  asked : List Text
  result : Except Problem α

namespace Lookups

variable {α β γ : Type}

instance : Monad Lookups where
  pure a := ⟨[], .ok a⟩
  bind x f :=
    match x.result with
    | .ok a => ⟨x.asked ++ (f a).asked, (f a).result⟩
    | .error p => ⟨x.asked, .error p⟩

def fail (p : Problem) : Lookups α := ⟨[], .error p⟩

theorem bind_of_ok {x : Lookups α} {a : α} (h : x.result = .ok a) (f : α → Lookups β) :
    x >>= f = ⟨x.asked ++ (f a).asked, (f a).result⟩ := by
  change (match x.result with | .ok a => _ | .error p => _) = _
  rw [h]

theorem bind_of_error {x : Lookups α} {p : Problem} (h : x.result = .error p)
    (f : α → Lookups β) : x >>= f = ⟨x.asked, .error p⟩ := by
  change (match x.result with | .ok a => _ | .error p => _) = _
  rw [h]

instance : LawfulMonad Lookups := by
  refine .mk' Lookups ?_ ?_ ?_
  · rintro α ⟨asked, p | a⟩
    · rfl
    · change (⟨asked ++ [], .ok a⟩ : Lookups α) = _
      rw [List.append_nil]
  · intro α β a f
    rfl
  · rintro α β γ ⟨asked, p | a⟩ f g
    · rfl
    · change (⟨asked ++ (f a).asked, (f a).result⟩ : Lookups β) >>= g =
        ⟨asked ++ (f a >>= g).asked, (f a >>= g).result⟩
      cases hresult : (f a).result with
      | error p => rw [bind_of_error rfl, bind_of_error hresult]
      | ok b => rw [bind_of_ok rfl, bind_of_ok hresult, List.append_assoc]

end Lookups

/-- Whether a value meets a condition: a single item is the expected text, a list has it among its
items. -/
def Condition.isMetBy (c : Condition) : Value → Bool
  | .scalar item => Value.itemText item = c.expected
  | .list items => items.any fun item => Value.itemText item = c.expected

namespace Token

variable (scope : Scope) (file : Text)

def ask (c : Condition) : Lookups Bool :=
  ⟨[c.name],
    match scope.get? c.name with
    | none => .error (.undefinedCondition c.name file)
    | some v => .ok (c.isMetBy v)⟩

def askMarker : Directive → Lookups Bool
  | .ifHolds _ argument | .elseIf _ argument =>
    match Condition.parse file argument with
    | .error p => .fail p
    | .ok c => ask scope file c
  | _ => pure true

/-- The number of the first arm to be kept. The markers behind it are not looked at. -/
def keptArm : List Directive → Lookups Nat
  | [] => pure 0
  | marker :: rest => do
    if ← askMarker scope file marker then return 0
    return (← keptArm rest) + 1

def resolve : List Token → Lookups Text
  | [] => pure []
  | .found (.ifHolds gap argument) :: rest =>
    match _hcut : RegionCut.ofTokens? 1 rest with
    | none => .fail (.missingEndIf file)
    | some r => do
      let arm ← keptArm scope file (.ifHolds gap argument :: r.further.map Prod.fst)
      let kept ← resolve (r.body arm)
      let behind ← resolve r.behind
      return kept ++ behind
  | t :: rest => (t.source ++ ·) <$> resolve rest
termination_by tokens => tokens.length
decreasing_by
  · exact Nat.lt_succ_of_lt (RegionCut.length_body _hcut arm)
  · exact Nat.lt_succ_of_lt (RegionCut.length_of_ofTokens? _hcut).2
  · exact Nat.lt_succ_self rest.length

variable {scope file}

theorem resolve_ifHolds {gap argument : Text} {rest : List Token} {r : RegionCut}
    (h : RegionCut.ofTokens? 1 rest = some r) :
    resolve scope file (.found (.ifHolds gap argument) :: rest) =
      (keptArm scope file (.ifHolds gap argument :: r.further.map Prod.fst) >>= fun arm =>
        resolve scope file (r.body arm)) >>= fun kept =>
          resolve scope file r.behind >>= fun behind => pure (kept ++ behind) := by
  rw [resolve, bind_assoc]
  split
  · rename_i heq
    rw [h] at heq
    cases heq
  · rename_i u heq
    obtain rfl := Option.some.inj (h.symm.trans heq)
    rfl

theorem resolve_of_not_isMarker {t : Token} (ht : t.isMarker = false) (rest : List Token) :
    resolve scope file (t :: rest) = (t.source ++ ·) <$> resolve scope file rest := by
  rw [resolve]
  rintro gap argument rfl
  cases ht

end Token

/-- Whether a computation that looks up variables stands for a run: they have the same outcome, and
the first variable that is not in the scope is the last one looked up, and the one reported. -/
structure Lookups.Traces {α : Type} (scope : Scope) (file : Text) (x : Lookups α) (y : Run α) :
    Prop where
  outcome_eq : y.outcome = x.result.mapError .problem
  defined : ∀ a, x.result = .ok a → ∀ name ∈ x.asked, scope.get? name ≠ none
  undefined : ∀ p, x.result = .error p → ∃ before name, x.asked = before ++ [name] ∧
    (∀ other ∈ before, scope.get? other ≠ none) ∧ scope.get? name = none ∧
    p = .undefinedCondition name file

variable {scope : Scope} {file : Text}

namespace Lookups.Traces

variable {α β : Type}

theorem pure (a : α) : Traces scope file (Pure.pure a) (Pure.pure a) :=
  ⟨rfl, nofun, nofun⟩

theorem bind {x : Lookups α} {y : Run α} {f : α → Lookups β} {g : α → Run β}
    (h : Traces scope file x y) (hf : ∀ a, Traces scope file (f a) (g a)) :
    Traces scope file (x >>= f) (y >>= g) := by
  cases hx : x.result with
  | error p =>
    rw [bind_of_error hx]
    refine ⟨?_, nofun, fun q hq => ?_⟩
    · rw [Run.outcome_bind, h.outcome_eq, hx]
      rfl
    · obtain rfl := Except.error.inj hq
      exact h.undefined p hx
  | ok a =>
    rw [bind_of_ok hx]
    refine ⟨?_, fun b hb => ?_, fun p hp => ?_⟩
    · rw [Run.outcome_bind, h.outcome_eq, hx]
      exact (hf a).outcome_eq
    · exact List.forall_mem_append.2 ⟨h.defined a hx, (hf a).defined b hb⟩
    · obtain ⟨before, name, hasked, hbefore, hrest⟩ := (hf a).undefined p hp
      refine ⟨x.asked ++ before, name, ?_, ?_, hrest⟩
      · rw [List.append_assoc, ← hasked]
      · exact List.forall_mem_append.2 ⟨h.defined a hx, hbefore⟩

theorem map {x : Lookups α} {y : Run α} (h : Traces scope file x y) (f : α → β) :
    Traces scope file (f <$> x) (f <$> y) := by
  rw [map_eq_pure_bind, map_eq_pure_bind]
  exact h.bind fun a => .pure (f a)

theorem emit {x : Lookups α} {y : Run α} (h : Traces scope file x y) (event : Event) :
    Traces scope file x (Run.emit event >>= fun _ => y) := by
  refine ⟨?_, h.defined, h.undefined⟩
  rw [Run.outcome_bind, h.outcome_eq]
  rfl

end Lookups.Traces

open Lookups (Traces)
open Token (ask askMarker keptArm resolve)

theorem Condition.isMetBy_eq (c : Condition) (v : Value) :
    c.isMetBy v = decide (c.expected ∈ v.items.map Value.itemText) := by
  cases v with
  | scalar item => simp [isMetBy, Value.items, eq_comm]
  | list items =>
    rw [isMetBy, Value.items, Bool.eq_iff_iff, List.any_eq_true, decide_eq_true_iff, List.mem_map]
    simp only [decide_eq_true_iff]

theorem traces_ask (c : Condition) :
    Traces scope file (ask scope file c) (c.holds scope file) := by
  cases hget : scope.get? c.name with
  | none =>
    have hask : ask scope file c = ⟨[c.name], .error (.undefinedCondition c.name file)⟩ := by
      rw [ask, hget]
    have hholds : c.holds scope file = .fail (.undefinedCondition c.name file) := by
      rw [Condition.holds, hget]
    rw [hask, hholds]
    refine ⟨rfl, nofun, fun p hp => ⟨[], c.name, rfl, nofun, hget, ?_⟩⟩
    exact (Except.error.inj hp).symm
  | some v =>
    have hask : ask scope file c = ⟨[c.name], .ok (c.isMetBy v)⟩ := by
      rw [ask, hget]
    have hholds : c.holds scope file = pure (c.isMetBy v) := by
      rw [Condition.holds, hget, Condition.isMetBy_eq]
    rw [hask, hholds]
    refine ⟨rfl, fun _ _ => List.forall_mem_singleton.2 ?_, nofun⟩
    rw [hget]
    exact Option.some_ne_none v

namespace RegionCut

theorem prepend_prepend (front inner : List Token) (r : RegionCut) :
    (r.prepend inner).prepend front = r.prepend (front ++ inner) := by
  rw [prepend, prepend, prepend, List.append_assoc]

theorem map_prepend_nil (r? : Option RegionCut) : r?.map (prepend []) = r? := by
  cases r? <;> rfl

theorem map_prepend_map (front inner : List Token) (r? : Option RegionCut) :
    (r?.map (prepend inner)).map (prepend front) = r?.map (prepend (front ++ inner)) := by
  rw [Option.map_map]
  exact congrArg (r?.map ·) (funext (prepend_prepend front inner))

theorem ofTokens?_of_not_isMarker {t : Token} (ht : t.isMarker = false) (depth : Nat)
    (rest : List Token) : ofTokens? depth (t :: rest) = (ofTokens? depth rest).map (prepend [t]) := by
  cases t with
  | plain s => rw [ofTokens?]
  | found d =>
    have hd : d.isMarker = false := ht
    rw [ofTokens?, if_neg (by simp [hd])]
    · rintro gap argument rfl
      cases hd
    · rintro rfl
      cases hd

theorem ofTokens?_separator {d : Directive}
    (hd : d = .otherwise ∨ ∃ gap argument, d = .elseIf gap argument) (depth : Nat)
    (rest : List Token) : ofTokens? depth (.found d :: rest) =
      if depth = 1 then (ofTokens? depth rest).map (nextArm d)
      else (ofTokens? depth rest).map (prepend [.found d]) := by
  rcases hd with rfl | ⟨gap, argument, rfl⟩
  · rw [ofTokens?] <;> simp [Directive.isMarker]
  · rw [ofTokens?] <;> simp [Directive.isMarker]

end RegionCut

open RegionCut

mutual

theorem Block.Derives.ofTokens?_append {b : Block} {us : List Token} :
    b.Derives file us → ∀ depth rest, ofTokens? (depth + 1) (us ++ rest) =
      (ofTokens? (depth + 1) rest).map (prepend us)
  | .empty, depth, rest => (map_prepend_nil _).symm
  | .token ht hnext, depth, rest => by
    rw [List.cons_append, ofTokens?_of_not_isMarker ht, hnext.ofTokens?_append, map_prepend_map]
    rfl
  | .region _ hbody harms hnext, depth, rest => by
    rw [List.cons_append, List.append_assoc, List.append_assoc, ofTokens?, hbody.ofTokens?_append,
      harms.ofTokens?_append, hnext.ofTokens?_append, map_prepend_map, map_prepend_map,
      map_prepend_map]
    rfl

theorem Arms.Follow.ofTokens?_append {arms : Arms} {vs : List Token} :
    arms.Follow file vs → ∀ depth rest, ofTokens? (depth + 2) (vs ++ rest) =
      (ofTokens? (depth + 1) rest).map (prepend vs)
  | .endIf, depth, rest => by
    rw [List.singleton_append, ofTokens?, if_neg (by omega)]
    rfl
  | .otherwise hbody, depth, rest => by
    rw [List.cons_append, List.append_assoc, ofTokens?_separator (.inl rfl), if_neg (by omega),
      hbody.ofTokens?_append, Arms.Follow.endIf.ofTokens?_append, map_prepend_map, map_prepend_map]
    rfl
  | .elseIf _ hbody harms, depth, rest => by
    rw [List.cons_append, List.append_assoc, ofTokens?_separator (.inr ⟨_, _, rfl⟩),
      if_neg (by omega), hbody.ofTokens?_append, harms.ofTokens?_append, map_prepend_map,
      map_prepend_map]
    rfl

end

theorem Arms.Follow.ofTokens?_separator {d : Directive}
    (hd : d = .otherwise ∨ ∃ gap argument, d = .elseIf gap argument) {body : Block}
    {us vs rest : List Token} {r : RegionCut} (hbody : body.Derives file us)
    (hr : ofTokens? 1 (vs ++ rest) = some r) :
    ofTokens? 1 (.found d :: (us ++ vs) ++ rest) = some ((r.prepend us).nextArm d) := by
  rw [List.cons_append, List.append_assoc, RegionCut.ofTokens?_separator hd, if_pos rfl,
    hbody.ofTokens?_append 0, hr]
  rfl

theorem traces_arm {marker : Directive} {guard? : Option Condition} {body : Block} {next : Arms}
    {us : List Token} {further : List (Directive × List Token)}
    (hguard : Traces scope file (askMarker scope file marker) (guardHolds scope file guard?))
    (hbody : Traces scope file (resolve scope file us) (body.render scope file))
    (hnext : ∀ n, Traces scope file
      (keptArm scope file (further.map Prod.fst) >>= fun arm =>
        resolve scope file ((further.map Prod.snd).getD arm [])) (next.render scope file n))
    (n : Nat) : Traces scope file
      (keptArm scope file (marker :: further.map Prod.fst) >>= fun arm =>
        resolve scope file ((us :: further.map Prod.snd).getD arm []))
      ((Arms.arm marker guard? body next).render scope file n) := by
  rw [keptArm, bind_assoc, Arms.render]
  refine hguard.bind fun holds => ?_
  cases holds with
  | true =>
    change Traces scope file (pure 0 >>= _) (Run.emit (.kept n) >>= _)
    rw [pure_bind]
    exact hbody.emit (.kept n)
  | false =>
    change Traces scope file ((keptArm scope file (further.map Prod.fst) >>= fun arm =>
      pure (arm + 1)) >>= _) _
    rw [bind_assoc]
    simp only [pure_bind]
    exact hnext (n + 1)

theorem traces_guard {argument : Text} {guard : Condition} {marker : Directive}
    (hguard : Condition.parse file argument = .ok guard)
    (hmarker : ∃ gap, marker = .ifHolds gap argument ∨ marker = .elseIf gap argument) :
    Traces scope file (askMarker scope file marker) (guardHolds scope file (some guard)) := by
  have hask : askMarker scope file marker = ask scope file guard := by
    rcases hmarker with ⟨gap, rfl | rfl⟩
    · rw [askMarker, hguard]
    · rw [askMarker, hguard]
  rw [hask]
  exact traces_ask guard

mutual

theorem Block.Derives.traces {b : Block} {ts : List Token} :
    b.Derives file ts → Traces scope file (resolve scope file ts) (b.render scope file)
  | .empty => by
    rw [resolve, Block.render]
    exact .pure []
  | @Block.Derives.token _ t next ts ht hnext => by
    rw [Token.resolve_of_not_isMarker ht, Block.render, ← map_eq_pure_bind]
    exact hnext.traces.map _
  | @Block.Derives.region _ gap argument guard body next arms us vs ts hguard hbody harms hnext => by
    obtain ⟨further, hfurther, hkept⟩ := harms.traces
    have hcut : ofTokens? 1 (us ++ vs ++ ts) = some ⟨us, further, ts⟩ := by
      rw [List.append_assoc, hbody.ofTokens?_append 0, hfurther]
      exact congrArg (fun first => some (⟨first, further, ts⟩ : RegionCut)) (List.append_nil us)
    rw [Token.resolve_ifHolds hcut, Block.render]
    refine Traces.bind ?_ fun kept => hnext.traces.bind fun behind => .pure _
    exact traces_arm (traces_guard hguard ⟨gap, .inl rfl⟩) hbody.traces hkept 0

theorem Arms.Follow.traces {arms : Arms} {vs : List Token} :
    arms.Follow file vs → ∃ further,
      (∀ rest, ofTokens? 1 (vs ++ rest) = some ⟨[], further, rest⟩) ∧
      ∀ n, Traces scope file
        (keptArm scope file (further.map Prod.fst) >>= fun arm =>
          resolve scope file ((further.map Prod.snd).getD arm [])) (arms.render scope file n)
  | .endIf => by
    refine ⟨[], fun rest => ?_, fun n => ?_⟩
    · rw [List.singleton_append, ofTokens?, if_pos rfl]
    · rw [List.map_nil, List.map_nil, keptArm, pure_bind, List.getD_nil, resolve, Arms.render]
      exact Traces.emit (.pure []) _
  | @Arms.Follow.otherwise _ body us hbody => by
    obtain ⟨further, hfurther, hkept⟩ := Arms.Follow.endIf.traces
    refine ⟨(.otherwise, us) :: further, fun rest => ?_, traces_arm (.pure true) hbody.traces hkept⟩
    rw [Arms.Follow.ofTokens?_separator (.inl rfl) hbody (hfurther rest)]
    exact congrArg (fun first => some (⟨[], (.otherwise, first) :: further, rest⟩ : RegionCut))
      (List.append_nil us)
  | @Arms.Follow.elseIf _ gap argument guard body next us vs hguard hbody harms => by
    obtain ⟨further, hfurther, hkept⟩ := harms.traces
    refine ⟨(.elseIf gap argument, us) :: further, fun rest => ?_,
      traces_arm (traces_guard hguard ⟨gap, .inr rfl⟩) hbody.traces hkept⟩
    rw [Arms.Follow.ofTokens?_separator (.inr ⟨gap, argument, rfl⟩) hbody (hfurther rest)]
    exact congrArg (fun first => some (⟨[], (.elseIf gap argument, first) :: further, rest⟩ :
      RegionCut)) (List.append_nil us)

end

theorem Lookups.bind_congr {α β : Type} {x y : Lookups α} {f g : α → Lookups β}
    {P : Text → Prop} (hP : ∀ name ∈ (x >>= f).asked, P name)
    (hx : (∀ name ∈ x.asked, P name) → x = y)
    (hf : ∀ a, (∀ name ∈ (f a).asked, P name) → f a = g a) : x >>= f = y >>= g := by
  cases hresult : x.result with
  | error p =>
    rw [bind_of_error hresult] at hP
    rw [← hx hP, bind_of_error hresult, bind_of_error hresult]
  | ok a =>
    rw [bind_of_ok hresult] at hP
    obtain ⟨hleft, hright⟩ := List.forall_mem_append.1 hP
    rw [← hx hleft, bind_of_ok hresult, bind_of_ok hresult, hf a hright]

namespace Token

variable {other : Scope}

theorem ask_congr {c : Condition}
    (h : ∀ name ∈ (ask scope file c).asked, other.get? name = scope.get? name) :
    ask scope file c = ask other file c := by
  rw [ask, ask, h c.name (List.mem_singleton_self _)]

theorem askMarker_congr {marker : Directive}
    (h : ∀ name ∈ (askMarker scope file marker).asked, other.get? name = scope.get? name) :
    askMarker scope file marker = askMarker other file marker := by
  have hguard (argument : Text)
      (h : ∀ name ∈ (askMarker scope file (.ifHolds [] argument)).asked,
        other.get? name = scope.get? name) :
      askMarker scope file (.ifHolds [] argument) = askMarker other file (.ifHolds [] argument) := by
    rw [askMarker] at h ⊢
    rw [askMarker]
    cases hparse : Condition.parse file argument with
    | error p => rfl
    | ok c =>
      rw [hparse] at h
      exact ask_congr h
  cases marker with
  | ifHolds gap argument => exact hguard argument h
  | elseIf gap argument => exact hguard argument h
  | _ => rfl

theorem keptArm_congr {markers : List Directive}
    (h : ∀ name ∈ (keptArm scope file markers).asked, other.get? name = scope.get? name) :
    keptArm scope file markers = keptArm other file markers := by
  induction markers with
  | nil => rfl
  | cons marker rest ih =>
    rw [keptArm] at h ⊢
    rw [keptArm]
    refine Lookups.bind_congr h askMarker_congr fun holds hnext => ?_
    cases holds with
    | true => rfl
    | false => exact Lookups.bind_congr hnext ih fun _ _ => rfl

theorem resolve_congr {tokens : List Token}
    (h : ∀ name ∈ (resolve scope file tokens).asked, other.get? name = scope.get? name) :
    resolve scope file tokens = resolve other file tokens := by
  fun_induction resolve scope file tokens with
  | case1 => rw [resolve]
  | case2 gap argument rest hcut =>
    rw [resolve]
    split
    · rfl
    · rename_i r hsome
      cases hcut.symm.trans hsome
  | case3 gap argument rest r hcut ihbody ihbehind =>
    rw [resolve_ifHolds hcut, bind_assoc]
    refine Lookups.bind_congr h keptArm_congr fun arm harm => ?_
    refine Lookups.bind_congr harm (ihbody arm) fun kept hkept => ?_
    exact Lookups.bind_congr hkept ihbehind fun _ _ => rfl
  | case4 t rest hif ih =>
    rw [resolve, map_eq_pure_bind, map_eq_pure_bind]
    · rw [map_eq_pure_bind] at h
      exact Lookups.bind_congr h ih fun _ _ => rfl
    · exact hif

end Token

theorem resolveConditionals_of_derives {s : Text} {b : Block}
    (hb : b.Derives file (Token.tokenize s)) (scope : Scope) :
    resolveConditionals scope file s = b.render scope file := by
  have hparse : Block.parseAll file (Token.tokenize s) = .ok b := by
    rw [Block.parseAll, Block.parse_eq_ok_none_iff.2 hb]
  rw [resolveConditionals, hparse]
  exact pure_bind b _

/-- Where the regions of a text can be read, resolving the text is resolving its tokens with a count
of the open regions. Both give the same text, or fail at the same first variable that is not in the
scope, and no variable that the count does not look up has an influence. -/
theorem resolveConditionals_counts_depth (scope : Scope) (file s : Text)
    (h : ∃ block, Block.parse file (Token.tokenize s) = .ok (block, none)) :
    Traces scope file (resolve scope file (Token.tokenize s)) (resolveConditionals scope file s) ∧
      ∀ other : Scope, (∀ name ∈ (resolve scope file (Token.tokenize s)).asked,
          other.get? name = scope.get? name) →
        (resolveConditionals other file s).outcome = (resolveConditionals scope file s).outcome := by
  obtain ⟨b, hparse⟩ := h
  have hb : b.Derives file (Token.tokenize s) := Block.parse_eq_ok_none_iff.1 hparse
  have htraces (scope : Scope) : Traces scope file (resolve scope file (Token.tokenize s))
      (resolveConditionals scope file s) := by
    rw [resolveConditionals_of_derives hb]
    exact hb.traces
  refine ⟨htraces scope, fun other hother => ?_⟩
  rw [(htraces other).outcome_eq, (htraces scope).outcome_eq, Token.resolve_congr hother]

namespace NestedRegions

def text : Text :=
  "\x7b!if a=1!\x7dx\x7b!if b=2!\x7dy\x7b!else!\x7dz\x7b!endif!\x7d".text ++
    "\x7b!elseif c=3!\x7d\x7b!if d=4!\x7dw\x7b!endif!\x7d\x7b!endif!\x7d".text

def given : Scope := .ofList [("a".text, .scalar "1".text), ("b".text, .list [none, "3".text])]

theorem resolve_eq : (resolve given [] (Token.tokenize text)).asked = ["a".text, "b".text] ∧
    (resolve given [] (Token.tokenize text)).result.toOption = some "xz".text := by
  decide +kernel

theorem counts_depth :
    (∃ block, Block.parse [] (Token.tokenize text) = .ok (block, none)) ∧
      (resolveConditionals given [] text).outcome.toOption = some "xz".text ∧
      ∀ other : Scope, other.get? "a".text = given.get? "a".text →
        other.get? "b".text = given.get? "b".text →
        (resolveConditionals other [] text).outcome = (resolveConditionals given [] text).outcome := by
  have hread : ∃ block, Block.parse [] (Token.tokenize text) = .ok (block, none) := by
    have hsome : ((Block.parse [] (Token.tokenize text)).toOption.map (·.2)) = some none := by
      decide +kernel
    obtain ⟨⟨block, marker?⟩, hparse, hmarker⟩ := Option.map_eq_some_iff.1 hsome
    obtain rfl : marker? = none := hmarker
    exact ⟨block, Except.ok_of_toOption hparse⟩
  obtain ⟨htraces, hother⟩ := resolveConditionals_counts_depth given [] text hread
  obtain ⟨hasked, hresult⟩ := resolve_eq
  refine ⟨hread, ?_, fun other ha hb => hother other ?_⟩
  · rw [htraces.outcome_eq, Except.ok_of_toOption hresult]
    rfl
  · rw [hasked]
    exact List.forall_mem_cons.2 ⟨ha, List.forall_mem_singleton.2 hb⟩

end NestedRegions

end Transclude

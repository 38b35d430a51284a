import Transclude.Proofs.BodyPasses

/-! What holds of every event of a run. A run that is put together of parts has no events but
theirs. -/

namespace Transclude

namespace Run

variable {α β : Type} {P : Event → Prop}

/-- Whether all that happens in a run is of some kind. -/
def Emits (P : Event → Prop) (x : Run α) : Prop := ∀ event ∈ x.events, P event

theorem emits_pure (a : α) : Emits P (pure a) := nofun

theorem emits_stop (fault : Fault) : Emits P (stop fault : Run α) := nofun

theorem emits_ofExcept (x : Except Problem α) : Emits P (ofExcept x) := nofun

theorem emits_emit {event : Event} (h : P event) : Emits P (emit event) :=
  List.forall_mem_singleton.2 h

theorem Emits.bind {x : Run α} {f : α → Run β} (hx : Emits P x)
    (hf : ∀ a, x.outcome = .ok a → Emits P (f a)) : Emits P (x >>= f) := by
  cases h : x.outcome with
  | error fault =>
    rw [bind_of_error h]
    exact hx
  | ok a =>
    rw [bind_of_ok h]
    exact List.forall_mem_append.2 ⟨hx, hf a h⟩

theorem Emits.map {x : Run α} (hx : Emits P x) (f : α → β) : Emits P (f <$> x) := by
  rw [map_eq_pure_bind]
  exact hx.bind fun a _ => emits_pure (f a)

end Run

open Run

variable {P : Event → Prop}

theorem Token.emits_pass {replace : Directive → Run Text} {tokens : List Token}
    (h : ∀ d, .found d ∈ tokens → Emits P (replace d)) : Emits P (pass replace tokens) := by
  induction tokens with
  | nil => exact emits_pure _
  | cons token rest ih =>
    have hrest := ih fun d hd => h d (List.mem_cons_of_mem token hd)
    cases token with
    | plain s => exact hrest.map _
    | found d => exact (h d List.mem_cons_self).bind fun s _ => hrest.map _

theorem emits_guardHolds (scope : Scope) (file : Text) (guard? : Option Condition) :
    Emits P (guardHolds scope file guard?) := by
  cases guard? with
  | none => exact emits_pure true
  | some c =>
    rw [guardHolds, Condition.holds]
    split
    · exact emits_stop _
    · exact emits_pure _

mutual

theorem Block.emits_render (hkept : ∀ arm, P (.kept arm)) (hdropped : ∀ file, P (.dropped file))
    (scope : Scope) (file : Text) : (b : Block) → Emits P (b.render scope file)
  | .empty => emits_pure _
  | .token t next => by
    rw [Block.render]
    exact (next.emits_render hkept hdropped scope file).bind fun s _ => emits_pure _
  | .region arms next => by
    rw [Block.render]
    refine (arms.emits_render hkept hdropped scope file 0).bind fun s _ => ?_
    exact (next.emits_render hkept hdropped scope file).bind fun s _ => emits_pure _

theorem Arms.emits_render (hkept : ∀ arm, P (.kept arm)) (hdropped : ∀ file, P (.dropped file))
    (scope : Scope) (file : Text) (n : Nat) : (arms : Arms) → Emits P (arms.render scope file n)
  | .close => by
    rw [Arms.render]
    exact (emits_emit (hdropped file)).bind fun _ _ => emits_pure _
  | .arm marker guard? body next => by
    rw [Arms.render]
    refine (emits_guardHolds scope file guard?).bind fun holds _ => ?_
    split
    · exact (emits_emit (hkept n)).bind fun _ _ => body.emits_render hkept hdropped scope file
    · exact next.emits_render hkept hdropped scope file (n + 1)

end

theorem emits_resolveConditionals (hkept : ∀ arm, P (.kept arm))
    (hdropped : ∀ file, P (.dropped file)) (scope : Scope) (file s : Text) :
    Emits P (resolveConditionals scope file s) :=
  (emits_ofExcept _).bind fun block _ => block.emits_render hkept hdropped scope file

theorem emits_substituteToken (h : ∀ name file, P (.substituted name file)) (scope : Scope)
    (file : Text) (token : Token) : Emits P (substituteToken scope file token) := by
  unfold substituteToken
  dsimp only
  split
  · split
    · exact emits_stop _
    · split
      · exact emits_stop _
      · exact (emits_emit (h _ _)).bind fun _ _ => emits_pure _
  · exact emits_pure _

theorem emits_substitute (h : ∀ name file, P (.substituted name file)) (scope : Scope)
    (file s : Text) : Emits P (substitute scope file s) := by
  rw [substitute, substituteTokens_eq_pass]
  exact Token.emits_pass fun d _ => emits_substituteToken h scope file (.found d)

namespace Image

theorem emits_replace (tree : Tree) (base : Path) (i : Image) : Emits P (replace tree base i) := by
  unfold replace
  dsimp only
  split
  · exact emits_pure _
  · split
    · exact emits_stop _
    · exact emits_pure _
    · exact emits_pure _
    · exact emits_pure _

theorem emits_embedAll (tree : Tree) (base : Path) (s : Text) : Emits P (embedAll tree base s) := by
  unfold embedAll
  induction pattern.scan s with
  | nil => exact emits_pure _
  | cons chunk rest ih =>
    cases chunk with
    | plain t => exact ih.bind fun _ _ => emits_pure _
    | found i =>
      exact (emits_replace tree base i).bind fun _ _ => ih.bind fun _ _ => emits_pure _

end Image

namespace Workspace

theorem emits_read (w : Workspace) (p : Path) (entry : Entry) : Emits P (w.read p entry) := by
  unfold read
  split
  · exact emits_pure _
  · exact emits_stop _

theorem eq_missing_of_mem {w : Workspace} {target : Path} {source? : Option Path}
    {placeholders : List Text} {event : Event}
    (h : event ∈ (w.reportMissing target source? placeholders).events) :
    ∃ m, event = .missing m := by
  unfold reportMissing at h
  dsimp only at h
  split at h
  · exact absurd h List.not_mem_nil
  · exact ⟨_, List.mem_singleton.1 h⟩

end Workspace
end Transclude

import Mathlib.Data.List.Induction
import Mathlib.Data.List.Nodup
import Transclude.Build

/-! Notes on missing includes. Their messages cannot be mistaken for those of any other fault, and a
session holds each of them once, in the order in which a run came to them. -/

namespace Transclude

open MissingInclude (message)

def Event.missing? : Event → Option MissingInclude
  | .missing m => some m
  | _ => none

theorem MissingInclude.take_message (m : MissingInclude) : m.message.take 3 = "Inc".text := by
  unfold message describe
  dsimp only
  split <;> split <;> rfl

def Text.IsMissingNote (s : Text) : Prop := ∃ m : MissingInclude, m.message = s

theorem Fault.isMissingNote_iff {fault : Fault} :
    fault.message.IsMissingNote ↔ ∃ m, fault = .problem (.missingInclude m) := by
  constructor
  · rintro ⟨m, hm⟩
    have h : fault.message.take 3 = "Inc".text := hm ▸ m.take_message
    -- The words for every other fault differ from these within three characters.
    cases fault with
    | problem p =>
      cases p with
      | missingInclude m => exact ⟨m, rfl⟩
      | _ => simp [message, Problem.message, String.text] at h
    | path e => cases e <;> simp [message, PathError.message, PathError.numbered, String.text] at h
    | _ => simp [message, String.text] at h
  · rintro ⟨m, rfl⟩
    exact ⟨m, rfl⟩

/-- The missing includes that some events note: each message once, that of the first one in front. -/
structure Noted (events : List Event) (missed : List MissingInclude) : Prop where
  distinct : (missed.map message).Nodup
  covers : ∀ m, .missing m ∈ events → m.message ∈ missed.map message
  happened : ∀ m ∈ missed, .missing m ∈ events
  head : missed.head? = events.findSome? Event.missing?

namespace Noted

variable {events : List Event} {missed : List MissingInclude} {event : Event} {m : MissingInclude}

theorem nil : Noted [] [] := ⟨.nil, nofun, nofun, rfl⟩

theorem append_other (h : Noted events missed) (hevent : event.missing? = none) :
    Noted (events ++ [event]) missed where
  distinct := h.distinct
  covers n hn := by
    rcases List.mem_append.1 hn with hn | hn
    · exact h.covers n hn
    · rw [← List.mem_singleton.1 hn] at hevent
      cases hevent
  happened n hn := List.mem_append_left _ (h.happened n hn)
  head := by rw [h.head, List.findSome?_append, List.findSome?_singleton, hevent, Option.or_none]

theorem append_known (h : Noted events missed) (hm : m.message ∈ missed.map message) :
    Noted (events ++ [.missing m]) missed where
  distinct := h.distinct
  covers n hn := by
    rcases List.mem_append.1 hn with hn | hn
    · exact h.covers n hn
    · rw [Event.missing.inj (List.mem_singleton.1 hn)]
      exact hm
  happened n hn := List.mem_append_left _ (h.happened n hn)
  head := by
    obtain ⟨first, hfirst⟩ : ∃ first, missed.head? = some first := by
      cases missed with
      | nil => cases hm
      | cons first rest => exact ⟨first, rfl⟩
    rw [List.findSome?_append, ← h.head, hfirst]
    rfl

theorem append_new (h : Noted events missed) (hm : m.message ∉ missed.map message) :
    Noted (events ++ [.missing m]) (missed ++ [m]) where
  distinct := by
    rw [List.map_append, List.map_singleton, List.nodup_append]
    refine ⟨h.distinct, List.nodup_singleton _, fun d hd e he hde => hm ?_⟩
    rw [← List.mem_singleton.1 he, ← hde]
    exact hd
  covers n hn := by
    rw [List.map_append]
    rcases List.mem_append.1 hn with hn | hn
    · exact List.mem_append_left _ (h.covers n hn)
    · rw [Event.missing.inj (List.mem_singleton.1 hn)]
      exact List.mem_append_right _ List.mem_cons_self
  happened n hn := by
    rcases List.mem_append.1 hn with hn | hn
    · exact List.mem_append_left _ (h.happened n hn)
    · rw [List.mem_singleton.1 hn]
      exact List.mem_append_right _ List.mem_cons_self
  head := by
    rw [List.head?_append, List.findSome?_append, h.head]
    rfl

theorem eq_nil (h : Noted events missed) (hnone : events.findSome? Event.missing? = none) :
    missed = [] :=
  List.head?_eq_none_iff.1 (h.head.trans hnone)

end Noted

namespace Session

theorem exists_noted (events : List Event) : ∃ missed, Noted events missed ∧
    (events.foldl observe fresh).diagnostics = missed.map message := by
  induction events using List.reverseRecOn with
  | nil => exact ⟨[], .nil, rfl⟩
  | append_singleton events event ih =>
    obtain ⟨missed, hnoted, hsession⟩ := ih
    rw [List.foldl_append, List.foldl_cons, List.foldl_nil]
    cases event with
    | missing m =>
      rw [observe, record, hsession]
      split
      · rename_i hmem
        exact ⟨missed, hnoted.append_known hmem, hsession⟩
      · rename_i hmem
        exact ⟨missed ++ [m], hnoted.append_new hmem, by rw [List.map_append]; rfl⟩
    | _ => exact ⟨missed, hnoted.append_other rfl, hsession⟩

end Session

/-- After a build the session holds what was noted and then the message of the fault, if there is
one. -/
theorem Builder.exists_noted (run : Run Text) : ∃ missed, Noted run.events missed ∧
    (sessionOf run).diagnostics =
      match run.outcome with
      | .ok _ => missed.map message
      | .error fault => missed.map message ++ [fault.message] := by
  obtain ⟨missed, hnoted, hsession⟩ := Session.exists_noted run.events
  refine ⟨missed, hnoted, ?_⟩
  unfold sessionOf Session.after
  dsimp only
  cases hrun : run.outcome with
  | ok document => exact hsession
  | error fault =>
    have hnew (h : ∀ m, fault ≠ .problem (.missingInclude m)) :
        fault.message ∉ missed.map message := by
      intro hmem
      obtain ⟨m, -, hm⟩ := List.mem_map.1 hmem
      obtain ⟨n, hn⟩ := Fault.isMissingNote_iff.1 ⟨m, hm⟩
      exact h n hn
    cases fault with
    | problem p => exact congrArg (· ++ [p.message]) hsession
    | _ =>
      dsimp only
      rw [Session.record, hsession, if_neg (hnew nofun)]

end Transclude

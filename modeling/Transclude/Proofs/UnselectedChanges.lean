import Transclude.Proofs.ArmSelection
import Transclude.Proofs.Rewordings

/-! Rewordings where the conditional regions of a text leave nothing. What has no part in the
structure of the regions has no part in what they leave either. -/

namespace Transclude

variable {file : Text}

namespace Block

/-- Whether tokens are accepted depends on the markers among them, and of the open regions on their
conditions. -/
theorem exists_parseFrom_iff_markers (ts : List Token) {regions regions' : List OpenRegion}
    (hguards : regions.map OpenRegion.guard? = regions'.map OpenRegion.guard?)
    (block block' : Block) :
    (∃ b, parseFrom file regions block ts = .ok (b, none)) ↔
      ∃ b, parseFrom file regions' block' (ts.filter Token.isMarker) = .ok (b, none) := by
  induction ts generalizing regions regions' block block' with
  | nil =>
    cases regions with
    | nil =>
      obtain rfl := List.map_eq_nil_iff.1 hguards.symm
      exact iff_of_true ⟨block, rfl⟩ ⟨block', rfl⟩
    | cons current outer =>
      obtain ⟨current', outer', rfl, -, -⟩ := List.map_eq_cons_iff.1 hguards.symm
      exact iff_of_false nofun nofun
  | cons t rest ih =>
    by_cases ht : t.isMarker
    · rw [List.filter_cons_of_pos ht]
      cases t with
      | plain s => cases ht
      | found d =>
        cases d with
        | ifHolds gap argument =>
          rw [parseFrom, parseFrom]
          cases Condition.parse file argument with
          | error p => exact iff_of_false nofun nofun
          | ok guard =>
            refine ih ?_ _ _
            rw [List.map_cons, List.map_cons, hguards]
        | endIf =>
          cases regions with
          | nil =>
            obtain rfl := List.map_eq_nil_iff.1 hguards.symm
            exact iff_of_false nofun nofun
          | cons current outer =>
            obtain ⟨current', outer', rfl, -, houter⟩ := List.map_eq_cons_iff.1 hguards.symm
            exact ih houter.symm _ _
        | otherwise =>
          cases regions with
          | nil =>
            obtain rfl := List.map_eq_nil_iff.1 hguards.symm
            exact iff_of_false nofun nofun
          | cons current outer =>
            obtain ⟨current', outer', rfl, hguard, houter⟩ := List.map_eq_cons_iff.1 hguards.symm
            -- Whether an arm may follow depends on the open guard alone, which both share.
            rw [parseFrom, parseFrom, hguard]
            split
            · exact iff_of_false nofun nofun
            · refine ih ?_ _ _
              rw [List.map_cons, List.map_cons, houter]
              rfl
        | elseIf gap argument =>
          cases regions with
          | nil =>
            obtain rfl := List.map_eq_nil_iff.1 hguards.symm
            exact iff_of_false nofun nofun
          | cons current outer =>
            obtain ⟨current', outer', rfl, hguard, houter⟩ := List.map_eq_cons_iff.1 hguards.symm
            rw [parseFrom, parseFrom, hguard]
            split
            · exact iff_of_false nofun nofun
            cases Condition.parse file argument with
            | error p => exact iff_of_false nofun nofun
            | ok guard =>
              refine ih ?_ _ _
              rw [List.map_cons, List.map_cons, houter]
              rfl
        | _ => cases ht
    · have hplain : t.isMarker = false := by simpa using ht
      rw [List.filter_cons_of_neg ht, parseFrom_of_not_isMarker hplain]
      exact ih hguards _ _

end Block

theorem Token.filter_isMarker_ofText (s : Text) : (ofText s).filter isMarker = [] := by
  unfold ofText
  split <;> rfl

namespace Mode

theorem select_ofText {scope : Scope} {modes : List Mode} (h : live modes = false) (x : Text)
    (behind : List Token) : select scope file modes (Token.ofText x ++ behind) =
      select scope file modes behind := by
  unfold Token.ofText
  split
  · rfl
  · exact select_of_dropped rfl h

end Mode

theorem resolveConditionals_eq_ok_iff {scope : Scope} {s resolved : Text} :
    (resolveConditionals scope file s).outcome = .ok resolved ↔
      (∃ block, Block.parse file (Token.tokenize s) = .ok (block, none)) ∧
        Mode.select scope file [] (Token.tokenize s) = .ok resolved := by
  have hrendered {block : Block} (h : Block.parse file (Token.tokenize s) = .ok (block, none)) :
      (block.render scope file).outcome = Mode.select scope file [] (Token.tokenize s) :=
    (Block.parse_eq_ok_none_iff.1 h).outcome_render scope
  by_cases h : ∃ block, Block.parse file (Token.tokenize s) = .ok (block, none)
  · obtain ⟨block, hblock⟩ := h
    have hall : Block.parseAll file (Token.tokenize s) = .ok block := by
      rw [Block.parseAll, hblock]
    rw [resolveConditionals, hall, ← hrendered hblock]
    exact ⟨fun hs => ⟨⟨block, hblock⟩, hs⟩, fun hs => hs.2⟩
  · obtain ⟨p, hp⟩ := resolveConditionals_of_not_accepted h scope
    rw [hp]
    exact iff_of_false (by rintro ⟨⟩) fun hs => h hs.1

namespace Rewording

/-- Whether the words stand where the conditional regions of the text leave nothing. -/
def IsUnselected (r : Rewording) (scope : Scope) (file : Text) : Prop :=
  ∃ modes, Mode.behindTokens scope file [] r.front = .ok modes ∧ Mode.live modes = false

variable {r : Rewording} {scope : Scope}

theorem IsUnselected.resolved (h : r.IsUnselected scope file) {resolved : Text}
    (hs : (resolveConditionals scope file r.source).outcome = .ok resolved) :
    (resolveConditionals scope file r.target).outcome = .ok resolved := by
  obtain ⟨modes, hmodes, hdead⟩ := h
  obtain ⟨haccepted, hselected⟩ := resolveConditionals_eq_ok_iff.1 hs
  have hmarkers : (Token.tokenize r.target).filter Token.isMarker =
      (Token.tokenize r.source).filter Token.isMarker := by
    rw [r.tokenize_source, r.tokenize_target]
    simp only [List.filter_append, Token.filter_isMarker_ofText]
  have hsame : Mode.select scope file [] (Token.tokenize r.target) =
      Mode.select scope file [] (Token.tokenize r.source) := by
    rw [r.tokenize_source, r.tokenize_target]
    refine Mode.select_append_congr hmodes ?_
    rw [Mode.select_ofText hdead, Mode.select_ofText hdead]
  refine resolveConditionals_eq_ok_iff.2 ⟨?_, hsame.trans hselected⟩
  have hnone : ([] : List OpenRegion).map OpenRegion.guard? = [].map OpenRegion.guard? := rfl
  refine (Block.exists_parseFrom_iff_markers (Token.tokenize r.target) hnone .empty .empty).2 ?_
  rw [hmarkers]
  exact (Block.exists_parseFrom_iff_markers (Token.tokenize r.source) hnone .empty .empty).1
    haccepted

theorem includeArguments_eq (r : Rewording) :
    includeArguments (Token.tokenize r.target) = includeArguments (Token.tokenize r.source) := by
  have hnone (s : Text) : includeArguments (Token.ofText s) = [] := by
    unfold Token.ofText
    split <;> rfl
  rw [r.tokenize_source, r.tokenize_target]
  simp only [includeArguments, List.filterMap_append] at hnone ⊢
  rw [hnone, hnone]

end Rewording

end Transclude

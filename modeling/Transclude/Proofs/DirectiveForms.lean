import Transclude.Proofs.DirectiveReads

/-! The forms in which directives are written. What is read is as short as its closing mark allows,
and something is read wherever a directive is written. -/

namespace Transclude

namespace Text

theorem length_le_of_cut? {mark s before rest front back : Text}
    (h : cut? mark s = some (before, rest)) (hs : s = front ++ mark ++ back) :
    before.length ≤ front.length := by
  induction s generalizing before front with
  | nil =>
    have hwhole := congrArg List.length (append_of_cut? h)
    simp only [List.length_append, List.length_nil] at hwhole
    omega
  | cons c s ih =>
    unfold cut? at h
    split at h
    · obtain ⟨rfl, -⟩ := Prod.mk.inj (Option.some.inj h)
      exact Nat.zero_le _
    · rename_i hnone
      obtain ⟨⟨b, r⟩, hcut, heq⟩ := Option.map_eq_some_iff.1 h
      obtain ⟨rfl, rfl⟩ := Prod.mk.inj heq
      cases front with
      | nil =>
        rw [hs, List.nil_append, after?_append] at hnone
        cases hnone
      | cons a front =>
        have hrest : s = front ++ mark ++ back := (List.cons.inj hs).2
        exact Nat.succ_le_succ (ih hcut hrest)

end Text

namespace Directive

def gap? : Directive → Option Text
  | .ifHolds gap _ | .elseIf gap _ => some gap
  | _ => none

def IsSpaced (d : Directive) : Prop := ∀ gap ∈ d.gap?, gap ≠ [] ∧ gap.allBlank

/-- Whether a directive ends with the first closing mark behind its opener, and its gap takes all of
the blanks in front of the argument. -/
structure IsTight (d : Directive) : Prop where
  spaced : d.IsSpaced
  written : d.source = d.opener ++ d.argument?.getD [] ++ d.closer
  first : ∀ front back, d.argument?.getD [] ++ d.closer = front ++ d.closer ++ back → back = []
  whole : d.gap? ≠ none → ∀ c ∈ (d.argument?.getD []).head?, Text.isBlank c = false

variable {s rest : Text} {d : Directive}

theorem first_of_cut? {mark before front back : Text} (h : Text.cut? mark s = some (before, rest))
    (heq : before ++ mark = front ++ mark ++ back) : back = [] := by
  have hself : Text.cut? mark (before ++ mark ++ []) = some (before, []) := Text.cut?_before h []
  rw [List.append_nil] at hself
  have hle : before.length ≤ front.length := Text.length_le_of_cut? hself heq
  have hlength := congrArg List.length heq
  simp only [List.length_append] at hlength
  exact List.length_eq_zero_iff.1 (by omega)

theorem isTight_of_readEnclosed? {make : Text → Directive} (hgap : ∀ a, (make a).gap? = none)
    (hargument : ∀ a, (make a).argument? = some a)
    (hcloser : ∀ a, (make a).closer = (make []).closer)
    (h : readEnclosed? make s = some (d, rest)) : d.IsTight := by
  obtain ⟨_, argument, -, hcut, rfl⟩ := readEnclosed?_eq_some_iff.1 h
  refine ⟨?_, rfl, ?_, ?_⟩
  · rw [IsSpaced, hgap]
    nofun
  · rw [hargument, hcloser]
    exact fun front back => first_of_cut? hcut
  · rw [hgap]
    exact fun hne => absurd rfl hne

theorem isTight_of_readSpaced? {make : Text → Text → Directive}
    (hmake : ∀ g a, (make g a).gap? = some g) (hargument : ∀ g a, (make g a).argument? = some a)
    (hcloser : ∀ g a, (make g a).closer = (make [] []).closer)
    (h : readSpaced? make s = some (d, rest)) : d.IsTight := by
  obtain ⟨gap, body, argument, -, hgap, hspan, hcut, rfl⟩ := readSpaced?_eq_some_iff.1 h
  obtain ⟨-, hblank, hhead⟩ := Text.spanBlanks_eq_iff.1 hspan
  refine ⟨?_, rfl, ?_, fun _ => ?_⟩
  · rw [IsSpaced, hmake]
    intro g hg
    obtain rfl := Option.some.inj hg
    exact ⟨hgap, hblank⟩
  · rw [hargument, hcloser]
    exact fun front back => first_of_cut? hcut
  · rw [hargument]
    rw [← Text.append_of_cut? hcut] at hhead
    cases argument with
    | nil => nofun
    | cons c argument => exact hhead

theorem isTight_of_readFixed? {e : Directive} (hgap : e.gap? = none) (hargument : e.argument? = none)
    (hcloser : e.closer = []) (h : readFixed? e s = some (d, rest)) : d.IsTight := by
  obtain ⟨-, rfl⟩ := readFixed?_eq_some_iff.1 h
  refine ⟨?_, rfl, ?_, ?_⟩
  · rw [IsSpaced, hgap]
    nofun
  · rw [hargument, hcloser]
    intro front back heq
    exact (List.append_eq_nil_iff.1 heq.symm).2
  · rw [hgap]
    exact fun hne => absurd rfl hne

theorem isTight_of_read? (h : read? s = some (d, rest)) : d.IsTight := by
  have hlike := readLike?_of_read? h
  cases d with
  | includeFile a =>
    exact isTight_of_readEnclosed? (fun _ => rfl) (fun _ => rfl) (fun _ => rfl) hlike
  | valueOf a =>
    exact isTight_of_readEnclosed? (fun _ => rfl) (fun _ => rfl) (fun _ => rfl) hlike
  | ifHolds g a =>
    exact isTight_of_readSpaced? (fun _ _ => rfl) (fun _ _ => rfl) (fun _ _ => rfl) hlike
  | elseIf g a =>
    exact isTight_of_readSpaced? (fun _ _ => rfl) (fun _ _ => rfl) (fun _ _ => rfl) hlike
  | otherwise => exact isTight_of_readFixed? rfl rfl rfl hlike
  | endIf => exact isTight_of_readFixed? rfl rfl rfl hlike
  | listTable a =>
    exact isTight_of_readEnclosed? (fun _ => rfl) (fun _ => rfl) (fun _ => rfl) hlike

theorem isSome_readEnclosed?_append (make : Text → Directive) (argument rest : Text) :
    (readEnclosed? make ((make []).opener ++ (argument ++ (make []).closer ++ rest))).isSome := by
  have hclosed : (argument ++ (make []).closer ++ rest).contains (make []).closer :=
    Text.contains_iff.2 ⟨argument, rest, rfl⟩
  obtain ⟨⟨a, r⟩, hcut⟩ := Option.isSome_iff_exists.1 hclosed
  rw [readEnclosed?_eq_some_iff.2 ⟨_, a, rfl, hcut, rfl⟩]
  rfl

theorem isSome_readSpaced?_append (make : Text → Text → Directive)
    (hc : ∃ c mark, (make [] []).closer = c :: mark ∧ Text.isBlank c = false) {gap : Text}
    (hgap : gap ≠ []) (hblank : gap.allBlank) (argument rest : Text) :
    (readSpaced? make ((make [] []).opener ++
      (gap ++ (argument ++ (make [] []).closer ++ rest)))).isSome := by
  obtain ⟨c, mark, hcloser, hc⟩ := hc
  -- The gap that is read may hold blanks of the argument, but never the closing mark.
  obtain ⟨more, body, hargument, hmore, hbody⟩ : ∃ more body,
      argument ++ (make [] []).closer ++ rest = more ++ (body ++ (make [] []).closer ++ rest) ∧
        more.allBlank ∧ ∀ e ∈ (body ++ (make [] []).closer ++ rest).head?, Text.isBlank e = false := by
    refine ⟨argument.takeWhile Text.isBlank, argument.dropWhile Text.isBlank, ?_, ?_, ?_⟩
    · rw [← List.append_assoc, ← List.append_assoc, List.takeWhile_append_dropWhile]
    · exact List.all_eq_true.2 fun e he => List.mem_takeWhile_imp he
    · intro e he
      cases hdrop : argument.dropWhile Text.isBlank with
      | nil =>
        rw [hdrop, hcloser] at he
        obtain rfl := Option.some.inj he
        exact hc
      | cons b body =>
        rw [hdrop] at he
        obtain rfl := Option.some.inj he
        have hstop := List.head?_dropWhile_not Text.isBlank argument
        rw [hdrop] at hstop
        simpa using hstop
  have hclosed : (body ++ (make [] []).closer ++ rest).contains (make [] []).closer :=
    Text.contains_iff.2 ⟨body, rest, rfl⟩
  obtain ⟨⟨a, r⟩, hcut⟩ := Option.isSome_iff_exists.1 hclosed
  have hwhole : (gap ++ more).allBlank := by
    rw [Text.allBlank, List.all_append, ← Text.allBlank, ← Text.allBlank, hblank, hmore]
    rfl
  have hread := readSpaced?_eq_some_iff.2 ⟨gap ++ more, _, a, rfl,
    List.append_ne_nil_of_left_ne_nil hgap more, Text.spanBlanks_eq_iff.2 ⟨rfl, hwhole, hbody⟩,
    hcut, rfl⟩
  rw [hargument, ← List.append_assoc gap, hread]
  rfl

theorem isSome_read?_of_readLike? {e : Directive} (h : (readLike? e s).isSome) :
    (read? s).isSome := by
  obtain ⟨⟨d, r⟩, hread⟩ := Option.isSome_iff_exists.1 h
  rw [read?_of_readLike? hread]
  rfl

theorem isSome_read?_of_isSpaced (hd : d.IsSpaced) (rest : Text) :
    (read? (d.source ++ rest)).isSome := by
  refine isSome_read?_of_readLike? (e := d) ?_
  have hsource : d.source ++ rest = d.opener ++ (d.argument?.getD [] ++ d.closer ++ rest) := by
    rw [source, List.append_assoc, List.append_assoc, List.append_assoc]
  rw [hsource]
  cases d with
  | includeFile a => exact isSome_readEnclosed?_append .includeFile a rest
  | valueOf a => exact isSome_readEnclosed?_append .valueOf a rest
  | listTable a => exact isSome_readEnclosed?_append .listTable a rest
  | ifHolds g a =>
    obtain ⟨hgap, hblank⟩ := hd g rfl
    rw [opener, List.append_assoc]
    exact isSome_readSpaced?_append .ifHolds ⟨'!', ['\x7d'], rfl, by decide⟩ hgap hblank a rest
  | elseIf g a =>
    obtain ⟨hgap, hblank⟩ := hd g rfl
    rw [opener, List.append_assoc]
    exact isSome_readSpaced?_append .elseIf ⟨'!', ['\x7d'], rfl, by decide⟩ hgap hblank a rest
  | otherwise => rw [readLike?, readFixed?, Text.after?_append]; rfl
  | endIf => rw [readLike?, readFixed?, Text.after?_append]; rfl

end Directive

end Transclude

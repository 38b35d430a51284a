import Mathlib.Data.List.TakeWhile
import Transclude.Proofs.BodyPasses

/-! The grammar of conditional regions, and the blocks that are its derivations. A list of tokens has
a derivation exactly if it is balanced and each of its conditions names a variable. -/

namespace Transclude

namespace Text

theorem cut?_trim {c : Char} (hc : isBlank c = false) (s : Text) :
    cut? [c] s.trim = (cut? [c] s).map fun (before, rest) => (before.trimLeft, rest.trimRight) := by
  cases hcut : cut? [c] s with
  | some halves =>
    obtain ⟨before, rest⟩ := halves
    obtain ⟨rfl, hmem⟩ := cut?_singleton_iff.1 hcut
    have hleft : trimLeft (before ++ c :: rest) = trimLeft before ++ c :: rest := by
      rw [trimLeft_append]
      split
      · rename_i hblank
        rw [trimLeft_eq_nil_iff.2 hblank]
        exact List.dropWhile_cons_of_neg (by simp [hc])
      · rfl
    refine cut?_singleton_iff.2 ⟨?_, fun h => hmem (List.dropWhile_subset _ h)⟩
    rw [trim, hleft, trimRight_append_of_last hc]
  | none =>
    cases htrim : cut? [c] s.trim with
    | none => rfl
    | some halves =>
      obtain ⟨before, rest⟩ := halves
      have hmem : c ∈ s := by
        have hin : c ∈ s.trim := by
          rw [(cut?_singleton_iff.1 htrim).1]
          exact List.mem_append_right before List.mem_cons_self
        exact List.dropWhile_subset _ (( trimRight_prefix _).subset hin)
      obtain ⟨b, r, hs, hb⟩ := List.eq_append_cons_of_mem hmem
      rw [cut?_singleton_iff.2 ⟨hs, hb⟩] at hcut
      cases hcut

end Text

/-- Whether an argument has text other than blanks in front of its first equals sign. -/
def NamesVariable (argument : Text) : Prop :=
  ∃ name value, argument = name ++ '=' :: value ∧ '=' ∉ name ∧ name.allBlank = false

theorem Condition.exists_parse_iff {file argument : Text} :
    (∃ c, Condition.parse file argument = .ok c) ↔ NamesVariable argument := by
  have hblank (name : Text) : name.trimLeft.allBlank = name.allBlank := by
    have hfront : Text.allBlank (name.takeWhile Text.isBlank) :=
      List.all_eq_true.2 fun c hc => List.mem_takeWhile_imp hc
    have hsplit : Text.allBlank (name.takeWhile Text.isBlank ++ name.trimLeft) =
        name.trimLeft.allBlank := by
      rw [Text.allBlank, List.all_append, ← Text.allBlank, hfront, Bool.true_and, Text.allBlank]
    rw [← hsplit]
    exact congrArg Text.allBlank List.takeWhile_append_dropWhile
  unfold Condition.parse NamesVariable
  rw [Text.cut?_trim (by decide)]
  cases hcut : Text.cut? ['='] argument with
  | none =>
    refine iff_of_false (by rintro ⟨c, ⟨⟩⟩) ?_
    rintro ⟨name, value, rfl, hname, -⟩
    rw [Text.cut?_singleton_iff.2 ⟨rfl, hname⟩] at hcut
    cases hcut
  | some halves =>
    obtain ⟨before, rest⟩ := halves
    obtain ⟨hargument, hbefore⟩ := Text.cut?_singleton_iff.1 hcut
    simp only [Option.map_some, hblank]
    constructor
    · rintro ⟨c, hc⟩
      split at hc
      · cases hc
      · exact ⟨before, rest, hargument, hbefore, by simp_all⟩
    · rintro ⟨name, value, heq, hname, hsome⟩
      rw [heq, Text.cut?_singleton_iff.2 ⟨rfl, hname⟩] at hcut
      obtain ⟨rfl, -⟩ := Prod.mk.inj (Option.some.inj hcut)
      rw [if_neg (by simp [hsome])]
      exact ⟨_, rfl⟩

def Token.isMarker : Token → Bool
  | .plain _ => false
  | .found d => d.isMarker

def Token.IsNamed : Token → Prop
  | .found (.ifHolds _ argument) | .found (.elseIf _ argument) => NamesVariable argument
  | _ => True

mutual

/-- Tokens and regions in any order, each region complete. -/
inductive Balanced : List Token → Prop
  | nil : Balanced []
  | token {t : Token} {ts : List Token} (ht : t.isMarker = false) (hts : Balanced ts) :
      Balanced (t :: ts)
  | region (gap argument : Text) {body arms ts : List Token} (hbody : Balanced body)
      (harms : FurtherArms arms) (hts : Balanced ts) :
      Balanced (.found (.ifHolds gap argument) :: (body ++ arms ++ ts))

/-- The rest of a region behind the body of its first arm. -/
inductive FurtherArms : List Token → Prop
  | endIf : FurtherArms [.found .endIf]
  | otherwise {body : List Token} (hbody : Balanced body) :
      FurtherArms (.found .otherwise :: (body ++ [.found .endIf]))
  | elseIf (gap argument : Text) {body arms : List Token} (hbody : Balanced body)
      (harms : FurtherArms arms) : FurtherArms (.found (.elseIf gap argument) :: (body ++ arms))

end

mutual

/-- Whether a block is the tree of some tokens, with the condition of each marker at its arm. -/
inductive Block.Derives (file : Text) : Block → List Token → Prop
  | empty : Block.Derives file .empty []
  | token {t : Token} {next : Block} {ts : List Token} (ht : t.isMarker = false)
      (hnext : Block.Derives file next ts) : Block.Derives file (.token t next) (t :: ts)
  | region {gap argument : Text} {guard : Condition} {body next : Block} {arms : Arms}
      {us vs ts : List Token} (hguard : Condition.parse file argument = .ok guard)
      (hbody : Block.Derives file body us) (harms : Arms.Follow file arms vs)
      (hnext : Block.Derives file next ts) :
      Block.Derives file (.region (.arm (.ifHolds gap argument) (some guard) body arms) next)
        (.found (.ifHolds gap argument) :: (us ++ vs ++ ts))

/-- Whether some tokens are the rest of a region behind its first arm, and these its arms. -/
inductive Arms.Follow (file : Text) : Arms → List Token → Prop
  | endIf : Arms.Follow file .close [.found .endIf]
  | otherwise {body : Block} {us : List Token} (hbody : Block.Derives file body us) :
      Arms.Follow file (.arm .otherwise none body .close)
        (.found .otherwise :: (us ++ [.found .endIf]))
  | elseIf {gap argument : Text} {guard : Condition} {body : Block} {arms : Arms}
      {us vs : List Token} (hguard : Condition.parse file argument = .ok guard)
      (hbody : Block.Derives file body us) (harms : Arms.Follow file arms vs) :
      Arms.Follow file (.arm (.elseIf gap argument) (some guard) body arms)
        (.found (.elseIf gap argument) :: (us ++ vs))

end

variable {file : Text}

mutual

theorem Block.Derives.tokens_eq {b : Block} {ts : List Token} :
    b.Derives file ts → b.tokens = ts
  | .empty => rfl
  | .token _ hnext => by rw [Block.tokens, hnext.tokens_eq]
  | .region _ hbody harms hnext => by
    rw [Block.tokens, Arms.tokens, hbody.tokens_eq, harms.tokens_eq, hnext.tokens_eq,
      List.cons_append]

theorem Arms.Follow.tokens_eq {arms : Arms} {ts : List Token} :
    arms.Follow file ts → arms.tokens = ts
  | .endIf => rfl
  | .otherwise hbody => by rw [Arms.tokens, hbody.tokens_eq, Arms.tokens]
  | .elseIf _ hbody harms => by rw [Arms.tokens, hbody.tokens_eq, harms.tokens_eq]

end

mutual

theorem Block.Derives.balanced {b : Block} {ts : List Token} :
    b.Derives file ts → Balanced ts ∧ ∀ t ∈ ts, t.IsNamed
  | .empty => ⟨.nil, nofun⟩
  | .token (t := t) ht hnext => by
    obtain ⟨hbalanced, hnamed⟩ := hnext.balanced
    refine ⟨.token ht hbalanced, List.forall_mem_cons.2 ⟨?_, hnamed⟩⟩
    cases t with
    | plain s => trivial
    | found d => cases d <;> trivial
  | @Block.Derives.region _ gap argument _ _ _ _ _ _ _ hguard hbody harms hnext => by
    obtain ⟨hus, hbodyNamed⟩ := hbody.balanced
    obtain ⟨hvs, harmsNamed⟩ := harms.furtherArms
    obtain ⟨hts, hnextNamed⟩ := hnext.balanced
    have hname : NamesVariable argument := Condition.exists_parse_iff.1 ⟨_, hguard⟩
    refine ⟨.region gap argument hus hvs hts, List.forall_mem_cons.2 ⟨hname, ?_⟩⟩
    exact List.forall_mem_append.2 ⟨List.forall_mem_append.2 ⟨hbodyNamed, harmsNamed⟩, hnextNamed⟩

theorem Arms.Follow.furtherArms {arms : Arms} {ts : List Token} :
    arms.Follow file ts → FurtherArms ts ∧ ∀ t ∈ ts, t.IsNamed
  | .endIf => ⟨.endIf, List.forall_mem_singleton.2 trivial⟩
  | .otherwise hbody => by
    obtain ⟨hus, hnamed⟩ := hbody.balanced
    refine ⟨.otherwise hus, List.forall_mem_cons.2 ⟨trivial, ?_⟩⟩
    exact List.forall_mem_append.2 ⟨hnamed, List.forall_mem_singleton.2 trivial⟩
  | @Arms.Follow.elseIf _ gap argument _ _ _ _ _ hguard hbody harms => by
    obtain ⟨hus, hbodyNamed⟩ := hbody.balanced
    obtain ⟨hvs, harmsNamed⟩ := harms.furtherArms
    have hname : NamesVariable argument := Condition.exists_parse_iff.1 ⟨_, hguard⟩
    refine ⟨.elseIf gap argument hus hvs, List.forall_mem_cons.2 ⟨hname, ?_⟩⟩
    exact List.forall_mem_append.2 ⟨hbodyNamed, harmsNamed⟩

end

mutual

theorem Balanced.exists_derives {ts : List Token} :
    Balanced ts → (∀ t ∈ ts, t.IsNamed) → ∃ b, Block.Derives file b ts
  | .nil, _ => ⟨_, .empty⟩
  | .token ht hts, hnamed => by
    obtain ⟨b, hb⟩ := hts.exists_derives (List.forall_mem_cons.1 hnamed).2
    exact ⟨_, .token ht hb⟩
  | .region gap argument hbody harms hts, hnamed => by
    obtain ⟨hname, hrest⟩ := List.forall_mem_cons.1 hnamed
    obtain ⟨hfront, hback⟩ := List.forall_mem_append.1 hrest
    obtain ⟨hinner, hfurther⟩ := List.forall_mem_append.1 hfront
    obtain ⟨guard, hguard⟩ := (@Condition.exists_parse_iff file argument).2 hname
    obtain ⟨body, hb⟩ := hbody.exists_derives hinner
    obtain ⟨arms, ha⟩ := harms.exists_follow hfurther
    obtain ⟨next, hn⟩ := hts.exists_derives hback
    exact ⟨_, .region hguard hb ha hn⟩

theorem FurtherArms.exists_follow {ts : List Token} :
    FurtherArms ts → (∀ t ∈ ts, t.IsNamed) → ∃ arms, Arms.Follow file arms ts
  | .endIf, _ => ⟨_, .endIf⟩
  | .otherwise hbody, hnamed => by
    have hinner := (List.forall_mem_append.1 (List.forall_mem_cons.1 hnamed).2).1
    obtain ⟨body, hb⟩ := hbody.exists_derives hinner
    exact ⟨_, .otherwise hb⟩
  | .elseIf gap argument hbody harms, hnamed => by
    obtain ⟨hname, hrest⟩ := List.forall_mem_cons.1 hnamed
    obtain ⟨hinner, hfurther⟩ := List.forall_mem_append.1 hrest
    obtain ⟨guard, hguard⟩ := (@Condition.exists_parse_iff file argument).2 hname
    obtain ⟨body, hb⟩ := hbody.exists_derives hinner
    obtain ⟨arms, ha⟩ := harms.exists_follow hfurther
    exact ⟨_, .elseIf hguard hb ha⟩

end

end Transclude

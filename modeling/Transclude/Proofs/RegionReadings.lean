import Transclude.Proofs.RegionGrammar

/-! What a reading of conditional regions accepts. The derivations of the grammar are read as they
stand, and every reading that reaches the end of the tokens has read one. -/

namespace Transclude

namespace Block

theorem append_append (a b c : Block) : append c (append b a) = append (append c b) a := by
  fun_induction append b a <;> simp_all [append]

theorem append_empty (b : Block) : append b .empty = b := rfl

theorem empty_append (b : Block) : append .empty b = b := by
  fun_induction append .empty b <;> simp_all

end Block

namespace Arms

/-- Puts some arms in the place of the end marker of others. -/
def append (other : Arms) : Arms → Arms
  | .close => other
  | .arm marker guard? body next => .arm marker guard? body (append other next)

theorem append_close (arms : Arms) : append .close arms = arms := by
  fun_induction append .close arms <;> simp_all

theorem append_add (marker : Directive) (guard? : Option Condition) (body : Block)
    (other arms : Arms) :
    append other (arms.add marker guard? body) = append (.arm marker guard? body other) arms := by
  fun_induction add marker guard? body arms <;> simp_all [append]

end Arms

theorem OpenRegion.append_finished_nextArm (r : OpenRegion) (block body : Block)
    (marker : Directive) (guard? : Option Condition) (other : Arms) :
    Arms.append other ((r.nextArm block marker guard?).finished body) =
      Arms.append (.arm marker guard? body other) (r.finished block) :=
  Arms.append_add marker guard? body other (r.finished block)

variable {file : Text}

theorem Block.Derives.append {a b : Block} {us vs : List Token} :
    a.Derives file us → b.Derives file vs → (Block.append b a).Derives file (us ++ vs)
  | .empty, hb => hb
  | .token ht hnext, hb => .token ht (hnext.append hb)
  | @Block.Derives.region _ gap _ _ _ _ _ _ _ _ hguard hbody harms hnext, hb => by
    have h := @Block.Derives.region _ gap _ _ _ _ _ _ _ _ hguard hbody harms (hnext.append hb)
    rwa [← List.append_assoc] at h

theorem Block.parseFrom_of_not_isMarker {t : Token} (ht : t.isMarker = false)
    (regions : List OpenRegion) (block : Block) (rest : List Token) :
    parseFrom file regions block (t :: rest) = parseFrom file regions (block.addToken t) rest := by
  cases t with
  | plain s => cases regions <;> rfl
  | found d =>
    cases d with
    | includeFile a => cases regions <;> rfl
    | valueOf a => cases regions <;> rfl
    | listTable a => cases regions <;> rfl
    | ifHolds g a => cases ht
    | elseIf g a => cases ht
    | otherwise => cases ht
    | endIf => cases ht

mutual

/-- A derivation is read as it stands, whatever regions are open around it. -/
theorem Block.Derives.parseFrom_append {b : Block} {ts : List Token} :
    b.Derives file ts → ∀ regions block rest, Block.parseFrom file regions block (ts ++ rest) =
      Block.parseFrom file regions (Block.append b block) rest
  | .empty, regions, block, rest => by rw [List.nil_append, Block.empty_append]
  | .token ht hnext, regions, block, rest => by
    rw [List.cons_append, Block.parseFrom_of_not_isMarker ht, hnext.parseFrom_append,
      Block.addToken, Block.append_append]
    rfl
  | .region hguard hbody harms hnext, regions, block, rest => by
    rw [List.cons_append, List.append_assoc, List.append_assoc, Block.parseFrom]
    simp only [hguard]
    rw [hbody.parseFrom_append, harms.parseFrom_append _ _ _ _ (by simp), hnext.parseFrom_append,
      Block.append_empty, Block.addRegion, Block.append_append]
    rfl

theorem Arms.Follow.parseFrom_append {arms : Arms} {ts : List Token} :
    arms.Follow file ts → ∀ (current : OpenRegion) (outer : List OpenRegion) (block : Block)
      (rest : List Token), current.guard? ≠ none →
      Block.parseFrom file (current :: outer) block (ts ++ rest) = Block.parseFrom file outer
        (current.before.addRegion (Arms.append arms (current.finished block))) rest
  | .endIf, current, outer, block, rest, _ => by
    rw [Arms.append_close]
    rfl
  | .otherwise hbody, current, outer, block, rest, hcurrent => by
    rw [List.cons_append, List.append_assoc, Block.parseFrom, if_neg hcurrent,
      hbody.parseFrom_append, Block.append_empty, ← OpenRegion.append_finished_nextArm,
      Arms.append_close]
    rfl
  | .elseIf hguard hbody harms, current, outer, block, rest, hcurrent => by
    rw [List.cons_append, List.append_assoc, Block.parseFrom, if_neg hcurrent]
    simp only [hguard]
    rw [hbody.parseFrom_append, harms.parseFrom_append _ _ _ _ (by simp [OpenRegion.nextArm]),
      Block.append_empty, OpenRegion.append_finished_nextArm]
    rfl

end

/-- Whether some tokens complete a reading with these open regions: the body of the innermost arm,
the further arms of its region, and so on outwards. -/
def Completes (file : Text) : List OpenRegion → Block → List Token → Block → Prop
  | [], block, ts, result => ∃ b : Block, b.Derives file ts ∧ result = Block.append b block
  | current :: outer, block, ts, result =>
    ∃ (b : Block) (arms : Arms) (us vs ws : List Token), ts = us ++ (vs ++ ws) ∧
      b.Derives file us ∧ arms.Follow file vs ∧ (current.guard? = none → arms = .close) ∧
      Completes file outer (current.before.addRegion
        (Arms.append arms (current.finished (Block.append b block)))) ws result

namespace Completes

variable {regions outer : List OpenRegion} {current : OpenRegion} {block result : Block}
  {rest : List Token}

theorem prepend {front : Block} {us : List Token} (hfront : front.Derives file us)
    (h : Completes file regions (Block.append front block) rest result) :
    Completes file regions block (us ++ rest) result := by
  cases regions with
  | nil =>
    obtain ⟨b, hb, rfl⟩ := h
    exact ⟨_, hfront.append hb, Block.append_append block front b⟩
  | cons current outer =>
    obtain ⟨b, arms, vs, ws, ts, rfl, hb, harms, hlast, houter⟩ := h
    rw [Block.append_append] at houter
    exact ⟨_, arms, us ++ vs, ws, ts, (List.append_assoc ..).symm, hfront.append hb, harms, hlast,
      houter⟩

theorem token {t : Token} (ht : t.isMarker = false)
    (h : Completes file regions (block.addToken t) rest result) :
    Completes file regions block (t :: rest) result :=
  prepend (.token ht .empty) h

theorem ifHolds {gap argument : Text} {guard : Condition}
    (hguard : Condition.parse file argument = .ok guard)
    (h : Completes file (⟨block, .close, .ifHolds gap argument, some guard⟩ :: regions) .empty rest
      result) : Completes file regions block (.found (.ifHolds gap argument) :: rest) result := by
  obtain ⟨body, arms, us, vs, ws, rfl, hbody, harms, -, houter⟩ := h
  have hregion := @Block.Derives.region _ gap _ _ _ _ _ _ _ _ hguard hbody harms .empty
  rw [List.append_nil] at hregion
  have h := prepend hregion houter
  rwa [List.cons_append, List.append_assoc] at h

theorem endIf (h : Completes file outer (current.before.addRegion (current.finished block)) rest
    result) : Completes file (current :: outer) block (.found .endIf :: rest) result := by
  refine ⟨.empty, .close, [], [.found .endIf], rest, rfl, .empty, .endIf, fun _ => rfl, ?_⟩
  rwa [Block.empty_append, Arms.append_close]

theorem otherwise (hcurrent : current.guard? ≠ none)
    (h : Completes file (current.nextArm block .otherwise none :: outer) .empty rest result) :
    Completes file (current :: outer) block (.found .otherwise :: rest) result := by
  obtain ⟨body, arms, us, vs, ws, rfl, hbody, harms, hlast, houter⟩ := h
  obtain rfl := hlast rfl
  have hclose : [Chunk.found Directive.endIf] = vs := harms.tokens_eq
  rw [Block.append_empty, OpenRegion.append_finished_nextArm, ← Block.empty_append block] at houter
  refine ⟨.empty, _, [], _, ws, ?_, .empty, .otherwise hbody, fun h => absurd h hcurrent, houter⟩
  rw [← hclose, List.nil_append, List.cons_append, List.cons_append, List.append_assoc]
  rfl

theorem elseIf {gap argument : Text} {guard : Condition}
    (hguard : Condition.parse file argument = .ok guard) (hcurrent : current.guard? ≠ none)
    (h : Completes file (current.nextArm block (.elseIf gap argument) (some guard) :: outer) .empty
      rest result) :
    Completes file (current :: outer) block (.found (.elseIf gap argument) :: rest) result := by
  obtain ⟨body, arms, us, vs, ws, rfl, hbody, harms, -, houter⟩ := h
  rw [Block.append_empty, OpenRegion.append_finished_nextArm, ← Block.empty_append block] at houter
  refine ⟨.empty, _, [], _, ws, ?_, .empty, .elseIf hguard hbody harms,
    fun h => absurd h hcurrent, houter⟩
  rw [List.nil_append, List.cons_append, List.append_assoc]

end Completes

namespace Block

theorem completes_of_parseFrom {regions : List OpenRegion} {block result : Block}
    {tokens : List Token} (h : parseFrom file regions block tokens = .ok (result, none)) :
    Completes file regions block tokens result := by
  fun_induction parseFrom file regions block tokens with
  | case1 block =>
    obtain rfl : block = result := congrArg Prod.fst (Except.ok.inj h)
    exact ⟨.empty, .empty, (empty_append block).symm⟩
  | case3 regions block s rest ih => exact .token rfl (ih h)
  | case5 regions block gap argument rest guard hguard ih => exact .ifHolds hguard (ih h)
  | case7 block rest current outer ih => exact .endIf (ih h)
  | case10 block rest current outer hcurrent ih => exact .otherwise hcurrent (ih h)
  | case14 block gap argument rest current outer hcurrent guard hguard ih =>
    exact .elseIf hguard hcurrent (ih h)
  | case15 regions block d rest hif hend hend' helse helse' helseIf helseIf' ih =>
    have hd : d.isMarker = false := by
      cases d with
      | ifHolds gap argument => exact (hif gap argument rfl).elim
      | elseIf gap argument =>
        cases regions with
        | nil => exact (helseIf gap argument rfl rfl).elim
        | cons current outer => exact (helseIf' current outer gap argument rfl rfl).elim
      | otherwise =>
        cases regions with
        | nil => exact (helse rfl rfl).elim
        | cons current outer => exact (helse' current outer rfl rfl).elim
      | endIf =>
        cases regions with
        | nil => exact (hend rfl rfl).elim
        | cons current outer => exact (hend' current outer rfl rfl).elim
      | _ => rfl
    exact .token hd (ih h)
  | _ => cases h

theorem parse_eq_ok_none_iff {block : Block} {tokens : List Token} :
    parse file tokens = .ok (block, none) ↔ block.Derives file tokens := by
  constructor
  · intro h
    obtain ⟨b, hb, heq⟩ := completes_of_parseFrom h
    rwa [heq, append_empty]
  · intro h
    have hread := h.parseFrom_append [] .empty []
    rwa [List.append_nil, append_empty] at hread

theorem exists_derives_iff {tokens : List Token} :
    (∃ block : Block, block.Derives file tokens) ↔
      Balanced tokens ∧ ∀ t ∈ tokens, t.IsNamed :=
  ⟨fun ⟨_, h⟩ => h.balanced, fun ⟨h, hnamed⟩ => h.exists_derives hnamed⟩

end Block

theorem resolveConditionals_of_not_accepted {s : Text}
    (h : ¬∃ block, Block.parse file (Token.tokenize s) = .ok (block, none)) (scope : Scope) :
    ∃ p, resolveConditionals scope file s = .fail p := by
  have hall : ∃ p, Block.parseAll file (Token.tokenize s) = .error p := by
    unfold Block.parseAll
    split
    · rename_i e _
      exact ⟨e, rfl⟩
    · rename_i block marker rest _
      exact ⟨.strayMarker marker file, rfl⟩
    · rename_i block hparse
      exact absurd ⟨block, hparse⟩ h
  obtain ⟨p, hp⟩ := hall
  refine ⟨p, ?_⟩
  rw [resolveConditionals, hp]
  rfl

/-- The conditional regions of a text are accepted exactly if its tokens derive from the grammar and
every condition names a variable. What is accepted is the derivation, and it is written with all of
the tokens; any other text fails. -/
theorem Block.parse_tokenize_accepts_grammar (file s : Text) :
    ((∃ block, parse file (Token.tokenize s) = .ok (block, none)) ↔
      Balanced (Token.tokenize s) ∧ ∀ t ∈ Token.tokenize s, t.IsNamed) ∧
    ((∃ block, parse file (Token.tokenize s) = .ok (block, none)) ∨
      ∀ scope, ∃ p, resolveConditionals scope file s = .fail p) ∧
    ∀ block, parse file (Token.tokenize s) = .ok (block, none) →
      block.Derives file (Token.tokenize s) ∧ block.tokens = Token.tokenize s := by
  refine ⟨?_, ?_, fun block h => ?_⟩
  · simp only [parse_eq_ok_none_iff]
    exact exists_derives_iff
  · by_cases h : ∃ block, parse file (Token.tokenize s) = .ok (block, none)
    · exact .inl h
    · exact .inr (resolveConditionals_of_not_accepted h)
  · have hderives := parse_eq_ok_none_iff.1 h
    exact ⟨hderives, hderives.tokens_eq⟩

end Transclude

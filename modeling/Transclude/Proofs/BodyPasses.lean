import Transclude.Proofs.RunInversion
import Transclude.Proofs.TokenPasses

/-! The three passes over a body. Where no marker of a conditional region stands the first of them
does nothing, and where no directive starts none of them does. -/

namespace Transclude

namespace Directive

def isMarker : Directive → Bool
  | .ifHolds _ _ | .elseIf _ _ | .otherwise | .endIf => true
  | .includeFile _ | .valueOf _ | .listTable _ => false

def unmarked (d : Directive) : Run Text :=
  if d.isMarker then .fail (.strayMarker d []) else pure d.source

theorem read?_includeFile_append {argument : Text}
    (h : read? (includeFile argument).source = some (.includeFile argument, [])) (rest : Text) :
    read? ((includeFile argument).source ++ rest) = some (.includeFile argument, rest) := by
  have hsource : (includeFile argument).source =
      (includeFile []).opener ++ (argument ++ (includeFile []).closer) := by
    simp [source, opener, closer, argument?]
  have hread (t a r : Text) (hcut : Text.cut? (includeFile []).closer t = some (a, r)) :
      read? ((includeFile []).opener ++ t) = some (.includeFile a, r) := by
    have hfirst : readEnclosed? .includeFile ((includeFile []).opener ++ t) =
        some (.includeFile a, r) := by
      rw [readEnclosed?, Text.after?_append]
      exact congrArg (Option.map _) hcut
    simp only [read?, hfirst]
    rfl
  -- By itself the directive ends at its own closer, and it still does with a text behind it.
  have hends : (argument ++ (includeFile []).closer).contains (includeFile []).closer :=
    Text.contains_iff.2 (List.suffix_append _ _).isInfix
  obtain ⟨⟨a, r⟩, hcut⟩ := Option.isSome_iff_exists.1 hends
  rw [hsource, hread _ a r hcut] at h
  obtain ⟨ha, rfl⟩ := Prod.mk.inj (Option.some.inj h)
  obtain rfl := Directive.includeFile.inj ha
  rw [hsource, List.append_assoc]
  exact hread _ a rest (Text.cut?_append hcut rest)

end Directive

namespace Fence

theorem step_of_brace {line : Text} (h : line.head? = some '\x7b') :
    step none line = (.plain, none) := by
  obtain ⟨rest, rfl⟩ : ∃ rest, line = '\x7b' :: rest := by
    cases line with
    | nil => cases h
    | cons c rest => exact ⟨rest, by rw [Option.some.inj h]⟩
  have hleft : Text.trimLeft ('\x7b' :: rest) = '\x7b' :: rest :=
    List.dropWhile_cons_of_neg (by decide)
  have hright : Text.trimRight ([] ++ '\x7b' :: rest) = '\x7b' :: Text.trimRight rest :=
    Text.trimRight_append_of_last (by decide) rest
  have htrim : Text.trim ('\x7b' :: rest) = '\x7b' :: Text.trimRight rest := by
    rw [Text.trim, hleft]
    exact hright
  have hopen : opening? ('\x7b' :: rest) = none := by
    unfold opening?
    rw [htrim]
    exact if_neg fun hcut => absurd hcut.1 (by decide)
  have hlevel : Heading.level? ('\x7b' :: rest) = none := by
    unfold Heading.level?
    rw [htrim]
    rfl
  unfold step
  rw [hopen, hlevel]

end Fence

namespace Token

def unconditional (tokens : List Token) : Bool :=
  tokens.all fun token =>
    match token with
    | .plain _ => true
    | .found d => !d.isMarker

theorem unconditional_of_pass {tokens : List Token} {s : Text}
    (h : (pass Directive.unmarked tokens).outcome = .ok s) : unconditional tokens := by
  induction tokens generalizing s with
  | nil => rfl
  | cons token rest ih =>
    cases token with
    | plain t =>
      obtain ⟨u, hu, -⟩ := Run.outcome_map_eq_ok_iff.1 h
      exact ih hu
    | found d =>
      obtain ⟨t, ht, hrest⟩ := Run.outcome_bind_eq_ok_iff.1 h
      obtain ⟨u, hu, -⟩ := Run.outcome_map_eq_ok_iff.1 hrest
      have hd : d.isMarker = false := by
        unfold Directive.unmarked at ht
        split at ht
        · cases ht
        · rename_i hmarker
          simpa using hmarker
      have hrest : unconditional rest := ih hu
      simp only [unconditional, List.all_cons, hd, Bool.not_false, Bool.true_and] at hrest ⊢
      exact hrest

end Token

namespace Block

variable {scope : Scope} {file : Text}

theorem parseFrom_of_unconditional {tokens : List Token} (h : Token.unconditional tokens)
    (b : Block) : parseFrom file [] b tokens = .ok (tokens.foldl addToken b, none) := by
  induction tokens generalizing b with
  | nil => rfl
  | cons token rest ih =>
    simp only [Token.unconditional, List.all_cons, Bool.and_eq_true] at h
    cases token with
    | plain s => exact ih h.2 (b.addToken (.plain s))
    | found d =>
      cases d with
      | includeFile a => exact ih h.2 (b.addToken (.found (.includeFile a)))
      | valueOf a => exact ih h.2 (b.addToken (.found (.valueOf a)))
      | listTable a => exact ih h.2 (b.addToken (.found (.listTable a)))
      | ifHolds g a => exact nomatch h.1
      | elseIf g a => exact nomatch h.1
      | otherwise => exact nomatch h.1
      | endIf => exact nomatch h.1

theorem render_append (other b : Block) :
    (append other b).render scope file =
      b.render scope file >>= fun s => (s ++ ·) <$> other.render scope file := by
  fun_induction append other b with
  | case1 => simp [render]
  | case2 t next ih => simp [render, ih]
  | case3 arms next ih => simp [render, ih]

theorem render_foldl_addToken (tokens : List Token) (b : Block) :
    (tokens.foldl addToken b).render scope file =
      (· ++ Token.join tokens) <$> b.render scope file := by
  induction tokens generalizing b with
  | nil => simp
  | cons token rest ih =>
    rw [List.foldl_cons, ih, addToken, render_append]
    simp [render]

end Block

theorem resolveConditionals_of_unconditional {s : Text}
    (h : Token.unconditional (Token.tokenize s)) (scope : Scope) (file : Text) :
    resolveConditionals scope file s = pure s := by
  have hparse : Block.parseAll file (Token.tokenize s) =
      .ok ((Token.tokenize s).foldl Block.addToken .empty) := by
    rw [Block.parseAll, Block.parse, Block.parseFrom_of_unconditional h]
  rw [resolveConditionals, hparse]
  change (pure _ >>= fun block : Block => block.render scope file) = _
  rw [pure_bind, Block.render_foldl_addToken, Token.join_tokenize]
  simp [Block.render]

namespace Expander

variable {x : Expander} {expand : Include → Run Text} {base : Path} {chain : List Path}

theorem expandBody_eq (hx : x.embedImages = false) (body : Text) :
    x.expandBody expand base chain body =
      resolveConditionals x.rootScope (currentFile chain) body >>= fun resolved =>
        Token.pass (includeReplaced expand) (Token.tokenize resolved) >>= fun joined =>
          substitute x.rootScope (currentFile chain) joined := by
  unfold expandBody
  simp only [hx, expandTokens_eq_pass, Bool.false_eq_true, if_false, bind_pure]

theorem expandBody_eq_pure (hx : x.embedImages = false) {body : Text}
    (h : Fence.quiet none body.rows) : x.expandBody expand base chain body = pure body := by
  -- A pass that fails at any marker gets through the text.
  have hunmarked : Token.unconditional (Token.tokenize body) := by
    have hpass := Token.pass_of_quiet Directive.unmarked h
    exact Token.unconditional_of_pass (congrArg Run.outcome hpass)
  have hsame (replace : Directive → Run Text) : Token.pass replace (Token.tokenize body) =
      pure body := Token.pass_of_quiet replace h
  rw [expandBody_eq hx, resolveConditionals_of_unconditional hunmarked, pure_bind, hsame, pure_bind,
    substitute, substituteTokens_eq_pass, hsame]

theorem expandBody_of_quiet (hx : x.embedImages = false) {body : Text}
    (h : Fence.quiet none body.rows) :
    (x.expandBody expand base chain body).outcome = .ok body :=
  congrArg Run.outcome (expandBody_eq_pure hx h)

theorem expandBody_of_line (hx : x.embedImages = false) {before after : List Text}
    {argument s : Text} {i : Include}
    (hread : Directive.read? (Directive.includeFile argument).source =
      some (.includeFile argument, []))
    (hi : Include.parse? argument = some i)
    (hb : Fence.quiet none before) (ho : Fence.openAfter none before = none)
    (ha : Fence.quiet none after)
    (hn : ∀ l ∈ before ++ (Directive.includeFile argument).source :: after, '\n' ∉ l)
    (hs : (expand i).outcome = .ok s)
    (hq : Fence.quiet none (Text.above before ++ s ++ Text.below after).rows) :
    (x.expandBody expand base chain
      (Text.unlines (before ++ (Directive.includeFile argument).source :: after))).outcome =
      .ok (Text.above before ++ s ++ Text.below after) := by
  have hstep : (Fence.step none (Directive.includeFile argument).source).1.inFence = false := by
    rw [Fence.step_of_brace rfl]
    rfl
  have hpass (replace : Directive → Run Text) : Token.pass replace _ = _ :=
    Token.pass_of_line (Directive.read?_includeFile_append hread) hstep hb ho ha hn
  have hunmarked : Token.unconditional (Token.tokenize
      (Text.unlines (before ++ (Directive.includeFile argument).source :: after))) :=
    Token.unconditional_of_pass (congrArg Run.outcome (hpass Directive.unmarked))
  have hexpand : (includeReplaced expand (.includeFile argument)).outcome = .ok s := by
    rw [includeReplaced, Include.read, hi]
    exact hs
  rw [expandBody_eq hx, resolveConditionals_of_unconditional hunmarked, pure_bind, hpass, bind_assoc,
    Run.outcome_bind_of_ok hexpand, pure_bind, substitute, substituteTokens_eq_pass,
    Token.pass_of_quiet _ hq]
  rfl

end Expander
end Transclude

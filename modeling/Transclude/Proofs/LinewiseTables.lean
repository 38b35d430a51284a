import Transclude.Proofs.LinewiseTokens
import Transclude.Proofs.TableCells
import Transclude.Proofs.TokenSpans

/-! Tables are put in line by line. Whatever the lists hold, the text is the one that the tokens of
the whole document ask for exactly if the tokens of its lines name the same tables, or among both the
first table that cannot be read is faulty in the same way. -/

namespace Transclude

namespace Token

open Directive (pattern)

/-- Whether a token can be read from its own text, whatever stands behind it. -/
def IsRead : Token → Prop
  | .plain s => s ≠ []
  | .found d => ∀ rest, Directive.read? (d.source ++ rest) = some (d, rest)

theorem IsRead.source_ne_nil {token : Token} (h : token.IsRead) : token.source ≠ [] := by
  cases token with
  | plain s => exact h
  | found d => exact d.source_ne_nil

theorem isRead_merge {tokens : List Token} (h : ∀ token ∈ tokens, token.IsRead) :
    ∀ token ∈ Chunk.merge tokens, IsRead token := by
  intro token htoken
  cases token with
  | plain s => exact (isChain_merge fun t ht => (h t ht).source_ne_nil).1 _ htoken
  | found d => exact h _ ((Chunk.found_mem_merge tokens).1 htoken)

theorem isRead_scan (s : Text) : ∀ token ∈ pattern.scan s, IsRead token := by
  intro token htoken
  cases token with
  | plain t => exact source_ne_nil_of_mem_scan _ htoken
  | found d =>
    obtain ⟨xs, ys, hscan⟩ := List.append_of_mem htoken
    obtain ⟨-, -, -, hread, -⟩ := Directive.exists_of_scan hscan
    exact hread

theorem isRead_tokenize (s : Text) : ∀ token ∈ tokenize s, token.IsRead := by
  apply isRead_merge
  intro token htoken
  obtain ⟨piece, hpiece, htoken⟩ := List.mem_flatMap.1 htoken
  cases piece with
  | prose t => exact isRead_scan t token htoken
  | code t =>
    obtain rfl := List.mem_singleton.1 htoken
    exact (Piece.proper_cut s).1 _ hpiece

theorem isRead_ofLines (open? : Option Fence) (rows : List Text) :
    ∀ token ∈ ofLines open? rows, token.IsRead := by
  have hline (open? : Option Fence) (row : Text) : ∀ token ∈ ofLine open? row, token.IsRead := by
    unfold ofLine ofText
    split_ifs with hin hnil
    · exact List.forall_mem_nil _
    · exact List.forall_mem_singleton.2 hnil
    · exact isRead_tokenize row
  fun_induction ofLines open? rows with
  | case1 => exact List.forall_mem_nil _
  | case2 open? row => exact hline open? row
  | case3 open? row next rest ih =>
    refine List.forall_mem_append.2 ⟨hline open? row, List.forall_mem_cons.2 ⟨?_, ih⟩⟩
    exact List.cons_ne_nil '\n' []

def hide : Token → Token
  | .found (.listTable argument) => .found (.listTable argument)
  | token => .plain token.source

/-- The tables among some tokens, and the text around them. -/
def tables (tokens : List Token) : List Token := Chunk.merge (tokens.map hide)

@[simp] theorem source_hide (token : Token) : token.hide.source = token.source := by
  fun_cases hide token <;> rfl

theorem join_tables (tokens : List Token) : join (tables tokens) = join tokens := by
  rw [tables, join, Chunk.sources_merge]
  induction tokens with
  | nil => rfl
  | cons token rest ih =>
    rw [List.map_cons, Chunk.sources_cons, ih, join_cons]
    exact congrArg (· ++ join rest) (source_hide token)

end Token

namespace Table

open Token (hide tables tokenize tokenizeLines)

section Tokens

variable (table : Text → Except Problem Text)

def renderToken : Token → Except Problem Text
  | .found (.listTable argument) => table argument
  | token => .ok token.source

theorem renderTokens_cons (token : Token) (rest : List Token) :
    renderTokens table (token :: rest) =
      renderToken table token >>= fun s => (s ++ ·) <$> renderTokens table rest := by
  fun_cases renderToken table token with
  | case1 argument =>
    rw [renderTokens]
    rfl
  | case2 token hother =>
    rw [renderTokens]
    · rfl
    · exact hother

theorem renderTokens_nil : renderTokens table [] = pure [] := rfl

theorem renderTokens_plain (s : Text) (rest : List Token) :
    renderTokens table (.plain s :: rest) = (s ++ ·) <$> renderTokens table rest :=
  renderTokens_cons table (.plain s) rest

theorem renderTokens_eq (tokens : List Token) :
    renderTokens table tokens = Chunk.pass (fun d => renderToken table (.found d)) tokens := by
  induction tokens with
  | nil => rfl
  | cons token rest ih =>
    cases token with
    | plain s => rw [renderTokens_plain, ih, Chunk.pass]
    | found d => rw [renderTokens_cons, ih, Chunk.pass]

theorem renderTokens_append (xs ys : List Token) :
    renderTokens table (xs ++ ys) =
      renderTokens table xs >>= fun s => (s ++ ·) <$> renderTokens table ys := by
  simp only [renderTokens_eq, Chunk.pass_append]

theorem renderTokens_merge (tokens : List Token) :
    renderTokens table (Chunk.merge tokens) = renderTokens table tokens := by
  rw [renderTokens_eq, Chunk.pass_merge, renderTokens_eq]

theorem renderTokens_tables (tokens : List Token) :
    renderTokens table (tables tokens) = renderTokens table tokens := by
  have hhide (token : Token) : renderToken table token.hide = renderToken table token := by
    fun_cases hide token with
    | case1 argument => rfl
    | case2 token hother => exact (renderToken.eq_2 table token hother).symm
  rw [tables, renderTokens_merge]
  induction tokens with
  | nil => rfl
  | cons token rest ih => rw [List.map_cons, renderTokens_cons, hhide, ih, renderTokens_cons]

theorem renderLines_cons (open? : Option Fence) (line : Text) (rest : List Text) :
    renderLines table open? (line :: rest) =
      renderTokens table (Token.ofLine open? line) >>= fun s =>
        (s :: ·) <$> renderLines table (Fence.step open? line).2 rest := by
  rw [renderLines, Token.ofLine, Token.ofText]
  dsimp only
  split_ifs with hin hnil
  · rw [hnil]
    rfl
  · rw [renderTokens_plain, renderTokens_nil, map_pure, List.append_nil]
    rfl
  · rfl

theorem ne_nil_of_renderLines {open? : Option Fence} {line : Text} {rest ls : List Text}
    (h : renderLines table open? (line :: rest) = .ok ls) : ls ≠ [] := by
  rw [renderLines_cons] at h
  cases hline : renderTokens table (Token.ofLine open? line) with
  | error e =>
    rw [hline] at h
    cases h
  | ok s =>
    cases hrest : renderLines table (Fence.step open? line).2 rest with
    | error e =>
      rw [hline, hrest] at h
      cases h
    | ok others =>
      rw [hline, hrest] at h
      cases h
      exact List.cons_ne_nil s others

theorem renderLines_eq (open? : Option Fence) (ls : List Text) :
    (renderLines table open? ls).map Text.unlines =
      renderTokens table (Token.ofLines open? ls) := by
  fun_induction Token.ofLines open? ls with
  | case1 => rfl
  | case2 open? line =>
    rw [renderLines_cons]
    cases renderTokens table (Token.ofLine open? line) with
    | error e => rfl
    | ok s => exact congrArg Except.ok (List.append_nil s)
  | case3 open? line next rest ih =>
    rw [renderTokens_append, renderTokens_plain, ← ih, renderLines_cons]
    cases renderTokens table (Token.ofLine open? line) with
    | error e => rfl
    | ok s =>
      cases hothers : renderLines table (Fence.step open? line).2 (next :: rest) with
      | error e => rfl
      | ok others =>
        obtain ⟨t, ts, rfl⟩ := List.exists_cons_of_ne_nil (ne_nil_of_renderLines table hothers)
        rfl

end Tokens

variable {file standard : Text} {lists : Lists}

theorem renderAll_eq (file standard : Text) (lists : Lists) (s : Text) :
    renderAll file standard lists s =
      renderTokens (render file standard lists) (tokenizeLines s) := by
  rw [renderAll, renderLines_eq, tokenizeLines, renderTokens_merge]

/-- What is wrong with a table, whatever the lists hold. -/
def fault? (file : Text) : Token → Option Problem
  | .found (.listTable argument) =>
    match TableOption.parse file argument with
    | .error e => some e
    | .ok _ => none
  | _ => none

def firstFault? (file : Text) (tokens : List Token) : Option Problem :=
  tokens.findSome? (fault? file)

def shown (file standard : Text) (lists : Lists) (token : Token) : Text :=
  (renderToken (render file standard lists) token).toOption.getD []

theorem exists_parse {argument : Text} (h : fault? file (.found (.listTable argument)) = none) :
    ∃ options, TableOption.parse file argument = .ok options := by
  cases hparse : TableOption.parse file argument with
  | error e =>
    rw [fault?, hparse] at h
    cases h
  | ok options => exact ⟨options, rfl⟩

theorem renderToken_of_fault {token : Token} {e : Problem} (h : fault? file token = some e) :
    renderToken (render file standard lists) token = .error e := by
  fun_cases renderToken (render file standard lists) token with
  | case1 argument =>
    rw [render]
    cases hparse : TableOption.parse file argument with
    | error e' =>
      rw [fault?, hparse] at h
      rw [Option.some.inj h]
    | ok options =>
      rw [fault?, hparse] at h
      cases h
  | case2 token hother =>
    rw [fault?.eq_2 file token hother] at h
    cases h

theorem renderToken_of_no_fault {token : Token} (h : fault? file token = none) :
    renderToken (render file standard lists) token = .ok (shown file standard lists token) := by
  have hsome : ∃ s, renderToken (render file standard lists) token = .ok s := by
    fun_cases renderToken (render file standard lists) token with
    | case1 argument =>
      obtain ⟨options, hparse⟩ := exists_parse h
      rw [render, hparse]
      dsimp only
      split_ifs <;> exact ⟨_, rfl⟩
    | case2 token hother => exact ⟨token.source, rfl⟩
  obtain ⟨s, hs⟩ := hsome
  rw [shown, hs]
  rfl

theorem renderTokens_of_fault {tokens : List Token} {e : Problem}
    (h : firstFault? file tokens = some e) :
    renderTokens (render file standard lists) tokens = .error e := by
  induction tokens with
  | nil => cases h
  | cons token rest ih =>
    rw [firstFault?, List.findSome?_cons] at h
    rw [renderTokens_cons]
    cases hfault : fault? file token with
    | some e' =>
      rw [hfault] at h
      obtain rfl := Option.some.inj h
      rw [renderToken_of_fault hfault]
      rfl
    | none =>
      rw [hfault] at h
      rw [renderToken_of_no_fault hfault, ih h]
      rfl

theorem renderTokens_of_no_fault {tokens : List Token} (h : firstFault? file tokens = none) :
    renderTokens (render file standard lists) tokens =
      .ok (tokens.flatMap (shown file standard lists)) := by
  induction tokens with
  | nil => rfl
  | cons token rest ih =>
    obtain ⟨hfault, hrest⟩ := List.forall_mem_cons.1 (List.findSome?_eq_none_iff.1 h)
    rw [renderTokens_cons, renderToken_of_no_fault hfault, ih (List.findSome?_eq_none_iff.2 hrest)]
    rfl

/-- An item with an attribute, so that its list is shown with a column. -/
def marker : Item := ⟨[("x".text, [])], [], []⟩

theorem exists_bar (standard : Text) {argument : Text}
    (h : fault? file (.found (.listTable argument)) = none) :
    ∃ lists, (shown file standard lists (.found (.listTable argument))).head? = some '|' := by
  obtain ⟨options, hparse⟩ := exists_parse h
  let name := (TableOption.list? options).getD standard
  have hitems : Lists.items [(name, [marker])] name = [marker] := by
    simp [Lists.items]
  have hcolumns : columnsFor options [marker] ≠ [] := by
    unfold columnsFor
    split_ifs with hnone
    · decide
    · exact hnone
  refine ⟨[(name, [marker])], ?_⟩
  rw [shown, renderToken, render_eq hparse hitems (List.cons_ne_nil marker []) hcolumns]
  rfl

/-- Tokens that can be told apart by what is shown for them: each is read from its own text, no two
of plain text are neighbours, and what is found are tables without faults. -/
structure Distinct (file : Text) (tokens : List Token) : Prop where
  isRead : ∀ token ∈ tokens, token.IsRead
  isChain : tokens.IsChain Token.Apart
  onlyTables : ∀ d, .found d ∈ tokens →
    ∃ argument, d = .listTable argument ∧ fault? file (.found d) = none

namespace Distinct

variable {token : Token} {xs ys : List Token}

theorem tail (h : Distinct file (token :: xs)) : Distinct file xs where
  isRead := (List.forall_mem_cons.1 h.isRead).2
  isChain := (List.isChain_cons.1 h.isChain).2
  onlyTables d hd := h.onlyTables d (List.mem_cons_of_mem token hd)

theorem join_ne_nil (h : Distinct file (token :: xs)) : Token.join (token :: xs) ≠ [] :=
  List.append_ne_nil_of_left_ne_nil (h.isRead token List.mem_cons_self).source_ne_nil _

theorem eq_nil_of_table {d : Directive} (h : Distinct file (.found d :: xs)) {c : Text}
    (hjoin : c <+: Token.join (.found d :: xs))
    (hshown : ∀ lists, c <+: (Chunk.found d :: xs).flatMap (shown file standard lists)) :
    c = [] := by
  cases c with
  | nil => rfl
  | cons first c =>
    obtain ⟨argument, rfl, hfault⟩ := h.onlyTables d List.mem_cons_self
    obtain ⟨lists, hbar⟩ := exists_bar standard hfault
    obtain ⟨u, hu⟩ := List.head?_eq_some_iff.1 hbar
    obtain ⟨v, hv⟩ := Directive.exists_brace_source (.listTable argument)
    -- With an item in its list the table starts with a bar, and its directive with a brace.
    have hleft : first = '|' := by
      have hprefix := hshown lists
      rw [List.flatMap_cons, hu] at hprefix
      exact (List.cons_prefix_cons.1 hprefix).1
    have hright : first = '\x7b' := by
      rw [Token.join_cons, Token.source, Chunk.source, hv] at hjoin
      exact (List.cons_prefix_cons.1 hjoin).1
    rw [hleft] at hright
    exact absurd hright (by decide)

theorem eq_nil_of_overlap {s c : Text} (h : Distinct file (.plain s :: xs))
    (hjoin : Token.join (.plain s :: xs) = Token.join (.plain (s ++ c) :: ys))
    (hshown : ∀ lists, (Chunk.plain s :: xs).flatMap (shown file standard lists) =
      (Chunk.plain (s ++ c) :: ys).flatMap (shown file standard lists)) : c = [] := by
  have hcancel {t u : Text} (h : s ++ t = s ++ c ++ u) : t = c ++ u := by
    rw [List.append_assoc] at h
    exact List.append_cancel_left h
  have hrest : Token.join xs = c ++ Token.join ys := hcancel hjoin
  have hothers (lists : Lists) : xs.flatMap (shown file standard lists) =
      c ++ ys.flatMap (shown file standard lists) := hcancel (hshown lists)
  cases xs with
  | nil => exact (List.append_eq_nil_iff.1 hrest.symm).1
  | cons token xs =>
    cases token with
    | plain t => exact absurd ((List.isChain_cons.1 h.isChain).1 _ rfl) id
    | found d =>
      exact h.tail.eq_nil_of_table ⟨_, hrest.symm⟩ fun lists => ⟨_, (hothers lists).symm⟩

theorem plain_eq_plain {s t : Text} (hx : Distinct file (.plain s :: xs))
    (hy : Distinct file (.plain t :: ys))
    (hjoin : Token.join (.plain s :: xs) = Token.join (.plain t :: ys))
    (hshown : ∀ lists, (Chunk.plain s :: xs).flatMap (shown file standard lists) =
      (Chunk.plain t :: ys).flatMap (shown file standard lists)) : s = t := by
  rcases List.append_eq_append_iff.1 hjoin with ⟨c, hc, -⟩ | ⟨c, hc, -⟩
  · obtain rfl : t = s ++ c := hc
    rw [hx.eq_nil_of_overlap hjoin hshown, List.append_nil]
  · obtain rfl : s = t ++ c := hc
    rw [hy.eq_nil_of_overlap hjoin.symm fun lists => (hshown lists).symm, List.append_nil]

theorem found_eq_found {d e : Directive} (hx : Distinct file (.found d :: xs))
    (hy : Distinct file (.found e :: ys))
    (hjoin : Token.join (.found d :: xs) = Token.join (.found e :: ys)) :
    d = e ∧ Token.join xs = Token.join ys := by
  have hd := hx.isRead _ List.mem_cons_self (Token.join xs)
  have he := hy.isRead _ List.mem_cons_self (Token.join ys)
  have hsame : d.source ++ Token.join xs = e.source ++ Token.join ys := hjoin
  rw [hsame] at hd
  exact Prod.mk.inj (Option.some.inj (hd.symm.trans he))

/-- What is shown for tokens whose text is given tells which tokens they are, if it is known for all
lists. -/
theorem eq_of_shown (hx : Distinct file xs) (hy : Distinct file ys)
    (hjoin : Token.join xs = Token.join ys)
    (hshown : ∀ lists, xs.flatMap (shown file standard lists) =
      ys.flatMap (shown file standard lists)) : xs = ys := by
  -- Both sides lose their first tokens at once, so what is left has equal texts again.
  induction xs generalizing ys with
  | nil =>
    cases ys with
    | nil => rfl
    | cons y ys => exact absurd hjoin.symm hy.join_ne_nil
  | cons x xs ih =>
    cases ys with
    | nil => exact absurd hjoin hx.join_ne_nil
    | cons y ys =>
      have hnext (h : x = y) : x :: xs = y :: ys := by
        subst h
        rw [ih hx.tail hy.tail (List.append_cancel_left hjoin) fun lists =>
          List.append_cancel_left (hshown lists)]
      cases x with
      | plain s =>
        cases y with
        | plain t => exact hnext (congrArg Chunk.plain (hx.plain_eq_plain hy hjoin hshown))
        | found e =>
          refine absurd ?_ (hx.isRead _ List.mem_cons_self)
          exact hy.eq_nil_of_table ⟨_, hjoin⟩ fun lists => ⟨_, hshown lists⟩
      | found d =>
        cases y with
        | plain t =>
          refine absurd ?_ (hy.isRead _ List.mem_cons_self)
          exact hx.eq_nil_of_table ⟨_, hjoin.symm⟩ fun lists => ⟨_, (hshown lists).symm⟩
        | found e => exact hnext (congrArg Chunk.found (hx.found_eq_found hy hjoin).1)

end Distinct

theorem distinct_tables {tokens : List Token} (hread : ∀ token ∈ tokens, token.IsRead)
    (hfault : firstFault? file tokens = none) : Distinct file (tables tokens) := by
  have hhide : ∀ token ∈ tokens.map hide, token.IsRead := by
    intro token htoken
    obtain ⟨token, hmem, rfl⟩ := List.mem_map.1 htoken
    fun_cases hide token with
    | case1 argument => exact hread _ hmem
    | case2 token hother => exact (hread token hmem).source_ne_nil
  refine ⟨Token.isRead_merge hhide,
    (Token.isChain_merge fun token htoken => (hhide token htoken).source_ne_nil).2, fun d hd => ?_⟩
  obtain ⟨token, hmem, htoken⟩ := List.mem_map.1 ((Chunk.found_mem_merge _).1 hd)
  unfold hide at htoken
  split at htoken
  · obtain rfl := Chunk.found.inj htoken
    exact ⟨_, rfl, List.findSome?_eq_none_iff.1 hfault _ hmem⟩
  · cases htoken

theorem shown_tables {tokens : List Token} (hread : ∀ token ∈ tokens, token.IsRead)
    (hfault : firstFault? file tokens = none) :
    (tables tokens).flatMap (shown file standard lists) =
      tokens.flatMap (shown file standard lists) := by
  have hnone : firstFault? file (tables tokens) = none := by
    refine List.findSome?_eq_none_iff.2 fun token htoken => ?_
    cases token with
    | plain s => rfl
    | found d => exact ((distinct_tables hread hfault).onlyTables d htoken).choose_spec.2
  have hsame := renderTokens_tables (render file standard lists) tokens
  rw [renderTokens_of_no_fault hnone, renderTokens_of_no_fault hfault] at hsame
  exact Except.ok.inj hsame

/-- Tokens of one text are shown alike for all lists exactly if they are faulty in the same way, or
not at all and the same tables stand at the same places. -/
theorem renderTokens_agree_iff {xs ys : List Token} (hx : ∀ token ∈ xs, token.IsRead)
    (hy : ∀ token ∈ ys, token.IsRead) (hjoin : Token.join xs = Token.join ys) :
    (∀ lists, renderTokens (render file standard lists) xs =
        renderTokens (render file standard lists) ys) ↔
      firstFault? file xs = firstFault? file ys ∧
        (firstFault? file ys = none → tables xs = tables ys) := by
  constructor
  · intro h
    have hsame : firstFault? file xs = firstFault? file ys := by
      have hrun := h []
      cases hfx : firstFault? file xs with
      | none =>
        cases hfy : firstFault? file ys with
        | none => rfl
        | some e =>
          rw [renderTokens_of_no_fault hfx, renderTokens_of_fault hfy] at hrun
          cases hrun
      | some e =>
        cases hfy : firstFault? file ys with
        | none =>
          rw [renderTokens_of_fault hfx, renderTokens_of_no_fault hfy] at hrun
          cases hrun
        | some e' =>
          rw [renderTokens_of_fault hfx, renderTokens_of_fault hfy] at hrun
          rw [Except.error.inj hrun]
    refine ⟨hsame, fun hfy => ?_⟩
    have hfx := hsame.trans hfy
    -- Agreement for all lists is needed here: suitable ones tell any two tables apart.
    have hshown (lists : Lists) : (tables xs).flatMap (shown file standard lists) =
        (tables ys).flatMap (shown file standard lists) := by
      rw [shown_tables hx hfx, shown_tables hy hfy]
      have hrun := h lists
      rw [renderTokens_of_no_fault hfx, renderTokens_of_no_fault hfy] at hrun
      exact Except.ok.inj hrun
    refine (distinct_tables hx hfx).eq_of_shown (distinct_tables hy hfy) ?_ hshown
    rw [Token.join_tables, Token.join_tables, hjoin]
  · rintro ⟨hsame, htables⟩ lists
    cases hfy : firstFault? file ys with
    | some e => rw [renderTokens_of_fault (hsame.trans hfy), renderTokens_of_fault hfy]
    | none => rw [← renderTokens_tables _ xs, htables hfy, renderTokens_tables]

/-- Tables are put in place of the directives that are found line by line. These are the tokens of
the document if and only if no directive runs over the end of a line. The text is the one that the
tokens of the document ask for, whatever the lists hold, if and only if the first faulty table among
both is faulty in the same way, or none is faulty and the same tables stand at the same places. -/
theorem renderAll_agrees_iff {s : Text} (hr : '\r' ∉ s) (file standard : Text) :
    (∀ lists, renderAll file standard lists s =
      renderTokens (render file standard lists) (tokenizeLines s)) ∧
    (tokenizeLines s = tokenize s ↔ ∀ d, .found d ∈ tokenize s → '\n' ∉ d.source) ∧
    ((∀ lists, renderAll file standard lists s =
        renderTokens (render file standard lists) (tokenize s)) ↔
      firstFault? file (tokenizeLines s) = firstFault? file (tokenize s) ∧
        (firstFault? file (tokenize s) = none →
          tables (tokenizeLines s) = tables (tokenize s))) := by
  refine ⟨fun lists => renderAll_eq file standard lists s, Token.tokenizeLines_eq_iff hr, ?_⟩
  simp only [renderAll_eq]
  apply renderTokens_agree_iff
  · exact Token.isRead_merge (Token.isRead_ofLines none s.lines)
  · exact Token.isRead_tokenize s
  · rw [Token.join_tokenizeLines hr, Token.join_tokenize]

def brokenInclude : Text :=
  "\x7b!include(a\nb)!\x7d \x7b!list-table(list=todo|columns=name:Name)!\x7d\n".text

theorem renderAll_agrees_of_broken_include : '\r' ∉ brokenInclude ∧
    tokenizeLines brokenInclude ≠ tokenize brokenInclude ∧
    ∀ lists, renderAll "main.md".text "items".text lists brokenInclude =
      renderTokens (render "main.md".text "items".text lists) (tokenize brokenInclude) := by
  have hr : '\r' ∉ brokenInclude := by decide +kernel
  obtain ⟨-, hsame, hagrees⟩ := renderAll_agrees_iff hr "main.md".text "items".text
  refine ⟨hr, ?_, ?_⟩
  · rw [Ne, hsame]
    intro h
    have hinclude : Chunk.found (Directive.includeFile "a\nb".text) ∈ tokenize brokenInclude := by
      decide +kernel
    exact h _ hinclude (by decide +kernel)
  · rw [hagrees]
    exact ⟨by decide +kernel, fun _ => by decide +kernel⟩

def brokenTable : Text := "\x7b!list-table(list=todo|\ncolumns=name:Name)!\x7d".text

theorem broken_table_is_not_rendered :
    '\r' ∉ brokenTable ∧ renderAll "main.md".text "items".text [] brokenTable = .ok brokenTable ∧
    renderTokens (render "main.md".text "items".text []) (tokenize brokenTable) =
      .ok "_No items in list \"todo\"._".text ∧
    renderAll "main.md".text "items".text [] brokenTable ≠
      renderTokens (render "main.md".text "items".text []) (tokenize brokenTable) := by
  have hlines : renderAll "main.md".text "items".text [] brokenTable = .ok brokenTable :=
    Except.ok_of_toOption (by decide +kernel)
  have htokens : renderTokens (render "main.md".text "items".text []) (tokenize brokenTable) =
      .ok "_No items in list \"todo\"._".text := Except.ok_of_toOption (by decide +kernel)
  refine ⟨by decide +kernel, hlines, htokens, ?_⟩
  rw [hlines, htokens]
  exact fun heq => absurd (Except.ok.inj heq) (by decide +kernel)

end Table
end Transclude

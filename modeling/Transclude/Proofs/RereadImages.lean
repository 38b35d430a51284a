import Mathlib.Data.List.Infix
import Transclude.Proofs.RunInversion
import Transclude.Proofs.SettledImages

/-! Embedding images in a text in which they have been embedded before. A reference that carries the
bytes of a file is read back as one, unless its title holds the quotes that are put around it, and
the text stays as it is as long as no reference in it leads to a file. -/

namespace Transclude

namespace Pattern

variable {α : Type} (p : Pattern α)

theorem exists_of_scan {s : Text} {xs ys : List (Chunk α)} {a : α}
    (h : p.scan s = xs ++ .found a :: ys) :
    ∃ rest, s = Chunk.sources p.source xs ++ (p.source a ++ rest) ∧
      p.read? (p.source a ++ rest) = some (a, rest) ∧ p.scan rest = ys := by
  fun_induction scan p s generalizing xs with
  | case1 => cases xs <;> cases h
  | case2 c s b rest hread _ ih =>
    have hs := p.source_append hread
    cases xs with
    | nil =>
      obtain ⟨hb, rfl⟩ := List.cons.inj h
      obtain rfl := Chunk.found.inj hb
      exact ⟨rest, hs.symm, hs ▸ hread, rfl⟩
    | cons x xs =>
      obtain ⟨rfl, hrest⟩ := List.cons.inj h
      obtain ⟨more, rfl, hmore⟩ := ih hrest
      refine ⟨more, ?_, hmore⟩
      rw [Chunk.sources_cons, List.append_assoc]
      exact hs.symm
  | case3 c s hread ih =>
    obtain ⟨us, hus, rfl⟩ := Chunk.exists_of_pushText h
    obtain ⟨more, rfl, hmore⟩ := ih hus
    exact ⟨more, by rw [Chunk.sources_pushText]; rfl, hmore⟩

theorem exists_run_scan (s : Text) :
    ∃ u ys, p.scan s = (if u = [] then [] else [.plain u]) ++ ys ∧
      (ys = [] ∨ ∃ a zs, ys = .found a :: zs) := by
  fun_induction scan p s with
  | case1 => exact ⟨[], [], rfl, .inl rfl⟩
  | case2 c s a rest hread _ ih => exact ⟨[], _, rfl, .inr ⟨a, _, rfl⟩⟩
  | case3 c s hread ih =>
    obtain ⟨u, ys, hscan, hys⟩ := ih
    refine ⟨c :: u, ys, ?_, hys⟩
    rw [hscan, if_neg (List.cons_ne_nil c u)]
    by_cases hu : u = []
    · rw [if_pos hu, hu]
      rcases hys with rfl | ⟨a, zs, rfl⟩ <;> rfl
    · rw [if_neg hu]
      rfl

end Pattern

namespace Image

variable {tree : Tree} {base : Path} {i : Image} {s t : Text} {chunks : List (Chunk Image)}

def references (s : Text) : List Image := (pattern.scan s).filterMap Chunk.item?

/-- A text with its references looked up from a directory: those that lead to a file carry its
bytes, and everything else is as it was. -/
def inlined (tree : Tree) (base : Path) (s : Text) : Text :=
  Chunk.sources (fun i => (i.settledAt tree base).source) (pattern.scan s)

theorem mem_references : i ∈ references s ↔ .found i ∈ pattern.scan s := by
  rw [references, List.mem_filterMap]
  constructor
  · rintro ⟨chunk, hchunk, hitem⟩
    cases chunk with
    | plain u => cases hitem
    | found j =>
      obtain rfl := Option.some.inj hitem
      exact hchunk
  · exact fun h => ⟨.found i, h, rfl⟩

theorem isRead_of_mem (h : i ∈ references s) : i.IsRead := by
  obtain ⟨xs, ys, hscan⟩ := List.append_of_mem (mem_references.1 h)
  obtain ⟨rest, -, hread, -⟩ := pattern.exists_of_scan hscan
  exact isRead_of_read? hread

theorem replace_eq_ok_iff : (replace tree base i).outcome = .ok t ↔
    i.Followable tree base ∧ t = (i.settledAt tree base).source := by
  by_cases h : i.Followable tree base
  · rw [replace_eq h, Run.outcome_pure, and_iff_right h, Except.ok.injEq, eq_comm]
  · refine iff_of_false (fun hok => ?_) fun hboth => h hboth.1
    unfold Followable at h
    push Not at h
    unfold replace at hok
    simp only [h.1, h.2] at hok
    cases hok

theorem replaceChunks_eq_ok_iff : (replaceChunks tree base chunks).outcome = .ok t ↔
    (∀ i, .found i ∈ chunks → i.Followable tree base) ∧
      t = Chunk.sources (fun i => (i.settledAt tree base).source) chunks := by
  induction chunks generalizing t with
  | nil => simp [replaceChunks, eq_comm]
  | cons chunk rest ih =>
    cases chunk with
    | plain u =>
      simp only [replaceChunks, Run.outcome_bind_eq_ok_iff, ih, Run.outcome_pure]
      simp [Chunk.source, eq_comm]
    | found i =>
      simp only [replaceChunks, Run.outcome_bind_eq_ok_iff, ih, replace_eq_ok_iff, Run.outcome_pure]
      simp [Chunk.source, eq_comm, or_imp, forall_and, and_assoc]

theorem embedAll_eq_ok_iff : (embedAll tree base s).outcome = .ok t ↔
    (∀ i ∈ references s, i.Followable tree base) ∧ t = inlined tree base s := by
  simp only [embedAll, replaceChunks_eq_ok_iff, mem_references, inlined]

theorem foundAt?_of_data (h : i.IsRead) {tail more : Text}
    (hstop : ∀ c ∈ tail.head?, inBareTarget c = false)
    (heq : i.lead ++ (i.target ++ tail) = "data:".text ++ more) : i.foundAt? tree base = none := by
  have hfirst : ∀ c ∈ (i.lead ++ (i.target ++ tail)).head?, c = 'd' := by
    rw [heq]
    rintro _ ⟨⟩
    rfl
  have hlead : i.lead = [] := by
    cases hl : i.lead with
    | nil => rfl
    | cons c lead =>
      rw [hl] at hfirst
      have hblank : Text.isBlank c := List.all_eq_true.1 (hl ▸ h.lead) c List.mem_cons_self
      rw [hfirst c rfl] at hblank
      exact absurd hblank (by decide)
  rw [hlead, List.nil_append] at hfirst heq
  rcases h.target with ⟨-, hbare⟩ | ⟨inner, -, -, htarget⟩
  · -- Both targets run to the first character that cannot stand in one.
    have hdata : ∀ c ∈ "data:".text, inBareTarget c := List.all_eq_true.1 (by decide)
    have htake := congrArg (List.takeWhile inBareTarget) heq
    rw [Text.takeWhile_append_stop hstop, List.takeWhile_eq_self_iff.2 hbare,
      List.takeWhile_append_of_pos hdata] at htake
    exact if_pos (isExternal_of_data (fun c hc => isBlank_of_inBareTarget (hbare c hc)) htake)
  · rw [htarget] at hfirst
    exact absurd (hfirst '<' rfl) (by decide)

theorem foundAt?_of_same_front (h : i.IsRead) {p : Path} {bytes : List UInt8} {a b : Text}
    (heq : i.source ++ a = i.embed p bytes ++ b) : i.foundAt? tree base = none := by
  have hstop := head?_ending h.title h.trail a
  rw [← source_embedded] at heq
  simp only [source, embedded, List.append_assoc, List.append_cancel_left_eq,
    List.nil_append] at heq hstop
  exact foundAt?_of_data h hstop heq

theorem settledAt_of_none (h : i.foundAt? tree base = none) : i.settledAt tree base = i := by
  rw [settledAt, h]

theorem settledAt_of_some {p : Path} {bytes : List UInt8}
    (h : i.foundAt? tree base = some (p, bytes)) : i.settledAt tree base = i.embedded p bytes := by
  rw [settledAt, h]

/-- Looking references up changes the text at the first of them that leads to a file. -/
theorem sources_settledAt_eq_iff (h : ∀ i, .found i ∈ chunks → i.IsRead) :
    Chunk.sources (fun i => (i.settledAt tree base).source) chunks =
        Chunk.sources source chunks ↔
      ∀ i, .found i ∈ chunks → i.foundAt? tree base = none := by
  induction chunks with
  | nil => simp
  | cons chunk rest ih =>
    have hrest := ih fun i hi => h i (List.mem_cons_of_mem _ hi)
    cases chunk with
    | plain u => simp [Chunk.source, hrest]
    | found i =>
      rw [Chunk.sources_cons, Chunk.sources_cons, Chunk.source, Chunk.source]
      cases hfound : i.foundAt? tree base with
      | none => simp [settledAt_of_none hfound, hrest, hfound]
      | some file =>
        refine iff_of_false (fun heq => ?_) fun hnone => ?_
        · rw [settledAt_of_some hfound, source_embedded] at heq
          have hnone : i.foundAt? tree base = none :=
            foundAt?_of_same_front (h i List.mem_cons_self) heq.symm
          rw [hfound] at hnone
          cases hnone
        · rw [hnone i List.mem_cons_self] at hfound
          cases hfound

theorem embedAll_eq_self_iff : (embedAll tree base s).outcome = .ok s ↔
    ∀ i ∈ references s, i.Followable tree base ∧ i.foundAt? tree base = none := by
  have hread : ∀ i, .found i ∈ pattern.scan s → i.IsRead :=
    fun i hi => isRead_of_mem (mem_references.2 hi)
  have hjoin : Chunk.sources source (pattern.scan s) = s := pattern.sources_scan s
  have hsame : inlined tree base s = Chunk.sources source (pattern.scan s) ↔
      ∀ i, .found i ∈ pattern.scan s → i.foundAt? tree base = none :=
    sources_settledAt_eq_iff hread
  rw [hjoin] at hsame
  rw [embedAll_eq_ok_iff, eq_comm, hsame]
  simp only [mem_references]
  exact forall₂_and.symm

theorem close?_of_quoted (s trail : Text) : close? (s ++ ['"', ')']) ≠ some (trail, []) := by
  intro h
  have hjoin : trail ++ [')'] = s ++ ['"'] ++ [')'] := by simpa using append_of_close? h
  have hmem : '"' ∈ trail := by simp [List.append_cancel_right hjoin]
  exact absurd (List.all_eq_true.1 (allBlank_of_close? h) '"' hmem) (by decide)

theorem ending?_of_quoted {text : Text} (h : '"' ∈ text) (ending : Option Title × Text) :
    ending? (' ' :: '"' :: (text ++ ['"', ')'])) ≠ some (ending, []) := by
  obtain ⟨inner, more, rfl, hinner⟩ := List.eq_append_cons_of_mem h
  have hspan : Text.spanBlanks (' ' :: '"' :: (inner ++ '"' :: more ++ ['"', ')'])) =
      ([' '], '"' :: (inner ++ '"' :: more ++ ['"', ')'])) := by
    refine Text.spanBlanks_eq_iff.2 ⟨rfl, by decide, ?_⟩
    rintro _ ⟨⟩
    decide
  have hcut : Text.cut? ['"'] (inner ++ '"' :: more ++ ['"', ')']) =
      some (inner, more ++ ['"', ')']) :=
    Text.cut?_singleton_iff.2 ⟨by simp, hinner⟩
  intro hends
  unfold ending? at hends
  split at hends
  · -- The title that is read ends at the first quote in it.
    rename_i title behind hread
    obtain ⟨⟨trail, rest⟩, hclose, heq⟩ := Option.map_eq_some_iff.1 hends
    obtain rfl : rest = [] := (Prod.mk.inj heq).2
    unfold Title.read? at hread
    rw [hspan] at hread
    dsimp only at hread
    rw [if_pos ⟨List.cons_ne_nil _ _, .inl rfl⟩, hcut] at hread
    cases inner with
    | nil => cases hread
    | cons c inner =>
      rw [← (Prod.mk.inj (Option.some.inj hread)).2] at hclose
      exact close?_of_quoted more trail hclose
  · obtain ⟨⟨trail, rest⟩, hclose, heq⟩ := Option.map_eq_some_iff.1 hends
    obtain rfl : rest = [] := (Prod.mk.inj heq).2
    exact close?_of_quoted (' ' :: '"' :: (inner ++ '"' :: more)) trail hclose

theorem read?_embed (h : i.IsRead) (p : Path) (bytes : List UInt8) :
    read? (i.embed p bytes) =
      (ending? (titleSource (i.embedded p bytes).title? ++ [')'])).map
        fun ((title?, trail), rest) =>
          (⟨i.alt, [], (i.embedded p bytes).target, title?, trail⟩, rest) := by
  have hbare (c : Char) (hc : c ∈ (i.embedded p bytes).target) : inBareTarget c :=
    (Bool.and_eq_true_iff.1 (isCarried_target i p bytes c hc)).1
  have hstop : ∀ c ∈ (titleSource (i.embedded p bytes).title? ++ [')']).head?,
      inBareTarget c = false := by
    rw [embedded]
    dsimp only
    cases i.title? with
    | none =>
      rintro _ ⟨⟩
      decide
    | some t =>
      rintro _ ⟨⟩
      decide
  have hunwrapped : (i.embedded p bytes).target.head? ≠ some '<' := by
    show some 'd' ≠ some '<'
    decide
  have hne : (i.embedded p bytes).target ≠ [] := List.cons_ne_nil _ _
  have hsource : i.embed p bytes = "![".text ++ i.alt ++ "](".text ++ ([] ++
      ((i.embedded p bytes).target ++ (titleSource (i.embedded p bytes).title? ++ [')']))) := by
    rw [← source_embedded]
    simp [source, embedded]
  rw [hsource]
  exact read?_bare h.alt rfl hne hbare hstop fun hhead => absurd hhead hunwrapped

/-- The reference that carries the bytes of a file is read back as a whole unless a double quote
stands in its title. -/
theorem read?_embed_eq_some_iff (h : i.IsRead) {p : Path} {bytes : List UInt8} {j : Image} :
    read? (i.embed p bytes) = some (j, []) ↔
      j = i.embedded p bytes ∧ ∀ t ∈ i.title?, '"' ∉ t.text := by
  constructor
  · intro hread
    have htitle : ∀ t ∈ i.title?, '"' ∉ t.text := by
      intro t ht hquote
      rw [read?_embed h, embedded, Option.map_eq_some_iff] at hread
      obtain ⟨⟨ending, rest⟩, hends, heq⟩ := hread
      obtain rfl : rest = [] := (Prod.mk.inj heq).2
      refine ending?_of_quoted hquote ending ?_
      rw [← hends, Option.mem_def.1 ht]
      simp [titleSource, Title.source]
    have hagain := read?_source_append (h.isWritten_embedded htitle p bytes) []
    rw [List.append_nil, source_embedded, hread] at hagain
    exact ⟨(Prod.mk.inj (Option.some.inj hagain)).1, htitle⟩
  · rintro ⟨rfl, htitle⟩
    have hagain := read?_source_append (h.isWritten_embedded htitle p bytes) []
    rwa [List.append_nil, source_embedded] at hagain

theorem IsRead.unquoted_iff (h : i.IsRead) :
    (∀ t ∈ i.title?, t.mark = '\'' → '"' ∉ t.text) ↔ ∀ t ∈ i.title?, '"' ∉ t.text := by
  refine ⟨fun hsingle t ht => ?_, fun hall t ht _ => hall t ht⟩
  rcases (h.title t ht).mark with hmark | hmark
  · exact hmark ▸ (h.title t ht).unmarked
  · exact hsingle t ht hmark

section Openings

variable {c : Char} {u w rest : Text}

theorem opening?_of_not_open {alt body : Text} (ha : ']' ∉ alt) (hb : body.head? ≠ some '(') :
    opening? ("![".text ++ alt ++ ']' :: body) = none := by
  cases hopening : opening? ("![".text ++ alt ++ ']' :: body) with
  | none => rfl
  | some found =>
    obtain ⟨other, more⟩ := found
    have hother := not_mem_of_opening? hopening
    have hjoin : other ++ ']' :: ('(' :: more) = alt ++ ']' :: body := by
      have hwhole := append_of_opening? hopening
      rw [List.append_assoc, List.append_assoc, List.append_assoc] at hwhole
      exact List.append_cancel_left hwhole
    have hcut := Text.cut?_singleton_iff.2 ⟨hjoin, ha⟩
    rw [Text.cut?_singleton_iff.2 ⟨rfl, hother⟩] at hcut
    exact absurd (congrArg List.head? (Prod.mk.inj (Option.some.inj hcut)).2).symm hb

/-- Where a text opens no reference, it opens none with a reference behind it, unless what opens one
is at the end of the text and not complete. -/
theorem opening?_append_or (h : opening? (c :: u) = none) :
    (∀ tail : Text, (∀ d ∈ tail.head?, d = '!') → opening? (c :: (u ++ tail)) = none) ∨
      ∃ w, c :: u = "![".text ++ w ∧ ']' ∉ w := by
  cases hafter : Text.after? (c :: u) "![".text with
  | none =>
    refine .inl fun tail htail => ?_
    have hnone : Text.after? (c :: (u ++ tail)) "![".text = none := by
      cases hboth : Text.after? (c :: (u ++ tail)) "![".text with
      | none => rfl
      | some rest =>
        obtain ⟨rfl, hrest⟩ := List.cons.inj (Text.after?_eq_some_iff.1 hboth)
        cases u with
        | nil =>
          rw [List.nil_append] at hrest
          exact absurd (htail '[' (by rw [hrest]; rfl)) (by decide)
        | cons d u =>
          obtain ⟨rfl, -⟩ := List.cons.inj hrest
          cases hafter.symm.trans (Text.after?_append ['!', '['] u)
    rw [opening?, hnone]
  | some w =>
    have hw := Text.after?_eq_some_iff.1 hafter
    -- Only an alternative text that is still open can be closed by what follows.
    by_cases hmem : ']' ∈ w
    · obtain ⟨alt, body, rfl, ha⟩ := List.eq_append_cons_of_mem hmem
      refine .inl fun tail htail => ?_
      have hbody : body.head? ≠ some '(' := by
        intro hhead
        obtain ⟨more, rfl⟩ := List.head?_eq_some_iff.1 hhead
        have hopens := opening?_append ha more
        rw [List.append_assoc, List.append_assoc] at hopens
        rw [hw] at h
        cases h.symm.trans hopens
      have hwhole : c :: (u ++ tail) = "![".text ++ alt ++ ']' :: (body ++ tail) := by
        rw [← List.cons_append, hw]
        simp
      rw [hwhole]
      refine opening?_of_not_open ha ?_
      cases body with
      | nil =>
        intro hhead
        exact absurd (htail '(' hhead) (by decide)
      | cons d body => exact hbody
    · exact .inr ⟨w, hw, hmem⟩

theorem isSome_inside? {target? : Text → Option (Text × Text)} (alt alt' lead s : Text) :
    (inside? target? alt lead s).isSome = (inside? target? alt' lead s).isSome := by
  unfold inside?
  split <;> simp

/-- What opens a reference in front of another one and is not complete makes it longer. -/
theorem isSome_read?_of_open (hw : ']' ∉ w)
    (h : read? (i.source ++ rest) = some (i, rest)) :
    (read? ("![".text ++ w ++ (i.source ++ rest))).isSome := by
  have ha := (isRead_of_read? h).alt
  obtain ⟨body, hbody⟩ : ∃ body, i.source ++ rest = "![".text ++ i.alt ++ "](".text ++ body :=
    ⟨i.lead ++ i.target ++ titleSource i.title? ++ i.trail ++ [')'] ++ rest, by simp [source]⟩
  have hlonger : ']' ∉ w ++ ("![".text ++ i.alt) := by
    simp [hw, ha, String.text]
  have hwhole : "![".text ++ w ++ (i.source ++ rest) =
      "![".text ++ (w ++ ("![".text ++ i.alt)) ++ "](".text ++ body := by
    rw [hbody]
    simp
  rw [hbody, read?, opening?_append ha] at h
  rw [hwhole, read?, opening?_append hlonger]
  dsimp only at h ⊢
  have hsome := Option.isSome_of_eq_some h
  rw [Option.orElse_eq_orElse, Option.orElse_eq_or, Option.isSome_or] at hsome ⊢
  rwa [isSome_inside? (w ++ ("![".text ++ i.alt)) i.alt,
    isSome_inside? (w ++ ("![".text ++ i.alt)) i.alt]

end Openings

/-- Whether the references in a text are found again when their targets are replaced: no title that
is put between double quotes has one in it, no target starts with a bracket that is left open, and
no reference is opened in the text between them. -/
structure Secure (tree : Tree) (base : Path) (s : Text) : Prop where
  titles : ∀ i ∈ references s, i.foundAt? tree base ≠ none →
    ∀ t ∈ i.title?, t.mark = '\'' → '"' ∉ t.text
  targets : ∀ i ∈ references s, i.foundAt? tree base = none →
    i.target.head? = some '<' → '>' ∈ i.target
  openings : ∀ u, .plain u ∈ pattern.scan s → ∀ t, t <:+ u → opening? t = none

section Again

variable {c : Char} {rest : Text}

theorem references_of_read? (h : read? s = some (i, rest)) :
    references s = i :: references rest := by
  rw [references, pattern.scan_of_read? h]
  rfl

theorem references_cons (h : read? (c :: s) = none) : references (c :: s) = references s := by
  rw [references, pattern.scan_cons h]
  unfold Chunk.pushText
  split
  · rename_i hscan
    rw [references, hscan]
    rfl
  · rfl

theorem inlined_of_read? (h : read? s = some (i, rest)) :
    inlined tree base s = (i.settledAt tree base).source ++ inlined tree base rest := by
  rw [inlined, pattern.scan_of_read? h]
  rfl

theorem inlined_cons (h : read? (c :: s) = none) :
    inlined tree base (c :: s) = c :: inlined tree base s := by
  rw [inlined, pattern.scan_cons h, Chunk.sources_pushText]
  rfl

theorem Secure.of_read? (h : Secure tree base s) (hread : read? s = some (i, rest)) :
    Secure tree base rest := by
  have hscan := pattern.scan_of_read? hread
  have hmem {j : Image} (hj : j ∈ references rest) : j ∈ references s := by
    rw [references_of_read? hread]
    exact List.mem_cons_of_mem i hj
  refine ⟨fun j hj => h.titles j (hmem hj), fun j hj => h.targets j (hmem hj), fun u hu => ?_⟩
  exact h.openings u (hscan ▸ List.mem_cons_of_mem _ hu)

theorem Secure.of_cons (h : Secure tree base (c :: s)) (hread : read? (c :: s) = none) :
    Secure tree base s := by
  have hscan := pattern.scan_cons hread
  have hsame := references_cons hread
  refine ⟨fun j hj => h.titles j (hsame ▸ hj), fun j hj => h.targets j (hsame ▸ hj),
    fun u hu t ht => ?_⟩
  have hopen := h.openings
  rw [hscan] at hopen
  unfold Chunk.pushText at hopen
  split at hopen
  · rename_i v others hothers
    rw [hothers] at hu
    rcases List.mem_cons.1 hu with heq | hu
    · obtain rfl := Chunk.plain.inj heq
      exact hopen _ List.mem_cons_self t (ht.trans (List.suffix_cons c u))
    · exact hopen u (List.mem_cons_of_mem _ hu) t ht
  · exact hopen u (List.mem_cons_of_mem _ hu) t ht

theorem Secure.read?_cons (h : Secure tree base (c :: s)) (hread : read? (c :: s) = none) :
    read? (c :: inlined tree base s) = none := by
  obtain ⟨u, ys, hscan, hys⟩ := pattern.exists_run_scan s
  have hrun (f : Image → Text) : Chunk.sources f (pattern.scan s) = u ++ Chunk.sources f ys := by
    rw [hscan]
    by_cases hu : u = []
    · simp [hu]
    · simp [hu, Chunk.source]
  have hs : s = u ++ Chunk.sources source ys := (pattern.sources_scan s).symm.trans (hrun source)
  have hplain : .plain (c :: u) ∈ pattern.scan (c :: s) := by
    rw [pattern.scan_cons hread, hscan]
    by_cases hu : u = []
    · rw [if_pos hu, hu]
      rcases hys with rfl | ⟨a, zs, rfl⟩ <;> exact List.mem_cons_self
    · rw [if_neg hu]
      exact List.mem_cons_self
  -- Plain text before the next reference stays; what was open in it may only be closed there.
  rw [inlined, hrun]
  rcases opening?_append_or (h.openings _ hplain _ (List.suffix_refl _)) with hnone | ⟨w, hw, hmem⟩
  · rw [read?, hnone]
    intro d hd
    rcases hys with rfl | ⟨i, zs, rfl⟩
    · cases hd
    · obtain rfl := Option.some.inj hd
      rfl
  · rcases hys with rfl | ⟨i, zs, rfl⟩
    · rw [Chunk.sources_nil] at hs ⊢
      rwa [← hs]
    · -- The reference behind would have been read from the opening on.
      obtain ⟨rest, -, hi, hrest⟩ := pattern.exists_of_scan hscan
      have hbehind : Chunk.sources source (.found i :: zs) = i.source ++ rest := by
        rw [← hrest, Chunk.sources_cons]
        exact congrArg (i.source ++ ·) (pattern.sources_scan rest)
      have hsome := isSome_read?_of_open hmem hi
      rw [← hw, ← hbehind, List.cons_append, ← hs, hread] at hsome
      cases hsome

theorem Secure.read?_settledAt (h : Secure tree base s) (hi : i ∈ references s) (rest : Text) :
    read? ((i.settledAt tree base).source ++ rest) = some (i.settledAt tree base, rest) := by
  have hread := isRead_of_mem hi
  cases hfound : i.foundAt? tree base with
  | none =>
    rw [settledAt_of_none hfound]
    exact hread.read?_append (h.targets i hi hfound) rest
  | some file =>
    have htitles := hread.unquoted_iff.1 (h.titles i hi (by rw [hfound]; nofun))
    rw [settledAt_of_some hfound]
    exact read?_source_append (hread.isWritten_embedded htitles file.1 file.2) rest

theorem Secure.references_inlined (h : Secure tree base s) :
    references (inlined tree base s) =
      (references s).map fun i => i.settledAt tree base := by
  -- By length: behind a reference the text goes on with what its reading left over.
  induction hn : s.length using Nat.strongRecOn generalizing s with
  | ind n ih =>
    cases s with
    | nil =>
      have hnil : references [] = [] := by rw [references, pattern.scan_nil]; rfl
      have hinlined : inlined tree base [] = [] := by rw [inlined, pattern.scan_nil]; rfl
      rw [hinlined, hnil]
      rfl
    | cons c s =>
      cases hread : read? (c :: s) with
      | none =>
        have hshort : s.length < n := hn ▸ Nat.lt_succ_self _
        rw [inlined_cons hread, references_cons (h.read?_cons hread), references_cons hread,
          ih s.length hshort (h.of_cons hread) rfl]
      | some found =>
        obtain ⟨i, rest⟩ := found
        have hshort : rest.length < n := hn ▸ pattern.length_lt_of_read? hread
        have hi : i ∈ references (c :: s) := by
          rw [references_of_read? hread]
          exact List.mem_cons_self
        rw [inlined_of_read? hread, references_of_read? (h.read?_settledAt hi _),
          references_of_read? hread, ih rest.length hshort (h.of_read? hread) rfl, List.map_cons]

theorem Secure.embedAll_inlined (h : Secure tree base s)
    (hf : ∀ i ∈ references s, i.Followable tree base) :
    (embedAll tree base (inlined tree base s)).outcome = .ok (inlined tree base s) := by
  rw [embedAll_eq_self_iff, h.references_inlined, List.forall_mem_map]
  intro i hi
  cases hfound : i.foundAt? tree base with
  | none =>
    rw [settledAt_of_none hfound]
    exact ⟨hf i hi, hfound⟩
  | some file =>
    rw [settledAt_of_some hfound]
    exact ⟨followable_embedded file.1 file.2, foundAt?_embedded file.1 file.2⟩

end Again

/-- Embedding images in a text puts a reference with the bytes of the file in place of each one that
leads to a file, and changes nothing else. What is put there is read back as one reference, with the
same alternative text, the same title and a target that leads nowhere, exactly if the title has no
double quote in it, as only one between single quotes can have. Embedding images again leaves the
text as it is exactly if no reference that is found in it then leads to a file, and so it is if the
references were secure from the start. -/
theorem embedAll_again_eq_iff (tree : Tree) (base : Path) (s : Text) :
    (∀ t, (embedAll tree base s).outcome = .ok t ↔
      (∀ i ∈ references s, i.Followable tree base) ∧ t = inlined tree base s) ∧
    (∀ i ∈ references s, ∀ p bytes, i.foundAt? tree base = some (p, bytes) →
      ((∃ j, read? (i.embed p bytes) = some (j, [])) ↔
        ∀ t ∈ i.title?, t.mark = '\'' → '"' ∉ t.text) ∧
      ∀ j, read? (i.embed p bytes) = some (j, []) →
        j.alt = i.alt ∧ j.title?.map Title.text = i.title?.map Title.text ∧
          isExternal (normalizeTarget j.target)) ∧
    ((embedAll tree base (inlined tree base s)).outcome = .ok (inlined tree base s) ↔
      ∀ j ∈ references (inlined tree base s),
        j.Followable tree base ∧ j.foundAt? tree base = none) ∧
    ((∀ i ∈ references s, i.Followable tree base) → Secure tree base s →
      (embedAll tree base (inlined tree base s)).outcome = .ok (inlined tree base s)) := by
  refine ⟨fun t => embedAll_eq_ok_iff, fun i hi p bytes _ => ⟨?_, fun j hj => ?_⟩,
    embedAll_eq_self_iff, fun hf hsecure => hsecure.embedAll_inlined hf⟩
  · have hread := isRead_of_mem hi
    simp only [read?_embed_eq_some_iff hread, exists_eq_left, hread.unquoted_iff]
  · obtain ⟨rfl, -⟩ := (read?_embed_eq_some_iff (isRead_of_mem hi)).1 hj
    refine ⟨rfl, ?_, isExternal_embedded i p bytes⟩
    rw [embedded, Option.map_map]
    rfl

theorem embedAll_again_eq_of_album :
    let tree := (Workspace.holding [("x y.png", "x")]).tree
    let base : Path := ⟨.root, []⟩
    let s := "![a]: ![a](<x y.png> 'A')![b](z)".text
    ((∀ i ∈ references s, i.Followable tree base) ∧ Secure tree base s) ∧
      inlined tree base s = "![a]: ![a](data:image/png;base64,eA== \"A\")![b](z)".text ∧
      (embedAll tree base (inlined tree base s)).outcome = .ok (inlined tree base s) := by
  intro tree base s
  have hf : ∀ i ∈ references s, i.Followable tree base := by decide +kernel
  have htails : ∀ chunk ∈ pattern.scan s, ∀ t ∈ (chunk.source fun _ => []).tails,
      opening? t = none := by decide +kernel
  have hsecure : Secure tree base s := by
    refine ⟨by decide +kernel, by decide +kernel, fun u hu t ht => ?_⟩
    exact htails (.plain u) hu t ((List.mem_tails _ _).2 ht)
  exact ⟨⟨hf, hsecure⟩, by decide +kernel, (embedAll_again_eq_iff tree base s).2.2.2 hf hsecure⟩

/-- A title with double quotes in it makes the reference unreadable, and one between single quotes
completes what was open in front of it. -/
theorem embedded_title_runs_on :
    let tree := (Workspace.holding [("x.png", "x")]).tree
    let base : Path := ⟨.root, []⟩
    ((embedAll tree base "![a](x.png 'say \"hi\"')".text).outcome =
        .ok "![a](data:image/png;base64,eA== \"say \"hi\"\")".text ∧
      read? "![a](data:image/png;base64,eA== \"say \"hi\"\")".text = none) ∧
    (embedAll tree base "![a](x.png \"![b](x.png ')')".text).outcome =
      .ok "![a](x.png \"![b](data:image/png;base64,eA== \")\")".text ∧
    (embedAll tree base "![a](x.png \"![b](data:image/png;base64,eA== \")\")".text).outcome =
      .ok "![a](data:image/png;base64,eA== \"![b](data:image/png;base64,eA== \")\")".text := by
  intro tree base
  refine ⟨⟨Except.ok_of_toOption ?_, ?_⟩, Except.ok_of_toOption ?_, Except.ok_of_toOption ?_⟩ <;>
    decide +kernel

end Image

end Transclude

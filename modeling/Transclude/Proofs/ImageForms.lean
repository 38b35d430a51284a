import Transclude.Image.Embedding
import Transclude.Proofs.DirectiveReads
import Transclude.Proofs.ReferencePhrases

/-! Image references in the form in which the reader takes them, and how the reference that carries
the bytes of a file is one of them. -/

namespace Transclude

/-- Whether a title is written as the reader takes it. -/
structure Title.IsWritten (t : Title) : Prop where
  gap_ne_nil : t.gap ≠ []
  gap_blank : t.gap.allBlank
  mark : t.mark = '"' ∨ t.mark = '\''
  text_ne_nil : t.text ≠ []
  unmarked : t.mark ∉ t.text

structure Image.IsRead (i : Image) : Prop where
  alt : ']' ∉ i.alt
  lead : i.lead.allBlank
  target : (i.target ≠ [] ∧ ∀ c ∈ i.target, Image.inBareTarget c) ∨
    ∃ inner, inner ≠ [] ∧ '>' ∉ inner ∧ i.target = '<' :: inner ++ ['>']
  title : ∀ t ∈ i.title?, t.IsWritten
  trail : i.trail.allBlank

/-- Whether a reference to a bare target is written as the reader takes it. -/
structure Image.IsWritten (i : Image) : Prop where
  alt : ']' ∉ i.alt
  lead : i.lead.allBlank
  target_ne_nil : i.target ≠ []
  target : ∀ c ∈ i.target, Image.inBareTarget c
  unwrapped : i.target.head? ≠ some '<'
  title : ∀ t ∈ i.title?, t.IsWritten
  trail : i.trail.allBlank

namespace Title

theorem read?_source_append {t : Title} (h : t.IsWritten) (rest : Text) :
    read? (t.source ++ rest) = some (t, rest) := by
  obtain ⟨c, text, htext⟩ := List.exists_cons_of_ne_nil h.text_ne_nil
  have hmark : Text.isBlank t.mark = false := by
    rcases h.mark with hm | hm <;> rw [hm] <;> decide
  have hsource : t.source ++ rest = t.gap ++ t.mark :: (t.text ++ t.mark :: rest) := by
    simp [source]
  have hspan : (t.source ++ rest).spanBlanks = (t.gap, t.mark :: (t.text ++ t.mark :: rest)) := by
    refine Text.spanBlanks_eq_iff.2 ⟨hsource, h.gap_blank, fun b hb => ?_⟩
    obtain rfl := Option.some.inj hb
    exact hmark
  have hcut : Text.cut? [t.mark] (t.text ++ t.mark :: rest) = some (t.text, rest) :=
    Text.cut?_singleton_iff.2 ⟨rfl, h.unmarked⟩
  rw [read?, hspan]
  dsimp only
  rw [if_pos ⟨h.gap_ne_nil, h.mark⟩, hcut, htext]
  dsimp only
  rw [← htext]

theorem isWritten_of_read? {s rest : Text} {t : Title} (h : read? s = some (t, rest)) :
    t.IsWritten := by
  unfold read? at h
  split at h
  · rename_i gap mark body hspan
    split at h
    · rename_i hstart
      split at h
      · cases h
      · cases h
      · rename_i text more hne hcut
        obtain ⟨rfl, rfl⟩ := Prod.mk.inj (Option.some.inj h)
        obtain ⟨-, hblank, -⟩ := Text.spanBlanks_eq_iff.1 hspan
        exact ⟨hstart.1, hblank, hstart.2, hne, (Text.cut?_singleton_iff.1 hcut).2⟩
    · cases h
  · cases h

end Title

namespace Image

variable {i : Image}

theorem close?_append {trail : Text} (h : trail.allBlank) (rest : Text) :
    close? (trail ++ ')' :: rest) = some (trail, rest) := by
  have hspan : (trail ++ ')' :: rest).spanBlanks = (trail, ')' :: rest) := by
    refine Text.spanBlanks_eq_iff.2 ⟨rfl, h, fun b hb => ?_⟩
    obtain rfl := Option.some.inj hb
    decide
  rw [close?, hspan]
  rfl

theorem ending?_append {title? : Option Title} (ht : ∀ t ∈ title?, t.IsWritten) {trail : Text}
    (h : trail.allBlank) (rest : Text) :
    ending? (titleSource title? ++ trail ++ ')' :: rest) = some ((title?, trail), rest) := by
  cases title? with
  | none =>
    have hspan : (trail ++ ')' :: rest).spanBlanks = (trail, ')' :: rest) := by
      refine Text.spanBlanks_eq_iff.2 ⟨rfl, h, fun b hb => ?_⟩
      obtain rfl := Option.some.inj hb
      decide
    have hnone : Title.read? (trail ++ ')' :: rest) = none := by
      rw [Title.read?, hspan]
      simp
    show ending? (trail ++ ')' :: rest) = _
    rw [ending?, hnone, close?_append h]
    rfl
  | some t =>
    show ending? (t.source ++ trail ++ ')' :: rest) = _
    rw [ending?, List.append_assoc, Title.read?_source_append (ht t rfl)]
    dsimp only
    rw [close?_append h]
    rfl

theorem bareTarget?_append {target rest : Text} (hne : target ≠ [])
    (h : ∀ c ∈ target, inBareTarget c) (hrest : ∀ c ∈ rest.head?, inBareTarget c = false) :
    bareTarget? (target ++ rest) = some (target, rest) := by
  have htake : (target ++ rest).takeWhile inBareTarget = target := by
    rw [Text.takeWhile_append_stop hrest]
    exact List.takeWhile_eq_self_iff.2 h
  have hdrop : (target ++ rest).dropWhile inBareTarget = rest := by
    rw [Text.dropWhile_append_stop hrest, List.dropWhile_eq_nil_iff.2 h, List.nil_append]
  obtain ⟨c, more, rfl⟩ := List.exists_cons_of_ne_nil hne
  rw [bareTarget?, htake, hdrop]

theorem head?_ending {title? : Option Title} (ht : ∀ t ∈ title?, t.IsWritten) {trail : Text}
    (h : trail.allBlank) (rest : Text) :
    ∀ c ∈ (titleSource title? ++ trail ++ ')' :: rest).head?, inBareTarget c = false := by
  have hblank {gap : Text} (hgap : gap.allBlank) {c : Char} (hc : c ∈ gap) :
      inBareTarget c = false := by
    have hb : Text.isBlank c := List.all_eq_true.1 hgap c hc
    simp [inBareTarget, hb]
  intro c hc
  cases title? with
  | none =>
    cases trail with
    | nil =>
      obtain rfl := Option.some.inj hc
      decide
    | cons d trail =>
      obtain rfl := Option.some.inj hc
      exact hblank h List.mem_cons_self
  | some t =>
    obtain ⟨hne, hgap, -, -, -⟩ := ht t rfl
    obtain ⟨gap, mark, text⟩ := t
    cases gap with
    | nil => exact absurd rfl hne
    | cons d gap =>
      obtain rfl := Option.some.inj hc
      exact hblank hgap List.mem_cons_self

theorem opening?_append {alt : Text} (h : ']' ∉ alt) (rest : Text) :
    opening? ("![".text ++ alt ++ "](".text ++ rest) = some (alt, rest) := by
  have hstop : ∀ c ∈ ("](".text ++ rest).head?, decide (c ≠ ']') = false := by
    intro c hc
    obtain rfl := Option.some.inj hc
    decide
  have hall : ∀ c ∈ alt, decide (c ≠ ']') := by
    intro c hc
    have hne : c ≠ ']' := fun heq => h (heq ▸ hc)
    simpa using hne
  have htake : (alt ++ ("](".text ++ rest)).takeWhile (· ≠ ']') = alt := by
    rw [Text.takeWhile_append_stop hstop]
    exact List.takeWhile_eq_self_iff.2 hall
  have hdrop : (alt ++ ("](".text ++ rest)).dropWhile (· ≠ ']') = "](".text ++ rest := by
    rw [Text.dropWhile_append_stop hstop, List.dropWhile_eq_nil_iff.2 hall, List.nil_append]
  rw [opening?, List.append_assoc, List.append_assoc, Text.after?_append]
  dsimp only
  rw [hdrop, htake, Text.after?_append]

theorem isBlank_of_inBareTarget {c : Char} (h : inBareTarget c) : Text.isBlank c = false := by
  simp only [inBareTarget, Bool.and_eq_true] at h
  simpa using h.2

theorem ending?_of_inBareTarget {c : Char} (h : inBareTarget c) (s : Text) :
    ending? (c :: s) = none := by
  have hspan : Text.spanBlanks (c :: s) = ([], c :: s) := by
    refine Text.spanBlanks_eq_iff.2 ⟨rfl, rfl, fun b hb => ?_⟩
    obtain rfl := Option.some.inj hb
    exact isBlank_of_inBareTarget h
  have htitle : Title.read? (c :: s) = none := by
    rw [Title.read?, hspan]
    exact if_neg fun hgap => hgap.1 rfl
  have hclose : close? (c :: s) = none := by
    rw [close?, hspan]
    split
    · rename_i heq
      obtain ⟨rfl, -⟩ := List.cons.inj (Prod.mk.inj heq).2
      exact absurd h (by decide)
    · rfl
  rw [ending?, htitle, hclose]
  rfl

theorem wrappedTarget?_append {inner : Text} (hi : '>' ∉ inner) (tail : Text) :
    wrappedTarget? ('<' :: (inner ++ '>' :: tail)) =
      if inner = [] then none else some ('<' :: inner ++ ['>'], tail) := by
  rw [wrappedTarget?, Text.cut?_singleton_iff.2 ⟨rfl, hi⟩]
  cases inner with
  | nil => rfl
  | cons c inner => rfl

section Reading

variable {alt lead target tail : Text}

theorem read?_opened (ha : ']' ∉ alt) (hl : lead.allBlank) {body : Text}
    (hb : ∀ c ∈ body.head?, Text.isBlank c = false) :
    read? ("![".text ++ alt ++ "](".text ++ (lead ++ body)) =
      (inside? wrappedTarget? alt lead body <|> inside? bareTarget? alt lead body) := by
  have hspan : (lead ++ body).spanBlanks = (lead, body) := Text.spanBlanks_eq_iff.2 ⟨rfl, hl, hb⟩
  rw [read?, opening?_append ha]
  dsimp only
  rw [hspan]

theorem inside?_bare (hne : target ≠ []) (ht : ∀ c ∈ target, inBareTarget c)
    (htail : ∀ c ∈ tail.head?, inBareTarget c = false) :
    inside? bareTarget? alt lead (target ++ tail) =
      (ending? tail).map fun ((title?, trail), rest) =>
        (⟨alt, lead, target, title?, trail⟩, rest) := by
  rw [inside?, bareTarget?_append hne ht htail]

/-- Looking for a bracketed target in front makes no difference to a bare one, unless it starts with
a bracket that is not closed within it. -/
theorem inside?_wrapped_or_bare (hne : target ≠ []) (ht : ∀ c ∈ target, inBareTarget c)
    (htail : ∀ c ∈ tail.head?, inBareTarget c = false)
    (hclosed : target.head? = some '<' → '>' ∈ target) :
    (inside? wrappedTarget? alt lead (target ++ tail) <|>
        inside? bareTarget? alt lead (target ++ tail)) =
      inside? bareTarget? alt lead (target ++ tail) := by
  have hnone {t : Text} (h : wrappedTarget? t = none) :
      (inside? wrappedTarget? alt lead t <|> inside? bareTarget? alt lead t) =
        inside? bareTarget? alt lead t := by
    rw [inside?, h]
    rfl
  obtain ⟨c, start, rfl⟩ := List.exists_cons_of_ne_nil hne
  by_cases hc : c = '<'
  · subst hc
    have hmem : '>' ∈ start := (List.mem_cons.1 (hclosed rfl)).resolve_left (by decide)
    obtain ⟨inner, more, rfl, hi⟩ := List.eq_append_cons_of_mem hmem
    have hwrapped : wrappedTarget? ('<' :: (inner ++ '>' :: more) ++ tail) =
        if inner = [] then none else some ('<' :: inner ++ ['>'], more ++ tail) := by
      simpa using wrappedTarget?_append hi (more ++ tail)
    by_cases hnil : inner = []
    · rw [if_pos hnil] at hwrapped
      exact hnone hwrapped
    · rw [if_neg hnil] at hwrapped
      cases more with
      | nil =>
        -- The bracketed target is the whole of the bare one.
        have hsame : inside? wrappedTarget? alt lead ('<' :: (inner ++ ['>']) ++ tail) =
            inside? bareTarget? alt lead ('<' :: (inner ++ ['>']) ++ tail) := by
          rw [inside?_bare hne ht htail, inside?, hwrapped]
          rfl
        rw [hsame]
        cases inside? bareTarget? alt lead ('<' :: (inner ++ ['>']) ++ tail) <;> rfl
      | cons d more =>
        have hd : inBareTarget d := ht d (by simp)
        have hends : inside? wrappedTarget? alt lead ('<' :: (inner ++ '>' :: d :: more) ++ tail) =
            none := by
          rw [inside?, hwrapped]
          dsimp only [List.cons_append]
          rw [ending?_of_inBareTarget hd]
          rfl
        rw [hends]
        rfl
  · refine hnone ?_
    rw [List.cons_append, wrappedTarget?]
    exact fun s heq => hc (List.cons.inj heq).1

theorem read?_bare (ha : ']' ∉ alt) (hl : lead.allBlank) (hne : target ≠ [])
    (ht : ∀ c ∈ target, inBareTarget c) (htail : ∀ c ∈ tail.head?, inBareTarget c = false)
    (hclosed : target.head? = some '<' → '>' ∈ target) :
    read? ("![".text ++ alt ++ "](".text ++ (lead ++ (target ++ tail))) =
      (ending? tail).map fun ((title?, trail), rest) =>
        (⟨alt, lead, target, title?, trail⟩, rest) := by
  have hfirst : ∀ c ∈ (target ++ tail).head?, Text.isBlank c = false := by
    obtain ⟨c, more, rfl⟩ := List.exists_cons_of_ne_nil hne
    rintro _ ⟨⟩
    exact isBlank_of_inBareTarget (ht c List.mem_cons_self)
  rw [read?_opened ha hl hfirst, inside?_wrapped_or_bare hne ht htail hclosed,
    inside?_bare hne ht htail]

theorem read?_wrapped (ha : ']' ∉ alt) (hl : lead.allBlank) {inner : Text} (hne : inner ≠ [])
    (hi : '>' ∉ inner) (hends : (ending? tail).isSome) :
    read? ("![".text ++ alt ++ "](".text ++ (lead ++ ('<' :: inner ++ ['>'] ++ tail))) =
      (ending? tail).map fun ((title?, trail), rest) =>
        (⟨alt, lead, '<' :: inner ++ ['>'], title?, trail⟩, rest) := by
  obtain ⟨⟨⟨title?, trail⟩, rest⟩, hends⟩ := Option.isSome_iff_exists.1 hends
  have hwrapped := wrappedTarget?_append hi tail
  rw [if_neg hne] at hwrapped
  have hfirst : ∀ c ∈ ('<' :: (inner ++ '>' :: tail)).head?, Text.isBlank c = false := by
    rintro _ ⟨⟩
    decide
  have hread := read?_opened ha hl hfirst
  rw [inside?, hwrapped] at hread
  dsimp only at hread
  rw [hends] at hread ⊢
  simpa using hread

end Reading

theorem IsWritten.isRead (h : i.IsWritten) : i.IsRead :=
  ⟨h.alt, h.lead, .inl ⟨h.target_ne_nil, h.target⟩, h.title, h.trail⟩

/-- A reference is read from its source wherever that stands, unless its target starts with a
bracket that is not closed within it. -/
theorem IsRead.read?_append (h : i.IsRead) (hclosed : i.target.head? = some '<' → '>' ∈ i.target)
    (rest : Text) : read? (i.source ++ rest) = some (i, rest) := by
  set tail := titleSource i.title? ++ i.trail ++ ')' :: rest with htail
  have hends : ending? tail = some ((i.title?, i.trail), rest) :=
    ending?_append h.title h.trail rest
  have hsource : i.source ++ rest =
      "![".text ++ i.alt ++ "](".text ++ (i.lead ++ (i.target ++ tail)) := by
    simp [source, htail]
  rw [hsource]
  rcases h.target with ⟨hne, hbare⟩ | ⟨inner, hne, hi, htarget⟩
  · rw [read?_bare h.alt h.lead hne hbare (head?_ending h.title h.trail rest) hclosed, hends]
    rfl
  · rw [htarget, read?_wrapped h.alt h.lead hne hi (Option.isSome_of_eq_some hends), hends,
      ← htarget]
    rfl

theorem read?_source_append (h : i.IsWritten) (rest : Text) :
    read? (i.source ++ rest) = some (i, rest) :=
  h.isRead.read?_append (fun hhead => absurd hhead h.unwrapped) rest

theorem allBlank_of_close? {s trail rest : Text} (h : close? s = some (trail, rest)) :
    trail.allBlank := by
  unfold close? at h
  split at h
  · rename_i hspan
    obtain ⟨rfl, rfl⟩ := Prod.mk.inj (Option.some.inj h)
    exact (Text.spanBlanks_eq_iff.1 hspan).2.1
  · cases h

theorem isWritten_of_ending? {s trail rest : Text} {title? : Option Title}
    (h : ending? s = some ((title?, trail), rest)) :
    (∀ t ∈ title?, t.IsWritten) ∧ trail.allBlank := by
  unfold ending? at h
  split at h
  · rename_i title more hread
    obtain ⟨⟨blanks, behind⟩, hclose, heq⟩ := Option.map_eq_some_iff.1 h
    obtain ⟨⟨rfl, rfl⟩, rfl⟩ : (some title = title? ∧ blanks = trail) ∧ behind = rest := by
      simpa using heq
    refine ⟨?_, allBlank_of_close? hclose⟩
    rintro _ ⟨⟩
    exact Title.isWritten_of_read? hread
  · obtain ⟨⟨blanks, behind⟩, hclose, heq⟩ := Option.map_eq_some_iff.1 h
    obtain ⟨⟨rfl, rfl⟩, rfl⟩ : (none = title? ∧ blanks = trail) ∧ behind = rest := by
      simpa using heq
    exact ⟨nofun, allBlank_of_close? hclose⟩

theorem exists_of_wrappedTarget? {s target rest : Text}
    (h : wrappedTarget? s = some (target, rest)) :
    ∃ inner, inner ≠ [] ∧ '>' ∉ inner ∧ target = '<' :: inner ++ ['>'] := by
  unfold wrappedTarget? at h
  split at h
  · split at h
    · cases h
    · cases h
    · rename_i inner more hne hcut
      obtain ⟨rfl, -⟩ := Prod.mk.inj (Option.some.inj h)
      exact ⟨inner, hne, (Text.cut?_singleton_iff.1 hcut).2, rfl⟩
  · cases h

theorem inBareTarget_of_bareTarget? {s target rest : Text}
    (h : bareTarget? s = some (target, rest)) : target ≠ [] ∧ ∀ c ∈ target, inBareTarget c := by
  unfold bareTarget? at h
  split at h
  · cases h
  · rename_i hne
    obtain ⟨rfl, -⟩ := Prod.mk.inj (Option.some.inj h)
    exact ⟨hne, fun c hc => List.mem_takeWhile_imp hc⟩

theorem isRead_of_inside? {target? : Text → Option (Text × Text)} {alt lead s rest : Text}
    (ha : ']' ∉ alt) (hl : lead.allBlank)
    (ht : ∀ {target more}, target? s = some (target, more) →
      (target ≠ [] ∧ ∀ c ∈ target, inBareTarget c) ∨
        ∃ inner, inner ≠ [] ∧ '>' ∉ inner ∧ target = '<' :: inner ++ ['>'])
    (h : inside? target? alt lead s = some (i, rest)) : i.IsRead := by
  unfold inside? at h
  split at h
  · cases h
  · rename_i target body htarget
    obtain ⟨⟨⟨title?, trail⟩, more⟩, hends, heq⟩ := Option.map_eq_some_iff.1 h
    obtain ⟨rfl, -⟩ := Prod.mk.inj heq
    obtain ⟨htitle, htrail⟩ := isWritten_of_ending? hends
    exact ⟨ha, hl, ht htarget, htitle, htrail⟩

theorem not_mem_of_opening? {s alt rest : Text} (h : opening? s = some (alt, rest)) :
    ']' ∉ alt := by
  unfold opening? at h
  split at h
  · cases h
  · split at h
    · cases h
    · obtain ⟨rfl, -⟩ := Prod.mk.inj (Option.some.inj h)
      intro hmem
      simpa using List.mem_takeWhile_imp hmem

theorem isRead_of_read? {s rest : Text} (h : read? s = some (i, rest)) : i.IsRead := by
  unfold read? at h
  split at h
  · cases h
  · rename_i alt body hopening
    have ha := not_mem_of_opening? hopening
    rcases hspan : body.spanBlanks with ⟨lead, more⟩
    obtain ⟨-, hl, -⟩ := Text.spanBlanks_eq_iff.1 hspan
    rw [hspan] at h
    dsimp only at h
    rw [Option.orElse_eq_orElse, Option.orElse_eq_or, Option.or_eq_some_iff] at h
    rcases h with h | ⟨-, h⟩
    · exact isRead_of_inside? ha hl (fun ht => .inr (exists_of_wrappedTarget? ht)) h
    · exact isRead_of_inside? ha hl (fun ht => .inl (inBareTarget_of_bareTarget? ht)) h

def embedded (i : Image) (p : Path) (bytes : List UInt8) : Image where
  alt := i.alt
  lead := []
  target := "data:".text ++ mediaType p ++ ";base64,".text ++ Base64.encode bytes
  title? := i.title?.map fun t => ⟨[' '], '"', t.text⟩
  trail := []

theorem source_embedded (i : Image) (p : Path) (bytes : List UInt8) :
    (i.embedded p bytes).source = i.embed p bytes := by
  have hjoin : "](data:".text = "](".text ++ "data:".text := rfl
  cases htitle : i.title? with
  | none => simp [source, embedded, embed, titleSource, htitle, hjoin]
  | some t => simp [source, embedded, embed, titleSource, Title.source, htitle, hjoin]

/-- Whether a character can stand in a bare target and starts no directive. -/
def isCarried (c : Char) : Bool := inBareTarget c && c ≠ '\x7b'

theorem isCarried_mediaType (p : Path) : ∀ c ∈ mediaType p, isCarried c := by
  unfold mediaType
  split
  · rename_i kind _ hfound
    have hall : mediaTypes.all fun entry => entry.2.text.all isCarried := by decide
    exact List.all_eq_true.1 (List.all_eq_true.1 hall _ (List.mem_of_find?_eq_some hfound))
  · exact List.all_eq_true.1 (by decide)

theorem isCarried_encode (bytes : List UInt8) : ∀ c ∈ Base64.encode bytes, isCarried c := by
  have hall : ∀ c ∈ '=' :: Base64.alphabet, isCarried c := List.all_eq_true.1 (by decide)
  have hdigit (n : Nat) : isCarried (Base64.digit n) := by
    apply hall
    have hlt : n % 64 < Base64.alphabet.length := Nat.mod_lt n (by decide)
    rw [Base64.digit, List.getD_eq_getElem?_getD, List.getElem?_eq_getElem hlt]
    exact List.mem_cons_of_mem _ (List.getElem_mem hlt)
  have hpad : isCarried '=' := hall '=' List.mem_cons_self
  fun_induction Base64.encode bytes with
  | case1 => simp
  | case2 a n => simp [hdigit, hpad]
  | case3 a b n => simp [hdigit, hpad]
  | case4 a b c rest n ih => simpa [hdigit] using ih

theorem isCarried_target (i : Image) (p : Path) (bytes : List UInt8) :
    ∀ c ∈ (i.embedded p bytes).target, isCarried c := by
  have hstart : ∀ c ∈ "data:".text, isCarried c := List.all_eq_true.1 (by decide)
  have hmiddle : ∀ c ∈ ";base64,".text, isCarried c := List.all_eq_true.1 (by decide)
  intro c hc
  simp only [embedded, List.mem_append] at hc
  rcases hc with ((hc | hc) | hc) | hc
  · exact hstart c hc
  · exact isCarried_mediaType p c hc
  · exact hmiddle c hc
  · exact isCarried_encode bytes c hc

theorem IsRead.isWritten_embedded (h : i.IsRead) (ht : ∀ t ∈ i.title?, '"' ∉ t.text) (p : Path)
    (bytes : List UInt8) : (i.embedded p bytes).IsWritten := by
  have hunwrapped : (i.embedded p bytes).target.head? ≠ some '<' := by
    show some 'd' ≠ some '<'
    decide
  refine ⟨h.alt, rfl, List.cons_ne_nil _ _, fun c hc => ?_, hunwrapped, fun t htitle => ?_, rfl⟩
  · have hcarried := isCarried_target i p bytes c hc
    exact (Bool.and_eq_true_iff.1 hcarried).1
  · obtain ⟨old, hold, rfl⟩ := Option.map_eq_some_iff.1 htitle
    have hblank : Text.allBlank [' '] := by decide
    exact ⟨List.cons_ne_nil _ _, hblank, .inl rfl, (h.title old hold).text_ne_nil, ht old hold⟩

theorem source_eq (i : Image) : i.source = ("![".text ++ i.alt) ++ ']' ::
    ('(' :: i.lead ++ i.target ++ titleSource i.title? ++ i.trail ++ [')']) := by
  have hjoin : "](".text = [']', '('] := rfl
  simp [source, hjoin]

theorem source_embedded_eq (i : Image) (p : Path) (bytes : List UInt8) :
    (i.embedded p bytes).source = ("![".text ++ i.alt) ++ ']' ::
      ('(' :: (i.embedded p bytes).target ++
        titleSource (i.title?.map fun t => ⟨[' '], '"', t.text⟩) ++ [')']) := by
  rw [source_eq]
  simp [embedded]

theorem isInfix_alt (i : Image) : ("![".text ++ i.alt) <:+: i.source := by
  rw [source_eq]
  exact (List.prefix_append _ _).isInfix

theorem exists_title_source {t : Title} (ht : i.title? = some t) :
    ∃ before, i.source = before ++ (t.text ++ t.mark :: (i.trail ++ [')'])) :=
  ⟨"![".text ++ i.alt ++ "](".text ++ i.lead ++ i.target ++ t.gap ++ [t.mark],
    by simp [source, titleSource, Title.source, ht]⟩

theorem isInfix_text {t : Title} (ht : i.title? = some t) : t.text <:+: i.source := by
  obtain ⟨before, hbefore⟩ := exists_title_source ht
  exact ⟨before, t.mark :: (i.trail ++ [')']), by rw [hbefore, List.append_assoc]⟩

/-- Whether a reference is read wherever it stands, and is a phrase also with the bytes of a file in
it: its title can be put between double quotes. -/
structure IsFirm (i : Image) : Prop where
  reads : ∀ rest, read? (i.source ++ rest) = some (i, rest)
  runs_on : i.source.RunsOn
  unreturned : '\r' ∉ i.source
  silent : i.source.silent
  title : ∀ t ∈ i.title?, '"' ∉ t.text

namespace IsFirm

theorem isPhrase (h : i.IsFirm) : i.source.IsPhrase :=
  ⟨⟨_, rfl⟩, h.runs_on, h.unreturned, h.silent⟩

theorem isWritten_embedded (h : i.IsFirm) (p : Path) (bytes : List UInt8) :
    (i.embedded p bytes).IsWritten :=
  (isRead_of_read? (h.reads [])).isWritten_embedded h.title p bytes

theorem runsOn_embedded (h : i.IsFirm) (p : Path) (bytes : List UInt8) :
    (i.embedded p bytes).source.RunsOn := by
  have htarget : '\n' ∉ (i.embedded p bytes).target :=
    fun hc => absurd (isCarried_target i p bytes _ hc) (by decide)
  have hold := h.runs_on
  rw [source_eq] at hold
  rw [source_embedded_eq]
  refine hold.swap (by decide) ?_
  cases htitle : i.title? with
  | none =>
    apply Text.runsOn_of_not_mem
    simp [titleSource, htarget]
  | some t =>
    obtain ⟨before, hbefore⟩ := exists_title_source htitle
    have hold : (t.text ++ t.mark :: (i.trail ++ [')'])).RunsOn :=
      Text.RunsOn.of_append (hbefore ▸ h.runs_on)
    have htext : (t.text ++ '"' :: [')']).RunsOn :=
      hold.swap (by decide) (Text.runsOn_of_not_mem (by decide))
    have hfront : '\n' ∉ '(' :: (i.embedded p bytes).target ++ [' ', '"'] := by
      simp [htarget]
    have hwhole := htext.append hfront
    simpa [titleSource, Title.source] using hwhole

theorem silent_embedded (h : i.IsFirm) (p : Path) (bytes : List UInt8) :
    (i.embedded p bytes).source.silent := by
  have hbrace : '\x7b' ∉ (i.embedded p bytes).target :=
    fun hc => absurd (isCarried_target i p bytes _ hc) (by decide)
  have hbracket : ∀ k ∈ Directive.keywords, ']' ∉ k := by decide
  have hquote : ∀ k ∈ Directive.keywords, '"' ∉ k := by decide
  rw [source_embedded_eq]
  refine Text.silent_append_cons (Text.silent_of_infix h.silent i.isInfix_alt) ?_ hbracket
  cases htitle : i.title? with
  | none =>
    apply Text.silent_of_no_brace
    simp [titleSource, hbrace]
  | some t =>
    have htext : t.text.silent := Text.silent_of_infix h.silent (isInfix_text htitle)
    have hends : (t.text ++ '"' :: [')']).silent :=
      Text.silent_append_cons htext (Text.silent_of_no_brace (by decide)) hquote
    have htarget : Text.silent ('(' :: (i.embedded p bytes).target ++ [' ']) := by
      apply Text.silent_of_no_brace
      simp [hbrace]
    have hwhole := Text.silent_append_cons htarget hends hquote
    simpa [titleSource, Title.source] using hwhole

theorem embedded (h : i.IsFirm) (p : Path) (bytes : List UInt8) : (i.embedded p bytes).IsFirm := by
  have htarget : '\r' ∉ (i.embedded p bytes).target :=
    fun hc => absurd (isCarried_target i p bytes _ hc) (by decide)
  have hfront : '\r' ∉ "![".text ++ i.alt := fun hc => h.unreturned (i.isInfix_alt.subset hc)
  refine ⟨read?_source_append (h.isWritten_embedded p bytes), h.runsOn_embedded p bytes, ?_,
    h.silent_embedded p bytes, fun t ht => ?_⟩
  · rw [source_embedded_eq, List.mem_append, not_or]
    refine ⟨hfront, ?_⟩
    cases htitle : i.title? with
    | none => simp [titleSource, htarget]
    | some t =>
      have htext : '\r' ∉ t.text := fun hc => h.unreturned ((isInfix_text htitle).subset hc)
      simp [titleSource, Title.source, htarget, htext]
  · obtain ⟨old, hold, rfl⟩ := Option.map_eq_some_iff.1 ht
    exact h.title old hold

end IsFirm

end Image
end Transclude

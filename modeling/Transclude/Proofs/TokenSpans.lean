import Mathlib.Data.List.Chain
import Transclude.Proofs.DirectiveForms

/-! Where the tokens of a text stand. They cover the text in order, no directive reaches into fenced
code, and none that could be read outside of it is passed over. -/

namespace Transclude

namespace Token

/-- Whether the tokens stand one behind the other from `start` to `stop`. -/
def Covers (stop : Nat) : Nat → List (Nat × Token) → Prop
  | start, [] => start = stop
  | start, (offset, token) :: rest => offset = start ∧ Covers stop (start + token.source.length) rest

/-- Whether two tokens may be neighbours. -/
def Apart : Token → Token → Prop
  | .plain _, .plain _ => False
  | _, _ => True

theorem covers_locate (start : Nat) (tokens : List Token) :
    Covers (start + (join tokens).length) start (locate start tokens) := by
  induction tokens generalizing start with
  | nil => rfl
  | cons t rest ih =>
    refine ⟨rfl, ?_⟩
    rw [join_cons, List.length_append, ← Nat.add_assoc]
    exact ih (start + t.source.length)

theorem locate_append (start : Nat) (xs ys : List Token) :
    locate start (xs ++ ys) = locate start xs ++ locate (start + (join xs).length) ys := by
  induction xs generalizing start with
  | nil => rfl
  | cons t xs ih =>
    rw [List.cons_append, locate, locate, ih, join_cons, List.length_append, Nat.add_assoc]
    rfl

theorem exists_of_mem_locate {start p : Nat} {t : Token} {tokens : List Token}
    (h : (p, t) ∈ locate start tokens) :
    ∃ xs ys, tokens = xs ++ t :: ys ∧ p = start + (join xs).length := by
  induction tokens generalizing start with
  | nil => cases h
  | cons u rest ih =>
    rcases List.mem_cons.1 h with heq | h
    · obtain ⟨rfl, rfl⟩ := Prod.mk.inj heq
      exact ⟨[], rest, rfl, rfl⟩
    · obtain ⟨xs, ys, rfl, rfl⟩ := ih h
      refine ⟨u :: xs, ys, rfl, ?_⟩
      rw [join_cons, List.length_append, Nat.add_assoc]

theorem source_of_mem_locate {p : Nat} {t : Token} {tokens : List Token}
    (h : (p, t) ∈ locate 0 tokens) :
    t.source = ((join tokens).drop p).take t.source.length := by
  obtain ⟨xs, ys, rfl, rfl⟩ := exists_of_mem_locate h
  rw [Nat.zero_add, join_append, join_cons, List.drop_left, List.take_left]

/-- Only plain tokens are put together, so no directive is moved. -/
theorem mem_locate_pushText {start p : Nat} {d : Directive} (s : Text) (tokens : List Token) :
    (p, .found d) ∈ locate start (Chunk.pushText s tokens) ↔
      (p, .found d) ∈ locate (start + s.length) tokens := by
  cases tokens with
  | nil => simp [Chunk.pushText, locate]
  | cons t rest =>
    cases t with
    | plain u => simp [Chunk.pushText, locate, source, Chunk.source, Nat.add_assoc]
    | found e => simp [Chunk.pushText, locate, source, Chunk.source]

theorem mem_locate_merge {start p : Nat} {d : Directive} (tokens : List Token) :
    (p, .found d) ∈ locate start (Chunk.merge tokens) ↔ (p, .found d) ∈ locate start tokens := by
  induction tokens generalizing start with
  | nil => rfl
  | cons t rest ih =>
    cases t with
    | plain s =>
      have hother : (p, .found d) ≠ (start, Chunk.plain s) := by simp
      rw [Chunk.merge, mem_locate_pushText, ih, locate, List.mem_cons]
      exact (or_iff_right hother).symm
    | found e =>
      rw [Chunk.merge, locate, locate, List.mem_cons, List.mem_cons, ih]

theorem isChain_merge {tokens : List Token} (h : ∀ t ∈ tokens, source t ≠ []) :
    (∀ t ∈ Chunk.merge tokens, source t ≠ []) ∧ (Chunk.merge tokens).IsChain Apart := by
  induction tokens with
  | nil => exact ⟨nofun, .nil⟩
  | cons t rest ih =>
    obtain ⟨hhead, hrest⟩ := List.forall_mem_cons.1 h
    obtain ⟨hne, hchain⟩ := ih hrest
    cases t with
    | found d =>
      refine ⟨List.forall_mem_cons.2 ⟨hhead, hne⟩, List.isChain_cons.2 ⟨fun _ _ => ?_, hchain⟩⟩
      trivial
    | plain s =>
      have hs : s ≠ [] := hhead
      rw [Chunk.merge]
      generalize Chunk.merge rest = merged at hne hchain
      cases merged with
      | nil => exact ⟨List.forall_mem_singleton.2 hhead, .singleton _⟩
      | cons u merged =>
        cases u with
        | plain v =>
          obtain ⟨-, hmerged⟩ := List.forall_mem_cons.1 hne
          obtain ⟨hnext, htail⟩ := List.isChain_cons.1 hchain
          refine ⟨List.forall_mem_cons.2 ⟨List.append_ne_nil_of_left_ne_nil hs v, hmerged⟩,
            List.isChain_cons.2 ⟨fun w hw => ?_, htail⟩⟩
          have hapart := hnext w hw
          cases w with
          | plain x => exact hapart
          | found e => trivial
        | found d =>
          refine ⟨List.forall_mem_cons.2 ⟨hhead, hne⟩, List.isChain_cons.2 ⟨?_, hchain⟩⟩
          intro u hu
          obtain rfl := Option.some.inj hu
          trivial

end Token

namespace Piece

def Apart : Piece → Piece → Prop
  | .prose _, .prose _ => False
  | _, _ => True

/-- Whether every piece has text and no two of prose are neighbours. -/
def Proper (pieces : List Piece) : Prop :=
  (∀ piece ∈ pieces, piece.text ≠ []) ∧ pieces.IsChain Apart

theorem Proper.code {pieces : List Piece} {line : Text} (hl : line ≠ []) (h : Proper pieces) :
    Proper (.code line :: pieces) := by
  obtain ⟨hne, hchain⟩ := h
  exact ⟨List.forall_mem_cons.2 ⟨hl, hne⟩, List.isChain_cons.2 ⟨fun _ _ => trivial, hchain⟩⟩

theorem Proper.pushCode {pieces : List Piece} {line : Text} (hl : line ≠ []) (h : Proper pieces) :
    Proper (pushCode line pieces) := by
  cases pieces with
  | nil => exact h.code hl
  | cons piece rest =>
    cases piece with
    | prose s => exact h.code hl
    | code s =>
      obtain ⟨hne, hchain⟩ := h
      have hrest : Proper rest :=
        ⟨(List.forall_mem_cons.1 hne).2, (List.isChain_cons.1 hchain).2⟩
      exact hrest.code (List.append_ne_nil_of_left_ne_nil hl s)

theorem Proper.pushProse {pieces : List Piece} {line : Text} (hl : line ≠ []) (h : Proper pieces) :
    Proper (pushProse line pieces) := by
  obtain ⟨hne, hchain⟩ := h
  cases pieces with
  | nil => exact ⟨List.forall_mem_singleton.2 hl, .singleton _⟩
  | cons piece rest =>
    cases piece with
    | code s =>
      refine ⟨List.forall_mem_cons.2 ⟨hl, hne⟩, List.isChain_cons.2 ⟨?_, hchain⟩⟩
      intro piece hpiece
      obtain rfl := Option.some.inj hpiece
      trivial
    | prose s =>
      obtain ⟨-, hrest⟩ := List.forall_mem_cons.1 hne
      obtain ⟨hnext, htail⟩ := List.isChain_cons.1 hchain
      refine ⟨List.forall_mem_cons.2 ⟨List.append_ne_nil_of_left_ne_nil hl s, hrest⟩,
        List.isChain_cons.2 ⟨fun piece hpiece => ?_, htail⟩⟩
      have hapart := hnext piece hpiece
      cases piece with
      | prose t => exact hapart
      | code t => trivial

theorem proper_ofLines {ls : List Text} (h : ∀ l ∈ ls, l ≠ []) (open? : Option Fence) :
    Proper (ofLines open? ls) := by
  induction ls generalizing open? with
  | nil => exact ⟨nofun, .nil⟩
  | cons line rest ih =>
    obtain ⟨hl, hrest⟩ := List.forall_mem_cons.1 h
    have hnext (next : Option Fence) : Proper (ofLines next rest) := ih hrest next
    cases open? with
    | none =>
      cases hstep : (Fence.step none line).2 with
      | none => exact ofLines_prose rest hstep ▸ (hnext none).pushProse hl
      | some fence => exact ofLines_opening rest hstep ▸ (hnext (some fence)).pushCode hl
    | some fence =>
      cases hstep : (Fence.step (some fence) line).2 with
      | none => exact ofLines_closing rest hstep ▸ (hnext none).code hl
      | some next => exact ofLines_fenced rest hstep ▸ (hnext (some next)).pushCode hl

theorem proper_cut (s : Text) : Proper (cut s) := by
  have hends (ls : List Text) : ∀ l ∈ Text.endLines ls, l ≠ [] := by
    fun_induction Text.endLines ls with
    | case1 => exact List.forall_mem_nil _
    | case2 => exact List.forall_mem_nil _
    | case3 line hne => exact List.forall_mem_singleton.2 hne
    | case4 line next rest ih =>
      exact List.forall_mem_cons.2 ⟨List.append_ne_nil_of_right_ne_nil line (by simp), ih⟩
  exact proper_ofLines (hends _) none

theorem spans_append (start : Nat) (xs ys : List Piece) :
    spans start (xs ++ ys) = spans start xs ++ spans (start + (xs.flatMap text).length) ys := by
  induction xs generalizing start with
  | nil => rfl
  | cons x xs ih =>
    cases x with
    | prose s =>
      rw [List.cons_append, spans, spans, ih, List.flatMap_cons, List.length_append, Nat.add_assoc]
      rfl
    | code s =>
      rw [List.cons_append, spans, spans, ih, List.flatMap_cons, List.length_append, Nat.add_assoc]
      rfl

theorem bounds_of_mem_spans {start : Nat} {pieces : List Piece} {span : Nat × Nat}
    (h : span ∈ spans start pieces) :
    start ≤ span.1 ∧ span.2 ≤ start + (pieces.flatMap text).length := by
  induction pieces generalizing start with
  | nil => cases h
  | cons piece rest ih =>
    have hlength : ((piece :: rest).flatMap text).length =
        piece.text.length + (rest.flatMap text).length := by
      rw [List.flatMap_cons, List.length_append]
    rw [hlength]
    have hlater (h : span ∈ spans (start + piece.text.length) rest) :
        start ≤ span.1 ∧ span.2 ≤ start + (piece.text.length + (rest.flatMap text).length) := by
      obtain ⟨hstart, hend⟩ := ih h
      omega
    cases piece with
    | prose s => exact hlater h
    | code s =>
      rcases List.mem_cons.1 h with rfl | h
      · change start ≤ start ∧ start + s.length ≤ start + (s.length + _)
        omega
      · exact hlater h

/-- No span of code reaches into a piece of prose. -/
theorem spans_apart {start : Nat} {before after : List Piece} {s : Text} {span : Nat × Nat}
    (h : span ∈ spans start (before ++ .prose s :: after)) :
    span.2 ≤ start + (before.flatMap text).length ∨
      start + (before.flatMap text).length + s.length ≤ span.1 := by
  rw [spans_append, List.mem_append] at h
  rcases h with h | h
  · exact .inl (bounds_of_mem_spans h).2
  · have hlater : span ∈ spans (start + (before.flatMap text).length + s.length) after := h
    exact .inr (bounds_of_mem_spans hlater).1

theorem exists_prose_around {pieces : List Piece} (hproper : Proper pieces) {start p n : Nat}
    (hstart : start ≤ p) (hn : 0 < n) (hend : p + n ≤ start + (pieces.flatMap text).length)
    (hclear : ∀ span ∈ spans start pieces, p + n ≤ span.1 ∨ span.2 ≤ p) :
    ∃ before s after, pieces = before ++ .prose s :: after ∧
      start + (before.flatMap text).length ≤ p ∧
      p + n ≤ start + (before.flatMap text).length + s.length := by
  induction pieces generalizing start with
  | nil =>
    rw [List.flatMap_nil, List.length_nil] at hend
    omega
  | cons piece rest ih =>
    obtain ⟨hne, hchain⟩ := hproper
    obtain ⟨hhead, hrest⟩ := List.forall_mem_cons.1 hne
    obtain ⟨hnext, htail⟩ := List.isChain_cons.1 hchain
    rw [List.flatMap_cons, List.length_append] at hend
    have hlater (hp : start + piece.text.length ≤ p)
        (hclear : ∀ span ∈ spans (start + piece.text.length) rest, p + n ≤ span.1 ∨ span.2 ≤ p) :
        ∃ before s after, piece :: rest = before ++ .prose s :: after ∧
          start + (before.flatMap text).length ≤ p ∧
          p + n ≤ start + (before.flatMap text).length + s.length := by
      obtain ⟨before, s, after, rfl, hbefore, hafter⟩ := ih ⟨hrest, htail⟩ hp (by omega) hclear
      refine ⟨piece :: before, s, after, rfl, ?_, ?_⟩
      · rw [List.flatMap_cons, List.length_append]
        omega
      · rw [List.flatMap_cons, List.length_append]
        omega
    cases piece with
    | code s =>
      obtain ⟨hfirst, hclear⟩ := List.forall_mem_cons.1 hclear
      have hp : start + s.length ≤ p := hfirst.resolve_left fun hle => by
        have hle' : p + n ≤ start := hle
        omega
      exact hlater hp hclear
    | prose s =>
      change p + n ≤ start + (s.length + _) at hend
      by_cases hin : p + n ≤ start + s.length
      · exact ⟨[], s, rest, rfl, hstart, hin⟩
      · by_cases hp : start + s.length ≤ p
        · exact hlater hp hclear
        · -- The piece behind this one would be code that stands between the characters.
          exfalso
          cases rest with
          | nil =>
            rw [List.flatMap_nil, List.length_nil] at hend
            omega
          | cons next rest =>
            cases next with
            | prose t => exact hnext _ rfl
            | code t =>
              have hpos : 0 < t.length :=
                List.length_pos_iff.2 (hrest (.code t) List.mem_cons_self)
              have hspan := hclear (start + s.length, start + s.length + t.length)
                List.mem_cons_self
              dsimp only at hspan
              omega

end Piece

namespace Token

open Directive (pattern)

theorem source_ne_nil_of_mem_scan {s : Text} : ∀ t ∈ pattern.scan s, source t ≠ [] := by
  have hpush {t : Text} (ht : t ≠ []) {tokens : List Token} (h : ∀ u ∈ tokens, source u ≠ []) :
      ∀ u ∈ Chunk.pushText t tokens, source u ≠ [] := by
    fun_cases Chunk.pushText t tokens with
    | case1 v rest =>
      obtain ⟨-, hrest⟩ := List.forall_mem_cons.1 h
      exact List.forall_mem_cons.2 ⟨List.append_ne_nil_of_left_ne_nil ht v, hrest⟩
    | case2 => exact List.forall_mem_cons.2 ⟨ht, h⟩
  fun_induction pattern.scan s with
  | case1 => exact List.forall_mem_nil _
  | case2 c s d rest hread _ ih => exact List.forall_mem_cons.2 ⟨d.source_ne_nil, ih⟩
  | case3 c s hread ih => exact hpush (List.cons_ne_nil c []) ih

theorem isTight_of_mem_scan {s : Text} {d : Directive} (h : .found d ∈ pattern.scan s) :
    d.IsTight := by
  fun_induction pattern.scan s with
  | case1 => cases h
  | case2 c s e rest hread _ ih =>
    rcases List.mem_cons.1 h with heq | h
    · obtain rfl := Chunk.found.inj heq
      exact Directive.isTight_of_read? hread
    · exact ih h
  | case3 c s hread ih => exact ih ((Directive.mem_pushText [c]).1 h)

/-- Where a directive can be read, one is found there or has been found around that place. -/
theorem exists_found_of_read? {s : Text} {k : Nat} (h : (Directive.read? (s.drop k)).isSome)
    (start : Nat) : ∃ q d, (start + q, .found d) ∈ locate start (pattern.scan s) ∧
      q ≤ k ∧ k < q + d.source.length := by
  fun_induction pattern.scan s generalizing k start with
  | case1 =>
    rw [List.drop_nil] at h
    exact absurd h (by decide)
  | case2 c s d rest hread _ ih =>
    have hsource : d.source ++ rest = c :: s := Directive.source_of_read? hread
    by_cases hk : k < d.source.length
    · exact ⟨0, d, List.mem_cons_self, Nat.zero_le k, by omega⟩
    · have hdrop : (c :: s).drop k = rest.drop (k - d.source.length) := by
        rw [← hsource, List.drop_append, List.drop_eq_nil_of_le (by omega), List.nil_append]
      rw [hdrop] at h
      obtain ⟨q, e, hmem, hle, hlt⟩ := ih h (start + d.source.length)
      refine ⟨d.source.length + q, e, List.mem_cons_of_mem _ ?_, by omega, by omega⟩
      rw [← Nat.add_assoc]
      exact hmem
  | case3 c s hread ih =>
    cases k with
    | zero =>
      rw [List.drop_zero] at h
      change (pattern.read? (c :: s)).isSome at h
      rw [hread] at h
      cases h
    | succ k =>
      obtain ⟨q, e, hmem, hle, hlt⟩ := ih h (start + 1)
      refine ⟨q + 1, e, (mem_locate_pushText _ _).2 ?_, by omega, by omega⟩
      rw [Nat.add_comm q 1, ← Nat.add_assoc]
      exact hmem

theorem mem_locate_tokenize {p : Nat} {d : Directive} {s : Text} :
    (p, .found d) ∈ locate 0 (tokenize s) ↔
      ∃ before t after, Piece.cut s = before ++ .prose t :: after ∧
        (p, .found d) ∈ locate (before.flatMap Piece.text).length (pattern.scan t) := by
  have hall (pieces : List Piece) (start : Nat) :
      (p, .found d) ∈ locate start (pieces.flatMap ofPiece) ↔
        ∃ before t after, pieces = before ++ .prose t :: after ∧
          (p, .found d) ∈ locate (start + (before.flatMap Piece.text).length) (pattern.scan t) := by
    constructor
    · intro h
      induction pieces generalizing start with
      | nil => cases h
      | cons piece rest ih =>
        rw [List.flatMap_cons, locate_append, List.mem_append, join_ofPiece] at h
        rcases h with h | h
        · cases piece with
          | prose t => exact ⟨[], t, rest, rfl, h⟩
          | code t => exact absurd h (by simp [ofPiece, locate])
        · obtain ⟨before, t, after, rfl, hmem⟩ := ih _ h
          refine ⟨piece :: before, t, after, rfl, ?_⟩
          rw [List.flatMap_cons, List.length_append, ← Nat.add_assoc]
          exact hmem
    · rintro ⟨before, t, after, rfl, hmem⟩
      rw [List.flatMap_append, List.flatMap_cons, locate_append,
        join_flatMap_ofPiece, locate_append]
      exact List.mem_append_right _ (List.mem_append_left _ hmem)
  rw [tokenize, mem_locate_merge, hall]
  simp only [Nat.zero_add]

def OutsideCode (s : Text) (start stop : Nat) : Prop :=
  ∀ span ∈ Piece.codeSpans s, stop ≤ span.1 ∨ span.2 ≤ start

theorem outsideCode_of_mem {s : Text} {p : Nat} {d : Directive}
    (h : (p, .found d) ∈ locate 0 (tokenize s)) :
    OutsideCode s p (p + d.source.length) ∧ d.IsTight := by
  obtain ⟨before, t, after, hcut, hmem⟩ := mem_locate_tokenize.1 h
  obtain ⟨xs, ys, hscan, hp⟩ := exists_of_mem_locate hmem
  have hbound : p + d.source.length ≤ (before.flatMap Piece.text).length + t.length := by
    have hjoin : join (pattern.scan t) = t := pattern.sources_scan t
    rw [hscan, join_append, join_cons] at hjoin
    have hlength := congrArg List.length hjoin
    rw [List.length_append, List.length_append] at hlength
    change _ + (d.source.length + _) = _ at hlength
    omega
  refine ⟨fun span hspan => ?_, isTight_of_mem_scan (?_ : .found d ∈ pattern.scan t)⟩
  · rw [Piece.codeSpans, hcut] at hspan
    have hapart := Piece.spans_apart hspan
    omega
  · rw [hscan]
    exact List.mem_append_right xs List.mem_cons_self

theorem exists_prose_of_outsideCode {pre t post : Text} (ht : t ≠ [])
    (h : OutsideCode (pre ++ (t ++ post)) pre.length (pre.length + t.length)) :
    ∃ before u v after, Piece.cut (pre ++ (t ++ post)) = before ++ .prose (u ++ (t ++ v)) :: after ∧
      pre = before.flatMap Piece.text ++ u ∧ post = v ++ after.flatMap Piece.text := by
  have hend : pre.length + t.length ≤
      0 + ((Piece.cut (pre ++ (t ++ post))).flatMap Piece.text).length := by
    rw [Piece.flatMap_text_cut]
    simp only [List.length_append]
    omega
  obtain ⟨before, s, after, hcut, hstart, hstop⟩ := Piece.exists_prose_around
    (Piece.proper_cut _) (Nat.zero_le _) (List.length_pos_iff.2 ht) hend h
  rw [Nat.zero_add] at hstart hstop
  have hwhole : before.flatMap Piece.text ++ (s ++ after.flatMap Piece.text) =
      pre ++ (t ++ post) := by
    rw [← Piece.flatMap_text_cut (pre ++ (t ++ post)), hcut, List.flatMap_append, List.flatMap_cons]
    rfl
  obtain ⟨u, rfl⟩ := List.prefix_of_prefix_length_le ⟨_, hwhole⟩ (List.prefix_append pre _) hstart
  rw [List.append_assoc, List.append_cancel_left_eq] at hwhole
  have hs : u ++ t <+: s := by
    refine List.prefix_of_prefix_length_le ?_ (List.prefix_append s (after.flatMap Piece.text)) ?_
    · rw [hwhole, ← List.append_assoc]
      exact List.prefix_append _ _
    · simp only [List.length_append] at hstop ⊢
      omega
  obtain ⟨v, rfl⟩ := hs
  simp only [List.append_assoc, List.append_cancel_left_eq] at hwhole
  exact ⟨before, u, v, after, by rw [hcut, List.append_assoc], rfl, hwhole.symm⟩

theorem exists_found {s : Text} {p : Nat} {d : Directive} (hd : d.IsSpaced)
    (hp : d.source <+: s.drop p) (hout : OutsideCode s p (p + d.source.length)) :
    ∃ q e, (q, .found e) ∈ locate 0 (tokenize s) ∧ q ≤ p ∧ p < q + e.source.length := by
  obtain ⟨pre, post, rfl, rfl⟩ : ∃ pre post, s = pre ++ (d.source ++ post) ∧ p = pre.length := by
    obtain ⟨post, hpost⟩ := hp
    have hlt : p < s.length := by
      have hlength := congrArg List.length hpost
      have hpos : 0 < d.source.length := List.length_pos_iff.2 d.source_ne_nil
      rw [List.length_append, List.length_drop] at hlength
      omega
    refine ⟨s.take p, post, ?_, (List.length_take_of_le hlt.le).symm⟩
    rw [hpost, List.take_append_drop]
  obtain ⟨before, u, v, after, hcut, rfl, -⟩ := exists_prose_of_outsideCode d.source_ne_nil hout
  have hread := Directive.isSome_read?_of_isSpaced hd v
  have hdrop : (u ++ (d.source ++ v)).drop u.length = d.source ++ v := List.drop_left
  rw [← hdrop] at hread
  obtain ⟨q, e, hmem, hle, hlt⟩ := exists_found_of_read? hread (before.flatMap Piece.text).length
  rw [List.length_append]
  exact ⟨_, e, mem_locate_tokenize.2 ⟨before, _, after, hcut, hmem⟩, by omega, by omega⟩

/-- The tokens of a text cover it from its first character to its last, each with the characters that
stand at its place, and no two of plain text are neighbours. No directive among them reaches into
fenced code, each ends at its first closing mark, and wherever a directive is written outside of
fenced code there is one that starts there or one that has started before and is not yet over. -/
theorem tokenize_covers_and_finds (s : Text) :
    (Covers s.length 0 (locate 0 (tokenize s)) ∧ join (tokenize s) = s ∧
      (∀ p t, (p, t) ∈ locate 0 (tokenize s) →
        source t ≠ [] ∧ source t = (s.drop p).take (source t).length) ∧
      (tokenize s).IsChain Apart) ∧
    (∀ p d, (p, .found d) ∈ locate 0 (tokenize s) →
      OutsideCode s p (p + d.source.length) ∧ d.IsTight) ∧
    ∀ p (d : Directive), d.IsSpaced → d.source <+: s.drop p → OutsideCode s p (p + d.source.length) →
      ∃ q e, (q, .found e) ∈ locate 0 (tokenize s) ∧ q ≤ p ∧ p < q + e.source.length := by
  have hpieces : ∀ t ∈ (Piece.cut s).flatMap ofPiece, source t ≠ [] := by
    intro t ht
    obtain ⟨piece, hpiece, ht⟩ := List.mem_flatMap.1 ht
    cases piece with
    | prose u => exact source_ne_nil_of_mem_scan t ht
    | code u =>
      obtain rfl := List.mem_singleton.1 ht
      exact (Piece.proper_cut s).1 _ hpiece
  obtain ⟨hne, hchain⟩ := isChain_merge hpieces
  refine ⟨⟨?_, join_tokenize s, fun p t ht => ⟨?_, ?_⟩, hchain⟩, fun p d => outsideCode_of_mem,
    fun p d => exists_found⟩
  · have hcovers := covers_locate 0 (tokenize s)
    rwa [join_tokenize, Nat.zero_add] at hcovers
  · obtain ⟨xs, ys, htokens, -⟩ := exists_of_mem_locate ht
    refine hne t ?_
    change t ∈ tokenize s
    rw [htokens]
    exact List.mem_append_right xs List.mem_cons_self
  · have hsource := source_of_mem_locate ht
    rwa [join_tokenize] at hsource

end Token
end Transclude

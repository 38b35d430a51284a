import Mathlib.Data.List.TakeWhile
import Transclude.Proofs.BareDocuments

/-! How the collection of records divides a document. A block starts at an opening line outside
fences and ends at the first closing line behind it; what stands between the two is neither read nor
kept. Every other line is kept, and fences run from one kept line to the next, so that the lines that
are left read as they did among the blocks. -/

namespace Transclude
namespace Harvest

/-- A block as it stands in a document; only the last one can lack its closing line. -/
structure ItemBlock where
  opener : Text
  body : List Text
  closer? : Option Text
deriving DecidableEq, Repr

def FaultyEntry (line : Text) : Prop :=
  line.allBlank = false ∧ (':' ∉ line ∨ Text.allBlank (line.takeWhile (· ≠ ':')))

/-- Adds what one line of a block says; a name runs to the first colon. -/
def addEntry (attributes : Fields Text) (line : Text) : Fields Text :=
  if line.allBlank then attributes
  else attributes.set (Text.trim (line.takeWhile (· ≠ ':')))
    (Text.trim (line.dropWhile (· ≠ ':')).tail)

namespace ItemBlock

def lines (b : ItemBlock) : List Text := b.opener :: (b.body ++ b.closer?.toList)

def list (standard : Text) (b : ItemBlock) : Text :=
  match opening? b.opener with
  | none | some [] => standard
  | some name => name

def attributes (b : ItemBlock) : Fields Text := b.body.foldl addEntry []

/-- Whether a block yields a record. -/
def Sound (b : ItemBlock) : Prop := b.closer?.isSome ∧ ∀ line ∈ b.body, ¬ FaultyEntry line

theorem not_sound_iff {b : ItemBlock} :
    ¬ b.Sound ↔ b.closer? = none ∨ ∃ line ∈ b.body, FaultyEntry line := by
  rw [Sound, not_and_or, Bool.not_eq_true, Option.isSome_eq_false_iff, Option.isNone_iff_eq_none]
  simp only [not_forall, not_not, exists_prop]

end ItemBlock

inductive Part where
  | kept (line : Text) (kind : LineClass)
  | block (b : ItemBlock)
deriving DecidableEq, Repr

namespace Part

def lines : Part → List Text
  | .kept line _ => [line]
  | .block b => b.lines

def kept? : Part → Option (Text × LineClass)
  | .kept line kind => some (line, kind)
  | .block _ => none

def block? : Part → Option ItemBlock
  | .kept _ _ => none
  | .block b => some b

end Part

/-- The lines that stay, with the classes they had when they were read. -/
def classed (parts : List Part) : List (Text × LineClass) := parts.filterMap Part.kept?

def keptLines (parts : List Part) : List Text := (classed parts).map (·.1)

def blocks (parts : List Part) : List ItemBlock := parts.filterMap Part.block?

def Opens (open? : Option Fence) (line : Text) : Prop :=
  (Fence.step open? line).1.inFence = false ∧ (opening? line).isSome

/-- Whether `b` starts where `open?` is open and has `rest` behind it. -/
structure ItemBlock.Stands (open? : Option Fence) (rest : List Text) (b : ItemBlock) : Prop where
  opens : Opens open? b.opener
  body : ∀ line ∈ b.body, closes line = false
  closer : ∀ line ∈ b.closer?, closes line
  last : b.closer? = none → rest = []

/-- Whether some lines, in front of which `open?` is open, consist of these parts. -/
inductive Divides : Option Fence → List Text → List Part → Prop
  | done {open? : Option Fence} : Divides open? [] []
  | kept {open? : Option Fence} {line : Text} {rest : List Text} {parts : List Part} :
      ¬ Opens open? line → Divides (Fence.step open? line).2 rest parts →
      Divides open? (line :: rest) (.kept line (Fence.step open? line).1 :: parts)
  | block {open? : Option Fence} {b : ItemBlock} {rest : List Text} {parts : List Part} :
      b.Stands open? rest → Divides open? rest parts →
      Divides open? (b.lines ++ rest) (.block b :: parts)

section Dividing

variable {open? : Option Fence} {lines rest : List Text} {parts others : List Part}

theorem ItemBlock.Stands.span {b : ItemBlock} (h : b.Stands open? rest) :
    (b.lines ++ rest).tail.takeWhile (!closes ·) = b.body ∧
      (b.lines ++ rest).tail.dropWhile (!closes ·) = b.closer?.toList ++ rest := by
  have hall : ∀ line ∈ b.body, (!closes line) = true := fun line hline => by
    rw [h.body line hline]
    rfl
  have htail : (b.lines ++ rest).tail = b.body ++ (b.closer?.toList ++ rest) := by
    rw [ItemBlock.lines, List.cons_append, List.tail_cons, List.append_assoc]
  rw [htail, List.takeWhile_append_of_pos hall, List.dropWhile_append_of_pos hall]
  cases hcloser : b.closer? with
  | none =>
    rw [h.last hcloser]
    exact ⟨List.append_nil _, rfl⟩
  | some closer => simp [h.closer closer hcloser]

theorem ItemBlock.Stands.unique {b c : ItemBlock} {next? : Option Fence} {behind : List Text}
    (hb : b.Stands open? rest) (hc : c.Stands next? behind)
    (heq : b.lines ++ rest = c.lines ++ behind) : c = b ∧ behind = rest := by
  obtain ⟨hbody, hclose⟩ := hb.span
  obtain ⟨hbody', hclose'⟩ := hc.span
  rw [heq, hbody'] at hbody
  rw [heq, hclose'] at hclose
  obtain ⟨opener, body, closer?⟩ := b
  obtain ⟨opener', body', closer'?⟩ := c
  obtain rfl : opener = opener' := (List.cons.inj heq).1
  obtain rfl : body' = body := hbody
  cases closer? with
  | none =>
    obtain rfl := hb.last rfl
    obtain ⟨hnone, rfl⟩ := List.append_eq_nil_iff.1 hclose
    rw [Option.toList_eq_nil_iff] at hnone
    exact ⟨congrArg _ hnone, rfl⟩
  | some closer =>
    cases closer'? with
    | none =>
      obtain rfl := hc.last rfl
      cases hclose
    | some closer' =>
      obtain ⟨rfl, rfl⟩ := List.cons.inj hclose
      exact ⟨rfl, rfl⟩

theorem exists_stands {line : Text} (hopen : Opens open? line) (rest : List Text) :
    ∃ b behind, ItemBlock.Stands open? behind b ∧ line :: rest = b.lines ++ behind := by
  obtain ⟨body, tail, rfl, hbody, htail⟩ : ∃ body tail, rest = body ++ tail ∧
      (∀ l ∈ body, closes l = false) ∧ ∀ l ∈ tail.head?, closes l := by
    refine ⟨rest.takeWhile (!closes ·), rest.dropWhile (!closes ·),
      List.takeWhile_append_dropWhile.symm, ?_, ?_⟩
    · intro l hl
      simpa using List.mem_takeWhile_imp hl
    · intro l hl
      have hhead := List.head?_dropWhile_not (!closes ·) rest
      rw [Option.mem_def.1 hl] at hhead
      simpa using hhead
  cases tail with
  | nil => exact ⟨⟨line, body, none⟩, [], ⟨hopen, hbody, nofun, fun _ => rfl⟩, by
      simp [ItemBlock.lines]⟩
  | cons closer behind =>
    exact ⟨⟨line, body, some closer⟩, behind, ⟨hopen, hbody, htail, nofun⟩, by
      simp [ItemBlock.lines]⟩

theorem Divides.flatMap_lines (h : Divides open? lines parts) :
    parts.flatMap Part.lines = lines := by
  induction h with
  | done => rfl
  | kept _ _ ih => rw [List.flatMap_cons, ih]; rfl
  | block _ _ ih => rw [List.flatMap_cons, ih]; rfl

theorem Divides.unique (h : Divides open? lines parts) (h' : Divides open? lines others) :
    others = parts := by
  induction h generalizing others with
  | done =>
    generalize hl : ([] : List Text) = lines at h'
    cases h' with
    | done => rfl
    | kept => cases hl
    | block => cases hl
  | @kept open? line rest parts hline _ ih =>
    generalize hl : line :: rest = lines at h'
    cases h' with
    | done => cases hl
    | kept _ hrest =>
      obtain ⟨rfl, rfl⟩ := List.cons.inj hl
      rw [ih hrest]
    | block hstands _ =>
      obtain ⟨rfl, -⟩ := List.cons.inj hl
      exact absurd hstands.opens hline
  | @block open? b rest parts hstands _ ih =>
    generalize hl : b.lines ++ rest = lines at h'
    cases h' with
    | done => cases hl
    | kept hline _ =>
      obtain ⟨rfl, -⟩ := List.cons.inj hl
      exact absurd hstands.opens hline
    | block hstands' hrest' =>
      obtain ⟨rfl, rfl⟩ := hstands.unique hstands' hl
      rw [ih hrest']

theorem exists_divides (open? : Option Fence) (lines : List Text) :
    ∃ parts, Divides open? lines parts := by
  induction hn : lines.length using Nat.strongRecOn generalizing open? lines with
  | _ n ih =>
    subst hn
    cases lines with
    | nil => exact ⟨[], .done⟩
    | cons line rest =>
      by_cases hopen : Opens open? line
      · obtain ⟨b, behind, hstands, hlines⟩ := exists_stands hopen rest
        have hlt : behind.length < (line :: rest).length := by
          rw [hlines, List.length_append, ItemBlock.lines, List.length_cons]
          omega
        obtain ⟨parts, hparts⟩ := ih _ hlt open? behind rfl
        rw [hlines]
        exact ⟨_, .block hstands hparts⟩
      · obtain ⟨parts, hparts⟩ := ih _ (Nat.lt_succ_self _) (Fence.step open? line).2 rest rfl
        exact ⟨_, .kept hopen hparts⟩

theorem exists_only_division (open? : Option Fence) (lines : List Text) :
    ∃ parts, ∀ others, Divides open? lines others ↔ others = parts := by
  obtain ⟨parts, hparts⟩ := exists_divides open? lines
  refine ⟨parts, fun others => ⟨hparts.unique, ?_⟩⟩
  rintro rfl
  exact hparts

/-- The lines that stay are classed as they were before the blocks were taken out. -/
theorem Divides.classesFrom_keptLines (h : Divides open? lines parts) :
    Fence.classesFrom open? (keptLines parts) = (classed parts).map (·.2) := by
  induction h with
  | done => rfl
  | kept _ _ ih => exact congrArg _ ih
  | block _ _ ih => exact ih

theorem Divides.without_blocks (h : Divides open? lines parts) :
    Divides open? (keptLines parts) ((classed parts).map fun line => .kept line.1 line.2) := by
  induction h with
  | done => exact .done
  | kept hline _ ih => exact .kept hline ih
  | block _ _ ih => exact ih

theorem Divides.mem_of_mem_keptLines (h : Divides open? lines parts) {line : Text}
    (hline : line ∈ keptLines parts) : line ∈ lines := by
  induction h with
  | done => exact hline
  | kept _ _ ih =>
    rcases List.mem_cons.1 hline with rfl | hrest
    · exact List.mem_cons_self
    · exact List.mem_cons_of_mem _ (ih hrest)
  | block _ _ ih => exact List.mem_append_right _ (ih hline)

end Dividing

section Reading

variable {file standard : Text} {p : Position} {line : Text}

theorem level?_of_opening? (h : (opening? line).isSome) : Heading.level? line = none := by
  unfold opening? at h
  cases hafter : line.trim.after? "\x7b!list-add".text with
  | none =>
    rw [hafter] at h
    cases h
  | some rest =>
    unfold Heading.level?
    rw [Text.after?_eq_some_iff.1 hafter]
    rfl

theorem read_of_opens (h : Opens p.fence? line) : p.read line = (.plain, p.skip) := by
  obtain ⟨hout, hopening⟩ := h
  obtain ⟨hfence, -⟩ := Fence.step_of_not_inFence (Bool.eq_false_iff.1 hout)
  have hstep : Fence.step p.fence? line = (.plain, none) := by
    rw [hfence] at hout ⊢
    unfold Fence.step at hout ⊢
    cases hstart : Fence.opening? line with
    | none => rw [level?_of_opening? hopening]
    | some fence =>
      rw [hstart] at hout
      cases hout
  unfold Position.read
  rw [hstep, ← hfence]
  rfl

theorem cut?_colon (line : Text) : Text.cut? [':'] line =
    if ':' ∈ line then some (line.takeWhile (· ≠ ':'), (line.dropWhile (· ≠ ':')).tail)
    else none := by
  have hspan := List.takeWhile_append_dropWhile (p := (· ≠ ':')) (l := line)
  have hfront : ':' ∉ line.takeWhile (· ≠ ':') := fun hmem => by
    simpa using List.mem_takeWhile_imp hmem
  have hhead := List.head?_dropWhile_not (· ≠ ':') line
  cases hbehind : line.dropWhile (· ≠ ':') with
  | nil =>
    rw [hbehind, List.append_nil] at hspan
    rw [hspan] at hfront
    rw [if_neg hfront, Option.eq_none_iff_forall_not_mem]
    rintro ⟨before, rest⟩ hcut
    obtain ⟨rfl, -⟩ := Text.cut?_singleton_iff.1 hcut
    exact hfront (List.mem_append_right before List.mem_cons_self)
  | cons c rest =>
    rw [hbehind] at hhead
    obtain rfl : c = ':' := by simpa using hhead
    rw [hbehind] at hspan
    have hmem : ':' ∈ line := by
      rw [← hspan]
      exact List.mem_append_right _ List.mem_cons_self
    rw [if_pos hmem, List.tail_cons]
    exact Text.cut?_singleton_iff.2 ⟨hspan.symm, hfront⟩

theorem addAttributes_cons_of_sound (h : ¬ FaultyEntry line) (attributes : Fields Text) (n : Int)
    (body : List Text) : addAttributes file attributes n (line :: body) =
      addAttributes file (addEntry attributes line) (n + 1) body := by
  rw [addAttributes, addEntry]
  split_ifs with hblank
  · rfl
  · obtain ⟨hcolon, hname⟩ : ':' ∈ line ∧ ¬ Text.allBlank (line.takeWhile (· ≠ ':')) := by
      simpa [FaultyEntry, hblank] using h
    rw [cut?_colon, if_pos hcolon]
    exact if_neg hname

theorem addAttributes_cons_of_faulty (h : FaultyEntry line) (attributes : Fields Text) (n : Int)
    (body : List Text) :
    ∃ problem, addAttributes file attributes n (line :: body) = .error problem := by
  obtain ⟨hblank, hfaulty⟩ := h
  rw [addAttributes, if_neg (by rw [hblank]; exact Bool.false_ne_true), cut?_colon]
  split_ifs with hcolon
  · have hname := hfaulty.resolve_left (not_not_intro hcolon)
    exact ⟨_, if_pos hname⟩
  · exact ⟨_, rfl⟩

theorem addAttributes_of_sound {body : List Text} (h : ∀ line ∈ body, ¬ FaultyEntry line)
    (attributes : Fields Text) (n : Int) :
    addAttributes file attributes n body = .ok (body.foldl addEntry attributes) := by
  induction body generalizing attributes n with
  | nil => rfl
  | cons line body ih =>
    obtain ⟨hline, hbody⟩ := List.forall_mem_cons.1 h
    rw [addAttributes_cons_of_sound hline, ih hbody, List.foldl_cons]

theorem addAttributes_of_faulty {body : List Text} (h : ∃ line ∈ body, FaultyEntry line)
    (file : Text) (attributes : Fields Text) (n : Int) :
    ∃ problem, addAttributes file attributes n body = .error problem := by
  induction body generalizing attributes n with
  | nil =>
    obtain ⟨_, hmem, -⟩ := h
    cases hmem
  | cons line body ih =>
    by_cases hline : FaultyEntry line
    · exact addAttributes_cons_of_faulty hline attributes n body
    · rw [addAttributes_cons_of_sound hline]
      apply ih
      obtain ⟨l, hl, hfaulty⟩ := h
      rcases List.mem_cons.1 hl with rfl | hl
      · exact absurd hfaulty hline
      · exact ⟨l, hl, hfaulty⟩

end Reading

end Harvest

namespace Position

open Harvest (Part)

def pass (p : Position) : Part → Position
  | .kept line _ => (p.read line).2
  | .block b => { p with line := p.line + b.lines.length }

def behind (p : Position) (parts : List Part) : Position := parts.foldl pass p

theorem fence?_pass_kept (p : Position) (line : Text) (kind : LineClass) :
    (p.pass (.kept line kind)).fence? = (Fence.step p.fence? line).2 := (p.read_eq_step line).2

end Position

namespace Harvest

def yielded (standard : Text) (p : Position) : List Part → List (Text × Item)
  | [] => []
  | .kept line kind :: rest => yielded standard (p.pass (.kept line kind)) rest
  | .block b :: rest =>
    (b.list standard, p.item b.attributes) :: yielded standard (p.pass (.block b)) rest

def after (kept : List Text) (items : List (Text × Item)) (h : Harvest) : Harvest :=
  ⟨kept ++ h.kept, items ++ h.items, h.problem?⟩

section Running

variable {file standard : Text} {p : Position} {line : Text} {lines rest : List Text}

theorem readFrom_kept (h : ¬ Opens p.fence? line) (kind : LineClass) :
    readFrom file standard p none (line :: rest) =
      (readFrom file standard (p.pass (.kept line kind)) none rest).keep line := by
  obtain ⟨hclass, -⟩ := p.read_eq_step line
  rw [readFrom]
  dsimp only
  split_ifs with hin
  · rfl
  · cases hopening : opening? line with
    | none => rfl
    | some name =>
      rw [hclass] at hin
      exact absurd ⟨Bool.eq_false_iff.2 hin, by rw [hopening]; rfl⟩ h

theorem readFrom_body {body : List Text} (h : ∀ l ∈ body, closes l = false) (o : OpenItem) :
    readFrom file standard p (some o) (body ++ rest) =
      readFrom file standard { p with line := p.line + body.length }
        (some { o with body := o.body ++ body }) rest := by
  induction body generalizing p o with
  | nil => simp
  | cons l body ih =>
    obtain ⟨hl, hbody⟩ := List.forall_mem_cons.1 h
    rw [List.cons_append, readFrom, if_neg (by rw [hl]; exact Bool.false_ne_true), ih hbody]
    simp [Position.skip, Nat.add_assoc, Nat.add_comm 1]

theorem readFrom_opener (h : Opens p.fence? line) :
    readFrom file standard p none (line :: rest) =
      readFrom file standard p.skip
        (some ⟨(ItemBlock.mk line [] none).list standard, p.line, []⟩) rest := by
  rw [readFrom]
  dsimp only
  rw [read_of_opens h]
  obtain ⟨name, hname⟩ := Option.isSome_iff_exists.1 h.2
  have hlist : (ItemBlock.mk line [] none).list standard = if name = [] then standard else name := by
    unfold ItemBlock.list
    rw [hname]
    cases name <;> rfl
  rw [hlist, hname]
  rfl

theorem readFrom_closed {b : ItemBlock} (h : b.Stands p.fence? rest) (hclosed : b.closer?.isSome) :
    readFrom file standard p none (b.lines ++ rest) =
      match addAttributes file [] (p.line + 1) b.body with
      | .error problem => ⟨[], [], some problem⟩
      | .ok attributes =>
        (readFrom file standard (p.pass (.block b)) none rest).addItem (b.list standard)
          (p.item attributes) := by
  obtain ⟨opener, body, closer?⟩ := b
  obtain ⟨closer, rfl⟩ := Option.isSome_iff_exists.1 hclosed
  have hlines : (ItemBlock.mk opener body (some closer)).lines ++ rest =
      opener :: (body ++ closer :: rest) := by simp [ItemBlock.lines]
  rw [hlines, readFrom_opener h.opens, readFrom_body h.body, readFrom]
  dsimp only
  have hbehind : Position.skip { p.skip with line := p.skip.line + body.length } =
      p.pass (.block ⟨opener, body, some closer⟩) := by
    simp [Position.skip, Position.pass, ItemBlock.lines]
    omega
  rw [if_pos (h.closer closer rfl), hbehind]
  rfl

theorem readFrom_unclosed {b : ItemBlock} (h : b.Stands p.fence? rest) (hopen : b.closer? = none) :
    readFrom file standard p none (b.lines ++ rest) =
      ⟨[], [], some (.unclosedItem p.line file)⟩ := by
  obtain ⟨opener, body, closer?⟩ := b
  obtain rfl : closer? = none := hopen
  obtain rfl := h.last rfl
  have hlines : (ItemBlock.mk opener body none).lines ++ [] = opener :: (body ++ []) := by
    simp [ItemBlock.lines]
  rw [hlines, readFrom_opener h.opens, readFrom_body h.body]
  rfl

variable (file standard)

theorem readFrom_append {front back : List Part} (h : Divides p.fence? lines (front ++ back))
    (hs : ∀ b ∈ blocks front, b.Sound) :
    Divides (p.behind front).fence? (back.flatMap Part.lines) back ∧
      readFrom file standard p none lines =
        (readFrom file standard (p.behind front) none (back.flatMap Part.lines)).after
          (keptLines front) (yielded standard p front) := by
  induction front generalizing p lines with
  | nil =>
    obtain rfl := h.flatMap_lines
    exact ⟨h, rfl⟩
  | cons part front ih =>
    rw [List.cons_append] at h
    generalize hfence : p.fence? = open? at h
    cases h with
    | @kept _ line rest _ hline hrest =>
      subst hfence
      obtain ⟨hdivides, hread⟩ := ih (p := p.pass (.kept line (Fence.step p.fence? line).1))
        (by rwa [p.fence?_pass_kept]) hs
      refine ⟨hdivides, ?_⟩
      rw [readFrom_kept hline, hread]
      rfl
    | @block _ b rest _ hstands hrest =>
      subst hfence
      obtain ⟨hb, hfront⟩ := List.forall_mem_cons.1 hs
      obtain ⟨hdivides, hread⟩ := ih (p := p.pass (.block b)) hrest hfront
      refine ⟨hdivides, ?_⟩
      rw [readFrom_closed hstands hb.1, addAttributes_of_sound hb.2, hread]
      rfl

theorem readFrom_of_sound {parts : List Part} (h : Divides p.fence? lines parts)
    (hs : ∀ b ∈ blocks parts, b.Sound) : readFrom file standard p none lines =
      ⟨keptLines parts, yielded standard p parts, none⟩ := by
  rw [← List.append_nil parts] at h
  obtain ⟨-, hread⟩ := readFrom_append file standard h hs
  rw [hread, List.flatMap_nil, readFrom]
  simp [after]

theorem exists_readFrom_unsound {b : ItemBlock} (h : b.Stands p.fence? rest) (hb : ¬ b.Sound) :
    ∃ problem, readFrom file standard p none (b.lines ++ rest) = ⟨[], [], some problem⟩ := by
  rw [ItemBlock.not_sound_iff] at hb
  cases hcloser : b.closer? with
  | none => exact ⟨_, readFrom_unclosed h hcloser⟩
  | some closer =>
    have hclosed : b.closer?.isSome := by rw [hcloser]; rfl
    have hfaulty := hb.resolve_left (Option.isSome_iff_ne_none.1 hclosed)
    obtain ⟨problem, hproblem⟩ := addAttributes_of_faulty hfaulty file [] (p.line + 1)
    refine ⟨problem, ?_⟩
    rw [readFrom_closed h hclosed, hproblem]

theorem sound_or_exists_first (parts : List Part) : (∀ b ∈ blocks parts, b.Sound) ∨
    ∃ front b back, parts = front ++ .block b :: back ∧ (∀ c ∈ blocks front, c.Sound) ∧
      ¬ b.Sound := by
  induction parts with
  | nil => exact .inl nofun
  | cons part parts ih =>
    by_cases hpart : ∀ b ∈ part.block?, b.Sound
    · have hcons {more : List Part} (h : ∀ b ∈ blocks more, b.Sound) :
          ∀ b ∈ blocks (part :: more), b.Sound := by
        intro b hb
        obtain ⟨q, hq, hqb⟩ := List.mem_filterMap.1 hb
        rcases List.mem_cons.1 hq with rfl | hq
        · exact hpart b hqb
        · exact h b (List.mem_filterMap.2 ⟨q, hq, hqb⟩)
      rcases ih with hall | ⟨front, b, back, rfl, hfront, hb⟩
      · exact .inl (hcons hall)
      · exact .inr ⟨part :: front, b, back, rfl, hcons hfront, hb⟩
    · cases part with
      | kept line kind => exact absurd nofun hpart
      | block b =>
        refine .inr ⟨[], b, parts, rfl, nofun, fun hb => hpart ?_⟩
        rintro _ ⟨⟩
        exact hb

/-- The whole reading: up to the first block that is not sound, or to the end. -/
theorem readFrom_of_divides {parts : List Part} (h : Divides p.fence? lines parts) :
    (∀ b ∈ blocks parts, b.Sound) ∧ readFrom file standard p none lines =
        ⟨keptLines parts, yielded standard p parts, none⟩ ∨
      ∃ front b back problem, parts = front ++ .block b :: back ∧
        (∀ c ∈ blocks front, c.Sound) ∧ ¬ b.Sound ∧ readFrom file standard p none lines =
          ⟨keptLines front, yielded standard p front, some problem⟩ := by
  rcases sound_or_exists_first parts with hall | ⟨front, b, back, rfl, hfront, hb⟩
  · exact .inl ⟨hall, readFrom_of_sound file standard h hall⟩
  · obtain ⟨hdivides, hread⟩ := readFrom_append file standard h hfront
    generalize hfence : (p.behind front).fence? = open? at hdivides
    rw [List.flatMap_cons] at hdivides hread
    generalize hl : (Part.block b).lines ++ back.flatMap Part.lines = behind at hdivides hread
    cases hdivides with
    | block hstands _ =>
      subst hfence
      obtain ⟨problem, hproblem⟩ := exists_readFrom_unsound file standard hstands hb
      refine .inr ⟨front, b, back, problem, rfl, hfront, hb, ?_⟩
      rw [hread, hproblem]
      simp [after]

end Running

end Harvest
end Transclude

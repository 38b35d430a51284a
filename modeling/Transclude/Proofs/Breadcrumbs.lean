import Transclude.Proofs.ListBlocks

/-! Where the records of a document stand. The headings that enclose a place are those in front of it
that no heading of the same or a smaller level follows, and the stack that is kept while the document
is read holds just these, the levels growing from the outermost to the innermost. -/

namespace Transclude

namespace Anchors

def afterTitles (a : Anchors) (titles : List Text) : Anchors :=
  titles.foldl (fun current title => (current.next title).2) a

theorem ofTitles_append (a : Anchors) (xs ys : List Text) :
    a.ofTitles (xs ++ ys) = a.ofTitles xs ++ (a.afterTitles xs).ofTitles ys := by
  induction xs generalizing a with
  | nil => rfl
  | cons x xs ih => exact congrArg _ (ih (a.next x).2)

theorem length_ofTitles (a : Anchors) (titles : List Text) :
    (a.ofTitles titles).length = titles.length := by
  induction titles generalizing a with
  | nil => rfl
  | cons title titles ih => simpa only [ofTitles, List.length_cons, Nat.add_right_cancel_iff] using ih _

end Anchors

namespace Crumb

/-- Some headings, given by level and title, with the anchors that they get one after the other. -/
def ofHeadings (headings : List (Nat × Text)) : List Crumb :=
  List.zipWith (fun heading anchor => ⟨heading.1, heading.2, anchor⟩) headings
    (Anchors.fresh.ofTitles (headings.map (·.2)))

/-- The headings that none of the same or a smaller level follows. -/
def standing : List Crumb → List Crumb
  | [] => []
  | c :: rest => if ∀ d ∈ rest, c.level < d.level then c :: standing rest else standing rest

theorem ofHeadings_append_singleton (headings : List (Nat × Text)) (level : Nat) (title : Text) :
    ofHeadings (headings ++ [(level, title)]) = ofHeadings headings ++
      [⟨level, title, ((Anchors.fresh.afterTitles (headings.map (·.2))).next title).1⟩] := by
  unfold ofHeadings
  rw [List.map_append, Anchors.ofTitles_append, List.zipWith_append]
  · rfl
  · rw [Anchors.length_ofTitles, List.length_map]

theorem ofHeadings_prefix (xs ys : List (Nat × Text)) :
    (ofHeadings (xs ++ ys)).take xs.length = ofHeadings xs := by
  have hlength : xs.length = (Anchors.fresh.ofTitles (xs.map (·.2))).length := by
    rw [Anchors.length_ofTitles, List.length_map]
  unfold ofHeadings
  rw [List.map_append, Anchors.ofTitles_append, List.zipWith_append hlength]
  apply List.take_left'
  rw [List.length_zipWith, ← hlength, Nat.min_self]

theorem standing_sublist (cs : List Crumb) : (standing cs).Sublist cs := by
  induction cs with
  | nil => exact List.Sublist.slnil
  | cons c cs ih =>
    rw [standing]
    split_ifs
    · exact ih.cons_cons c
    · exact ih.cons c

theorem pairwise_standing (cs : List Crumb) : (standing cs).Pairwise (·.level < ·.level) := by
  induction cs with
  | nil => exact .nil
  | cons c cs ih =>
    rw [standing]
    split_ifs with hlast
    · exact List.pairwise_cons.2 ⟨fun d hd => hlast d ((standing_sublist cs).subset hd), ih⟩
    · exact ih

theorem standing_append_singleton (cs : List Crumb) (c : Crumb) :
    standing (cs ++ [c]) = (standing cs).filter (·.level < c.level) ++ [c] := by
  induction cs with
  | nil => simp [standing]
  | cons d cs ih =>
    rw [List.cons_append, standing, standing, ih]
    have hall : (∀ e ∈ cs ++ [c], d.level < e.level) ↔
        (∀ e ∈ cs, d.level < e.level) ∧ d.level < c.level := by
      rw [List.forall_mem_append, List.forall_mem_singleton]
    by_cases hcs : ∀ e ∈ cs, d.level < e.level
    · by_cases hc : d.level < c.level
      · rw [if_pos (hall.2 ⟨hcs, hc⟩), if_pos hcs, List.filter_cons_of_pos (by simpa using hc)]
        rfl
      · rw [if_neg (fun h => hc (hall.1 h).2), if_pos hcs,
          List.filter_cons_of_neg (by simpa using hc)]
    · rw [if_neg (fun h => hcs (hall.1 h).1), if_neg hcs]

theorem getLast?_standing (cs : List Crumb) : (standing cs).getLast? = cs.getLast? := by
  rcases List.eq_nil_or_concat cs with rfl | ⟨init, c, rfl⟩
  · rfl
  · rw [List.concat_eq_append, standing_append_singleton, List.getLast?_concat,
      List.getLast?_concat]

/-- On a stack whose levels fall towards the bottom, leaving the sections at the top is the same as
leaving all of that level or a greater one. -/
theorem dropWhile_eq_filter {stack : List Crumb} (h : stack.Pairwise (·.level > ·.level)) (n : Nat) :
    stack.dropWhile (n ≤ ·.level) = stack.filter (·.level < n) := by
  induction stack with
  | nil => rfl
  | cons c stack ih =>
    obtain ⟨hc, hstack⟩ := List.pairwise_cons.1 h
    by_cases hn : n ≤ c.level
    · rw [List.dropWhile_cons_of_pos (by simpa using hn),
        List.filter_cons_of_neg (by simpa using hn), ih hstack]
    · have hlt : c.level < n := Nat.lt_of_not_le hn
      rw [List.dropWhile_cons_of_neg (by simpa using hn), List.filter_eq_self.2]
      intro d hd
      rcases List.mem_cons.1 hd with rfl | hd
      · simpa using hlt
      · simpa using Nat.lt_trans (hc d hd) hlt

end Crumb

namespace Harvest

def headings (parts : List Part) : List (Nat × Text) :=
  (classed parts).filterMap fun line => line.2.level?.map (·, Heading.title line.1)

theorem headings_append (front back : List Part) :
    headings (front ++ back) = headings front ++ headings back := by
  unfold headings classed
  rw [List.filterMap_append, List.filterMap_append]

end Harvest

namespace Position

open Harvest

/-- Whether a position has these headings in front of it. -/
structure Follows (headings : List (Nat × Text)) (p : Position) : Prop where
  crumbs : p.crumbs = (Crumb.standing (Crumb.ofHeadings headings)).reverse
  anchors : p.anchors = Anchors.fresh.afterTitles (headings.map (·.2))

theorem follows_start : Follows [] start := ⟨rfl, rfl⟩

variable {headings : List (Nat × Text)} {p : Position}

theorem Follows.enter (h : p.Follows headings) (level : Nat) (title : Text) :
    (p.enter level title).Follows (headings ++ [(level, title)]) := by
  constructor
  · have hstack : p.crumbs.Pairwise (·.level > ·.level) := by
      rw [h.crumbs]
      exact List.pairwise_reverse.2 (Crumb.pairwise_standing _)
    show (⟨level, title, (p.anchors.next title).1⟩ : Crumb) :: p.crumbs.dropWhile _ = _
    rw [Crumb.dropWhile_eq_filter hstack, Crumb.ofHeadings_append_singleton,
      Crumb.standing_append_singleton, List.reverse_append, h.crumbs, h.anchors, List.filter_reverse]
    rfl
  · show (p.anchors.next title).2 = _
    rw [h.anchors, List.map_append, Anchors.afterTitles, Anchors.afterTitles, List.foldl_append]
    rfl

theorem Follows.read (h : p.Follows headings) (line : Text) :
    (p.pass (.kept line (Fence.step p.fence? line).1)).Follows
      (headings ++ Harvest.headings [.kept line (Fence.step p.fence? line).1]) := by
  show (p.read line).2.Follows _
  unfold Position.read
  obtain ⟨kind, fence?⟩ := Fence.step p.fence? line
  have hnext : Follows headings { p with fence?, line := p.line + 1 } := ⟨h.crumbs, h.anchors⟩
  cases kind with
  | heading level => exact hnext.enter level _
  | plain => exact (List.append_nil headings).symm ▸ hnext
  | fence => exact (List.append_nil headings).symm ▸ hnext
  | fenced => exact (List.append_nil headings).symm ▸ hnext

theorem Follows.behind {lines : List Text} {front back : List Part} (h : p.Follows headings)
    (hdivides : Divides p.fence? lines (front ++ back)) :
    (p.behind front).Follows (headings ++ Harvest.headings front) := by
  induction front generalizing headings p lines with
  | nil => exact (List.append_nil headings).symm ▸ h
  | cons part front ih =>
    rw [← List.singleton_append, headings_append, ← List.append_assoc]
    rw [List.cons_append] at hdivides
    generalize hfence : p.fence? = open? at hdivides
    cases hdivides with
    | kept hline hrest =>
      subst hfence
      apply ih (h.read _)
      rwa [p.fence?_pass_kept]
    | @block _ b _ _ hstands hrest =>
      subst hfence
      have hpass : (p.pass (.block b)).Follows headings := ⟨h.crumbs, h.anchors⟩
      exact ih ((List.append_nil headings).symm ▸ hpass) hrest

theorem Follows.trail (h : p.Follows headings) :
    p.trail = Text.joinWith " / " ((Crumb.standing (Crumb.ofHeadings headings)).map (·.title)) := by
  rw [Position.trail, h.crumbs, List.reverse_reverse]

theorem Follows.anchor (h : p.Follows headings) :
    p.anchor = ((Crumb.ofHeadings headings).getLast?.map (·.anchor)).getD [] := by
  rw [Position.anchor, h.crumbs, List.head?_reverse, Crumb.getLast?_standing]

theorem Follows.levels (h : p.Follows headings) :
    (p.crumbs.reverse.map (·.level)).Pairwise (· < ·) := by
  rw [h.crumbs, List.reverse_reverse, List.pairwise_map]
  exact Crumb.pairwise_standing _

end Position

namespace Harvest

variable {file standard : Text}

theorem exists_block_of_yielded {p : Position} {parts : List Part} {n : Nat} {list : Text}
    {item : Item} (h : (yielded standard p parts)[n]? = some (list, item)) :
    ∃ front b back, parts = front ++ .block b :: back ∧ (blocks front).length = n ∧
      list = b.list standard ∧ item = (p.behind front).item b.attributes := by
  induction parts generalizing p n with
  | nil => cases h
  | cons part parts ih =>
    cases part with
    | kept line kind =>
      obtain ⟨front, b, back, rfl, hn, hlist, hitem⟩ := ih h
      exact ⟨.kept line kind :: front, b, back, rfl, hn, hlist, hitem⟩
    | block c =>
      cases n with
      | zero =>
        obtain ⟨rfl, rfl⟩ := Prod.mk.inj (Option.some.inj h)
        exact ⟨[], c, parts, rfl, rfl, rfl, rfl⟩
      | succ n =>
        obtain ⟨front, b, back, rfl, hn, hlist, hitem⟩ := ih h
        exact ⟨.block c :: front, b, back, rfl, congrArg (· + 1) hn, hlist, hitem⟩

theorem exists_block_of_item {lines : List Text} {p : Position} {parts : List Part}
    (hparts : Divides p.fence? lines parts) {n : Nat} {list : Text} {item : Item}
    (h : (readFrom file standard p none lines).items[n]? = some (list, item)) :
    ∃ front b back, parts = front ++ .block b :: back ∧ (blocks front).length = n ∧
      list = b.list standard ∧ item = (p.behind front).item b.attributes := by
  rcases readFrom_of_divides file standard hparts with
    ⟨-, hread⟩ | ⟨sound, c, rest, problem, rfl, -, -, hread⟩
  · rw [hread] at h
    exact exists_block_of_yielded h
  · rw [hread] at h
    obtain ⟨front, b, back, rfl, hn, hlist, hitem⟩ := exists_block_of_yielded h
    exact ⟨front, b, back ++ .block c :: rest, by simp, hn, hlist, hitem⟩

/-- A record stands below the headings in front of its block that no heading of the same or a smaller
level follows before the block, and its anchor is that of the last heading in front of the block, the
anchors being given in one go to all headings outside fences and blocks. Wherever the reading of a
document is cut, the levels of the headings that enclose the place grow from one to the next. -/
theorem ofText_places_records (file standard s : Text) :
    ∃ parts, (∀ others, Divides none s.lines others ↔ others = parts) ∧
      (∀ n list item, (ofText file standard s).items[n]? = some (list, item) →
        ∃ front b back, parts = front ++ .block b :: back ∧ (blocks front).length = n ∧
          let above := (Crumb.ofHeadings (headings parts)).take (headings front).length
          item.trail = Text.joinWith " / " ((Crumb.standing above).map (·.title)) ∧
            item.anchor = (above.getLast?.map (·.anchor)).getD []) ∧
      ∀ front back, parts = front ++ back → (∀ b ∈ blocks front, b.Sound) →
        let p := Position.start.behind front
        ofText file standard s = (readFrom file standard p none (back.flatMap Part.lines)).after
            (keptLines front) (yielded standard .start front) ∧
          (p.crumbs.reverse.map (·.level)).Pairwise (· < ·) := by
  obtain ⟨parts, honly⟩ := exists_only_division none s.lines
  have hparts : Divides Position.start.fence? s.lines parts := (honly parts).2 rfl
  refine ⟨parts, honly, ?_, ?_⟩
  · intro n list item hitem
    obtain ⟨front, b, back, rfl, hn, -, rfl⟩ := exists_block_of_item hparts hitem
    -- The position before a block carries the trail of all headings above it.
    have hfollows := Position.follows_start.behind hparts
    rw [List.nil_append] at hfollows
    refine ⟨front, b, back, rfl, hn, ?_⟩
    rw [headings_append, Crumb.ofHeadings_prefix]
    exact ⟨hfollows.trail, hfollows.anchor⟩
  · rintro front back rfl hsound
    obtain ⟨-, hread⟩ := readFrom_append file standard hparts hsound
    exact ⟨hread, (Position.follows_start.behind hparts).levels⟩

end Harvest
end Transclude

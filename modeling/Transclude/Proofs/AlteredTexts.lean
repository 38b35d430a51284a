import Transclude.Proofs.LaidOutLines
import Transclude.Proofs.LineFates

/-! Texts in which runs that may span several lines are swapped for runs within a line. The fenced
lines come out as they were exactly if nothing of what is swapped stands on one of them. -/

namespace Transclude

open Text (EndsMarks)

namespace Layout

theorem joinEndings_append_of_last {s : Text} (h : s.getLast? ≠ some '\r') (t : Text) :
    joinEndings (s ++ t) = joinEndings s ++ joinEndings t := by
  fun_induction joinEndings s with
  | case1 => rfl
  | case2 rest ih =>
    have hlast : rest.getLast? ≠ some '\r' := by
      cases rest with
      | nil => simp
      | cons d rest => exact h
    rw [List.cons_append, List.cons_append, joinEndings, ih hlast, List.cons_append]
  | case3 c rest hc ih =>
    cases rest with
    | nil =>
      change joinEndings (c :: t) = c :: joinEndings t
      rw [joinEndings]
      rintro more rfl
      exact absurd rfl h
    | cons d rest =>
      rw [List.cons_append, joinEndings, ih h, List.cons_append]
      rintro more hreturn hmore
      obtain ⟨rfl, -⟩ := List.cons.inj hmore
      exact hc rest hreturn rfl

end Layout

namespace Text

variable {s line row : Text} {rest xs ys : List Text} {c : Char}

theorem lines_newline_cons (s : Text) : lines ('\n' :: s) = [] :: s.lines := by
  rw [← Layout.rows_joinEndings, ← Layout.rows_joinEndings, Layout.joinEndings, rows_newline_cons]
  intro rest h
  cases h

theorem lines_return_newline (s : Text) : lines ('\r' :: '\n' :: s) = lines ('\n' :: s) := by
  rw [← Layout.rows_joinEndings, ← Layout.rows_joinEndings, Layout.joinEndings, Layout.joinEndings]
  intro rest h
  cases h

theorem lines_cons_of_ne (hc : c ≠ '\n') (hr : c = '\r' → s.head? ≠ some '\n')
    (h : s.lines = line :: rest) : lines (c :: s) = (c :: line) :: rest := by
  rw [← Layout.rows_joinEndings] at h ⊢
  rw [Layout.joinEndings, rows_cons_of_ne hc h]
  rintro more rfl rfl
  exact hr rfl rfl

theorem exists_lines (s : Text) : ∃ line rest, s.lines = line :: rest :=
  List.exists_cons_of_ne_nil (lines_ne_nil s)

theorem head?_first_line (h : lines (c :: s) = line :: rest) : ∀ d ∈ line.head?, d = c := by
  by_cases hc : c = '\n'
  · subst hc
    rw [lines_newline_cons] at h
    obtain ⟨rfl, -⟩ := List.cons.inj h
    exact nofun
  · by_cases hr : c = '\r' → s.head? ≠ some '\n'
    · obtain ⟨own, more, hs⟩ := exists_lines s
      rw [lines_cons_of_ne hc hr hs] at h
      obtain ⟨rfl, -⟩ := List.cons.inj h
      rintro _ ⟨⟩
      rfl
    · push Not at hr
      obtain ⟨rfl, hhead⟩ := hr
      obtain ⟨more, rfl⟩ := List.head?_eq_some_iff.1 hhead
      rw [lines_return_newline, lines_newline_cons] at h
      obtain ⟨rfl, -⟩ := List.cons.inj h
      exact nofun

theorem lines_append {a b x y : Text} (hlast : a.getLast? ≠ some '\r') (ha : a.lines = xs ++ [x])
    (hb : b.lines = y :: ys) : (a ++ b).lines = xs ++ (x ++ y) :: ys := by
  rw [← Layout.rows_joinEndings] at ha hb ⊢
  rw [Layout.joinEndings_append_of_last hlast]
  exact rows_append ha hb

theorem lines_append_line {a b y : Text} (hn : '\n' ∉ a) (hr : '\r' ∉ a) (hb : b.lines = y :: ys) :
    (a ++ b).lines = (a ++ y) :: ys := by
  have hlast : a.getLast? ≠ some '\r' := fun h => hr (List.mem_of_getLast? h)
  have hline : a.lines = [] ++ [a] := (lines_eq_rows hr).trans (rows_of_row hn)
  exact lines_append hlast hline hb

theorem exists_parting {u v : Text} (h : ¬ u <+: v) (h' : ¬ v <+: u) :
    ∃ w c x d y, u = w ++ c :: x ∧ v = w ++ d :: y ∧ c ≠ d := by
  induction u generalizing v with
  | nil => exact absurd List.nil_prefix h
  | cons a u ih =>
    cases v with
    | nil => exact absurd List.nil_prefix h'
    | cons b v =>
      by_cases hab : a = b
      · subst hab
        rw [List.prefix_cons_inj] at h h'
        obtain ⟨w, c, x, d, y, rfl, rfl, hne⟩ := ih h h'
        exact ⟨a :: w, c, x, d, y, rfl, rfl, hne⟩
      · exact ⟨[], a, u, b, v, rfl, rfl, hab⟩

theorem length_rows_eq_count (s : Text) : s.rows.length = s.count '\n' + 1 := by
  induction s with
  | nil => rfl
  | cons c s ih =>
    rw [rows_cons]
    by_cases hc : c = '\n'
    · rw [if_pos hc, hc, List.count_cons_self, List.length_cons, ih]
    · rw [if_neg hc, List.length_modifyHead, List.count_cons_of_ne hc, ih]

end Text

/-- Whether a run of text can be swapped for one that stays within a line. Both start with a
character that ends the marks of a fence, and neither starts the other, so that a line in which they
are swapped changes and opens or closes what it did. -/
structure Swaps (old new : Text) : Prop where
  old_head : ∃ c ∈ old.head?, EndsMarks c
  new_head : ∃ c ∈ new.head?, EndsMarks c
  unreturned : old.getLast? ≠ some '\r'
  unbroken : '\n' ∉ new ∧ '\r' ∉ new
  apart : ¬ old <+: new ∧ ¬ new <+: old

/-- Whether a text becomes another by swapping runs of it. They stand on the numbered lines. -/
inductive Altered : Text → Text → List Nat → Prop
  | nil : Altered [] [] []
  | keep (c : Char) {s t : Text} {ns : List Nat} : Altered s t ns →
      Altered (c :: s) (c :: t) (ns.map ([c].count '\n' + ·))
  | swap {old new s t : Text} {ns : List Nat} : Swaps old new → Altered s t ns →
      Altered (old ++ s) (new ++ t)
        (List.range' 0 (old.count '\n' + 1) ++ ns.map (old.count '\n' + ·))

/-- Whether a line is kept, lost, or turned into another from some point on, which is behind the
marks that it may start with. -/
inductive Fate.Forks : Fate → Prop
  | kept (line : Text) : Forks ⟨line, some line⟩
  | lost (line : Text) : Forks ⟨line, none⟩
  | turned (front x y : Text) {c d : Char} : EndsMarks c → EndsMarks d →
      Forks ⟨front ++ c :: x, some (front ++ d :: y)⟩

namespace Fate

variable {f : Fate} {line now : Text}

theorem Forks.steady (h : f.Forks) : f.Steady := by
  intro now hnow open? hopen
  cases h with
  | kept line =>
    obtain rfl := Option.some.inj hnow
    exact ⟨rfl, rfl⟩
  | lost line => cases hnow
  | turned front x y hc hd =>
    obtain rfl := Option.some.inj hnow
    obtain ⟨hnext, hin⟩ := Fence.step_append hopen hc front x
    obtain ⟨hnext', hin'⟩ := Fence.step_append hopen hd front y
    exact ⟨hnext'.trans hnext.symm, hin'.trans hin.symm⟩

theorem Forks.cons (h : Forks ⟨line, some now⟩) (c : Char) :
    Forks ⟨c :: line, some (c :: now)⟩ := by
  generalize hf : (⟨line, some now⟩ : Fate) = f at h
  cases h with
  | kept line =>
    cases hf
    exact kept _
  | lost line => cases hf
  | turned front x y hc hd =>
    cases hf
    exact turned (c :: front) x y hc hd

/-- Whether some fates are those of the lines of a text that becomes another, the numbered lines
being the ones that are not kept. -/
structure Lead (fates : List Fate) (s t : Text) (ns : List Nat) : Prop where
  before : before fates = s.lines
  after : after fates = t.lines
  first : ∃ line now rest, fates = ⟨line, some now⟩ :: rest
  forks : ∀ f ∈ fates, f.Forks
  changed : ∀ n f, fates[n]? = some f → (n ∈ ns ↔ ¬ f.IsKept)

end Fate

namespace Swaps

variable {old new s line first : Text} {rest more : List Text}

theorem exists_lines (h : Swaps old new) (hs : s.lines = line :: rest) :
    ∃ first more, (old ++ s).lines = first :: (more ++ rest) ∧ more.length = old.count '\n' := by
  obtain ⟨xs, x, hold⟩ := (List.eq_nil_or_concat old.lines).resolve_left (Text.lines_ne_nil old)
  rw [List.concat_eq_append] at hold
  have hjoin := Text.lines_append h.unreturned hold hs
  have hlength := Text.length_lines old
  rw [Text.length_rows_eq_count, hold, List.length_append, List.length_singleton] at hlength
  cases xs with
  | nil => exact ⟨x ++ line, [], hjoin, Nat.succ.inj hlength⟩
  | cons first xs =>
    refine ⟨first, xs ++ [x ++ line], by rw [hjoin]; simp, ?_⟩
    rw [List.length_append, List.length_singleton]
    exact Nat.succ.inj hlength

theorem forks_first (h : Swaps old new) (hl : (old ++ s).lines = first :: more) (now : Text) :
    Fate.Forks ⟨first, some (new ++ now)⟩ := by
  obtain ⟨c, hc, hends⟩ := h.old_head
  obtain ⟨d, hd, hends'⟩ := h.new_head
  obtain ⟨x, rfl⟩ := List.head?_eq_some_iff.1 hc
  obtain ⟨y, rfl⟩ := List.head?_eq_some_iff.1 hd
  have hreturn : c ≠ '\r' := by
    rintro rfl
    exact absurd hends.1 (by decide)
  obtain ⟨own, others, hown⟩ := Text.exists_lines (x ++ s)
  have hline := Text.lines_cons_of_ne hends.ne_newline (fun heq => absurd heq hreturn) hown
  obtain ⟨rfl, -⟩ := List.cons.inj (hl.symm.trans hline)
  exact .turned [] own (y ++ now) hends hends'

theorem first_ne (h : Swaps old new) (hl : (old ++ s).lines = first :: more) (now : Text) :
    first ≠ new ++ now := by
  obtain ⟨w, c, x, d, y, hold, hnew, hne⟩ := Text.exists_parting h.apart.1 h.apart.2
  have hw : '\n' ∉ w ∧ '\r' ∉ w :=
    ⟨fun hmem => h.unbroken.1 (hnew ▸ List.mem_append_left _ hmem),
      fun hmem => h.unbroken.2 (hnew ▸ List.mem_append_left _ hmem)⟩
  obtain ⟨own, others, hown⟩ := Text.exists_lines (c :: (x ++ s))
  have hline := Text.lines_append_line hw.1 hw.2 hown
  have hwhole : w ++ c :: (x ++ s) = old ++ s := by rw [hold, List.append_assoc, List.cons_append]
  rw [hwhole, hl] at hline
  obtain ⟨rfl, -⟩ := List.cons.inj hline
  rw [hnew, List.append_assoc, List.cons_append]
  intro heq
  refine hne.symm (Text.head?_first_line hown d ?_)
  rw [List.append_cancel_left heq]
  rfl

end Swaps

namespace Fate

namespace Lead

variable {fates : List Fate} {s t : Text} {ns : List Nat}

theorem nil : Lead [⟨[], some []⟩] [] [] [] := by
  refine ⟨rfl, rfl, ⟨_, _, _, rfl⟩, List.forall_mem_singleton.2 (.kept []), fun n f hf => ?_⟩
  obtain rfl := List.mem_singleton.1 (List.mem_of_getElem? hf)
  exact iff_of_false List.not_mem_nil (not_not_intro rfl)

theorem newline (h : Lead fates s t ns) :
    Lead (⟨[], some []⟩ :: fates) ('\n' :: s) ('\n' :: t) (ns.map (1 + ·)) := by
  refine ⟨?_, ?_, ⟨_, _, _, rfl⟩, List.forall_mem_cons.2 ⟨.kept [], h.forks⟩, ?_⟩
  · rw [Text.lines_newline_cons, ← h.before]
    rfl
  · rw [Text.lines_newline_cons, ← h.after]
    rfl
  · intro n f hf
    cases n with
    | zero =>
      obtain rfl := Option.some.inj hf
      simp [IsKept]
    | succ n =>
      rw [← h.changed n f hf]
      simp [Nat.add_comm 1]

theorem exists_cons (h : Lead fates s t ns) {c : Char} (hc : c ≠ '\n')
    (hs : c = '\r' → s.head? ≠ some '\n') (ht : c = '\r' → t.head? ≠ some '\n') :
    ∃ fates, Lead fates (c :: s) (c :: t) ns := by
  obtain ⟨hbefore, hafter, ⟨line, now, rest, rfl⟩, hforks, hchanged⟩ := h
  obtain ⟨hfirst, hrest⟩ := List.forall_mem_cons.1 hforks
  refine ⟨⟨c :: line, some (c :: now)⟩ :: rest, ?_, ?_, ⟨_, _, _, rfl⟩,
    List.forall_mem_cons.2 ⟨hfirst.cons c, hrest⟩, ?_⟩
  · exact (Text.lines_cons_of_ne hc hs hbefore.symm).symm
  · exact (Text.lines_cons_of_ne hc ht hafter.symm).symm
  · intro n f hf
    cases n with
    | zero =>
      obtain rfl := Option.some.inj hf
      rw [hchanged 0 _ rfl]
      simp [IsKept]
    | succ n => exact hchanged (n + 1) f hf

theorem exists_keep (h : Lead fates s t ns) (c : Char)
    (hhead : s.head? = some '\n' ↔ t.head? = some '\n') :
    ∃ fates, Lead fates (c :: s) (c :: t) (ns.map ([c].count '\n' + ·)) := by
  by_cases hc : c = '\n'
  · subst hc
    exact ⟨_, h.newline⟩
  · have hsame : ns.map ([c].count '\n' + ·) = ns := by simp [hc]
    rw [hsame]
    by_cases hr : c = '\r' → s.head? ≠ some '\n'
    · exact h.exists_cons hc hr fun hreturn => mt hhead.2 (hr hreturn)
    · -- A carriage return in front of a line feed is part of the ending.
      push Not at hr
      obtain ⟨rfl, hs⟩ := hr
      obtain ⟨s, rfl⟩ := List.head?_eq_some_iff.1 hs
      obtain ⟨t, rfl⟩ := List.head?_eq_some_iff.1 (hhead.1 hs)
      exact ⟨fates, h.before.trans (Text.lines_return_newline s).symm,
        h.after.trans (Text.lines_return_newline t).symm, h.first, h.forks, h.changed⟩

theorem changed_swapped {first f : Fate} {rest : List Fate} (hfirst : ¬ first.IsKept)
    (hchanged : ∀ n g, (f :: rest)[n]? = some g → (n ∈ ns ↔ ¬ g.IsKept)) (lost : List Text) :
    ∀ n g, (first :: (lost.map (⟨·, none⟩) ++ rest))[n]? = some g →
      (n ∈ List.range' 0 (lost.length + 1) ++ ns.map (lost.length + ·) ↔ ¬ g.IsKept) := by
  intro n g hg
  rw [List.mem_append, List.mem_range'_1]
  cases n with
  | zero =>
    obtain rfl := Option.some.inj hg
    exact iff_of_true (.inl ⟨le_rfl, Nat.succ_pos _⟩) hfirst
  | succ n =>
    rw [List.getElem?_cons_succ, List.getElem?_append, List.length_map] at hg
    split at hg
    · rename_i hn
      obtain ⟨u, -, rfl⟩ := List.mem_map.1 (List.mem_of_getElem? hg)
      exact iff_of_true (.inl ⟨Nat.zero_le _, by omega⟩) nofun
    · rename_i hn
      obtain ⟨k, rfl⟩ := Nat.exists_eq_add_of_le (Nat.le_of_not_lt hn)
      rw [Nat.add_sub_cancel_left] at hg
      rw [← hchanged (k + 1) g hg, List.mem_map]
      constructor
      · rintro (⟨-, hlt⟩ | ⟨m, hm, heq⟩)
        · omega
        · obtain rfl : m = k + 1 := by omega
          exact hm
      · exact fun hk => .inr ⟨k + 1, hk, by omega⟩

theorem exists_swap (h : Lead fates s t ns) {old new : Text} (hswaps : Swaps old new) :
    ∃ fates, Lead fates (old ++ s) (new ++ t)
      (List.range' 0 (old.count '\n' + 1) ++ ns.map (old.count '\n' + ·)) := by
  obtain ⟨hbefore, hafter, ⟨line, now, rest, rfl⟩, hforks, hchanged⟩ := h
  obtain ⟨-, hrest⟩ := List.forall_mem_cons.1 hforks
  obtain ⟨first, lost, hlines, hcount⟩ := hswaps.exists_lines hbefore.symm
  have hnew : (new ++ t).lines = (new ++ now) :: Fate.after rest :=
    Text.lines_append_line hswaps.unbroken.1 hswaps.unbroken.2 hafter.symm
  have hturned : ¬ IsKept ⟨first, some (new ++ now)⟩ :=
    fun hkept => hswaps.first_ne hlines now (Option.some.inj hkept).symm
  have hlost : ∀ f ∈ lost.map (⟨·, none⟩), Forks f := List.forall_mem_map.2 fun u _ => .lost u
  refine ⟨⟨first, some (new ++ now)⟩ :: (lost.map (⟨·, none⟩) ++ rest), ?_, ?_, ⟨_, _, _, rfl⟩, ?_,
    ?_⟩
  · rw [hlines]
    simp [Fate.before, Function.comp_def]
  · rw [hnew]
    simp [Fate.after]
  · exact List.forall_mem_cons.2
      ⟨hswaps.forks_first hlines now, List.forall_mem_append.2 ⟨hlost, hrest⟩⟩
  · rw [← hcount]
    exact changed_swapped hturned hchanged lost

theorem keepsFenced_iff (h : Lead fates s t ns) :
    KeepsFenced none fates ↔ ∀ n ∈ ns, Fence.fencedAt s n = false := by
  rw [KeepsFenced, h.before]
  constructor
  · intro hkeeps n hn
    rw [Fence.fencedAt, Option.any_eq_false]
    intro p hp
    obtain ⟨hline, hkind⟩ := List.getElem?_zip_eq_some.1 hp
    rw [← h.before, Fate.before, List.getElem?_map] at hline
    obtain ⟨f, hf, -⟩ := Option.map_eq_some_iff.1 hline
    by_contra hin
    have hmem := List.mem_of_getElem? (List.getElem?_zip_eq_some (z := (f, p.2)).2 ⟨hf, hkind⟩)
    exact (h.changed n f hf).1 hn (hkeeps _ hmem (by simpa using hin))
  · intro hclear p hp hin
    obtain ⟨n, hn⟩ := List.mem_iff_getElem?.1 hp
    obtain ⟨hfate, hkind⟩ := List.getElem?_zip_eq_some.1 hn
    by_contra hchanged
    have hline : s.lines[n]? = some p.1.line := by
      rw [← h.before, Fate.before, List.getElem?_map, hfate]
      rfl
    have hclass : (Fence.classify s)[n]? = some (p.1.line, p.2) :=
      List.getElem?_zip_eq_some.2 ⟨hline, hkind⟩
    have hout := hclear n ((h.changed n p.1 hfate).2 hchanged)
    rw [Fence.fencedAt, hclass, Option.any_some, hin] at hout
    cases hout

end Lead

end Fate

namespace Altered

variable {s t : Text} {ns : List Nat}

theorem head?_newline (h : Altered s t ns) : s.head? = some '\n' ↔ t.head? = some '\n' := by
  have hword {u : Text} (hu : ∃ c ∈ u.head?, EndsMarks c) (v : Text) :
      (u ++ v).head? ≠ some '\n' := by
    obtain ⟨c, hc, hends⟩ := hu
    obtain ⟨more, rfl⟩ := List.head?_eq_some_iff.1 hc
    intro hhead
    exact hends.ne_newline (Option.some.inj hhead)
  cases h with
  | nil => exact Iff.rfl
  | keep c _ => exact Iff.rfl
  | swap hswaps _ => exact iff_of_false (hword hswaps.old_head _) (hword hswaps.new_head _)

theorem append (h : Altered s t ns) (u : Text) :
    Altered (u ++ s) (u ++ t) (ns.map (u.count '\n' + ·)) := by
  induction u with
  | nil => simpa using h
  | cons c u ih =>
    have hlines : ns.map ((c :: u).count '\n' + ·) =
        (ns.map (u.count '\n' + ·)).map ([c].count '\n' + ·) := by
      rw [List.map_map, ← List.singleton_append, List.count_append]
      exact List.map_congr_left fun n _ => Nat.add_assoc _ _ n
    rw [hlines]
    exact ih.keep c

theorem exists_lead (h : Altered s t ns) : ∃ fates, Fate.Lead fates s t ns := by
  induction h with
  | nil => exact ⟨_, .nil⟩
  | keep c h ih =>
    obtain ⟨fates, hlead⟩ := ih
    exact hlead.exists_keep c h.head?_newline
  | swap hswaps _ ih =>
    obtain ⟨fates, hlead⟩ := ih
    exact hlead.exists_swap hswaps

theorem fencedLines_eq_iff (h : Altered s t ns) :
    Fence.fencedLines t = Fence.fencedLines s ↔ ∀ n ∈ ns, Fence.fencedAt s n = false := by
  obtain ⟨fates, hlead⟩ := h.exists_lead
  have hsteady : ∀ f ∈ fates, f.Steady := fun f hf => (hlead.forks f hf).steady
  have hkeeps := Fate.fencedFrom_after_eq_iff Fence.opened_none hsteady
  rw [hlead.before, hlead.after] at hkeeps
  rw [Fence.fencedLines_eq, Fence.fencedLines_eq, hkeeps, hlead.keepsFenced_iff]

end Altered
end Transclude

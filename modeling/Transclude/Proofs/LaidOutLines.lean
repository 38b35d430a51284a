import Mathlib.Data.List.Chain
import Transclude.Proofs.BlockShifts
import Transclude.Proofs.ClassedLines
import Transclude.Proofs.HeaderEndings
import Transclude.Proofs.ReadingBack

/-! The final layout line by line. Laying out a document reaches its last form at once, and what it
takes away is blank: the lines with something in them stay, and so do all that stand in a fence
which is closed. -/

namespace Transclude

namespace Text

variable {s : Text}

theorem exists_row_of_infix (h : ['\r', '\n'] <:+: s) : ∃ r ∈ s.rows, r.getLast? = some '\r' := by
  obtain ⟨front, behind, rfl⟩ := h
  obtain ⟨xs, x, hfront⟩ :=
    (List.eq_nil_or_concat (rows front)).resolve_left (rows_ne_nil front)
  rw [List.concat_eq_append] at hfront
  have hreturn : rows (['\r', '\n'] ++ behind) = ['\r'] :: rows behind :=
    rows_cons_of_ne (by decide) (rows_newline_cons behind)
  refine ⟨x ++ ['\r'], ?_, List.getLast?_concat⟩
  rw [List.append_assoc, rows_append hfront hreturn]
  simp

theorem dropReturn_cons {c : Char} (h : c = '\r' → s ≠ []) :
    dropReturn (c :: s) = c :: dropReturn s := by
  by_cases hs : s = []
  · subst hs
    have hc : c ≠ '\r' := fun heq => h heq rfl
    exact dropReturn_eq_self (by simpa using hc.symm)
  · exact dropReturn_append_of_ne_nil [c] hs

end Text

namespace Layout

theorem joinEndings_of_not_infix {s : Text} (h : ¬ ['\r', '\n'] <:+: s) : joinEndings s = s := by
  fun_induction joinEndings s with
  | case1 => rfl
  | case2 rest ih => exact absurd (List.prefix_append ['\r', '\n'] rest).isInfix h
  | case3 c rest hc ih => rw [ih fun hrest => h (hrest.trans (List.suffix_cons c rest).isInfix)]

theorem rows_joinEndings (s : Text) : (joinEndings s).rows = s.lines := by
  fun_induction joinEndings s with
  | case1 => rfl
  | case2 rest ih =>
    have hrows : Text.rows ('\r' :: '\n' :: rest) = ['\r'] :: Text.rows rest :=
      Text.rows_cons_of_ne (by decide) (Text.rows_newline_cons rest)
    have hsplit := Text.dropReturns_append [['\r']] (Text.rows_ne_nil rest)
    rw [Text.rows_newline_cons, ih]
    change _ = Text.dropReturns (Text.rows _)
    rw [hrows]
    exact hsplit.symm
  | case3 c rest hc ih =>
    change _ = Text.dropReturns (Text.rows _)
    by_cases hfeed : c = '\n'
    · subst hfeed
      rw [Text.rows_newline_cons, Text.rows_newline_cons, ih]
      exact (Text.dropReturns_append [[]] (Text.rows_ne_nil rest)).symm
    · obtain ⟨row, more, hrest⟩ := Text.exists_rows rest
      change _ = Text.dropReturns (Text.rows rest) at ih
      rw [hrest] at ih
      rw [Text.rows_cons_of_ne hfeed hrest]
      cases more with
      | nil => exact Text.rows_cons_of_ne hfeed ih
      | cons next more =>
        have hreturn : c = '\r' → row ≠ [] := by
          rintro rfl rfl
          have hwhole := Text.unlines_rows rest
          rw [hrest, Text.unlines_cons_cons, List.nil_append] at hwhole
          exact hc _ rfl hwhole.symm
        rw [Text.dropReturns] at ih
        rw [Text.rows_cons_of_ne hfeed ih, Text.dropReturns, Text.dropReturn_cons hreturn]

theorem trimRight_of_mem_prettify {s r : Text} (h : r ∈ (prettify s).rows) : r.trimRight = r := by
  by_cases hs : s = []
  · subst hs
    obtain rfl := List.mem_singleton.1 h
    rfl
  · rw [rows_prettify hs] at h
    split at h
    · obtain rfl : r = [] := by simpa using h
      rfl
    · rcases List.mem_append.1 h with h | h
      · exact (tidy_tidyRows _).trimmed r h
      · obtain rfl := List.mem_singleton.1 h
        rfl

theorem isRow_of_mem_prettify {s r : Text} (h : r ∈ (prettify s).rows) : FrontMatter.IsRow r := by
  rw [← trimRight_of_mem_prettify h]
  refine ⟨Text.not_mem_trimRight (Text.not_mem_of_mem_rows h), fun hlast => ?_⟩
  exact absurd (Text.getLast?_trimRight hlast) (by decide)

theorem joinEndings_prettify (s : Text) : joinEndings (prettify s) = prettify s := by
  refine joinEndings_of_not_infix fun hinfix => ?_
  obtain ⟨r, hr, hlast⟩ := Text.exists_row_of_infix hinfix
  exact (isRow_of_mem_prettify hr).uncut hlast

theorem lines_prettify (s : Text) : (prettify s).lines = (prettify s).rows := by
  rw [← rows_joinEndings, joinEndings_prettify]

theorem exists_eq_append_newline {s : Text} (h : s ≠ []) :
    ∃ body, prettify s = body ++ ['\n'] ∧ body.getLast? ≠ some '\n' := by
  set t := collapse (trimLines (joinEndings s)) with ht
  refine ⟨t.rdropWhile (· = '\n'), by rw [prettify, if_neg h]; rfl, fun hlast => ?_⟩
  have hstop := List.head?_dropWhile_not (· = '\n') t.reverse
  rw [List.rdropWhile, List.getLast?_reverse] at hlast
  rw [hlast] at hstop
  simp at hstop

def trimmed (l : Text × LineClass) : Text × LineClass := (l.1.trimRight, l.2)

def filled (ls : List (Text × LineClass)) : List (Text × LineClass) :=
  ls.filter fun l => !l.1.allBlank

def delimits (ls : List (Text × LineClass)) : Bool := ls.any fun l => l.2 = .fence

/-- The classified lines that are not blank or stand in a fence that is closed: the next delimiter
behind a fenced line closes its fence. -/
def lasting : List (Text × LineClass) → List (Text × LineClass)
  | [] => []
  | l :: rest =>
    if l.1.allBlank && !(l.2 = .fenced && delimits rest) then lasting rest else l :: lasting rest

/-- Whether two classified lines are not both blank lines outside fences. -/
def Apart (a b : Text × LineClass) : Prop :=
  ¬ (a.1.allBlank ∧ a.2.inFence = false ∧ b.1.allBlank ∧ b.2.inFence = false)

section Lasting

variable {l : Text × LineClass} {xs ys : List (Text × LineClass)}

theorem filled_map_trimmed (ls : List (Text × LineClass)) :
    filled (ls.map trimmed) = (filled ls).map trimmed := by
  rw [filled, filled, List.filter_map]
  congr 2
  funext l
  exact congrArg (!·) (Text.allBlank_trimRight l.1)

theorem filled_lasting (ls : List (Text × LineClass)) : filled (lasting ls) = filled ls := by
  fun_induction lasting ls with
  | case1 => rfl
  | case2 l rest hdrop ih =>
    have hblank : l.1.allBlank := (Bool.and_eq_true_iff.1 hdrop).1
    rw [ih, filled, filled, List.filter_cons_of_neg (by simp [hblank])]
  | case3 l rest hkeep ih =>
    change List.filter _ _ = List.filter _ _ at ih
    rw [filled, filled, List.filter_cons, List.filter_cons, ih]

theorem delimits_map_trimmed (ls : List (Text × LineClass)) :
    delimits (ls.map trimmed) = delimits ls := List.any_map

theorem lasting_map_trimmed (ls : List (Text × LineClass)) :
    lasting (ls.map trimmed) = (lasting ls).map trimmed := by
  induction ls with
  | nil => rfl
  | cons l rest ih =>
    rw [List.map_cons, lasting, lasting, delimits_map_trimmed, ih, trimmed, Text.allBlank_trimRight]
    split <;> rfl

theorem lasting_cons_congr (h : lasting xs = lasting ys) (hd : delimits xs = delimits ys) :
    lasting (l :: xs) = lasting (l :: ys) := by
  rw [lasting, lasting, h, hd]

theorem delimits_cons_congr (hd : delimits xs = delimits ys) :
    delimits (l :: xs) = delimits (l :: ys) := by
  rw [delimits, delimits, List.any_cons, List.any_cons]
  exact congrArg _ hd

theorem lasting_append (hblank : ∀ l ∈ ys, l.1.allBlank) (hopen : delimits ys = false) :
    lasting (xs ++ ys) = lasting xs := by
  induction xs with
  | nil =>
    induction ys with
    | nil => rfl
    | cons l ys ih =>
      obtain ⟨hl, hys⟩ := List.forall_mem_cons.1 hblank
      obtain ⟨-, hrest⟩ := Bool.or_eq_false_iff.1 hopen
      have hnone : lasting ys = [] := ih hys hrest
      have hdrop : (l.1.allBlank && !(l.2 = .fenced && delimits ys)) = true := by
        rw [hl, show delimits ys = false from hrest, Bool.and_false]
        rfl
      exact (if_pos hdrop).trans hnone
  | cons l xs ih =>
    refine lasting_cons_congr ih ?_
    change (xs ++ ys).any _ = _
    rw [List.any_append, ← delimits, ← delimits, hopen, Bool.or_false]

end Lasting

section Classes

variable {open? : Option Fence} {blank : Bool} {rs : List Text}

theorem classifyFrom_map_trimRight (open? : Option Fence) (rs : List Text) :
    Fence.classifyFrom open? (rs.map Text.trimRight) =
      (Fence.classifyFrom open? rs).map trimmed := by
  induction rs generalizing open? with
  | nil => rfl
  | cons r rs ih =>
    rw [List.map_cons, Fence.classifyFrom_cons, Fence.classifyFrom_cons,
      Fence.step_congr (Text.trim_trimRight r), ih]
    rfl

/-- What is dropped among the lines is neither lasting nor the delimiter of a fence. -/
theorem lasting_collapseLines (open? : Option Fence) (blank : Bool) (rs : List Text) :
    lasting (Fence.classifyFrom open? (collapseLines open? blank rs)) =
        lasting (Fence.classifyFrom open? rs) ∧
      delimits (Fence.classifyFrom open? (collapseLines open? blank rs)) =
        delimits (Fence.classifyFrom open? rs) := by
  induction rs generalizing open? blank with
  | nil => exact ⟨rfl, rfl⟩
  | cons line rs ih =>
    cases hin : (Fence.step open? line).1.inFence with
    | true =>
      obtain ⟨hlast, hdelimits⟩ := ih (Fence.step open? line).2 false
      rw [collapseLines_fenced hin, Fence.classifyFrom_cons, Fence.classifyFrom_cons]
      exact ⟨lasting_cons_congr hlast hdelimits, delimits_cons_congr hdelimits⟩
    | false =>
      cases hdrop : line.allBlank && blank with
      | true =>
        have hline : line.allBlank := (Bool.and_eq_true_iff.1 hdrop).1
        obtain ⟨rfl, hnext⟩ := Fence.step_of_not_inFence (Bool.eq_false_iff.1 hin)
        obtain ⟨hlast, hdelimits⟩ := ih none true
        rw [collapseLines_dropped hin hdrop, Fence.classifyFrom_cons, hnext, hlast, hdelimits,
          Fence.step_blank hline, lasting, hline]
        exact ⟨rfl, rfl⟩
      | false =>
        obtain ⟨hlast, hdelimits⟩ := ih (Fence.step open? line).2 line.allBlank
        rw [collapseLines_kept hin hdrop, Fence.classifyFrom_cons, Fence.classifyFrom_cons]
        exact ⟨lasting_cons_congr hlast hdelimits, delimits_cons_congr hdelimits⟩

theorem delimits_of_empty (h : Fence.Real open?) (hrs : ∀ r ∈ rs, r = []) :
    delimits (Fence.classifyFrom open? rs) = false := by
  induction rs generalizing open? with
  | nil => rfl
  | cons r rs ih =>
    obtain ⟨rfl, hrest⟩ := List.forall_mem_cons.1 hrs
    have hfirst : (Fence.step open? []).1 ≠ .fence := by
      cases open? with
      | none => exact nofun
      | some fence =>
        have hopen : fence.closedBy [] = false :=
          Bool.eq_false_iff.2 fun hclosed => List.not_mem_nil (Fence.mem_of_closedBy h hclosed)
        rw [Fence.step_fenced hopen]
        exact nofun
    rw [Fence.classifyFrom_cons, delimits, List.any_cons, ← delimits,
      ih (Fence.real_step h []) hrest]
    simpa using hfirst

theorem lasting_append_empty (rs : List Text) {empty : List Text} (h : ∀ r ∈ empty, r = []) :
    lasting (Fence.classifyFrom none (rs ++ empty)) = lasting (Fence.classifyFrom none rs) := by
  rw [Fence.classifyFrom_append]
  refine lasting_append (fun l hl => ?_)
    (delimits_of_empty (Fence.real_openAfter Fence.real_none rs) h)
  have hline : l.1 = [] := h l.1 (List.of_mem_zip hl).1
  rw [hline]
  rfl

theorem lasting_tidyRows (rs : List Text) :
    lasting (Fence.classifyFrom none (tidyRows rs)) =
      (lasting (Fence.classifyFrom none rs)).map trimmed := by
  set kept := collapseLines none false (rs.map Text.trimRight) with hkept
  have hcut : tidyRows rs ++ kept.rtakeWhile (· = []) = kept := List.rdropWhile_append_rtakeWhile
  have hempty : ∀ r ∈ kept.rtakeWhile (· = []), r = [] := fun r hr => by
    simpa using List.mem_rtakeWhile_imp hr
  rw [← lasting_append_empty (tidyRows rs) hempty, hcut, hkept, (lasting_collapseLines _ _ _).1,
    classifyFrom_map_trimRight, lasting_map_trimmed]

theorem isChain_of_collapsed (h : collapsed open? blank rs) {first : Text × LineClass}
    (hfirst : first.1.allBlank → first.2.inFence = false → blank) :
    (first :: Fence.classifyFrom open? rs).IsChain Apart := by
  induction rs generalizing open? blank first with
  | nil => exact .singleton first
  | cons line rs ih =>
    rw [Fence.classifyFrom_cons]
    rw [collapsed] at h
    dsimp only at h
    cases hin : (Fence.step open? line).1.inFence with
    | true =>
      rw [if_pos hin] at h
      refine .cons_cons (fun hboth => ?_) (ih h fun _ hout => ?_)
      · rw [hin] at hboth
        cases hboth.2.2.2
      · rw [hin] at hout
        cases hout
    | false =>
      rw [if_neg (by simp [hin]), Bool.and_eq_true] at h
      refine .cons_cons (fun hboth => ?_) (ih h.2 fun hline _ => hline)
      have hblank := hfirst hboth.1 hboth.2.1
      rw [hblank, hboth.2.2.1] at h
      cases h.1

end Classes

theorem exists_lines_prettify {s : Text} (h : s ≠ []) :
    ∃ empty, (prettify s).lines = tidyRows s.lines ++ empty ++ [[]] ∧
      (empty = [] ∨ tidyRows s.lines = [] ∧ empty = [[]]) := by
  rw [lines_prettify, rows_prettify h, rows_joinEndings]
  split
  · rename_i hrows
    exact ⟨[[]], by rw [hrows]; rfl, .inr ⟨hrows, rfl⟩⟩
  · exact ⟨[], by rw [List.append_nil], .inl rfl⟩

theorem lasting_prettify (s : Text) :
    lasting (Fence.classify (prettify s)) = (lasting (Fence.classify s)).map trimmed := by
  by_cases h : s = []
  · subst h
    rfl
  · obtain ⟨empty, hlines, hempty⟩ := exists_lines_prettify h
    rw [Fence.classify_eq, hlines, lasting_append_empty _ (List.forall_mem_singleton.2 rfl),
      lasting_append_empty _ (by rcases hempty with rfl | ⟨-, rfl⟩ <;> simp), lasting_tidyRows]
    rfl

theorem isChain_prettify (s : Text) : (Fence.classify (prettify s)).dropLast.IsChain Apart := by
  by_cases h : s = []
  · subst h
    exact .nil
  · obtain ⟨empty, hlines, hempty⟩ := exists_lines_prettify h
    rw [Fence.classify_eq, hlines, Fence.classifyFrom_append, Fence.classifyFrom_cons]
    change List.IsChain Apart (_ ++ [_]).dropLast
    rw [List.dropLast_concat]
    rcases hempty with rfl | ⟨hrows, rfl⟩
    · rw [List.append_nil]
      refine List.IsChain.tail (isChain_of_collapsed (tidy_tidyRows s.lines).collapsed ?_ :
        List.IsChain Apart ((['x'], .plain) :: _))
      exact fun hblank _ => hblank
    · rw [hrows]
      exact .singleton _

/-- A document is laid out once and for all. It is empty exactly if nothing was to be laid out, and
else ends with one line feed; no line of it ends in a blank, and no two blank lines outside fences
follow one another. What is lost is blank: the lines with something in them, each without the blanks
at its end, are the same as before and of the same classes, and so they are together with the blank
lines of the fences that are closed. -/
theorem prettify_is_final (s : Text) :
    prettify (prettify s) = prettify s ∧ (prettify s = [] ↔ s = []) ∧
      (s ≠ [] → ∃ body, prettify s = body ++ ['\n'] ∧ body.getLast? ≠ some '\n') ∧
      (∀ line ∈ (prettify s).lines, line.trimRight = line) ∧
      (Fence.classify (prettify s)).dropLast.IsChain Apart ∧
      filled (Fence.classify (prettify s)) = (filled (Fence.classify s)).map trimmed ∧
      lasting (Fence.classify (prettify s)) = (lasting (Fence.classify s)).map trimmed := by
  refine ⟨prettify_of_joined (joinEndings_prettify s), prettify_eq_nil_iff,
    exists_eq_append_newline, fun line hline => ?_, isChain_prettify s, ?_, lasting_prettify s⟩
  · rw [lines_prettify] at hline
    exact trimRight_of_mem_prettify hline
  · rw [← filled_lasting, lasting_prettify, filled_map_trimmed, filled_lasting]

-- Blank lines at the end go even in a fence, if nothing closes it.
example : prettify "~~~\n\n\n~~~\n\n\n~~~\n\n".text = "~~~\n\n\n~~~\n\n~~~\n".text := by
  decide +kernel

end Layout
end Transclude

import Mathlib.Data.List.Induction
import Mathlib.Tactic.SplitIfs
import Transclude.Listing.Table
import Transclude.Proofs.Rows
import Transclude.Proofs.RunInversion

/-! Reading a table back. A row is cut at the bars behind no backslash, and a cell is what stands
between the blanks of a piece, an escaped bar counting as a bar. Read in this way a table holds the
values that were put into it, whatever they are, but for their line endings. -/

namespace Transclude

theorem Column.ofItems_eq (items : List Item) : ofItems items =
    (items.flatMap fun item => item.attributes.names).eraseDups.map fun name => ⟨name, name⟩ := by
  unfold ofItems
  generalize (items.flatMap fun item => item.attributes.names) = names
  induction names using List.reverseRecOn with
  | nil => rfl
  | append_singleton names name ih =>
    have hmem : (⟨name, name⟩ : Column) ∈ names.eraseDups.map (fun name => ⟨name, name⟩) ↔
        name ∈ names := by
      simp
    rw [List.foldl_append, ih, List.foldl_cons, List.foldl_nil, List.eraseDups_append,
      List.map_append]
    by_cases hname : name ∈ names
    · rw [if_pos (hmem.2 hname)]
      simp [List.removeAll, hname]
    · rw [if_neg (mt hmem.1 hname)]
      simp [List.removeAll, hname, List.eraseDups_cons]

namespace Table

/-- Cuts a row at the bars with no backslash right before them; `escaped` tells whether there is one
before the first character. -/
def splitBars (escaped : Bool) : Text → List Text
  | [] => [[]]
  | c :: rest =>
    if c = '|' ∧ escaped = false then [] :: splitBars false rest
    else (splitBars (c = '\\') rest).modifyHead (c :: ·)

def unescapeBars : Text → Text
  | '\\' :: '|' :: rest => '|' :: unescapeBars rest
  | c :: rest => c :: unescapeBars rest
  | [] => []

def unpad (piece : Text) : Text :=
  let body := if piece.head? = some ' ' then piece.tail else piece
  if body.getLast? = some ' ' then body.dropLast else body

def readCell (piece : Text) : Text := unescapeBars (unpad piece)

/-- The cells of a row, which stand between its first and its last bar. -/
def readRow (row : Text) : List Text := (splitBars false row).tail.dropLast.map readCell

/-- A value with a break for each of its line endings. -/
def breakLines : Text → Text
  | [] => []
  | '\r' :: '\n' :: rest => "<br>".text ++ breakLines rest
  | c :: rest => if c = '\n' then "<br>".text ++ breakLines rest else c :: breakLines rest

theorem splitBars_cons {c : Char} (hc : c ≠ '|') (escaped : Bool) (rest : Text) :
    splitBars escaped (c :: rest) = (splitBars (c = '\\') rest).modifyHead (c :: ·) :=
  if_neg fun h => hc h.1

theorem splitBars_escapeCell (v : Text) (escaped : Bool) (rest : Text) :
    splitBars escaped (escapeCell v ++ ' ' :: rest) =
      (splitBars false rest).modifyHead (escapeCell v ++ ' ' :: ·) := by
  fun_induction escapeCell v generalizing escaped with
  | case1 => exact splitBars_cons (by decide) escaped rest
  | case2 v ih =>
    simp [String.text, splitBars, ih, Function.comp_def]
  | case3 c v hcrlf ih =>
    split_ifs with hbar hfeed
    · simp [splitBars, ih, Function.comp_def]
    · simp [String.text, splitBars, ih, Function.comp_def]
    · simp [splitBars_cons hbar, ih, Function.comp_def]

theorem unescapeBars_cons {c : Char} {rest : Text} (h : c = '\\' → rest.head? ≠ some '|') :
    unescapeBars (c :: rest) = c :: unescapeBars rest := by
  by_cases hc : c = '\\'
  · subst hc
    cases rest with
    | nil => rfl
    | cons d rest =>
      have hd : d ≠ '|' := fun hd => h rfl (congrArg some hd)
      rw [unescapeBars]
      simpa using hd
  · rw [unescapeBars]
    intro _ heq
    exact absurd heq hc

theorem head?_escapeCell (v : Text) : (escapeCell v).head? ≠ some '|' := by
  fun_cases escapeCell v with
  | case1 => nofun
  | case2 v => nofun
  | case3 c v hcrlf =>
    split_ifs with hbar hfeed
    · nofun
    · nofun
    · simpa using hbar

theorem unescapeBars_escapeCell (v : Text) : unescapeBars (escapeCell v) = breakLines v := by
  fun_induction escapeCell v with
  | case1 => rfl
  | case2 v ih =>
    rw [breakLines, ← ih]
    rfl
  | case3 c v hcrlf ih =>
    rw [breakLines]
    · split_ifs with hbar hfeed hfeed
      · subst hbar
        cases hfeed
      · subst hbar
        exact congrArg _ ih
      · rw [← ih]
        rfl
      · rw [List.singleton_append, unescapeBars_cons fun _ => head?_escapeCell v, ih]
    · exact hcrlf

theorem newline_not_mem_escapeCell (v : Text) : '\n' ∉ escapeCell v := by
  have hbreak : '\n' ∉ "<br>".text := by decide
  fun_induction escapeCell v with
  | case1 => exact List.not_mem_nil
  | case2 v ih => exact List.not_mem_append hbreak ih
  | case3 c v hcrlf ih =>
    apply List.not_mem_append _ ih
    split_ifs with hbar hfeed
    · decide
    · exact hbreak
    · simpa using fun h : '\n' = c => hfeed h.symm

theorem row_eq {cells : List Text} (h : cells ≠ []) :
    row cells = '|' :: cells.flatMap fun cell => ' ' :: (cell ++ [' ', '|']) := by
  have hjoin (c : Text) (cs : List Text) : ' ' :: (Text.joinWith " | " (c :: cs) ++ " |".text) =
      (c :: cs).flatMap fun cell => ' ' :: (cell ++ [' ', '|']) := by
    induction cs generalizing c with
    | nil => simp [Text.joinWith, List.intercalate, String.text]
    | cons d cs ih =>
      rw [List.flatMap_cons, ← ih d]
      simp [Text.joinWith, List.intercalate, String.text]
  obtain ⟨c, cs, rfl⟩ := List.exists_cons_of_ne_nil h
  exact congrArg ('|' :: ·) (hjoin c cs)

/-- The pieces of a row: nothing in front of the first bar and behind the last one, and the values
between blanks. -/
theorem splitBars_row {values : List Text} (h : values ≠ []) :
    splitBars false (row (values.map escapeCell)) =
      [] :: (values.map fun v => ' ' :: (escapeCell v ++ [' '])) ++ [[]] := by
  have hcells (vs : List Text) :
      splitBars false ((vs.map escapeCell).flatMap fun cell => ' ' :: (cell ++ [' ', '|'])) =
        (vs.map fun v => ' ' :: (escapeCell v ++ [' '])) ++ [[]] := by
    induction vs with
    | nil => rfl
    | cons v vs ih =>
      rw [List.map_cons, List.flatMap_cons, List.cons_append, splitBars_cons (by decide),
        List.append_assoc]
      simp [splitBars_escapeCell, splitBars, ih]
  rw [row_eq (by simpa using h), splitBars, if_pos ⟨rfl, rfl⟩, hcells]
  rfl

theorem unpad_padded (body : Text) : unpad (' ' :: (body ++ [' '])) = body := by
  simp [unpad]

theorem length_splitBars_row {values : List Text} (h : values ≠ []) :
    (splitBars false (row (values.map escapeCell))).length = values.length + 2 := by
  rw [splitBars_row h]
  simp

theorem readRow_row {values : List Text} (h : values ≠ []) :
    readRow (row (values.map escapeCell)) = values.map breakLines := by
  rw [readRow, splitBars_row h, List.cons_append, List.tail_cons, List.dropLast_concat, List.map_map]
  apply List.map_congr_left
  intro v _
  rw [Function.comp_apply, readCell, unpad_padded, unescapeBars_escapeCell]

theorem newline_not_mem_row {values : List Text} (h : values ≠ []) :
    '\n' ∉ row (values.map escapeCell) := by
  rw [row_eq (by simpa using h), List.mem_cons, List.mem_flatMap]
  rintro (hbar | ⟨cell, hcell, hmem⟩)
  · cases hbar
  · obtain ⟨v, -, rfl⟩ := List.mem_map.1 hcell
    simp [newline_not_mem_escapeCell v] at hmem

def grid (columns : List Column) (items : List Item) : List (List Text) :=
  columns.map (·.label) :: columns.map (fun _ => "---".text)
    :: items.map fun item => columns.map fun column => cellValue column.field item

theorem rows_eq (columns : List Column) (items : List Item) :
    rows columns items = (grid columns items).map fun values => row (values.map escapeCell) := by
  have hdashes : escapeCell "---".text = "---".text := rfl
  simp [rows, grid, hdashes, Function.comp_def]

theorem length_of_mem_grid {columns : List Column} {items : List Item} {values : List Text}
    (h : values ∈ grid columns items) : values.length = columns.length := by
  rcases List.mem_cons.1 h with rfl | h
  · exact List.length_map _
  · rcases List.mem_cons.1 h with rfl | h
    · exact List.length_map _
    · obtain ⟨item, -, rfl⟩ := List.mem_map.1 h
      exact List.length_map _

/-- The columns of a table: those that are asked for, or one for each attribute of an item. -/
def columnsFor (options : Fields TableOption) (items : List Item) : List Column :=
  if TableOption.columns options = [] then
    (items.flatMap fun item => item.attributes.names).eraseDups.map fun name => ⟨name, name⟩
  else TableOption.columns options

theorem render_eq {file standard argument : Text} {lists : Lists} {options : Fields TableOption}
    (hparse : TableOption.parse file argument = .ok options) {items : List Item}
    (hitems : lists.items ((TableOption.list? options).getD standard) = items) (hne : items ≠ [])
    (hcolumns : columnsFor options items ≠ []) : render file standard lists argument =
      .ok (Text.unlines (rows (columnsFor options items) items)) := by
  have hchosen : (if TableOption.columns options = [] then Column.ofItems items
      else TableOption.columns options) = columnsFor options items := by
    rw [columnsFor, Column.ofItems_eq]
  rw [render, hparse]
  dsimp only
  rw [hitems, hchosen, if_neg hcolumns, if_neg hne]

/-- The lines of a table with items and columns are one for the labels, one of dashes and one for each
item. Cut at its bare bars each has an empty piece at both ends and one piece for each column, and
read back these are the labels, dashes, and values, but for breaks in place of line endings. -/
theorem render_reads_back {file standard argument : Text} {lists : Lists}
    {options : Fields TableOption} (hparse : TableOption.parse file argument = .ok options)
    {items : List Item} (hitems : lists.items ((TableOption.list? options).getD standard) = items)
    (hne : items ≠ []) (hcolumns : columnsFor options items ≠ []) :
    ∃ table, render file standard lists argument = .ok table ∧
      (Text.rows table).length = items.length + 2 ∧
      (∀ line ∈ Text.rows table, '\n' ∉ line ∧
        (splitBars false line).length = (columnsFor options items).length + 2 ∧
        (splitBars false line).head? = some [] ∧ (splitBars false line).getLast? = some []) ∧
      (Text.rows table).map readRow =
        (columnsFor options items).map (fun column => breakLines column.label)
          :: (columnsFor options items).map (fun _ => "---".text)
          :: items.map fun item => (columnsFor options items).map fun column =>
            breakLines (cellValue column.field item) := by
  refine ⟨_, render_eq hparse hitems hne hcolumns, ?_⟩
  generalize columnsFor options items = columns at hcolumns
  have hvalues : ∀ values ∈ grid columns items, values ≠ [] := by
    rintro _ hmem rfl
    exact hcolumns (List.length_eq_zero_iff.1 (length_of_mem_grid hmem).symm)
  have hrows : Text.rows (Text.unlines (rows columns items)) = rows columns items := by
    apply Text.rows_unlines
    · exact List.cons_ne_nil _ _
    · intro line hline
      rw [rows_eq] at hline
      obtain ⟨values, hmem, rfl⟩ := List.mem_map.1 hline
      exact newline_not_mem_row (hvalues values hmem)
  rw [hrows]
  refine ⟨length_rows columns items, ?_, ?_⟩
  · intro line hline
    rw [rows_eq] at hline
    obtain ⟨values, hmem, rfl⟩ := List.mem_map.1 hline
    have hv := hvalues values hmem
    refine ⟨newline_not_mem_row hv, ?_, ?_, ?_⟩
    · rw [length_splitBars_row hv, length_of_mem_grid hmem]
    · rw [splitBars_row hv]
      rfl
    · rw [splitBars_row hv, List.getLast?_concat]
  · have hdashes : breakLines "---".text = "---".text := rfl
    calc (rows columns items).map readRow
        = (grid columns items).map fun values => values.map breakLines := by
          rw [rows_eq, List.map_map]
          exact List.map_congr_left fun values hmem => readRow_row (hvalues values hmem)
      _ = _ := by simp [grid, hdashes]

def twisted : Item := ⟨[("name".text, "a|b\\|\r\nc\n\\".text)], "Top | up".text, "top-up".text⟩

theorem render_reads_back_of_twisted :
    let lists : Lists := [("todo".text, [twisted, twisted])]
    let argument := "list=todo|columns=name:The\nname,path,name".text
    TableOption.parse [] argument = .ok [("list".text, .word "todo".text), ("columns".text,
        .table [⟨"name".text, "The\nname".text⟩, ⟨"path".text, "path".text⟩,
          ⟨"name".text, "name".text⟩])] ∧
      ∃ table, render [] "items".text lists argument = .ok table ∧
        (Text.rows table).map readRow = [["The<br>name".text, "path".text, "name".text],
          ["---".text, "---".text, "---".text],
          ["a|b\\|<br>c<br>\\".text, "[Top | up](#top-up)".text, "a|b\\|<br>c<br>\\".text],
          ["a|b\\|<br>c<br>\\".text, "[Top | up](#top-up)".text, "a|b\\|<br>c<br>\\".text]] := by
  intro lists argument
  have hparse : TableOption.parse [] argument = .ok [("list".text, .word "todo".text),
      ("columns".text, .table [⟨"name".text, "The\nname".text⟩, ⟨"path".text, "path".text⟩,
        ⟨"name".text, "name".text⟩])] := Except.ok_of_toOption (by decide +kernel)
  have hitems : lists.items ((TableOption.list? [("list".text, .word "todo".text),
      ("columns".text, .table [⟨"name".text, "The\nname".text⟩, ⟨"path".text, "path".text⟩,
        ⟨"name".text, "name".text⟩])]).getD "items".text) = [twisted, twisted] := by decide +kernel
  obtain ⟨table, htable, -, -, hread⟩ :=
    render_reads_back hparse hitems (by decide) (by decide +kernel)
  refine ⟨hparse, table, htable, ?_⟩
  rw [hread]
  decide +kernel

end Table
end Transclude

import GraphCalc.Screen
import Mathlib.Data.List.Basic

set_option autoImplicit false

namespace GraphCalc.Screen

theorem overwrite_cell (cells : List Char) (start : Nat) (text : List Char) (p : Nat) :
    (overwrite cells start text)[p]? =
      if start ≤ p ∧ p < start + text.length ∧ p < cells.length then text[p - start]? else cells[p]? := by
  unfold overwrite
  grind

theorem overwrite_length (cells : List Char) (start : Nat) (text : List Char) :
    (overwrite cells start text).length = cells.length := by
  unfold overwrite
  simp only [List.length_append, List.length_take, List.length_drop]
  omega

theorem overwrite_past (cells : List Char) (start : Nat) (text : List Char) (past : cells.length ≤ start) :
    overwrite cells start text = cells := by
  apply List.ext_getElem?
  intro p
  rw [overwrite_cell, if_neg (by omega)]

theorem overwrite_nothing (cells : List Char) (start : Nat) : overwrite cells start [] = cells := by
  simp [overwrite]

theorem overwrite_cons (cells : List Char) (start : Nat) (ch : Char) (text : List Char) (within : start < cells.length) :
    overwrite cells start (ch :: text) = overwrite (cells.set start ch) (start + 1) text := by
  apply List.ext_getElem?
  intro p
  rw [overwrite_cell, overwrite_cell]
  grind

theorem overwrite_twice (cells : List Char) (start : Nat) (first second : List Char) (shorter : second.length ≤ first.length) :
    overwrite (overwrite cells start first) start second = overwrite cells start (second ++ first.drop second.length) := by
  apply List.ext_getElem?
  intro p
  rw [overwrite_cell, overwrite_cell, overwrite_cell, overwrite_length]
  grind

def grid (cells : List Char) : List (List Char) :=
  (List.range rows).map fun r => (cells.drop (r * columns)).take columns

theorem grid_row (cells : List Char) (r : Nat) :
    (grid cells)[r]? = if r < rows then some ((cells.drop (r * columns)).take columns) else none := by
  unfold grid
  grind

def setCell? (grid : List (List Char)) (row column : Nat) (ch : Char) : Option (List (List Char)) :=
  (grid[row]?).bind fun cells => if column < cells.length then some (grid.set row (cells.set column ch)) else none

-- After the last column the text goes on in the next row, and after the last row it is dropped.
def write? (grid : List (List Char)) (row column : Nat) : List Char → Option (List (List Char))
  | [] => some grid
  | ch :: text =>
    if rows ≤ row then some grid
    else
      (setCell? grid row column ch).bind fun grid =>
        if column + 1 = columns then write? grid (row + 1) 0 text else write? grid row (column + 1) text

theorem grid_length (cells : List Char) : (grid cells).length = rows := by
  simp [grid]

theorem row_set (cells : List Char) (row r column : Nat) (ch : Char) (inColumns : column < columns) :
    ((cells.set (row * columns + column) ch).drop (r * columns)).take columns =
      if row = r then ((cells.drop (r * columns)).take columns).set column ch
      else (cells.drop (r * columns)).take columns := by
  unfold columns at *
  apply List.ext_getElem?
  intro c
  by_cases here : row = r
  · rw [if_pos here]
    simp only [List.getElem?_take, List.getElem?_drop, List.getElem?_set, List.length_take, List.length_drop]
    grind
  · rw [if_neg here]
    simp only [List.getElem?_take, List.getElem?_drop, List.getElem?_set]
    grind

theorem set_cell_grid (cells : List Char) (size : cells.length = rows * columns) (row column : Nat) (ch : Char)
    (inRows : row < rows) (inColumns : column < columns) :
    setCell? (grid cells) row column ch = some (grid (cells.set (row * columns + column) ch)) := by
  have width : ((cells.drop (row * columns)).take columns).length = columns := by
    simp only [List.length_take, List.length_drop, size, rows, columns] at *
    omega
  have changed : (grid cells).set row (((cells.drop (row * columns)).take columns).set column ch) =
      grid (cells.set (row * columns + column) ch) := by
    apply List.ext_getElem?
    intro r
    rw [List.getElem?_set, grid_row, grid_row, grid_length]
    by_cases here : row = r
    · subst here
      rw [if_pos rfl, if_pos inRows, if_pos inRows, row_set, if_pos rfl]
      exact inColumns
    · rw [if_neg here, row_set cells row r column ch inColumns, if_neg here]
  rw [setCell?, grid_row, if_pos inRows, Option.bind_some, if_pos (by rw [width]; exact inColumns), changed]

theorem write_cells (cells : List Char) (size : cells.length = rows * columns) (row column : Nat) (text : List Char)
    (inColumns : column < columns) :
    write? (grid cells) row column text = some (grid (overwrite cells (row * columns + column) text)) := by
  induction text generalizing cells row column with
  | nil => rw [write?, overwrite_nothing]
  | cons ch text ih =>
      rw [write?]
      by_cases past : rows ≤ row
      · rw [if_pos past, overwrite_past]
        rw [size]
        exact Nat.le_trans (Nat.mul_le_mul_right columns past) (Nat.le_add_right _ _)
      · rw [if_neg past, set_cell_grid cells size row column ch (Nat.lt_of_not_le past) inColumns, Option.bind_some,
          overwrite_cons]
        · by_cases last : column + 1 = columns
          · rw [if_pos last, ih _ (by simpa using size) (row + 1) 0 (by decide), Nat.succ_mul, Nat.add_zero,
              Nat.add_assoc _ column, last]
          · rw [if_neg last, ih _ (by simpa using size) row (column + 1) (by omega)]
            rfl
        · rw [size]
          unfold rows columns at *
          omega

theorem grid_overwrite (cells : List Char) (size : cells.length = rows * columns) (row : Nat) (line : List Char)
    (inRows : row < rows) (width : line.length = columns) :
    grid (overwrite cells (row * columns) line) = (grid cells).set row line := by
  apply List.ext_getElem?
  intro r
  rw [List.getElem?_set, grid_row, grid_row, grid_length]
  by_cases here : row = r
  · subst here
    rw [if_pos rfl, if_pos inRows, if_pos inRows]
    congr 1
    apply List.ext_getElem?
    intro c
    unfold rows columns at *
    simp only [List.getElem?_take, List.getElem?_drop, overwrite_cell]
    grind
  · rw [if_neg here]
    congr 2
    apply List.ext_getElem?
    intro c
    unfold rows columns at *
    simp only [List.getElem?_take, List.getElem?_drop, overwrite_cell]
    grind

theorem grid_scroll (cells : List Char) (size : cells.length = rows * columns) :
    grid (cells.drop columns ++ blanks columns) = (grid cells).tail ++ [blanks columns] := by
  have shifted (r : Nat) (inRows : r < rows) : ((cells.drop columns ++ blanks columns).drop (r * columns)).take columns =
      if r + 1 < rows then (cells.drop ((r + 1) * columns)).take columns else blanks columns := by
    apply List.ext_getElem?
    intro c
    unfold rows columns blanks at *
    by_cases last : r + 1 < 8
    · rw [if_pos last]
      simp only [List.getElem?_take, List.getElem?_drop, List.getElem?_append, List.length_drop, List.getElem?_replicate]
      grind
    · rw [if_neg last]
      simp only [List.getElem?_take, List.getElem?_drop, List.getElem?_append, List.length_drop, List.getElem?_replicate]
      grind
  apply List.ext_getElem?
  intro r
  rw [grid_row, List.getElem?_append, List.length_tail, grid_length, List.getElem?_tail, grid_row]
  by_cases inRows : r < rows
  · rw [if_pos inRows, shifted r inRows]
    unfold rows at *
    grind
  · unfold rows at *
    grind

theorem grid_blank : grid (blanks (rows * columns)) = List.replicate rows (blanks columns) := by
  decide

theorem row_of_length (text : List Char) : (rowOf text).length = columns := by
  simp only [rowOf, blanks, List.length_append, List.length_take, List.length_replicate]
  omega

inductive Call where
  | display (text : String)
  | output (row column : Nat) (text : String)
  | clear
  | take
deriving DecidableEq

namespace Call

def InRange : Call → Prop
  | .output row column _ => (1 ≤ row ∧ row ≤ 8) ∧ 1 ≤ column ∧ column ≤ 16
  | _ => True

def text? : Call → Option String
  | .display text => some text
  | _ => none

end Call

def act (s : Screen) : Call → Screen
  | .display text => s.display text
  | .output row column text => s.output row column text
  | .clear => s.clear
  | .take => s.takeLines.2

def after (s : Screen) (calls : List Call) : Screen := calls.foldl act s

theorem after_append (s : Screen) (first second : List Call) : s.after (first ++ second) = (s.after first).after second :=
  List.foldl_append

structure Sheet where
  lines : List String
  grid : List (List Char)
  cursor : Nat

def sheet (s : Screen) : Sheet := ⟨s.lines, grid s.cells, s.cursor⟩

namespace Sheet

def scroll? (t : Sheet) : Option Sheet :=
  if t.grid = [] then none else some { t with grid := t.grid.tail ++ [blanks columns], cursor := t.cursor - 1 }

def ready? (t : Sheet) : Option Sheet := if t.cursor = rows then t.scroll? else some t

def clearRow? (t : Sheet) : Option Sheet :=
  if t.cursor < t.grid.length then some { t with grid := t.grid.set t.cursor (blanks columns) } else none

def display? (t : Sheet) (text : String) : Option Sheet := do
  let ready ← t.ready?
  let cleared ← ready.clearRow?
  let grid ← write? cleared.grid cleared.cursor 0 (text.toList.take columns)
  return ⟨t.lines ++ [text], grid, cleared.cursor + 1⟩

-- Rows and columns are counted from one.
def output? (t : Sheet) (row column : Nat) (text : String) : Option Sheet :=
  if row = 0 ∨ column = 0 then none
  else (write? t.grid (row - 1) (column - 1) text.toList).map fun grid => { t with grid := grid }

def act? (t : Sheet) : Call → Option Sheet
  | .display text => t.display? text
  | .output row column text => t.output? row column text
  | .clear => some { t with grid := List.replicate rows (blanks columns), cursor := 0 }
  | .take => some { t with lines := [] }

end Sheet

structure Proper (s : Screen) : Prop where
  size : s.cells.length = rows * columns
  inside : s.cursor ≤ rows

def ready (s : Screen) : Screen := if s.cursor = rows then s.scroll else s

theorem display_ready (s : Screen) (text : String) :
    s.display text =
      ⟨s.lines ++ [text], overwrite s.ready.cells (s.ready.cursor * columns) (rowOf text.toList), s.ready.cursor + 1⟩ := rfl

theorem ready_proper (s : Screen) (proper : s.Proper) : s.ready.Proper ∧ s.ready.cursor < rows := by
  unfold ready
  by_cases full : s.cursor = rows
  · rw [if_pos full]
    have size := proper.size
    refine ⟨⟨?_, ?_⟩, ?_⟩
    · simp only [scroll, blanks, List.length_append, List.length_drop, List.length_replicate, size]
      decide
    · simp only [scroll]
      omega
    · simp only [scroll, full]
      decide
  · rw [if_neg full]
    exact ⟨proper, Nat.lt_of_le_of_ne proper.inside full⟩

theorem ready_sheet (s : Screen) (proper : s.Proper) : s.sheet.ready? = some s.ready.sheet := by
  have cursor : s.sheet.cursor = s.cursor := rfl
  rw [Sheet.ready?, cursor, ready]
  by_cases full : s.cursor = rows
  · have filled : s.sheet.grid ≠ [] := List.ne_nil_of_length_pos (by rw [sheet, grid_length]; decide)
    rw [if_pos full, if_pos full, Sheet.scroll?, if_neg filled]
    simp only [sheet, scroll, grid_scroll s.cells proper.size]
  · rw [if_neg full, if_neg full]

theorem display_sheet (s : Screen) (text : String) (proper : s.Proper) :
    s.sheet.display? text = some (s.display text).sheet := by
  obtain ⟨readyProper, room⟩ := s.ready_proper proper
  have written : text.toList.take columns ++ (blanks columns).drop (text.toList.take columns).length = rowOf text.toList := by
    simp only [blanks, List.drop_replicate, rowOf, List.length_take]
    congr 2
    omega
  have shorter : (text.toList.take columns).length ≤ (blanks columns).length := by
    rw [blanks, List.length_replicate, List.length_take]
    exact Nat.min_le_left _ _
  have cleared : s.ready.sheet.clearRow? =
      some ⟨s.ready.lines, grid (overwrite s.ready.cells (s.ready.cursor * columns) (blanks columns)), s.ready.cursor⟩ := by
    rw [Sheet.clearRow?, if_pos (by rw [sheet, grid_length]; exact room), grid_overwrite _ readyProper.size _ _ room (by simp [blanks])]
    rfl
  have line := write_cells (overwrite s.ready.cells (s.ready.cursor * columns) (blanks columns))
    (by rw [overwrite_length]; exact readyProper.size) s.ready.cursor 0 (text.toList.take columns) (by decide)
  rw [Nat.add_zero, overwrite_twice _ _ _ _ shorter, written] at line
  rw [Sheet.display?, s.ready_sheet proper, display_ready]
  simp only [Option.bind_eq_bind, Option.bind_some, cleared, line]
  rfl

theorem output_sheet (s : Screen) (row column : Nat) (text : String) (proper : s.Proper)
    (inRange : (Call.output row column text).InRange) :
    s.sheet.output? row column text = some (s.output row column text).sheet := by
  obtain ⟨rowInside, columnInside⟩ := inRange
  have inColumns : column - 1 < columns := by
    unfold columns
    omega
  rw [Sheet.output?, if_neg (by omega)]
  simp only [sheet, write_cells s.cells proper.size (row - 1) (column - 1) text.toList inColumns, Option.map_some]
  rfl

theorem act_sheet (s : Screen) (call : Call) (proper : s.Proper) (inRange : call.InRange) :
    s.sheet.act? call = some (s.act call).sheet := by
  cases call with
  | display text => exact s.display_sheet text proper
  | output row column text => exact s.output_sheet row column text proper inRange
  | clear => simp only [Sheet.act?, act, sheet, clear, grid_blank]
  | take => rfl

theorem act_proper (s : Screen) (call : Call) (proper : s.Proper) : (s.act call).Proper := by
  cases call with
  | display text =>
      obtain ⟨readyProper, room⟩ := s.ready_proper proper
      rw [act, display_ready]
      exact ⟨by rw [overwrite_length]; exact readyProper.size, room⟩
  | output row column text => exact ⟨by rw [act, output, overwrite_length]; exact proper.size, proper.inside⟩
  | clear => exact ⟨by simp [act, clear, blanks], Nat.zero_le _⟩
  | take => exact ⟨proper.size, proper.inside⟩

theorem after_proper (s : Screen) (calls : List Call) (proper : s.Proper) : (s.after calls).Proper := by
  induction calls generalizing s with
  | nil => exact proper
  | cons call rest ih => exact ih _ (s.act_proper call proper)

theorem after_sheet (s : Screen) (calls : List Call) (proper : s.Proper) (inRange : ∀ call ∈ calls, call.InRange) :
    calls.foldlM Sheet.act? s.sheet = some (s.after calls).sheet := by
  induction calls generalizing s with
  | nil => rfl
  | cons call rest ih =>
      obtain ⟨first, others⟩ := List.forall_mem_cons.mp inRange
      rw [List.foldlM_cons, s.act_sheet call proper first]
      exact ih _ (s.act_proper call proper) others

end GraphCalc.Screen

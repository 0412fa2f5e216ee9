import GraphCalc.Proofs.HomeScreen
import GraphCalc.Session

set_option autoImplicit false

namespace GraphCalc

namespace Screen

-- The character shown in a cell. The cells are numbered row by row.
def cell (s : Screen) (p : Nat) : Option Char := (s.row (p / columns + 1)).toList[p % columns]?

theorem cell_shown (s : Screen) (p : Nat) (inside : p < rows * columns) : s.cell p = s.cells[p]? := by
  have inRows : p / columns < rows := Nat.div_lt_of_lt_mul (Nat.mul_comm rows columns ▸ inside)
  have inColumns : p % columns < columns := Nat.mod_lt p (by decide)
  have position : p / columns * columns + p % columns = p := Nat.div_add_mod' p columns
  rw [cell, row, if_pos ⟨Nat.succ_pos _, inRows⟩, String.toList_ofList, List.getElem?_take_of_lt inColumns,
    List.getElem?_drop, Nat.add_sub_cancel, position]

theorem output_proper (s : Screen) (row column : Nat) (text : String) (proper : s.Proper) :
    (s.output row column text).Proper := s.act_proper (.output row column text) proper

theorem output_cell (s : Screen) (row column : Nat) (text : String) (proper : s.Proper) (p : Nat)
    (inside : p < rows * columns) :
    (s.output row column text).cell p =
      if (row - 1) * columns + (column - 1) ≤ p ∧ p < (row - 1) * columns + (column - 1) + text.toList.length then
        text.toList[p - ((row - 1) * columns + (column - 1))]?
      else s.cell p := by
  rw [cell_shown _ p inside, cell_shown s p inside, output, overwrite_cell, proper.size]
  simp only [inside, and_true]

end Screen

namespace Machine

theorem output_at_writes (m m' : Machine) (args : List Tree) (done : m.outputAt args = (.ok (), m')) :
    ∃ m₁ vals row column v, m.evaluateAll args = (.ok vals, m₁) ∧ outputArguments vals = .ok (row, column, v) ∧
      (1 ≤ row ∧ row ≤ 8) ∧ (1 ≤ column ∧ column ≤ 16) ∧ m' = m₁.writeAt row column (Display.valueText m₁.mode v) := by
  obtain ⟨_, f, failed | failed⟩ | ⟨vals, row, column, v, _, evaluated, located, written⟩ := m.output_at_outcome args
  · cases done.symm.trans failed
  · cases done.symm.trans failed
  · cases done.symm.trans written
    obtain ⟨inRows, inColumns⟩ := output_arguments_range vals row column v located
    exact ⟨_, vals, row, column, v, evaluated, located, inRows, inColumns, rfl⟩

theorem output_writes_its_cells (m : Machine) (proper : m.screen.Proper) (row column : Nat) (inRows : 1 ≤ row ∧ row ≤ 8)
    (inColumns : 1 ≤ column ∧ column ≤ 16) (text : String) :
    let start := 16 * (row - 1) + (column - 1)
    let m' := m.writeAt row column text
    -- Written one cell after the other, the text never leaves the eight rows of sixteen cells.
    m.screen.sheet.output? row column text = some m'.screen.sheet ∧
      (∀ p < 128, m'.screen.cell p =
        if start ≤ p ∧ p < start + text.toList.length then text.toList[p - start]? else m.screen.cell p) ∧
      m'.screen.cells.length = 128 ∧ m'.screen.cursor = m.screen.cursor ∧ m'.screen.lines = m.screen.lines ∧
      m'.supply.keys = m.supply.keys ∧
      ∀ args m₂, m.outputAt args = (.ok (), m₂) →
        ∃ m₁ vals r c v, m.evaluateAll args = (.ok vals, m₁) ∧ outputArguments vals = .ok (r, c, v) ∧
          (1 ≤ r ∧ r ≤ 8) ∧ (1 ≤ c ∧ c ≤ 16) ∧ m₂ = m₁.writeAt r c (Display.valueText m₁.mode v) := by
  intro start m'
  have first : start = (row - 1) * Screen.columns + (column - 1) := by
    rw [Nat.mul_comm]
    rfl
  refine ⟨m.screen.output_sheet row column text proper ⟨inRows, inColumns⟩, ?_, ?_, rfl, rfl, rfl, ?_⟩
  · intro p inside
    rw [first]
    exact m.screen.output_cell row column text proper p inside
  · exact (m.screen.output_proper row column text proper).size
  · exact fun args m₂ => m.output_at_writes m₂ args

-- From the last cell but one on: two of the three characters fit.
theorem three_characters_at_the_end :
    Machine.initial.screen.Proper ∧ ((Machine.initial.writeAt 8 15 "XYZ").screen.cell 126 = some 'X' ∧
      (Machine.initial.writeAt 8 15 "XYZ").screen.cell 127 = some 'Y') ∧
      (Machine.initial.writeAt 8 15 "XYZ").screen.cell 125 = Machine.initial.screen.cell 125 := by
  have proper : Machine.initial.screen.Proper := Screen.blank_proper
  obtain ⟨_, cells, _⟩ := output_writes_its_cells .initial proper 8 15 (by decide) (by decide) "XYZ"
  exact ⟨proper, ⟨cells 126 (by decide), cells 127 (by decide)⟩, cells 125 (by decide)⟩

end Machine

end GraphCalc

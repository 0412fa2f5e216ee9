set_option autoImplicit false

namespace GraphCalc

structure Screen where
  lines : List String
  cells : List Char
  /-- The row that the next line goes to; past the last one the screen scrolls first. -/
  cursor : Nat
deriving DecidableEq, Repr

namespace Screen

def rows : Nat := 8
def columns : Nat := 16

def blanks (n : Nat) : List Char := List.replicate n ' '

def blank : Screen := ⟨[], blanks (rows * columns), 0⟩

def overwrite (cells : List Char) (start : Nat) (text : List Char) : List Char :=
  cells.take start ++ text.take (cells.length - start) ++ cells.drop (start + text.length)

def rowOf (text : List Char) : List Char :=
  text.take columns ++ blanks (columns - text.length)

def scroll (s : Screen) : Screen :=
  { s with cells := s.cells.drop columns ++ blanks columns, cursor := s.cursor - 1 }

def display (s : Screen) (text : String) : Screen :=
  let scrolled := if s.cursor = rows then s.scroll else s
  { lines := s.lines ++ [text]
    cells := overwrite scrolled.cells (scrolled.cursor * columns) (rowOf text.toList)
    cursor := scrolled.cursor + 1 }

def output (s : Screen) (row column : Nat) (text : String) : Screen :=
  { s with cells := overwrite s.cells ((row - 1) * columns + (column - 1)) text.toList }

def clear (s : Screen) : Screen := { s with cells := blanks (rows * columns), cursor := 0 }

def takeLines (s : Screen) : List String × Screen := (s.lines, { s with lines := [] })

def row (s : Screen) (n : Nat) : String :=
  if 1 ≤ n ∧ n ≤ rows then String.ofList ((s.cells.drop ((n - 1) * columns)).take columns) else ""

end Screen

end GraphCalc

import GraphCalc.Fault
import GraphCalc.Token

/-!
A position in a sequence of token bytes. It can stand before every byte, after the last one, and one
step further, once the end of the input has been read as well.
-/

set_option autoImplicit false

namespace GraphCalc

structure Cursor where
  /-- The bytes already read, the last one first. -/
  passed : Bytes
  rest : Bytes
  /-- The end of the input has been read. -/
  ended : Bool
  interrupted : Bool
deriving DecidableEq, Repr

namespace Cursor

def start (bytes : Bytes) (interrupted : Bool) : Cursor := ⟨[], bytes, false, interrupted⟩

def peek (c : Cursor) : Option UInt8 := c.rest.head?

def current (c : Cursor) : Option UInt8 :=
  if c.ended then none else c.passed.head?

def next (c : Cursor) : Cursor :=
  match c.rest with
  | b :: rest => { c with passed := b :: c.passed, rest := rest }
  | [] => { c with ended := true }

def back (c : Cursor) : Cursor :=
  if c.ended then { c with ended := false }
  else match c.passed with
    | b :: passed => { c with passed := passed, rest := b :: c.rest }
    | [] => c

def advance (c : Cursor) : Nat → Cursor
  | 0 => c
  | n + 1 => c.next.advance n

def place (c : Cursor) : Place :=
  let before := if c.ended then c.passed else c.passed.tail
  ⟨before.count Byte.newline + 1, (before.takeWhile (· != Byte.newline)).length + 1⟩

theorem next_rest (c : Cursor) : c.next.rest = c.rest.tail := by
  unfold next
  cases h : c.rest <;> simp

theorem advance_rest (c : Cursor) (n : Nat) : (c.advance n).rest = c.rest.drop n := by
  induction n generalizing c with
  | zero => rfl
  | succ n ih => rw [advance, ih, next_rest, List.drop_tail]

end Cursor

end GraphCalc

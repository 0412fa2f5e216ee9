import GraphCalc.Expression

set_option autoImplicit false

namespace GraphCalc.Statement

structure Stops where
  endWord : Bool
  elseWord : Bool
deriving DecidableEq, Repr

def Stops.endAt (stops : Stops) (b : UInt8) : Bool :=
  (stops.endWord && b == Byte.endWord) || (stops.elseWord && b == Byte.elseWord)

/-- Expressions between commas. With `paren` a right parenthesis outside all brackets may close them,
and then it is the last token of the line. -/
def readArguments (paren : Bool) (c : Cursor) : Except Fault (List Tree) × Cursor :=
  match _parsed : Expression.parse ⟨true, paren⟩ c with
  | (.error f, c') => (.error f, c')
  | (.ok tree, c') =>
    if c'.current = some Byte.comma then
      let (result, c'') := readArguments paren c'
      (result.map (tree :: ·), c'')
    else if paren ∧ c'.current = some Byte.closeParen ∧ endOfLine c'.peek = false then
      (.error (Fault.ofCause .tokenAfterParen), c')
    else (.ok [tree], c')
termination_by c.rest.length
decreasing_by exact Expression.parse_progress _ c c' tree _parsed

def readShape (shape : Shape) (c : Cursor) : Except Fault (List Tree) × Cursor :=
  match shape with
  | .standalone =>
    if endOfLine c.peek then (.ok [], c) else (.error (Fault.ofCause .tokenAfterCommand), c)
  | .args | .paren =>
    if endOfLine c.peek then (.error (Fault.ofCause .expectedArgument), c)
    else readArguments (shape == .paren) c

theorem read_arguments_rest_le (paren : Bool) (c c' : Cursor) (args : List Tree)
    (read : readArguments paren c = (.ok args, c')) : c'.rest.length ≤ c.rest.length := by
  fun_induction readArguments paren c generalizing args c' with
  | case1 => cases read
  | case2 c tree c₁ parsed comma result c₂ more ih =>
    have first := Expression.parse_progress _ _ _ _ parsed
    cases result with
    | error f => cases read
    | ok rest =>
      cases read
      exact Nat.le_trans (ih _ rest more) (Nat.le_of_lt first)
  | case3 => cases read
  | case4 c tree c₁ parsed =>
    cases read
    exact Nat.le_of_lt (Expression.parse_progress _ _ _ _ parsed)

theorem read_shape_rest_le (shape : Shape) (c c' : Cursor) (args : List Tree)
    (read : readShape shape c = (.ok args, c')) : c'.rest.length ≤ c.rest.length := by
  unfold readShape at read
  cases shape <;> dsimp only at read <;> split at read <;> first
    | (cases read; done)
    | (cases read; exact Nat.le_refl _)
    | exact read_arguments_rest_le _ _ _ _ read

def readOne (b : UInt8) (c : Cursor) : Except Fault Tree × Cursor :=
  match Token.ofByte b with
  | .command command =>
    let (args, c') := readShape command.shape c.next
    (args.map (.command command), c')
  | _ => Expression.parse ⟨false, false⟩ c

theorem read_one_progress (b : UInt8) (rest : Bytes) (c c' : Cursor) (tree : Tree)
    (more : c.rest = b :: rest) (read : readOne b c = (.ok tree, c')) :
    c'.rest.length < c.rest.length := by
  unfold readOne at read
  split at read
  · rename_i command _
    cases shape : readShape command.shape c.next with
    | mk result c₁ =>
      rw [shape] at read
      cases result with
      | error f => cases read
      | ok args =>
        cases read
        have := read_shape_rest_le _ _ _ _ shape
        rw [Cursor.next_rest, more] at this
        rw [more]
        exact Nat.lt_succ_of_le this
  · exact Expression.parse_progress _ _ _ _ read

def readAll (stops : Stops) (c : Cursor) : Except Fault (List Tree) × Cursor :=
  if c.interrupted then (.error (Fault.ofCause .interrupted), c)
  else
    match _more : c.rest with
    | [] => (.ok [], c.next)
    | b :: _ =>
      if Byte.endsLine b then readAll stops c.next
      else if stops.endAt b then (.ok [], c)
      else
        match _read : readOne b c with
        | (.error f, c') => (.error f, c')
        | (.ok tree, c') =>
          let (result, c'') := readAll stops c'
          (result.map (tree :: ·), c'')
termination_by c.rest.length
decreasing_by
  · simp [Cursor.next_rest, _more]
  · exact read_one_progress b _ c c' tree _more _read

def parse (stops : Stops) (c : Cursor) : Except Fault (List Tree) × Cursor :=
  let (result, c') := readAll stops c
  (result.mapError (·.located c'.place), c')

def parseProgram (bytes : Bytes) (interrupted : Bool) : Except Fault (List Tree) :=
  (parse ⟨false, false⟩ (.start bytes interrupted)).1

end GraphCalc.Statement

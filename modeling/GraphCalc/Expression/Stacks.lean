import GraphCalc.Expression.Item

/-!
Operator precedence with two stacks. Finished operands collect on the output; operators, calls and
opening brackets wait until something that binds weaker, or a closing bracket, reduces them.
-/

set_option autoImplicit false

namespace GraphCalc

inductive Pending where
  | operator (op : Operator)
  | call (target : Target)
  /-- An opening bracket, with the height of the output when it was opened. -/
  | group (group : Group) (height : Nat)
deriving DecidableEq, Repr

structure Stacks where
  output : List Tree
  pending : List Pending
  nested : Nat
  /-- The last item ends an operand, so that an operand right after it is a factor. -/
  needMultiply : Bool

namespace Stacks

def outputLimit : Nat := 500
def pendingLimit : Nat := 100

def empty : Stacks := ⟨[], [], 0, false⟩

def pushOutput (s : Stacks) (tree : Tree) : Except Cause Stacks :=
  if s.output.length < outputLimit then .ok { s with output := tree :: s.output }
  else .error .expressionTooLarge

def pushPending (s : Stacks) (p : Pending) : Except Cause Stacks :=
  if s.pending.length < pendingLimit then .ok { s with pending := p :: s.pending }
  else .error .expressionTooComplex

def applyOperator (op : Operator) (output : List Tree) : Except Cause (List Tree) :=
  if op.isUnary then
    match output with
    | x :: rest => .ok (.operator op [x] :: rest)
    | [] => .error .invalidExpression
  else
    match output with
    | rhs :: lhs :: rest => .ok (.operator op [lhs, rhs] :: rest)
    | _ => .error .invalidExpression

def waits (op : Operator) (strength : Nat) (rightAssociative : Bool) : Bool :=
  strength < op.precedence || (op.precedence == strength && rightAssociative)

def reduceStacks (strength : Nat) (rightAssociative : Bool) :
    List Pending → List Tree → Except Cause (List Pending × List Tree)
  | .operator op :: pending, output =>
    if waits op strength rightAssociative then .ok (.operator op :: pending, output)
    else
      match applyOperator op output with
      | .ok output' => reduceStacks strength rightAssociative pending output'
      | .error e => .error e
  | pending, output => .ok (pending, output)

def reduce (s : Stacks) (strength : Nat) (rightAssociative : Bool) : Except Cause Stacks :=
  (reduceStacks strength rightAssociative s.pending s.output).map fun (pending, output) =>
    { s with pending := pending, output := output }

def flush (s : Stacks) : Except Cause Stacks := s.reduce Operator.flush false

def storePending (s : Stacks) : Bool := s.pending.contains (.operator .store)

def placeOperator (s : Stacks) (op : Operator) : Except Cause Stacks := do
  if op = .store ∧ s.storePending then throw .multipleStores
  let strength := if op = .store then Operator.flush else op.precedence
  let s ← s.reduce strength op.isRightAssociative
  let s ← s.pushPending (.operator op)
  return { s with needMultiply := op.isUnary }

def multiply (s : Stacks) : Except Cause Stacks :=
  if s.needMultiply then s.placeOperator .multiply else .ok s

/-- A minus sign that no operand precedes is a negation. A prefix operator reduces nothing. -/
def takeOperator (s : Stacks) (written : Operator) : Except Cause Stacks := do
  let op := if written = .subtract ∧ s.needMultiply = false then .negate else written
  if op.isPrefix then
    let s ← s.multiply
    let s ← s.pushPending (.operator op)
    return { s with needMultiply := false }
  else s.placeOperator op

def takeOperand (s : Stacks) (tree : Tree) : Except Cause Stacks := do
  let s ← s.multiply
  let s ← s.pushOutput tree
  return { s with needMultiply := true }

def takeText (s : Stacks) (bytes : Bytes) (closed : Bool) : Except Cause Stacks := do
  let s ← s.multiply
  let s ← s.pushOutput (.text bytes)
  return { s with needMultiply := closed }

def takeOpener (s : Stacks) (target : Option Target) (group : Group) : Except Cause Stacks := do
  let s ← s.multiply
  let s ← match target with
    | some t => s.pushPending (.call t)
    | none => pure s
  let s ← s.pushPending (.group group s.output.length)
  return { s with nested := s.nested + 1, needMultiply := false }

def collect (group : Group) : List Pending → Nat → Except Cause (Nat × Nat × List Pending)
  | .operator .comma :: pending, args => collect group pending (args + 1)
  | .group g height :: pending, args =>
    if g = group then .ok (args, height, pending) else .error (.unexpectedCloser group)
  | _, _ => .error (.unexpectedCloser group)

def gather (node : List Tree → Tree) (args : Nat) (output : List Tree) : List Tree :=
  node (output.take args).reverse :: output.drop args

def closeGroup (s : Stacks) (group : Group) : Except Cause Stacks := do
  let (args, height, pending) ← collect group s.pending 1
  if s.output.length ≠ height + args then throw .argumentCount
  match group, pending with
  | .brace, _ => return { s with pending := pending, output := gather .braces args s.output }
  | .bracket, _ => return { s with pending := pending, output := gather .brackets args s.output }
  | .paren, .call target :: below =>
    if target.arity.allows args then
      return { s with pending := below, output := gather (.call target) args s.output }
    else throw .argumentCount
  | .paren, _ => if args = 1 then return { s with pending := pending } else throw .argumentCount

def takeCloser (s : Stacks) (group : Group) : Except Cause Stacks := do
  let s ← s.flush
  if s.nested = 0 then throw (.unexpectedCloser group)
  let s ← ({ s with nested := s.nested - 1 } : Stacks).closeGroup group
  return { s with needMultiply := true }

def accept (s : Stacks) : Item → Except Cause Stacks
  | .operand tree => s.takeOperand tree
  | .text bytes closed => s.takeText bytes closed
  | .operator op => s.takeOperator op
  | .opener target group => s.takeOpener target group
  | .closer group rowFollows => do
    let s ← s.takeCloser group
    if rowFollows then s.takeOperator .comma else return s

def innermost? (s : Stacks) : Option Group :=
  s.pending.findSome? fun
    | .group g _ => some g
    | _ => none

/-- Closes the `n` brackets left open, from the inside out. Parentheses may be left open, the other
brackets may not. -/
def closeOpen : Nat → Stacks → Except Cause Stacks
  | 0, s => s.flush
  | n + 1, s => do
    let s ← s.flush
    match s.innermost? with
    | some .paren => closeOpen n (← ({ s with nested := s.nested - 1 } : Stacks).closeGroup .paren)
    | some group => throw (.missingCloser group)
    | none => return s

def finish (s : Stacks) : Except Cause Tree := do
  let s ← closeOpen s.nested s
  match s.pending, s.output with
  | [], [tree] => return tree
  | _, _ => throw .invalidExpression

end Stacks

end GraphCalc

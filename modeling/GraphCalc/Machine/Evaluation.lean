import GraphCalc.Expression
import GraphCalc.Function
import GraphCalc.Machine.Supply
import GraphCalc.Operation
import GraphCalc.Store

/-!
The value of a tree. Children are evaluated from left to right before the node they belong to. An
equation is parsed when it is referred to, and equations may refer to one another to a limited depth.
-/

set_option autoImplicit false

namespace GraphCalc

structure Surroundings where
  store : Store
  mode : Mode
  answer : Value

namespace Evaluation

abbrev Outcome (α : Type) := Except Fault α × Supply

def ofCause {α : Type} (result : Except Cause α) : Except Fault α := result.mapError Fault.ofCause

def andThen {α β : Type} (first : Outcome α) (next : α → Supply → Outcome β) : Outcome β :=
  match first with
  | (.ok x, supply) => next x supply
  | (.error f, supply) => (.error f, supply)

def defined (v : Option Value) : Except Cause Value :=
  match v with
  | some v => .ok v
  | none => .error .undefined

def argument (args : List Value) (i : Nat) : Except Cause Value :=
  match args[i]? with
  | some v => .ok v
  | none => .error .missingArgument

def position (v : Value) : Except Cause Nat := do
  let n ← v.integer
  if n < 1 then throw .invalidDim
  return n.toNat

def extent (v : Value) : Except Cause Nat := do
  let n ← position v
  if 99 < n then throw .invalidDim
  return n

def element (list : Value) (args : List Value) : Except Cause Value := do
  let i ← position (← argument args 0)
  match list with
  | .list xs =>
    match xs[i - 1]? with
    | some x => return .number x
    | none => throw .invalidDim
  | .complexList cs =>
    match cs[i - 1]? with
    | some c => return .complex c
    | none => throw .invalidDim
  | _ => throw .dataType

def matrixElement (m : RealMatrix) (args : List Value) : Except Cause Value := do
  let row ← position (← argument args 0)
  let column ← position (← argument args 1)
  return .number (← m.get row column)

def scalar : Value → Except Cause Complex
  | .number x => .ok (.ofReal x)
  | .complex c => .ok c
  | _ => .error .dataType

def isComplex : Value → Bool
  | .complex _ => true
  | _ => false

def isNumber : Value → Bool
  | .number _ => true
  | _ => false

def listOf (vals : List Value) : Except Cause Value := do
  if vals.any isComplex then return .complexList (← vals.mapM scalar)
  else return .list (← vals.mapM Value.asNumber)

def singleRow : Value → Except Cause (List Float32)
  | .matrix ⟨[row]⟩ => .ok row
  | _ => .error .dataType

def matrixOf (vals : List Value) : Except Cause Value := do
  let rows ←
    if vals.all isNumber then pure [← vals.mapM Value.asNumber] else vals.mapM singleRow
  return .matrix (← RealMatrix.ofRows rows)

def applyOperator (mode : Mode) (op : Operator) : List Value → Except Cause Value
  | [v] => Operation.unary op mode v
  | [l, r] => Operation.binary op l r
  | _ => .error .operandCount

def random (args : List Value) (supply : Supply) : Outcome Value :=
  match args with
  | [] => let (x, supply) := supply.fraction; (.ok (.number x), supply)
  | count :: _ =>
    match count.integer with
    | .error e => (.error (.ofCause e), supply)
    | .ok n =>
      if n < 1 ∨ 999 < n then (.error (.ofCause .domain), supply)
      else let (xs, supply) := supply.fractions n.toNat; (.ok (.list xs), supply)

def extents (args : List Value) : Except Cause (Nat × Nat) := do
  let rows ← argument args 0
  let columns ← argument args 1
  return (← extent rows, ← extent columns)

def randomMatrix (args : List Value) (supply : Supply) : Outcome Value :=
  match extents args with
  | .error e => (.error (.ofCause e), supply)
  | .ok (rows, columns) =>
    let (entries, supply) := supply.entries rows columns
    (ofCause ((RealMatrix.ofRows entries).map .matrix), supply)

/-- The list or matrix that an element access reads, looked up before its arguments are evaluated. -/
def accessed (store : Store) : Target → Except Cause (Option Value)
  | .builtin _ => .ok none
  | .listElement i => (defined (store.get? (.list i))).map some
  | .customListElement name => (defined (store.get? (.customList name))).map some
  | .matrixElement i => do
    match ← defined (store.get? (.matrix i)) with
    | .matrix m => return some (.matrix m)
    | _ => throw .dataType

def applyTarget (mode : Mode) (target : Target) (container : Option Value) (args : List Value)
    (supply : Supply) : Outcome Value :=
  match target, container with
  | .builtin .random, _ => random args supply
  | .builtin .randMatrix, _ => randomMatrix args supply
  | .builtin f, _ => (ofCause (Function.apply mode f args), supply)
  | .matrixElement _, some (.matrix m) => (ofCause (matrixElement m args), supply)
  | _, some list => (ofCause (element list args), supply)
  | _, none => (.error (.ofCause .undefined), supply)

mutual

def evaluateWith (env : Surroundings) (equation : Bytes → Supply → Outcome Value) :
    Tree → Supply → Outcome Value
  | .number x, supply => (ofCause (Value.ofNumber x), supply)
  | .complex re im, supply => (ofCause (Value.ofComplex ⟨re, im⟩), supply)
  | .variable slot, supply => (.ok ((env.store.get? (.variable slot)).getD (.number 0)), supply)
  | .string slot, supply => (ofCause (defined (env.store.get? (.string slot))), supply)
  | .equation slot, supply =>
    match env.store.get? (.equation slot) with
    | some (.string tokens) => equation tokens supply
    | some _ => (.error (.ofCause .dataType), supply)
    | none => (.error (.ofCause .undefined), supply)
  | .list slot, supply => (ofCause (defined (env.store.get? (.list slot))), supply)
  | .customList name, supply => (ofCause (defined (env.store.get? (.customList name))), supply)
  | .matrix slot, supply => (ofCause (defined (env.store.get? (.matrix slot))), supply)
  | .operator .store _, supply => (.error (.ofCause .notImplemented), supply)
  | .operator op args, supply =>
    andThen (evaluateAllWith env equation args supply) fun vals supply =>
      (ofCause (applyOperator env.mode op vals), supply)
  | .call (.builtin .answer) _, supply => (.ok env.answer, supply)
  | .call (.builtin .getKey) _, supply =>
    let (key, supply) := supply.key
    (.ok (.number key), supply)
  | .call target args, supply =>
    match accessed env.store target with
    | .error e => (.error (.ofCause e), supply)
    | .ok container =>
      andThen (evaluateAllWith env equation args supply) (applyTarget env.mode target container)
  | .braces args, supply =>
    andThen (evaluateAllWith env equation args supply) fun vals supply =>
      (ofCause (listOf vals), supply)
  | .brackets args, supply =>
    andThen (evaluateAllWith env equation args supply) fun vals supply =>
      (ofCause (matrixOf vals), supply)
  | .text bytes, supply => (.ok (.string bytes), supply)
  | .command _ _, supply => (.error (.ofCause .notImplemented), supply)

def evaluateAllWith (env : Surroundings) (equation : Bytes → Supply → Outcome Value) :
    List Tree → Supply → Outcome (List Value)
  | [], supply => (.ok [], supply)
  | tree :: rest, supply =>
    andThen (evaluateWith env equation tree supply) fun v supply =>
      andThen (evaluateAllWith env equation rest supply) fun vals supply =>
        (.ok (v :: vals), supply)

end

def equationDepth : Nat := 32

def inside (value : Supply → Outcome Value) (supply : Supply) : Outcome Value :=
  let (result, supply) := value supply.enter
  (result, supply.leave)

/-- The value of an equation. No more than `levels` equations are followed into one another, which is
as many as the depth allows. -/
def equationAt (env : Surroundings) : (levels : Nat) → Bytes → Supply → Outcome Value
  | 0, _, supply => (.error (.ofCause .equationTooDeep), supply)
  | levels + 1, tokens, supply =>
    if equationDepth ≤ supply.depth then (.error (.ofCause .equationTooDeep), supply)
    else
      match (Expression.parse ⟨false, false⟩ (.start tokens false)).1 with
      | .error f => (.error f, supply)
      | .ok tree => inside (evaluateWith env (equationAt env levels) tree) supply

def evaluate (env : Surroundings) (tree : Tree) (supply : Supply) : Outcome Value :=
  evaluateWith env (equationAt env equationDepth) tree supply

def evaluateAll (env : Surroundings) (trees : List Tree) (supply : Supply) : Outcome (List Value) :=
  evaluateAllWith env (equationAt env equationDepth) trees supply

end Evaluation

end GraphCalc

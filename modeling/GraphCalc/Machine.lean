import GraphCalc.Display
import GraphCalc.Machine.Evaluation
import GraphCalc.Screen

set_option autoImplicit false

namespace GraphCalc

structure Machine where
  store : Store
  mode : Mode
  answer : Value
  screen : Screen
  supply : Supply
  interrupted : Bool

namespace Machine

def fresh (g : Generator) : Machine := ⟨.empty, .standard, .number 0, .blank, .fresh g, false⟩

def surroundings (m : Machine) : Surroundings := ⟨m.store, m.mode, m.answer⟩

def evaluate (m : Machine) (tree : Tree) : Except Fault Value × Machine :=
  let (result, supply) := Evaluation.evaluate m.surroundings tree m.supply
  (result, { m with supply := supply })

def evaluateAll (m : Machine) (trees : List Tree) : Except Fault (List Value) × Machine :=
  let (result, supply) := Evaluation.evaluateAll m.surroundings trees m.supply
  (result, { m with supply := supply })

def lineText (mode : Mode) (v : Value) : String :=
  match v with
  | .string bytes => detokenize bytes
  | v => Display.alignRight Screen.columns (Display.valueText mode v)

def displayAll (m : Machine) : List Tree → Except Fault Unit × Machine
  | [] => (.ok (), m)
  | tree :: rest =>
    match m.evaluate tree with
    | (.error f, m) => (.error f, m)
    | (.ok v, m) => { m with screen := m.screen.display (lineText m.mode v) }.displayAll rest

def outputArguments (args : List Value) : Except Cause (Nat × Nat × Value) := do
  let row ← (← Evaluation.argument args 0).integer
  let column ← (← Evaluation.argument args 1).integer
  if row < 1 ∨ Screen.rows < row ∨ column < 1 ∨ Screen.columns < column then throw .domain
  return (row.toNat, column.toNat, ← Evaluation.argument args 2)

def outputAt (m : Machine) (args : List Tree) : Except Fault Unit × Machine :=
  if args.length = 3 then
    match m.evaluateAll args with
    | (.error f, m) => (.error f, m)
    | (.ok vals, m) =>
      match outputArguments vals with
      | .error e => (.error (.ofCause e), m)
      | .ok (row, column, v) =>
        (.ok (), { m with screen := m.screen.output row column (Display.valueText m.mode v) })
  else (.error (.ofCause .argumentCount), m)

def places (v : Value) : Except Cause Nat := do
  let n ← v.integer
  if n < 0 ∨ 9 < n then throw .domain
  return n.toNat

def fixDecimals (m : Machine) : List Tree → Except Fault Unit × Machine
  | [tree] =>
    match m.evaluate tree with
    | (.error f, m) => (.error f, m)
    | (.ok v, m) =>
      match places v with
      | .error e => (.error (.ofCause e), m)
      | .ok n => (.ok (), { m with mode := { m.mode with decimals := .fixed n } })
  | _ => (.error (.ofCause .argumentCount), m)

def setMode (m : Machine) (change : Mode → Mode) : Except Fault Unit × Machine :=
  (.ok (), { m with mode := change m.mode })

inductive Flow where
  | next | stop
deriving DecidableEq, Repr

def Flow.after (flow : Flow) (result : Except Fault Unit × Machine) : Except Fault Flow × Machine :=
  (result.1.map fun _ => flow, result.2)

def perform (m : Machine) (command : Command) (args : List Tree) : Except Fault Flow × Machine :=
  match command with
  | .display => Flow.next.after (m.displayAll args)
  | .output => Flow.next.after (m.outputAt args)
  | .clearHome => (.ok .next, { m with screen := m.screen.clear })
  | .radian => Flow.next.after (m.setMode ({ · with angle := .radian }))
  | .degree => Flow.next.after (m.setMode ({ · with angle := .degree }))
  | .normal => Flow.next.after (m.setMode ({ · with layout := .normal }))
  | .scientific => Flow.next.after (m.setMode ({ · with layout := .scientific }))
  | .engineering => Flow.next.after (m.setMode ({ · with layout := .engineering }))
  | .floating => Flow.next.after (m.setMode ({ · with decimals := .floating }))
  | .fix => Flow.next.after (m.fixDecimals args)
  | .stop | .returns => (.ok .stop, m)
  | _ => (.error (.ofCause .notImplemented), m)

inductive Step where
  | failed (f : Fault)
  | stopped
  | continued (value : Option Value)

def runOne (m : Machine) (statement : Tree) : Step × Machine :=
  if m.interrupted then (.failed (.ofCause .interrupted), m)
  else
    match statement with
    | .command command args =>
      match m.perform command args with
      | (.error f, m) => (.failed f, m)
      | (.ok .stop, m) => (.stopped, m)
      | (.ok .next, m) => (.continued none, m)
    | tree =>
      match m.evaluate tree with
      | (.error f, m) => (.failed f, m)
      | (.ok v, m) => (.continued (some v), { m with answer := v })

def runFrom (m : Machine) (last : Option Value) :
    List Tree → Except Fault (Option Value) × Machine
  | [] => (.ok last, m)
  | statement :: rest =>
    match m.runOne statement with
    | (.failed f, m) => (.error f, m)
    | (.stopped, m) => (.ok last, m)
    | (.continued value, m) => m.runFrom (value <|> last) rest

def run (m : Machine) (statements : List Tree) : Except Fault (Option Value) × Machine :=
  m.runFrom none statements

end Machine

end GraphCalc

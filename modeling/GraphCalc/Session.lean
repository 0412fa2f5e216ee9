import GraphCalc.Machine
import GraphCalc.Statement

set_option autoImplicit false

namespace GraphCalc

def programOf (text : String) (interrupted : Bool) : Except Fault (List Tree) := do
  Statement.parseProgram (← tokenize text) interrupted

def Generator.congruential (seed : Nat) : Generator where
  fractions n := ((n >>> 40).toUInt64.toFloat32 / 16777216, next n)
  integers n := (Int.ofNat ((n >>> 32) % 19) - 9, next n)
  state := seed
where
  next (n : Nat) : Nat := (n.toUInt64 * 6364136223846793005 + 1442695040888963407).toNat

namespace Machine

def initial : Machine := .fresh (.congruential 1)

/-- Reads and runs a text. There is a result only if the last statement is an expression. -/
def runText (m : Machine) (text : String) : Except Fault (Option Value) × Machine :=
  match programOf text m.interrupted with
  | .error f => (.error f, m)
  | .ok statements =>
    match m.run statements with
    | (.error f, m) => (.error f, m)
    | (.ok value, m) =>
      (.ok (if statements.getLast?.all Tree.isCommand then none else value), m)

def bold (text : String) : String := "\x1b[1m" ++ text ++ "\x1b[0m"

def resultLines (mode : Mode) : Except Fault (Option Value) → List String
  | .ok (some v) => [Display.alignRight Screen.columns (Display.valueText mode v)]
  | .ok none => []
  | .error f => [bold f.message]

def execute (m : Machine) (text : String) : List String × Machine :=
  let (result, m) := { m with interrupted := false }.runText text
  let (lines, screen) := m.screen.takeLines
  (lines ++ resultLines m.mode result, { m with screen := screen })

end Machine

structure Report where
  output : String
  errors : String
  exitCode : Nat
deriving DecidableEq, Repr

namespace Report

def failure (text : String) : Report := ⟨"", text ++ "\n", 1⟩

def ofLines (lines : List String) : Report := ⟨String.join (lines.map (· ++ "\n")), "", 0⟩

def ofFile (contents : ByteArray) : Report :=
  match String.fromUTF8? contents with
  | some text => ofLines (Machine.initial.execute text).1
  | none => failure "stream did not contain valid UTF-8"

def ofSystemError (description : String) (number : Nat) : Report :=
  failure (description ++ " (os error " ++ toString number ++ ")")

def missingFile : Report := ofSystemError "No such file or directory" 2

end Report

end GraphCalc

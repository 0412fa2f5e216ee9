import GraphCalc.Number.Decimal
import GraphCalc.Token

set_option autoImplicit false

namespace GraphCalc

inductive Tree where
  | number (x : Float32)
  | complex (re im : Float32)
  | variable (slot : UInt8)
  | string (slot : UInt8)
  | equation (slot : UInt8)
  | list (slot : UInt8)
  | customList (name : String)
  | matrix (slot : UInt8)
  | operator (op : Operator) (args : List Tree)
  | call (target : Target) (args : List Tree)
  | braces (args : List Tree)
  | brackets (args : List Tree)
  | text (bytes : Bytes)
  | command (c : Command) (args : List Tree)
deriving Inhabited

namespace Tree

def children : Tree → List Tree
  | .operator _ args | .call _ args | .braces args | .brackets args | .command _ args => args
  | _ => []

def isCommand : Tree → Bool
  | .command _ _ => true
  | _ => false

def slotLetter (slot : UInt8) : String :=
  (Char.ofNat (0x41 + slot).toNat).toString

def listName (slot : UInt8) : String := "L" ++ toString (slot + 1).toNat

def customListName (name : String) : String := "∟" ++ name

def matrixName (slot : UInt8) : String := "[" ++ slotLetter slot ++ "]"

def targetName : Target → String
  | .builtin f => f.name
  | .listElement slot => listName slot
  | .customListElement name => customListName name
  | .matrixElement slot => matrixName slot

mutual

def describe : Tree → String
  | .number x => Decimal.shortestText x
  | .complex re im => Decimal.shortestText re ++ "+" ++ Decimal.shortestText im ++ "i"
  | .variable slot => if slot = 26 then "θ" else slotLetter slot
  | .string slot => "Str" ++ toString ((slot + 1) % 10).toNat
  | .equation slot => "Equ" ++ toString slot.toNat
  | .list slot => listName slot
  | .customList name => customListName name
  | .matrix slot => matrixName slot
  | .operator op args => op.name ++ "(" ++ describeAll args ++ ")"
  | .call target args => targetName target ++ "(" ++ describeAll args ++ ")"
  | .braces args => "List(" ++ describeAll args ++ ")"
  | .brackets args => "Matrix(" ++ describeAll args ++ ")"
  | .text bytes => "\"" ++ toString bytes.length ++ "\""
  | .command c args => c.name ++ "(" ++ describeAll args ++ ")"

def describeAll : List Tree → String
  | [] => ""
  | [tree] => describe tree
  | tree :: rest => describe tree ++ "," ++ describeAll rest

end

end Tree

end GraphCalc

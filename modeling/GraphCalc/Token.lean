import GraphCalc.Token.Operator
import GraphCalc.Token.Builtin
import GraphCalc.Token.Command

/-!
Token bytes and their classes. A program is stored as token bytes; eleven of them are the first half
of a token of two bytes, whose second byte picks a variable slot or an extended token.
-/

set_option autoImplicit false

namespace GraphCalc

abbrev Bytes := List UInt8

namespace Byte

def store : UInt8 := 0x04
def openBracket : UInt8 := 0x06
def closeBracket : UInt8 := 0x07
def openBrace : UInt8 := 0x08
def closeBrace : UInt8 := 0x09
def openParen : UInt8 := 0x10
def closeParen : UInt8 := 0x11
def space : UInt8 := 0x29
def quote : UInt8 := 0x2A
def comma : UInt8 := 0x2B
def imaginary : UInt8 := 0x2C
def digitZero : UInt8 := 0x30
def digitNine : UInt8 := 0x39
def decimalPoint : UInt8 := 0x3A
def exponent : UInt8 := 0x3B
def colon : UInt8 := 0x3E
def newline : UInt8 := 0x3F
def letterA : UInt8 := 0x41
def theta : UInt8 := 0x5B
def matrix : UInt8 := 0x5C
def list : UInt8 := 0x5D
def equation : UInt8 := 0x5E
def answer : UInt8 := 0x72
def string : UInt8 := 0xAA
def random : UInt8 := 0xAB
def pi : UInt8 := 0xAC
def getKey : UInt8 := 0xAD
def negate : UInt8 := 0xB0
def lowercase : UInt8 := 0xBB
def elseWord : UInt8 := 0xD0
def endWord : UInt8 := 0xD4
def customList : UInt8 := 0xEB

def isTwoByte (b : UInt8) : Bool :=
  [matrix, list, equation, 0x60, 0x61, 0x62, 0x63, 0x7E, string, lowercase, 0xEF].contains b

def endsLine (b : UInt8) : Bool :=
  b == newline || b == colon

end Byte

def endOfLine (next : Option UInt8) : Bool :=
  next.all Byte.endsLine

/-- The class of a token byte. Variables are numbered from `A`, with `θ` as 26. -/
inductive Token where
  | digit (value : UInt8)
  | decimalPoint | exponent | imaginary
  | variable (slot : UInt8)
  | matrix | list | equation | string | customList
  | quote
  | operator (op : Operator)
  | function (f : Builtin)
  | openParen | closeParen | openBracket | closeBracket | openBrace | closeBrace
  | pi | random | getKey | answer
  | command (c : Command)
  | colon | newline | elseWord | endWord
  | unknown (byte : UInt8)
deriving DecidableEq, Repr

namespace Token

def special? (b : UInt8) : Option Token :=
  if Byte.digitZero ≤ b && b ≤ Byte.digitNine then some (.digit (b - Byte.digitZero))
  else if Byte.letterA ≤ b && b ≤ Byte.theta then some (.variable (b - Byte.letterA))
  else if b = Byte.decimalPoint then some .decimalPoint
  else if b = Byte.exponent then some .exponent
  else if b = Byte.imaginary then some .imaginary
  else if b = Byte.matrix then some .matrix
  else if b = Byte.list then some .list
  else if b = Byte.equation then some .equation
  else if b = Byte.string then some .string
  else if b = Byte.customList then some .customList
  else if b = Byte.quote then some .quote
  else if b = Byte.openParen then some .openParen
  else if b = Byte.closeParen then some .closeParen
  else if b = Byte.openBracket then some .openBracket
  else if b = Byte.closeBracket then some .closeBracket
  else if b = Byte.openBrace then some .openBrace
  else if b = Byte.closeBrace then some .closeBrace
  else if b = Byte.pi then some .pi
  else if b = Byte.random then some .random
  else if b = Byte.getKey then some .getKey
  else if b = Byte.answer then some .answer
  else if b = Byte.colon then some .colon
  else if b = Byte.newline then some .newline
  else if b = Byte.elseWord then some .elseWord
  else if b = Byte.endWord then some .endWord
  else none

def ofByte (b : UInt8) : Token :=
  match special? b with
  | some token => token
  | none =>
    match Operator.ofByte? b, Builtin.ofByte? b, Command.ofByte? b with
    | some op, _, _ => .operator op
    | none, some f, _ => .function f
    | none, none, some c => .command c
    | none, none, none => .unknown b

def describe : Token → String
  | .digit value => "Digit(" ++ toString value.toNat ++ ")"
  | .decimalPoint => "DecimalPoint"
  | .exponent => "Exponent"
  | .imaginary => "Imaginary"
  | .variable slot => "Variable(" ++ toString slot.toNat ++ ")"
  | .matrix => "Matrix"
  | .list => "List"
  | .equation => "Equation"
  | .string => "Str"
  | .customList => "CustomList"
  | .quote => "Quote"
  | .operator op => "Operator(" ++ op.name ++ ")"
  | .function f => "Function(" ++ f.name ++ ")"
  | .openParen => "LParen"
  | .closeParen => "RParen"
  | .openBracket => "LBracket"
  | .closeBracket => "RBracket"
  | .openBrace => "LBrace"
  | .closeBrace => "RBrace"
  | .pi => "Pi"
  | .random => "Rand"
  | .getKey => "GetKey"
  | .answer => "Ans"
  | .command c => "Command(" ++ c.name ++ ")"
  | .colon => "Colon"
  | .newline => "Newline"
  | .elseWord => "Else"
  | .endWord => "End"
  | .unknown byte => "Unknown(" ++ toString byte.toNat ++ ")"

end Token

end GraphCalc

import GraphCalc.Proofs.StackSteps

set_option autoImplicit false

namespace GraphCalc

def Token.startsNumber : Token → Bool
  | .digit _ | .decimalPoint | .exponent => true
  | _ => false

-- The bytes of a number, with the value that they are read as when nothing follows.
structure Literal where
  first : UInt8
  more : Bytes
  value : Tree
  starts : (Token.ofByte first).startsNumber = true
  read : Item.number first more = (.ok (.operand value), more.length)

inductive Constant where
  | imaginary | pi | random | getKey | answer
deriving DecidableEq, Repr

namespace Constant

def byte : Constant → UInt8
  | .imaginary => Byte.imaginary
  | .pi => Byte.pi
  | .random => Byte.random
  | .getKey => Byte.getKey
  | .answer => Byte.answer

def tree : Constant → Tree
  | .imaginary => .complex 0 1
  | .pi => .number Elementary.pi
  | .random => .call (.builtin .random) []
  | .getKey => .call (.builtin .getKey) []
  | .answer => .call (.builtin .answer) []

end Constant

inductive NameSymbol where
  | letter (slot : UInt8) (bound : slot < 27)
  | digit (value : UInt8) (bound : value < 10)

namespace NameSymbol

def byte : NameSymbol → UInt8
  | .letter slot _ => Byte.letterA + slot
  | .digit value _ => Byte.digitZero + value

def char : NameSymbol → Char
  | .letter slot _ => if slot = 26 then 'θ' else Char.ofNat (0x41 + slot.toNat)
  | .digit value _ => Char.ofNat (0x30 + value.toNat)

end NameSymbol

structure ListName where
  first : UInt8
  bound : first < 27
  more : List NameSymbol
  short : more.length ≤ 4

namespace ListName

def symbols (name : ListName) : List NameSymbol := .letter name.first name.bound :: name.more

def bytes (name : ListName) : Bytes := name.symbols.map NameSymbol.byte

def text (name : ListName) : String := String.ofList (name.symbols.map NameSymbol.char)

end ListName

inductive TextToken where
  | one (b : UInt8) (alone : Byte.isTwoByte b = false) (notQuote : b ≠ Byte.quote) (notNewline : b ≠ Byte.newline)
      (notStore : b ≠ Byte.store)
  | two (b second : UInt8) (pair : Byte.isTwoByte b = true)

def TextToken.bytes : TextToken → Bytes
  | .one b _ _ _ _ => [b]
  | .two b second _ => [b, second]

inductive Operand where
  | literal (x : Literal)
  | constant (c : Constant)
  | variable (slot : UInt8) (bound : slot < 27)
  | string (slot : UInt8) (bound : slot < 10)
  | equation (slot : UInt8) (bound : slot < 31)
  | list (slot : UInt8) (bound : slot < 6)
  | matrix (slot : UInt8) (bound : slot < 10)
  | customList (name : ListName)
  | text (tokens : List TextToken)

namespace Operand

def equationByte (slot : UInt8) : UInt8 :=
  if slot < 10 then 0x10 + slot
  else if slot < 22 then 0x20 + (slot - 10)
  else if slot < 28 then 0x40 + (slot - 22)
  else 0x80 + (slot - 28)

def bytes : Operand → Bytes
  | .literal x => x.first :: x.more
  | .constant c => [c.byte]
  | .variable slot _ => [Byte.letterA + slot]
  | .string slot _ => [Byte.string, slot]
  | .equation slot _ => [Byte.equation, equationByte slot]
  | .list slot _ => [Byte.list, slot]
  | .matrix slot _ => [Byte.matrix, slot]
  | .customList name => Byte.customList :: name.bytes
  | .text tokens => Byte.quote :: (tokens.flatMap TextToken.bytes ++ [Byte.quote])

def tree : Operand → Tree
  | .literal x => x.value
  | .constant c => c.tree
  | .variable slot _ => .variable slot
  | .string slot _ => .string slot
  | .equation slot _ => .equation slot
  | .list slot _ => .list slot
  | .matrix slot _ => .matrix slot
  | .customList name => .customList name.text
  | .text tokens => .text (tokens.flatMap TextToken.bytes)

def item : Operand → Item
  | .text tokens => .text (tokens.flatMap TextToken.bytes) true
  | x => .operand x.tree

end Operand

def Group.closeByte : Group → UInt8
  | .paren => Byte.closeParen
  | .bracket => Byte.closeBracket
  | .brace => Byte.closeBrace

-- What stands before arguments: a function, the element access of a list or a matrix, or a bracket.
inductive Head where
  | function (f : Builtin)
  | listElement (slot : UInt8) (bound : slot < 6)
  | customListElement (name : ListName)
  | matrixElement (slot : UInt8) (bound : slot < 10)
  | braces
  | brackets

namespace Head

def bytes : Head → Bytes
  | .function f => if f = .random then [Byte.random, Byte.openParen] else [f.byte]
  | .listElement slot _ => [Byte.list, slot, Byte.openParen]
  | .customListElement name => Byte.customList :: (name.bytes ++ [Byte.openParen])
  | .matrixElement slot _ => [Byte.matrix, slot, Byte.openParen]
  | .braces => [Byte.openBrace]
  | .brackets => [Byte.openBracket]

def target? : Head → Option Target
  | .function f => some (.builtin f)
  | .listElement slot _ => some (.listElement slot)
  | .customListElement name => some (.customListElement name.text)
  | .matrixElement slot _ => some (.matrixElement slot)
  | .braces | .brackets => none

def group : Head → Group
  | .braces => .brace
  | .brackets => .bracket
  | _ => .paren

def opening (head : Head) : Opening :=
  match head.target? with
  | some target => .call target
  | none => if head.group = .brace then .braces else .brackets

def allows (head : Head) (count : Nat) : Bool :=
  head.target?.all (·.arity.allows count)

end Head

-- The arguments are counted, so that a call cannot be built with a count it does not allow.
mutual
inductive Formula where
  | operand (x : Operand)
  | unary (op : Operator) (one : op.isUnary = true) (x : Formula)
  | binary (op : Operator) (two : op.isUnary = false) (notStore : op ≠ .store) (notComma : op ≠ .comma)
      (lhs rhs : Formula)
  | gathered (head : Head) (count : Nat) (allowed : head.allows count = true) (args : Arguments count)

inductive Arguments : Nat → Type where
  | last (x : Formula) : Arguments 1
  | more (count : Nat) (x : Formula) (rest : Arguments count) : Arguments (count + 1)
end

mutual
def Formula.tree : Formula → Tree
  | .operand x => x.tree
  | .unary op _ x => .operator op [x.tree]
  | .binary op _ _ _ lhs rhs => .operator op [lhs.tree, rhs.tree]
  | .gathered head _ _ args => head.opening.node args.trees

def Arguments.trees {count : Nat} : Arguments count → List Tree
  | .last x => [x.tree]
  | .more _ x rest => x.tree :: rest.trees
end

def Formula.level : Formula → Nat
  | .unary op _ _ => op.precedence
  | .binary op _ _ _ _ _ => op.precedence
  | .operand _ | .gathered _ _ _ _ => 0

namespace Operator

-- Whether an operand of the given level stands in parentheses: alone, on the left, on the right.
def encloses (op : Operator) (level : Nat) : Bool := op.precedence < level

def enclosesLeft (op : Operator) (level : Nat) : Bool :=
  op.precedence < level || (op.precedence == level && op == .power)

def enclosesRight (op : Operator) (level : Nat) : Bool :=
  op.precedence < level || (op.precedence == level && op != .power)

end Operator

def enclosed (needed : Bool) (bytes : Bytes) : Bytes :=
  if needed then Byte.openParen :: (bytes ++ [Group.closeByte .paren]) else bytes

mutual
def Formula.render : Formula → Bytes
  | .operand x => x.bytes
  | .unary op _ x =>
    if op.isPrefix then op.byte :: enclosed (op.encloses x.level) x.render
    else enclosed (op.encloses x.level) x.render ++ [op.byte]
  | .binary op _ _ _ lhs rhs =>
    enclosed (op.enclosesLeft lhs.level) lhs.render ++ op.byte :: enclosed (op.enclosesRight rhs.level) rhs.render
  | .gathered head _ _ args => head.bytes ++ (args.render ++ [head.group.closeByte])

def Arguments.render {count : Nat} : Arguments count → Bytes
  | .last x => x.render
  | .more _ x rest => x.render ++ Byte.comma :: rest.render
end

end GraphCalc

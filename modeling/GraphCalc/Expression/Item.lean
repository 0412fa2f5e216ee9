import GraphCalc.Expression.Numeral
import GraphCalc.Number.Elementary
import GraphCalc.Tree

set_option autoImplicit false

namespace GraphCalc

inductive Item where
  | operand (tree : Tree)
  | text (bytes : Bytes) (closed : Bool)
  | operator (op : Operator)
  | opener (target : Option Target) (group : Group)
  | closer (group : Group) (rowFollows : Bool)

namespace Item

def isText : Item → Bool
  | .text _ _ => true
  | _ => false

def slot (count : UInt8) : Bytes → Except Cause UInt8
  | [] => .error .missingIndex
  | index :: _ => if index < count then .ok index else .error .notImplemented

def equationSlot : Bytes → Except Cause UInt8
  | [] => .error .missingIndex
  | b :: _ =>
    if 0x10 ≤ b ∧ b ≤ 0x19 then .ok (b - 0x10)
    else if 0x20 ≤ b ∧ b ≤ 0x2B then .ok (b - 0x20 + 10)
    else if 0x40 ≤ b ∧ b ≤ 0x45 then .ok (b - 0x40 + 22)
    else if 0x80 ≤ b ∧ b ≤ 0x82 then .ok (b - 0x80 + 28)
    else .error .notImplemented

def nameChar? (first : Bool) : Token → Option Char
  | .variable v => some (if v = 26 then 'θ' else Char.ofNat (0x41 + v.toNat))
  | .digit d => if first then none else some (Char.ofNat (0x30 + d.toNat))
  | _ => none

def nameChars : (room : Nat) → (first : Bool) → Bytes → List Char
  | 0, _, _ => []
  | _, _, [] => []
  | room + 1, first, b :: rest =>
    match nameChar? first (Token.ofByte b) with
    | some c => c :: nameChars room false rest
    | none => []

/-- The bytes of a string literal, whether its quote closes it, and the bytes used. The end of the
line and a store arrow end it too and are left for the parser. -/
def textBytes : Bytes → Bytes × Bool × Nat
  | [] => ([], false, 0)
  | [b] =>
    if b = Byte.quote then ([], true, 1)
    else if b = Byte.newline ∨ b = Byte.store then ([], false, 0)
    else ([b], false, 1)
  | b :: second :: rest =>
    if b = Byte.quote then ([], true, 1)
    else if b = Byte.newline ∨ b = Byte.store then ([], false, 0)
    else if Byte.isTwoByte b then
      let (bytes, closed, used) := textBytes rest
      (b :: second :: bytes, closed, used + 2)
    else
      let (bytes, closed, used) := textBytes (second :: rest)
      (b :: bytes, closed, used + 1)

def reference (tree : Tree) (target : Target) (used : Nat) (rest : Bytes) :
    Except Cause Item × Nat :=
  if (rest.drop used).head? = some Byte.openParen then (.ok (.opener (some target) .paren), used + 1)
  else (.ok (.operand tree), used)

def number (b : UInt8) (rest : Bytes) : Except Cause Item × Nat :=
  let (result, used) := Numeral.empty.scan (b :: rest)
  let item : Except Cause Item :=
    match result with
    | .error e => .error e
    | .ok (n, imaginary) =>
      n.finiteValue.map fun x => .operand (if imaginary then .complex 0 x else .number x)
  (item, used - 1)

/-- The item that begins with `b`, and how many bytes of `rest` it uses up; a missing byte after the
last one counts as used. -/
def read (b : UInt8) (rest : Bytes) : Except Cause Item × Nat :=
  match Token.ofByte b with
  | .digit _ | .decimalPoint | .exponent => number b rest
  | .imaginary => (.ok (.operand (.complex 0 1)), 0)
  | .pi => (.ok (.operand (.number Elementary.pi)), 0)
  | .variable v => (.ok (.operand (.variable v)), 0)
  | .list =>
    match slot 6 rest with
    | .ok i => reference (.list i) (.listElement i) 1 rest
    | .error e => (.error e, 1)
  | .matrix =>
    match slot 10 rest with
    | .ok i => reference (.matrix i) (.matrixElement i) 1 rest
    | .error e => (.error e, 1)
  | .string => ((slot 10 rest).map fun i => .operand (.string i), 1)
  | .equation => ((equationSlot rest).map fun i => .operand (.equation i), 1)
  | .customList =>
    match nameChars 5 true rest with
    | [] => (.error .invalidListName, 0)
    | chars =>
      let name := String.ofList chars
      reference (.customList name) (.customListElement name) chars.length rest
  | .quote =>
    let (bytes, closed, used) := textBytes rest
    (.ok (.text bytes closed), used)
  | .operator op => (.ok (.operator op), 0)
  | .function f => (.ok (.opener (some (.builtin f)) .paren), 0)
  | .openParen => (.ok (.opener none .paren), 0)
  | .openBracket => (.ok (.opener none .bracket), 0)
  | .openBrace => (.ok (.opener none .brace), 0)
  | .closeParen => (.ok (.closer .paren false), 0)
  | .closeBracket => (.ok (.closer .bracket (rest.head? = some Byte.openBracket)), 0)
  | .closeBrace => (.ok (.closer .brace false), 0)
  | .random => reference (.call (.builtin .random) []) (.builtin .random) 0 rest
  | .getKey => (.ok (.operand (.call (.builtin .getKey) [])), 0)
  | .answer => (.ok (.operand (.call (.builtin .answer) [])), 0)
  | .command _ | .colon | .newline | .elseWord | .endWord | .unknown _ => (.error .notImplemented, 0)

end Item

end GraphCalc

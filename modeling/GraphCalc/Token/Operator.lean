set_option autoImplicit false

namespace GraphCalc

inductive Operator where
  | radians | degrees | reciprocal | square | transpose | cube | power | factorial | negate
  | permutations | combinations | multiply | divide | add | subtract | equal | less | greater
  | lessEqual | greaterEqual | notEqual | and | or | xor | store | comma
deriving DecidableEq, Repr

namespace Operator

def all : List Operator :=
  [.radians, .degrees, .reciprocal, .square, .transpose, .cube, .power, .factorial, .negate,
   .permutations, .combinations, .multiply, .divide, .add, .subtract, .equal, .less, .greater,
   .lessEqual, .greaterEqual, .notEqual, .and, .or, .xor, .store, .comma]

def byte : Operator → UInt8
  | .radians => 0x0A
  | .degrees => 0x0B
  | .reciprocal => 0x0C
  | .square => 0x0D
  | .transpose => 0x0E
  | .cube => 0x0F
  | .power => 0xF0
  | .factorial => 0x2D
  | .negate => 0xB0
  | .permutations => 0x94
  | .combinations => 0x95
  | .multiply => 0x82
  | .divide => 0x83
  | .add => 0x70
  | .subtract => 0x71
  | .equal => 0x6A
  | .less => 0x6B
  | .greater => 0x6C
  | .lessEqual => 0x6D
  | .greaterEqual => 0x6E
  | .notEqual => 0x6F
  | .and => 0x40
  | .or => 0x3C
  | .xor => 0x3D
  | .store => 0x04
  | .comma => 0x2B

def name : Operator → String
  | .radians => "FromRad"
  | .degrees => "FromDeg"
  | .reciprocal => "Recip"
  | .square => "Square"
  | .transpose => "Transpose"
  | .cube => "Cube"
  | .power => "Power"
  | .factorial => "Factorial"
  | .negate => "Negate"
  | .permutations => "NPr"
  | .combinations => "NCr"
  | .multiply => "Multiply"
  | .divide => "Divide"
  | .add => "Add"
  | .subtract => "Subtract"
  | .equal => "Equal"
  | .less => "Less"
  | .greater => "Greater"
  | .lessEqual => "LessEqual"
  | .greaterEqual => "GreaterEqual"
  | .notEqual => "NotEqual"
  | .and => "And"
  | .or => "Or"
  | .xor => "Xor"
  | .store => "Store"
  | .comma => "Comma"

def ofByte? (b : UInt8) : Option Operator :=
  all.find? (·.byte == b)

def precedence : Operator → Nat
  | .radians | .degrees | .reciprocal | .square | .transpose | .cube => 1
  | .power => 2
  | .factorial => 3
  | .negate => 4
  | .permutations | .combinations => 5
  | .multiply | .divide => 6
  | .add | .subtract => 7
  | .equal | .less | .greater | .lessEqual | .greaterEqual | .notEqual => 8
  | .and => 9
  | .or | .xor => 10
  | .store => 11
  | .comma => 255

/-- Weaker than every operator except the comma: reducing at this strength leaves only commas. -/
def flush : Nat := 12

def isUnary (op : Operator) : Bool :=
  op.precedence ≤ 4 && op.precedence != 2

def isPrefix (op : Operator) : Bool :=
  op == .negate

def isRightAssociative : Operator → Bool
  | .power | .negate | .comma => true
  | _ => false

end Operator

end GraphCalc

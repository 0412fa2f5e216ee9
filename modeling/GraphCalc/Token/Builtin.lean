set_option autoImplicit false

namespace GraphCalc

structure Arity where
  least : Nat
  most : Option Nat
deriving DecidableEq, Repr

namespace Arity

def exactly (n : Nat) : Arity := ⟨n, some n⟩

def allows (a : Arity) (n : Nat) : Bool :=
  a.least ≤ n && a.most.all (n ≤ ·)

end Arity

inductive Builtin where
  | round | pixelTest | augment | rowSwap | rowAdd | mulRow | mulRowAdd | maximum | minimum
  | polarRadius | polarAngle | cartesianX | cartesianY | median | randMatrix | mean | solve
  | sequence | integral | derivative | functionMin | functionMax | answer | random | getKey | floor
  | absolute | determinant | identity | dimension | sum | product | negation | integerPart
  | fractionPart | squareRoot | cubeRoot | naturalLog | exponential | commonLog | tenPower | sin
  | arcsin | cos | arccos | tan | arctan | sinh | arsinh | cosh | arcosh | tanh | artanh
deriving DecidableEq, Repr

namespace Builtin

def all : List Builtin :=
  [.round, .pixelTest, .augment, .rowSwap, .rowAdd, .mulRow, .mulRowAdd, .maximum, .minimum,
   .polarRadius, .polarAngle, .cartesianX, .cartesianY, .median, .randMatrix, .mean, .solve,
   .sequence, .integral, .derivative, .functionMin, .functionMax, .answer, .random, .getKey,
   .floor, .absolute, .determinant, .identity, .dimension, .sum, .product, .negation, .integerPart,
   .fractionPart, .squareRoot, .cubeRoot, .naturalLog, .exponential, .commonLog, .tenPower, .sin,
   .arcsin, .cos, .arccos, .tan, .arctan, .sinh, .arsinh, .cosh, .arcosh, .tanh, .artanh]

def byte : Builtin → UInt8
  | .round => 0x12
  | .pixelTest => 0x13
  | .augment => 0x14
  | .rowSwap => 0x15
  | .rowAdd => 0x16
  | .mulRow => 0x17
  | .mulRowAdd => 0x18
  | .maximum => 0x19
  | .minimum => 0x1A
  | .polarRadius => 0x1B
  | .polarAngle => 0x1C
  | .cartesianX => 0x1D
  | .cartesianY => 0x1E
  | .median => 0x1F
  | .randMatrix => 0x20
  | .mean => 0x21
  | .solve => 0x22
  | .sequence => 0x23
  | .integral => 0x24
  | .derivative => 0x25
  | .functionMin => 0x27
  | .functionMax => 0x28
  | .answer => 0x72
  | .random => 0xAB
  | .getKey => 0xAD
  | .floor => 0xB1
  | .absolute => 0xB2
  | .determinant => 0xB3
  | .identity => 0xB4
  | .dimension => 0xB5
  | .sum => 0xB6
  | .product => 0xB7
  | .negation => 0xB8
  | .integerPart => 0xB9
  | .fractionPart => 0xBA
  | .squareRoot => 0xBC
  | .cubeRoot => 0xBD
  | .naturalLog => 0xBE
  | .exponential => 0xBF
  | .commonLog => 0xC0
  | .tenPower => 0xC1
  | .sin => 0xC2
  | .arcsin => 0xC3
  | .cos => 0xC4
  | .arccos => 0xC5
  | .tan => 0xC6
  | .arctan => 0xC7
  | .sinh => 0xC8
  | .arsinh => 0xC9
  | .cosh => 0xCA
  | .arcosh => 0xCB
  | .tanh => 0xCC
  | .artanh => 0xCD

def name : Builtin → String
  | .round => "Round"
  | .pixelTest => "PxlTest"
  | .augment => "Augment"
  | .rowSwap => "RowSwap"
  | .rowAdd => "RowAdd"
  | .mulRow => "MulRow"
  | .mulRowAdd => "MulRowAdd"
  | .maximum => "Max"
  | .minimum => "Min"
  | .polarRadius => "RPr"
  | .polarAngle => "RPtheta"
  | .cartesianX => "PRx"
  | .cartesianY => "PRy"
  | .median => "Median"
  | .randMatrix => "RandM"
  | .mean => "Mean"
  | .solve => "Solve"
  | .sequence => "Seq"
  | .integral => "FnInt"
  | .derivative => "NDeriv"
  | .functionMin => "FMin"
  | .functionMax => "FMax"
  | .answer => "Ans"
  | .random => "Rand"
  | .getKey => "GetKey"
  | .floor => "Int"
  | .absolute => "Abs"
  | .determinant => "Det"
  | .identity => "Identity"
  | .dimension => "Dim"
  | .sum => "Sum"
  | .product => "Prod"
  | .negation => "Not"
  | .integerPart => "IPart"
  | .fractionPart => "FPart"
  | .squareRoot => "Sqrt"
  | .cubeRoot => "CubeRoot"
  | .naturalLog => "Ln"
  | .exponential => "Exp"
  | .commonLog => "Log"
  | .tenPower => "TenPow"
  | .sin => "Sin"
  | .arcsin => "ASin"
  | .cos => "Cos"
  | .arccos => "ACos"
  | .tan => "Tan"
  | .arctan => "ATan"
  | .sinh => "Sinh"
  | .arsinh => "ASinh"
  | .cosh => "Cosh"
  | .arcosh => "ACosh"
  | .tanh => "Tanh"
  | .artanh => "ATanh"

def ofByte? (b : UInt8) : Option Builtin :=
  all.find? (·.byte == b)

def arity : Builtin → Arity
  | .answer | .getKey => .exactly 0
  | .random => ⟨0, some 1⟩
  | .maximum | .minimum => ⟨1, none⟩
  | .round | .median | .mean => ⟨1, some 2⟩
  | .augment | .pixelTest | .polarRadius | .polarAngle | .cartesianX | .cartesianY
  | .randMatrix => .exactly 2
  | .rowSwap | .rowAdd | .mulRow => .exactly 3
  | .mulRowAdd => .exactly 4
  | .solve | .derivative => ⟨3, some 4⟩
  | .sequence | .integral | .functionMin | .functionMax => ⟨4, some 5⟩
  | _ => .exactly 1

end Builtin

inductive Target where
  | builtin (f : Builtin)
  | listElement (slot : UInt8)
  | customListElement (name : String)
  | matrixElement (slot : UInt8)
deriving DecidableEq, Repr

def Target.arity : Target → Arity
  | .builtin f => f.arity
  | .listElement _ | .customListElement _ => .exactly 1
  | .matrixElement _ => .exactly 2

end GraphCalc

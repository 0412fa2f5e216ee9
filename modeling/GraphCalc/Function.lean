import GraphCalc.Function.Statistics
import GraphCalc.Mode
import GraphCalc.Token

set_option autoImplicit false

namespace GraphCalc.Function

def realLn (x : Float32) : Except Cause Float32 :=
  if x ≤ 0 then .error .domain else finite (Elementary.ln x)

def unit (x : Float32) : Except Cause Float32 :=
  if 1 < x.abs then .error .domain else .ok x

def absolute (v : Value) : Except Cause Value := do
  v.checkDimension
  match v with
  | .complex c => Value.ofNumber c.modulus
  | .complexList cs => return .list (← cs.mapM fun c => finite c.modulus)
  | .matrix m => return .matrix (← m.map fun x => .ok x.abs)
  | v => v.mapReal fun x => .ok x.abs

def round (v : Value) (digits : Option Value) : Except Cause Value := do
  let digits ← match digits with
    | some d => d.integer
    | none => pure 9
  if digits < 0 ∨ 9 < digits then throw .domain
  let scale := Float.ofNat (Nat.pow 10 digits.toNat)
  let rounded := fun (x : Float32) => narrow (roundAway (widen x * scale) / scale)
  match v with
  | .matrix m => return .matrix (← m.map fun x => .ok (rounded x))
  | v => v.mapNumeric (fun x => .ok (rounded x)) fun c => .ok ⟨rounded c.re, rounded c.im⟩

def squareRoot (v : Value) : Except Cause Value := do
  v.checkDimension
  match v with
  | .number x =>
    if x < 0 then return .complex (← (Complex.ofReal x).squareRoot) else return .number x.sqrt
  | .list xs =>
    if xs.any (fun x => x < 0) then
      return .complexList (← xs.mapM fun x => (Complex.ofReal x).squareRoot)
    else return .list (xs.map (·.sqrt))
  | v => v.mapNumeric (fun x => .ok x.sqrt) Complex.squareRoot

def tangent (mode : Mode) (x : Float32) : Except Cause Float32 :=
  let x := mode.toRadians x
  if (Elementary.cos x).abs < 1e-7 then .error .domain else finite (Elementary.tan x)

def extreme (f : Float32 → Float32 → Float32) (first : Value) (rest : List Value) :
    Except Cause Value := do
  first.checkDimension
  if rest.isEmpty then
    match first with
    | .number x => return .number x
    | .list xs => return .number (xs.foldl f (0 / 0))
    | _ => throw .dataType
  else rest.foldlM (Value.realElementwise fun x y => .ok (f x y)) first

def ofCount (n : Nat) : Float32 := n.toUInt64.toFloat32

def dimension : Value → Except Cause Value
  | .list xs => .ok (.number (ofCount xs.length))
  | .complexList cs => .ok (.number (ofCount cs.length))
  | .matrix m => .ok (.list [ofCount m.rowCount, ofCount m.columnCount])
  | _ => .error .dataType

def sum (v : Value) : Except Cause Value := do
  v.checkDimension
  match v with
  | .list xs => Value.ofNumber (sumOf xs)
  | .complexList cs => return .complex (← cs.foldlM Complex.add (.ofReal 0))
  | _ => throw .dataType

def product (v : Value) : Except Cause Value := do
  v.checkDimension
  match v with
  | .list xs => Value.ofNumber (productOf xs)
  | .complexList cs => return .complex (← cs.foldlM Complex.mul (.ofReal 1))
  | _ => throw .dataType

def augment (l r : Value) : Except Cause Value := do
  l.checkDimension
  r.checkDimension
  match l, r with
  | .matrix l, .matrix r => return .matrix (← l.augment r)
  | .list l, .list r => return .list (l ++ r)
  | .list l, .complexList r => return .complexList (l.map .ofReal ++ r)
  | .complexList l, .list r => return .complexList (l ++ r.map .ofReal)
  | .complexList l, .complexList r => return .complexList (l ++ r)
  | _, _ => throw .dataType

def identity (v : Value) : Except Cause Value := do
  let size ← v.integer
  if size < 1 ∨ 99 < size then throw .invalidDim
  return .matrix (← RealMatrix.identity size.toNat)

def determinant (v : Value) : Except Cause Value := do
  match v with
  | .matrix m => Value.ofNumber (← m.determinant)
  | _ => throw .dataType

def isUnavailable (f : Builtin) : Bool :=
  [.answer, .random, .randMatrix, .getKey, .pixelTest, .solve, .sequence, .integral, .derivative,
    .functionMin, .functionMax].contains f

def refusal (f : Builtin) : Cause := if isUnavailable f then .notImplemented else .missingArgument

def applyOne (mode : Mode) (f : Builtin) (v : Value) : Except Cause Value :=
  match f with
  | .absolute => absolute v
  | .floor => v.mapNumeric (fun x => .ok (floor x)) fun c => .ok ⟨floor c.re, floor c.im⟩
  | .integerPart => v.mapNumeric (fun x => .ok (truncate x)) fun c => .ok ⟨truncate c.re, truncate c.im⟩
  | .fractionPart => v.mapNumeric (fun x => .ok (fraction x)) fun c => .ok ⟨fraction c.re, fraction c.im⟩
  | .round => round v none
  | .negation => v.mapReal fun x => .ok (Value.truth (x == 0))
  | .squareRoot => squareRoot v
  | .cubeRoot => v.mapReal fun x => .ok (Elementary.cubeRoot x)
  | .naturalLog => v.mapNumeric realLn Complex.ln
  | .exponential => v.mapNumeric (fun x => finite (Elementary.exp x)) Complex.exp
  | .commonLog =>
    v.mapNumeric (fun x => (realLn x).map (· / Elementary.ln10)) fun c => do
      (← c.ln).div (.ofReal Elementary.ln10)
  | .tenPower =>
    v.mapNumeric (fun x => finite (Elementary.power 10 x)) (Complex.power (.ofReal 10))
  | .sin => v.mapReal fun x => finite (Elementary.sin (mode.toRadians x))
  | .cos => v.mapReal fun x => finite (Elementary.cos (mode.toRadians x))
  | .tan => v.mapReal (tangent mode)
  | .arcsin => v.mapReal fun x => (unit x).map fun x => mode.ofRadians (Elementary.arcsin x)
  | .arccos => v.mapReal fun x => (unit x).map fun x => mode.ofRadians (Elementary.arccos x)
  | .arctan => v.mapReal fun x => .ok (mode.ofRadians (Elementary.arctan x))
  | .sinh => v.mapReal fun x => finite (Elementary.sinh x)
  | .cosh => v.mapReal fun x => finite (Elementary.cosh x)
  | .tanh => v.mapReal fun x => .ok (Elementary.tanh x)
  | .arsinh => v.mapReal fun x => .ok (Elementary.arsinh x)
  | .arcosh => v.mapReal fun x => if x < 1 then .error .domain else .ok (Elementary.arcosh x)
  | .artanh => v.mapReal fun x => if 1 ≤ x.abs then .error .domain else .ok (Elementary.artanh x)
  | .dimension => dimension v
  | .sum => sum v
  | .product => product v
  | .mean => Statistics.mean v none
  | .median => Statistics.median v none
  | .determinant => determinant v
  | .identity => identity v
  | f => .error (refusal f)

def applyTwo (mode : Mode) (f : Builtin) (v w : Value) : Except Cause Value :=
  match f with
  | .round => round v (some w)
  | .mean => Statistics.mean v (some w)
  | .median => Statistics.median v (some w)
  | .augment => augment v w
  | .polarRadius => v.realElementwise (fun x y => finite (Elementary.distance x y)) w
  | .polarAngle => v.realElementwise (fun x y => .ok (mode.ofRadians (Elementary.angle y x))) w
  | .cartesianX => v.realElementwise (fun r t => finite (r * Elementary.cos (mode.toRadians t))) w
  | .cartesianY => v.realElementwise (fun r t => finite (r * Elementary.sin (mode.toRadians t))) w
  | f => .error (refusal f)

def applyRows (f : Builtin) (args : List Value) : Except Cause Value := do
  match f, args with
  | .rowSwap, [m, a, b] =>
    let m ← m.asMatrix
    let a ← a.integer
    let b ← b.integer
    return .matrix (← m.rowSwap a b)
  | .rowAdd, [m, a, b] =>
    let m ← m.asMatrix
    let a ← a.integer
    let b ← b.integer
    return .matrix (← m.rowAdd 1 a b)
  | .mulRow, [x, m, a] =>
    let x ← x.asNumber
    let m ← m.asMatrix
    let a ← a.integer
    return .matrix (← m.rowMultiply x a)
  | .mulRowAdd, [x, m, a, b] =>
    let x ← x.asNumber
    let m ← m.asMatrix
    let a ← a.integer
    let b ← b.integer
    return .matrix (← m.rowAdd x a b)
  | f, _ => throw (refusal f)

def apply (mode : Mode) (f : Builtin) (args : List Value) : Except Cause Value :=
  if f.arity.allows args.length then
    match f, args with
    | _, [] => .error .notImplemented
    | .maximum, v :: rest => extreme larger v rest
    | .minimum, v :: rest => extreme smaller v rest
    | f, [v] => applyOne mode f v
    | f, [v, w] => applyTwo mode f v w
    | f, args => applyRows f args
  else .error .argumentCount

end GraphCalc.Function

import GraphCalc.Mode
import GraphCalc.Operation.Counting
import GraphCalc.Value

set_option autoImplicit false

namespace GraphCalc.Operation

def realReciprocal (x : Float32) : Except Cause Float32 :=
  if x == 0 then .error .divideByZero else finite (1 / x)

def realDivide (l r : Float32) : Except Cause Float32 :=
  if r == 0 then .error .divideByZero else finite (l / r)

def realPower (l r : Float32) : Except Cause Float32 :=
  if l == 0 && r == 0 then .error .domain
  else if l == 0 && r < 0 then .error .divideByZero
  else if l < 0 && !isIntegral r then .error .domain
  else finite (Elementary.power l r)

def negate : Value → Except Cause Value
  | .matrix m => (m.map fun x => .ok (-x)).map .matrix
  | v => v.mapNumeric (fun x => .ok (-x)) (fun c => .ok c.neg)

def reciprocal : Value → Except Cause Value
  | .matrix m => m.inverse.map .matrix
  | v => v.mapNumeric realReciprocal Complex.reciprocal

def square : Value → Except Cause Value
  | .matrix m => m.square.map .matrix
  | v => v.mapNumeric (fun x => finite (x * x)) Complex.square

def cube : Value → Except Cause Value
  | .matrix m => m.cube.map .matrix
  | v => v.mapNumeric (fun x => finite (x * x * x)) Complex.cube

def ofDegrees (mode : Mode) (v : Value) : Except Cause Value :=
  match mode.angle with
  | .degree => v.mapReal .ok
  | .radian => v.mapReal fun x => finite (x * Elementary.pi / 180)

def ofRadians (mode : Mode) (v : Value) : Except Cause Value :=
  match mode.angle with
  | .radian => v.mapReal .ok
  | .degree => v.mapReal fun x => finite (x * 180 / Elementary.pi)

def transpose : Value → Except Cause Value
  | .matrix m => .ok (.matrix m.transpose)
  | _ => .error .dataType

def unary (op : Operator) (mode : Mode) (v : Value) : Except Cause Value := do
  v.checkDimension
  match op with
  | .negate => negate v
  | .reciprocal => reciprocal v
  | .square => square v
  | .cube => cube v
  | .factorial => v.mapReal Counting.factorial
  | .degrees => ofDegrees mode v
  | .radians => ofRadians mode v
  | .transpose => transpose v
  | _ => throw .notImplemented

def add : Value → Value → Except Cause Value
  | .string l, .string r => .ok (.string (l ++ r))
  | .matrix l, .matrix r => (l.zipWith (fun x y => finite (x + y)) r).map .matrix
  | l, r => l.elementwise (fun x y => finite (x + y)) Complex.add r

def subtract : Value → Value → Except Cause Value
  | .matrix l, .matrix r => (l.zipWith (fun x y => finite (x - y)) r).map .matrix
  | l, r => l.elementwise (fun x y => finite (x - y)) Complex.sub r

def multiply : Value → Value → Except Cause Value
  | .matrix l, .matrix r => (l.multiply r).map .matrix
  | .matrix l, .number y => (l.map fun x => finite (x * y)).map .matrix
  | .number x, .matrix r => (r.map fun y => finite (x * y)).map .matrix
  | l, r => l.elementwise (fun x y => finite (x * y)) Complex.mul r

def divide : Value → Value → Except Cause Value
  | .matrix l, .number y => (l.map fun x => realDivide x y).map .matrix
  | l, r => l.elementwise realDivide Complex.div r

def equal : Value → Value → Except Cause Value
  | .string l, .string r => .ok (.number (Value.truth (l == r)))
  | .matrix l, .matrix r =>
    (l.zipWith (fun x y => .ok (Value.truth (x == y))) r).map fun same =>
      .number (Value.truth (same.rows.all (·.all (· == 1))))
  | l, r => l.relation (· == ·) (fun x y => .ok (x.same y)) r

def notEqual (l r : Value) : Except Cause Value := do
  match ← equal l r with
  | .number x => return .number (Value.truth (x == 0))
  | .list xs => return .list (xs.map fun x => Value.truth (x == 0))
  | _ => throw .dataType

def ordered (f : Float32 → Float32 → Bool) (l r : Value) : Except Cause Value :=
  l.relation f (fun _ _ => .error .dataType) r

def less (l r : Value) : Except Cause Value := ordered (fun x y => x < y) l r

def lessEqual (l r : Value) : Except Cause Value := ordered (fun x y => x ≤ y) l r

def logical (f : Bool → Bool → Bool) : Value → Value → Except Cause Value
  | .number l, .number r => .ok (.number (Value.truth (f (l != 0) (r != 0))))
  | _, _ => .error .dataType

def binary (op : Operator) (l r : Value) : Except Cause Value := do
  l.checkDimension
  r.checkDimension
  match op with
  | .add => add l r
  | .subtract => subtract l r
  | .multiply => multiply l r
  | .divide => divide l r
  | .power => l.elementwise realPower Complex.power r
  | .permutations => l.realElementwise Counting.permutations r
  | .combinations => l.realElementwise Counting.combinations r
  | .equal => equal l r
  | .notEqual => notEqual l r
  | .less => less l r
  | .greater => less r l
  | .lessEqual => lessEqual l r
  | .greaterEqual => lessEqual r l
  | .and => logical (· && ·) l r
  | .or => logical (· || ·) l r
  | .xor => logical (· != ·) l r
  | _ => throw .notImplemented

end GraphCalc.Operation

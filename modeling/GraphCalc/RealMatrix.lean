import GraphCalc.Complex
import GraphCalc.RealMatrix.Elimination

set_option autoImplicit false

namespace GraphCalc

structure RealMatrix where
  rows : List (List Float32)
deriving DecidableEq

namespace RealMatrix

def ofRows (rows : List (List Float32)) : Except Cause RealMatrix :=
  match rows with
  | first :: rest =>
    if first ≠ [] ∧ rest.all (·.length == first.length) then .ok ⟨rows⟩ else .error .invalidDim
  | [] => .error .invalidDim

def rowCount (m : RealMatrix) : Nat := m.rows.length

def columnCount (m : RealMatrix) : Nat := (m.rows.headD []).length

def isSquare (m : RealMatrix) : Bool := m.rowCount == m.columnCount

def identity (size : Nat) : Except Cause RealMatrix :=
  ofRows ((List.range size).map fun r => (List.range size).map fun c => if r = c then 1 else 0)

def get (m : RealMatrix) : (row column : Nat) → Except Cause Float32
  | row + 1, column + 1 =>
    match m.rows[row]? with
    | some entries =>
      match entries[column]? with
      | some x => .ok x
      | none => .error .invalidDim
    | none => .error .invalidDim
  | _, _ => .error .invalidDim

def columns (m : RealMatrix) : List (List Float32) :=
  (List.range m.columnCount).map fun c => m.rows.map (·.getD c 0)

def map (f : Float32 → Except Cause Float32) (m : RealMatrix) : Except Cause RealMatrix :=
  (m.rows.mapM fun (row : List Float32) => row.mapM f).map mk

def zipRows (f : Float32 → Float32 → Except Cause Float32) (l r : List Float32) :
    Except Cause (List Float32) :=
  (l.zip r).mapM fun pair => f pair.1 pair.2

def zipWith (f : Float32 → Float32 → Except Cause Float32) (l r : RealMatrix) :
    Except Cause RealMatrix :=
  if l.rowCount = r.rowCount ∧ l.columnCount = r.columnCount then
    ((l.rows.zip r.rows).mapM fun pair => zipRows f pair.1 pair.2).map mk
  else .error .dimMismatch

def multiply (l r : RealMatrix) : Except Cause RealMatrix :=
  if l.columnCount = r.rowCount then
    let columns := r.columns
    (l.rows.mapM fun row => columns.mapM fun column =>
      finite (sumOf (List.zipWith (· * ·) row column))).map mk
  else .error .invalidDim

def square (m : RealMatrix) : Except Cause RealMatrix :=
  if m.isSquare then m.multiply m else .error .invalidDim

def cube (m : RealMatrix) : Except Cause RealMatrix := do
  let squared ← m.square
  squared.multiply m

def transpose (m : RealMatrix) : RealMatrix := ⟨m.columns⟩

def augment (l r : RealMatrix) : Except Cause RealMatrix :=
  if l.rowCount = r.rowCount then .ok ⟨List.zipWith (· ++ ·) l.rows r.rows⟩
  else .error .dimMismatch

def doubles : Arithmetic Float where
  zero := 0
  one := 1
  neg := (- ·)
  sub := (· - ·)
  mul := (· * ·)
  div := (· / ·)
  isZero := (· == 0)
  absLe := magnitudeLe

def widened (m : RealMatrix) : List (List Float) := m.rows.map (·.map widen)

def determinant (m : RealMatrix) : Except Cause Float32 :=
  if m.isSquare then finite (narrow (Elimination.determinant doubles m.widened))
  else .error .invalidDim

def inverse (m : RealMatrix) : Except Cause RealMatrix :=
  if m.isSquare then
    match Elimination.inverse doubles m.widened with
    | some rows => (rows.mapM fun (row : List Float) => row.mapM fun x => finite (narrow x)).map mk
    | none => .error .divideByZero
  else .error .invalidDim

def rowIndex (m : RealMatrix) (row : Int) : Except Cause Nat :=
  if 1 ≤ row ∧ row ≤ m.rowCount then .ok (row.toNat - 1) else .error .invalidDim

def rowSwap (m : RealMatrix) (a b : Int) : Except Cause RealMatrix := do
  let i ← m.rowIndex a
  let j ← m.rowIndex b
  return ⟨(m.rows.set i (m.rows.getD j [])).set j (m.rows.getD i [])⟩

def rowAdd (m : RealMatrix) (value : Float32) (a b : Int) : Except Cause RealMatrix := do
  let i ← m.rowIndex a
  let j ← m.rowIndex b
  let sum ← zipRows (fun y x => finite (y + value * x)) (m.rows.getD j []) (m.rows.getD i [])
  return ⟨m.rows.set j sum⟩

def rowMultiply (m : RealMatrix) (value : Float32) (row : Int) : Except Cause RealMatrix := do
  let i ← m.rowIndex row
  let scaled ← (m.rows.getD i []).mapM fun x => finite (x * value)
  return ⟨m.rows.set i scaled⟩

end RealMatrix

end GraphCalc

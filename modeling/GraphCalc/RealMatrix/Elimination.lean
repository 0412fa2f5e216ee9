/-!
Determinants and inverses by elimination with the largest pivot. The arithmetic is a parameter, so
that the same steps can be taken in floating point or in an exact field. Each step takes up one column
and drops it from the rows that are left.
-/

set_option autoImplicit false

namespace GraphCalc

structure Arithmetic (α : Type) where
  zero : α
  one : α
  neg : α → α
  sub : α → α → α
  mul : α → α → α
  div : α → α → α
  isZero : α → Bool
  absLe : α → α → Bool

namespace Elimination

variable {α : Type} (A : Arithmetic α)

def lead (row : List α) : α := row.headD A.zero

def pivotFrom (best : α) (found i : Nat) : List α → Nat
  | [] => found
  | x :: rest =>
    if A.absLe best x then pivotFrom x i (i + 1) rest else pivotFrom best found (i + 1) rest

def pivotIndex : List α → Nat
  | [] => 0
  | x :: rest => pivotFrom A x 0 1 rest

def bringUp (i : Nat) : List (List α) → List (List α)
  | [] => []
  | first :: rest =>
    match i with
    | 0 => first :: rest
    | k + 1 => rest.getD k first :: rest.set k first

def subtractMultiple (factor : α) (row top : List α) : List α :=
  List.zipWith (fun x t => A.sub x (A.mul factor t)) row.tail top.tail

def determinantFrom (product : α) : Nat → List (List α) → α
  | 0, _ => product
  | n + 1, rows =>
    let i := pivotIndex A (rows.map (lead A))
    match bringUp i rows with
    | [] => product
    | top :: others =>
      if A.isZero (lead A top) then A.zero
      else
        let product := A.mul (if i = 0 then product else A.neg product) (lead A top)
        determinantFrom product n
          (others.map fun row => subtractMultiple A (A.div (lead A row) (lead A top)) row top)

def determinant (rows : List (List α)) : α := determinantFrom A A.one rows.length rows

/-- Clears one column after the other: `solved` are the rows whose pivot has been found, in the order
of their columns. Nothing when a column has no pivot. -/
def invertFrom : Nat → (solved rows : List (List α)) → Option (List (List α))
  | 0, solved, _ => some solved
  | n + 1, solved, rows =>
    match bringUp (pivotIndex A (rows.map (lead A))) rows with
    | [] => some solved
    | top :: others =>
      if A.isZero (lead A top) then none
      else
        let scaled := top.map fun x => A.div x (lead A top)
        let clear := fun row => subtractMultiple A (lead A row) row scaled
        invertFrom n (solved.map clear ++ [scaled.tail]) (others.map clear)

def unitRow (size r : Nat) : List α :=
  (List.range size).map fun c => if r = c then A.one else A.zero

def inverse (rows : List (List α)) : Option (List (List α)) :=
  invertFrom A rows.length [] (rows.mapIdx fun r row => row ++ unitRow A rows.length r)

end Elimination

end GraphCalc

import GraphCalc.Complex

set_option autoImplicit false

namespace GraphCalc.Counting

variable {α : Type}

@[specialize]
def multiplyUp (ofCount : UInt64 → α) (mul : α → α → α) (product : α) (k : UInt64) : Nat → α
  | 0 => product
  | left + 1 => multiplyUp ofCount mul (mul product (ofCount k)) (k + 1) left

def firstFactor (n r : UInt64) : UInt64 := n - r + 1

def rangeLength (k n : UInt64) : Nat := n.toNat + 1 - k.toNat

@[specialize]
def permutationsWith (ofCount : UInt64 → α) (mul : α → α → α) (zero one : α) (n r : UInt64) : α :=
  if n < r then zero
  else multiplyUp ofCount mul one (firstFactor n r) (rangeLength (firstFactor n r) n)

@[specialize]
def chooseUp (ofCount : UInt64 → α) (mul div : α → α → α) (n : UInt64) (value : α) (k : UInt64) :
    Nat → α
  | 0 => value
  | left + 1 =>
    chooseUp ofCount mul div n (div (mul value (ofCount (n - k))) (ofCount (k + 1))) (k + 1) left

@[specialize]
def combinationsWith (ofCount : UInt64 → α) (mul div : α → α → α) (zero one : α) (n r : UInt64) : α :=
  if n < r then zero
  else
    let r := if r ≤ n - r then r else n - r
    chooseUp ofCount mul div n one 0 r.toNat

def counts (n r : Float32) : Except Cause (UInt64 × UInt64) :=
  if n < 0 || r < 0 || !isIntegral n || !isIntegral r then .error .domain
  else .ok (n.toUInt64, r.toUInt64)

def permutations (n r : Float32) : Except Cause Float32 := do
  let (n, r) ← counts n r
  finite (narrow (permutationsWith UInt64.toFloat (· * ·) 0 1 n r))

def combinations (n r : Float32) : Except Cause Float32 := do
  let (n, r) ← counts n r
  finite (narrow (roundAway (combinationsWith UInt64.toFloat (· * ·) (· / ·) 0 1 n r)))

def factors (first limit : Float) : List Float :=
  ((List.range 70).map fun i => first + Float.ofNat i).takeWhile (· ≤ limit)

/-- Defined from -0.5 to 69.5 in steps of one half, where the half of a half-integer factorial comes
from the square root of pi. -/
def factorial (x : Float32) : Except Cause Float32 :=
  if x < -0.5 then .error .domain
  else if 69.5 < x then .error .overflow
  else if isIntegral (x * 2) then
    let (seed, first) : Float × Float :=
      if isIntegral x then (1, 1) else (Float.sqrt 3.141592653589793, 0.5)
    finite (narrow ((factors first (widen x)).foldl (· * ·) seed))
  else .error .domain

end GraphCalc.Counting

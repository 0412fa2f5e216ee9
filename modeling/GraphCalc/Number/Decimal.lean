set_option autoImplicit false

namespace GraphCalc

namespace Decimal

def divideRounded (num den : Nat) : Nat :=
  let q := num / den
  let twice := 2 * (num % den)
  if twice < den then q else if den < twice then q + 1 else q + q % 2

def ratio (m : Nat) (e : Int) : Nat × Nat :=
  (m * Nat.pow 2 e.toNat, Nat.pow 2 (-e).toNat)

def shifted (m : Nat) (e p : Int) : Nat × Nat :=
  let (num, den) := ratio m e
  (num * Nat.pow 10 p.toNat, den * Nat.pow 10 (-p).toNat)

def digitCount (n : Nat) : Nat := (Nat.toDigits 10 n).length

def magnitude (m : Nat) (e : Int) : Int :=
  let (num, den) := ratio m e
  if den ≤ num then (digitCount (num / den) : Int) - 1
  else -(digitCount ((den - 1) / num) : Int)

def atPlaces (m : Nat) (e : Int) (places : Nat) : Nat :=
  let (num, den) := shifted m e places
  divideRounded num den

def significant (n : Nat) (m : Nat) (e : Int) : Nat × Int :=
  let unit := magnitude m e - (n - 1 : Nat)
  let (num, den) := shifted m e (-unit)
  (divideRounded num den, unit)

def padded (width n : Nat) : List Char :=
  let digits := Nat.toDigits 10 n
  List.replicate (width - digits.length) '0' ++ digits

def positional (n places : Nat) : List Char :=
  let digits := padded (places + 1) n
  let whole := digits.length - places
  if places = 0 then digits else digits.take whole ++ '.' :: digits.drop whole

def trimmed (text : List Char) : List Char :=
  if text.contains '.' then
    ((text.reverse.dropWhile (· = '0')).dropWhile (· = '.')).reverse
  else text

def plain (digits : Nat) (unit : Int) : List Char :=
  trimmed (positional (digits * Nat.pow 10 unit.toNat) (-unit).toNat)

def readsAs (x : Float32) (digits : Nat) (unit : Int) : Bool :=
  Float32.ofScientific (digits * Nat.pow 10 unit.toNat) true (-unit).toNat == x

def neighbour? (x : Float32) (m : Nat) (e : Int) (n : Nat) : Option (Nat × Int) :=
  let unit := magnitude m e - (n - 1 : Nat)
  let (num, den) := shifted m e (-unit)
  let below := num / den
  let near := divideRounded num den
  let far := if near = below then below + 1 else below
  if readsAs x near unit then some (near, unit)
  else if readsAs x far unit then some (far, unit)
  else none

/-- The fewest digits that read back as the positive number `x`, of value `m · 2 ^ e`; nine digits
tell any two numbers apart. -/
def shortest (x : Float32) (m : Nat) (e : Int) : Nat × Int :=
  ([1, 2, 3, 4, 5, 6, 7, 8].findSome? (neighbour? x m e)).getD (significant 9 m e)

def signText : Float.Model.UnpackedFloat.Sign → List Char
  | .negative => ['-']
  | .positive => []

def shortestText (x : Float32) : String :=
  match x.toModel.unpack with
  | .notANumber => "NaN"
  | .infinity sign => String.ofList (signText sign ++ ['i', 'n', 'f'])
  | .zero sign => String.ofList (signText sign ++ ['0'])
  | .finite sign m e _ =>
    let (digits, unit) := shortest x.abs m e
    String.ofList (signText sign ++ plain digits unit)

end Decimal

end GraphCalc

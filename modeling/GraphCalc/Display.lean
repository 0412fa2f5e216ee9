import GraphCalc.Mode
import GraphCalc.Number.Decimal
import GraphCalc.Token.Text
import GraphCalc.Value

set_option autoImplicit false

namespace GraphCalc.Display

def digits : Nat := 7

def infiniteMagnitude : Int := 2147483647

structure Shown where
  value : Float
  magnitude : Int

def shown (x : Float32) : Shown :=
  match x.toModel.unpack with
  | .finite sign m e _ =>
    let (n, unit) := Decimal.significant digits m e
    let value := Float.ofScientific n (unit < 0) unit.natAbs
    let value := match sign with
      | .positive => value
      | .negative => -value
    ⟨value, unit + (Decimal.digitCount n - 1 : Nat)⟩
  | .infinity _ => ⟨widen x, infiniteMagnitude⟩
  | _ => ⟨widen x, 0⟩

def placesText (x : Float) (places : Nat) : List Char :=
  match x.toModel.unpack with
  | .notANumber => ['N', 'a', 'N']
  | .infinity sign => Decimal.signText sign ++ ['i', 'n', 'f']
  | .zero sign => Decimal.signText sign ++ Decimal.positional 0 places
  | .finite sign m e _ => Decimal.signText sign ++ Decimal.positional (Decimal.atPlaces m e places) places

def unitsAt (x : Float) (places : Nat) : Option Nat :=
  match x.toModel.unpack with
  | .zero _ => some 0
  | .finite _ m e _ => some (Decimal.atPlaces m e places)
  | _ => none

def magnitudeOf (x : Float) : Int :=
  match x.toModel.unpack with
  | .finite _ m e _ => Decimal.magnitude m e
  | .infinity _ => infiniteMagnitude
  | _ => 0

def powerBySquaring (base product : Float) (n : Nat) : Float :=
  let product := if n % 2 = 1 then product * base else product
  if n / 2 = 0 then product else powerBySquaring (base * base) product (n / 2)
termination_by n

def powerOfTen (e : Int) : Float :=
  let power := powerBySquaring 10 1 e.natAbs
  if e < 0 then 1 / power else power

def decimalsFor (fixed : Option Nat) (magnitude : Int) : Nat :=
  fixed.getD ((digits - 1 : Nat) - magnitude).toNat

def decimalText (fixed : Option Nat) (x : Float) (magnitude : Int) : List Char :=
  let text := placesText x (decimalsFor fixed magnitude)
  if fixed.isSome then text else Decimal.trimmed text

def reaches (fixed : Option Nat) (x : Float) (bound : Nat) : Bool :=
  let places := decimalsFor fixed (magnitudeOf x)
  (unitsAt x places).any (bound * Nat.pow 10 places ≤ ·)

def exponentText (e : Int) : List Char := 'E' :: (toString e).toList

/-- A mantissa and an exponent that is a multiple of `step`. A mantissa that its decimals round up to
the next exponent is written with that one. -/
def scientific (n : Shown) (fixed : Option Nat) (step : Nat) : List Char :=
  if n.value == 0 then Decimal.positional 0 (fixed.getD 0) ++ exponentText 0
  else
    let e := n.magnitude / step * step
    let mantissa := n.value / powerOfTen e
    let (e, mantissa) :=
      if reaches fixed mantissa (Nat.pow 10 step) then (e + step, n.value / powerOfTen (e + step))
      else (e, mantissa)
    decimalText fixed mantissa (magnitudeOf mantissa) ++ exponentText e

def normal (n : Shown) (fixed : Option Nat) : List Char :=
  let large := 1e10 ≤ n.value.abs
  let small := match fixed with
    | none => n.value.abs < 1e-3
    | some places => unitsAt n.value places = some 0
  if n.value != 0 && (large || small) then scientific n fixed 1
  else decimalText fixed n.value n.magnitude

def withoutZeroSign : List Char → List Char
  | '-' :: rest => if rest.all (fun c => c = '0' || c = '.') then rest else '-' :: rest
  | text => text

def fixedPlaces (mode : Mode) : Option Nat :=
  match mode.decimals with
  | .floating => none
  | .fixed places => some places

def numberText (mode : Mode) (x : Float32) : List Char :=
  let n := shown x
  let fixed := fixedPlaces mode
  withoutZeroSign <| match mode.layout with
    | .normal => normal n fixed
    | .scientific => scientific n fixed 1
    | .engineering => scientific n fixed 3

def settle (c : Complex) : Complex :=
  let limit := c.modulus * 1e-6
  let part := fun (x : Float32) => if x.abs < limit then 0 else x
  ⟨part c.re, part c.im⟩

def complexText (mode : Mode) (c : Complex) : List Char :=
  let c := settle c
  if c.im == 0 then numberText mode c.re
  else
    let size := numberText mode c.im.abs
    let size := if size = ['1'] then [] else size
    let real := if c.re == 0 then [] else numberText mode c.re
    let sign := if c.im < 0 then ['-'] else if c.re == 0 then [] else ['+']
    real ++ sign ++ size ++ ['i']

def spaced (items : List (List Char)) : List Char :=
  List.intercalate [' '] items

def valueChars (mode : Mode) : Value → List Char
  | .number x => numberText mode x
  | .complex c => complexText mode c
  | .string bytes => detokenizeChars bytes
  | .list xs => ['\x7b'] ++ spaced (xs.map (numberText mode)) ++ ['\x7d']
  | .complexList cs => ['\x7b'] ++ spaced (cs.map (complexText mode)) ++ ['\x7d']
  | .matrix m =>
    ['['] ++ m.rows.flatMap (fun row => ['['] ++ spaced (row.map (numberText mode)) ++ [']']) ++ [']']

def valueText (mode : Mode) (v : Value) : String := String.ofList (valueChars mode v)

def alignRight (width : Nat) (text : String) : String :=
  String.ofList (List.replicate (width - text.length) ' ') ++ text

end GraphCalc.Display

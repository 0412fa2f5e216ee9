/-!
Exact views of floating-point numbers. A finite number is a sign, a mantissa `m` and an exponent `e`
and stands for `m · 2 ^ e`; whole parts, rounding and changes of precision are computed on these, so
they are rounded once at most.
-/

set_option autoImplicit false

namespace GraphCalc

open Float.Model (UnpackedFloat)
open Float.Model.UnpackedFloat (Sign)

namespace Exact

def whole (m : Nat) (e : Int) : Nat :=
  if 0 ≤ e then m * Nat.pow 2 e.toNat else m / Nat.pow 2 (-e).toNat

def isWhole (m : Nat) (e : Int) : Bool :=
  0 ≤ e || m % Nat.pow 2 (-e).toNat == 0

def nearest (m : Nat) (e : Int) : Nat :=
  if 0 ≤ e then m * Nat.pow 2 e.toNat
  else (m + Nat.pow 2 ((-e).toNat - 1)) / Nat.pow 2 (-e).toNat

def single (f : UnpackedFloat) : Float32 := .ofModel (.pack f)

def double (f : UnpackedFloat) : Float := .ofModel (.pack f)

def singleOfWhole (sign : Sign) (n : Nat) : Float32 :=
  single (if n = 0 then .zero sign else UnpackedFloat.round .binary32 sign n 0)

def doubleOfWhole (sign : Sign) (n : Nat) : Float :=
  double (if n = 0 then .zero sign else UnpackedFloat.round .binary64 sign n 0)

end Exact

open Exact

def widen (x : Float32) : Float :=
  match x.toModel.unpack with
  | .finite sign m e _ => double (UnpackedFloat.round .binary64 sign m e)
  | special => double special

def narrow (x : Float) : Float32 :=
  match x.toModel.unpack with
  | .finite sign m e _ => single (UnpackedFloat.round .binary32 sign m e)
  | special => single special

def truncate (x : Float32) : Float32 :=
  match x.toModel.unpack with
  | .finite sign m e _ => singleOfWhole sign (whole m e)
  | _ => x

def floor (x : Float32) : Float32 :=
  match x.toModel.unpack with
  | .finite .negative m e _ =>
    singleOfWhole .negative (if isWhole m e then whole m e else whole m e + 1)
  | .finite .positive m e _ => singleOfWhole .positive (whole m e)
  | _ => x

def fraction (x : Float32) : Float32 := x - truncate x

def integer? (x : Float32) : Option Int :=
  match x.toModel.unpack with
  | .zero _ => some 0
  | .finite sign m e _ =>
    if isWhole m e then
      match sign with
      | .positive => some (whole m e)
      | .negative => some (-(whole m e : Int))
    else none
  | _ => none

def isIntegral (x : Float32) : Bool := (integer? x).isSome

def roundAway (x : Float) : Float :=
  match x.toModel.unpack with
  | .finite sign m e _ => doubleOfWhole sign (nearest m e)
  | _ => x

/-- Place in the total order of single precision numbers, in which `-0` comes before `0` and a NaN
after everything else. -/
def orderKey (x : Float32) : Int :=
  let bits := x.toBits.toNat
  if bits < 0x80000000 then bits else 0x7FFFFFFF - (bits : Int)

def totalLe (a b : Float32) : Bool := orderKey a ≤ orderKey b

def magnitudeLe (a b : Float) : Bool := a.abs.toBits ≤ b.abs.toBits

def larger (a b : Float32) : Float32 :=
  if a.isNaN then b else if a < b then b else a

def smaller (a b : Float32) : Float32 :=
  if a.isNaN then b else if b < a then b else a

/-- Added from left to right. The sum of nothing is `-0`, which leaves every first term as it is. -/
def sumOf (xs : List Float32) : Float32 := xs.foldl (· + ·) (-0.0)

def productOf (xs : List Float32) : Float32 := xs.foldl (· * ·) 1.0

end GraphCalc

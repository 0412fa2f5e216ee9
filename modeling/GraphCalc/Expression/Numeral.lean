import GraphCalc.Fault
import GraphCalc.Token

set_option autoImplicit false

namespace GraphCalc

structure Exponent where
  negative : Bool
  value : Nat
  count : Nat
deriving DecidableEq, Repr

structure Numeral where
  digits : Nat
  count : Nat
  point : Bool
  places : Nat
  exponent : Option Exponent
deriving DecidableEq, Repr

namespace Numeral

def empty : Numeral := ⟨0, 0, false, 0, none⟩

inductive Continuation where
  | more (n : Numeral)
  | imaginary
  | done
  | invalid
deriving DecidableEq, Repr

def takeDigit (n : Numeral) (d : Nat) : Numeral :=
  match n.exponent with
  | some x => { n with exponent := some { x with value := 10 * x.value + d, count := x.count + 1 } }
  | none =>
    { n with
      digits := 10 * n.digits + d
      count := n.count + 1
      places := if n.point then n.places + 1 else n.places }

def take (n : Numeral) : Token → Continuation
  | .digit d => .more (n.takeDigit d.toNat)
  | .decimalPoint =>
    if n.point || n.exponent.isSome then .invalid else .more { n with point := true }
  | .exponent =>
    if n.exponent.isSome || (n.count == 0 && n.point) then .invalid
    else if n.count = 0 then .more { n with digits := 1, count := 1, exponent := some ⟨false, 0, 0⟩ }
    else .more { n with exponent := some ⟨false, 0, 0⟩ }
  | .operator .negate =>
    match n.exponent with
    | some ⟨false, _, 0⟩ => .more { n with exponent := some ⟨true, 0, 0⟩ }
    | _ => .done
  | .imaginary => .imaginary
  | _ => .done

def scan (n : Numeral) : Bytes → Except Cause (Numeral × Bool) × Nat
  | [] => (.ok (n, false), 0)
  | b :: rest =>
    match n.take (Token.ofByte b) with
    | .more n' => ((n'.scan rest).1, (n'.scan rest).2 + 1)
    | .imaginary => (.ok (n, true), 1)
    | .done => (.ok (n, false), 0)
    | .invalid => (.error .invalidNumber, 1)

def isComplete (n : Numeral) : Bool :=
  n.count != 0 && n.exponent.all (·.count != 0)

def power (n : Numeral) : Int :=
  match n.exponent with
  | some x => (if x.negative then -(x.value : Int) else x.value) - n.places
  | none => -(n.places : Int)

def value (n : Numeral) : Float32 :=
  Float32.ofScientific n.digits (n.power < 0) n.power.natAbs

def finiteValue (n : Numeral) : Except Cause Float32 :=
  if n.isComplete then
    if n.value.isFinite then .ok n.value else .error .overflow
  else .error .invalidNumber

end Numeral

end GraphCalc

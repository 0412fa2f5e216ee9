import GraphCalc.Number.Elementary

set_option autoImplicit false

namespace GraphCalc

inductive Angle where
  | radian | degree
deriving DecidableEq, Repr

inductive Layout where
  | normal | scientific | engineering
deriving DecidableEq, Repr

inductive Decimals where
  | floating
  | fixed (places : Nat)
deriving DecidableEq, Repr

structure Mode where
  angle : Angle
  layout : Layout
  decimals : Decimals
deriving DecidableEq, Repr

namespace Mode

def standard : Mode := ⟨.radian, .normal, .floating⟩

def toRadians (mode : Mode) (x : Float32) : Float32 :=
  match mode.angle with
  | .radian => x
  | .degree => x * Elementary.pi / 180

def ofRadians (mode : Mode) (x : Float32) : Float32 :=
  match mode.angle with
  | .radian => x
  | .degree => x * 180 / Elementary.pi

end Mode

end GraphCalc

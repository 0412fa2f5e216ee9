import GraphCalc.Number.Exact

set_option autoImplicit false

namespace GraphCalc.Elementary

def pi : Float32 := 3.1415927
def ln10 : Float32 := 2.3025851

def rounded (f : Float → Float) (x : Float32) : Float32 := narrow (f (widen x))

def rounded₂ (f : Float → Float → Float) (x y : Float32) : Float32 := narrow (f (widen x) (widen y))

def sin : Float32 → Float32 := rounded Float.sin
def cos : Float32 → Float32 := rounded Float.cos
def tan : Float32 → Float32 := rounded Float.tan
def arcsin : Float32 → Float32 := rounded Float.asin
def arccos : Float32 → Float32 := rounded Float.acos
def arctan : Float32 → Float32 := rounded Float.atan
def sinh : Float32 → Float32 := rounded Float.sinh
def cosh : Float32 → Float32 := rounded Float.cosh
def tanh : Float32 → Float32 := rounded Float.tanh
def arsinh : Float32 → Float32 := rounded Float.asinh
def arcosh : Float32 → Float32 := rounded Float.acosh
def artanh : Float32 → Float32 := rounded Float.atanh
def exp : Float32 → Float32 := rounded Float.exp
def ln : Float32 → Float32 := rounded Float.log
def cubeRoot : Float32 → Float32 := rounded Float.cbrt
def power : Float32 → Float32 → Float32 := rounded₂ Float.pow

def angle (y x : Float32) : Float32 := rounded₂ Float.atan2 y x

/-- The distance of `(x, y)` from the origin. The squares are exact in double precision; an infinite
coordinate is infinitely far away whatever the other one is. -/
def distance (x y : Float32) : Float32 :=
  if x.isInf || y.isInf then 1.0 / 0.0
  else rounded₂ (fun x y => (x * x + y * y).sqrt) x y

end GraphCalc.Elementary

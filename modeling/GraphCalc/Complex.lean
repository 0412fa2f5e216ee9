import GraphCalc.Fault
import GraphCalc.Number.Elementary

set_option autoImplicit false

namespace GraphCalc

def finite (x : Float32) : Except Cause Float32 :=
  if x.isNaN then .error .domain else if x.isInf then .error .overflow else .ok x

structure Complex where
  re : Float32
  im : Float32
deriving DecidableEq

namespace Complex

def ofReal (x : Float32) : Complex := ⟨x, 0⟩

def polar (modulus argument : Float32) : Complex :=
  ⟨modulus * Elementary.cos argument, modulus * Elementary.sin argument⟩

def finite (c : Complex) : Except Cause Complex := do
  let re ← GraphCalc.finite c.re
  let im ← GraphCalc.finite c.im
  return ⟨re, im⟩

def isZero (c : Complex) : Bool := c.re == 0 && c.im == 0

def same (l r : Complex) : Bool := l.re == r.re && l.im == r.im

def modulus (c : Complex) : Float32 := Elementary.distance c.re c.im

def argument (c : Complex) : Float32 := Elementary.angle c.im c.re

def neg (c : Complex) : Complex := ⟨-c.re, -c.im⟩

def add (l r : Complex) : Except Cause Complex := finite ⟨l.re + r.re, l.im + r.im⟩

def sub (l r : Complex) : Except Cause Complex := finite ⟨l.re - r.re, l.im - r.im⟩

def mul (l r : Complex) : Except Cause Complex :=
  finite ⟨l.re * r.re - l.im * r.im, l.re * r.im + l.im * r.re⟩

def div (l r : Complex) : Except Cause Complex :=
  let denominator := r.re * r.re + r.im * r.im
  if denominator == 0 then .error .divideByZero
  else
    finite ⟨(l.re * r.re + l.im * r.im) / denominator, (l.im * r.re - l.re * r.im) / denominator⟩

def reciprocal (c : Complex) : Except Cause Complex := (ofReal 1).div c

def square (c : Complex) : Except Cause Complex :=
  finite ⟨c.re * c.re - c.im * c.im, 2 * c.re * c.im⟩

def cube (c : Complex) : Except Cause Complex :=
  finite
    ⟨c.re * c.re * c.re - 3 * c.re * c.im * c.im, 3 * c.re * c.re * c.im - c.im * c.im * c.im⟩

def exp (c : Complex) : Except Cause Complex := finite (polar (Elementary.exp c.re) c.im)

def ln (c : Complex) : Except Cause Complex :=
  if c.isZero then .error .domain else finite ⟨Elementary.ln c.modulus, c.argument⟩

def squareRoot (c : Complex) : Except Cause Complex :=
  if c.isZero then .ok c
  else if c.im == 0 && c.re < 0 then .ok ⟨0, (-c.re).sqrt⟩
  else finite (polar c.modulus.sqrt (c.argument / 2))

def power (c w : Complex) : Except Cause Complex :=
  if c.isZero then
    if 0 < w.re then .ok (ofReal 0) else .error .domain
  else do
    let log ← c.ln
    let product ← w.mul log
    product.exp

end Complex

end GraphCalc

import GraphCalc.RealMatrix
import GraphCalc.Token

set_option autoImplicit false

namespace GraphCalc

inductive Value where
  | number (x : Float32)
  | complex (c : Complex)
  | string (bytes : Bytes)
  | list (xs : List Float32)
  | complexList (cs : List Complex)
  | matrix (m : RealMatrix)
deriving DecidableEq

inductive Entries (α : Type) where
  | one (x : α)
  | many (xs : List α)

namespace Entries

variable {α β γ : Type}

def map (f : α → β) : Entries α → Entries β
  | .one x => .one (f x)
  | .many xs => .many (xs.map f)

def mapM (f : α → Except Cause β) : Entries α → Except Cause (Entries β)
  | .one x => (f x).map .one
  | .many xs => (xs.mapM f).map .many

/-- Entry by entry. A single entry goes with every entry of a list; two lists have one length. -/
def combine (f : α → β → Except Cause γ) : Entries α → Entries β → Except Cause (Entries γ)
  | .one x, .one y => (f x y).map .one
  | .one x, .many ys => (ys.mapM (f x)).map .many
  | .many xs, .one y => (xs.mapM (f · y)).map .many
  | .many xs, .many ys =>
    if xs.length = ys.length then ((xs.zip ys).mapM fun pair => f pair.1 pair.2).map .many
    else .error .dimMismatch

end Entries

namespace Value

def truth (b : Bool) : Float32 := if b then 1 else 0

def ofNumber (x : Float32) : Except Cause Value := (finite x).map .number

def ofComplex (c : Complex) : Except Cause Value := c.finite.map .complex

def ofReals : Entries Float32 → Value
  | .one x => .number x
  | .many xs => .list xs

def ofComplexes : Entries Complex → Value
  | .one c => .complex c
  | .many cs => .complexList cs

def reals? : Value → Option (Entries Float32)
  | .number x => some (.one x)
  | .list xs => some (.many xs)
  | _ => none

def complexes? : Value → Option (Entries Complex)
  | .number x => some (.one (.ofReal x))
  | .complex c => some (.one c)
  | .list xs => some (.many (xs.map .ofReal))
  | .complexList cs => some (.many cs)
  | _ => none

def checkDimension : Value → Except Cause Unit
  | .list [] | .complexList [] => .error .invalidDim
  | _ => .ok ()

def integer : Value → Except Cause Int
  | .number x =>
    match integer? x with
    | some n => .ok n
    | none => .error .domain
  | _ => .error .dataType

def asNumber : Value → Except Cause Float32
  | .number x => .ok x
  | _ => .error .dataType

def asMatrix : Value → Except Cause RealMatrix
  | .matrix m => .ok m
  | _ => .error .dataType

def mapReal (f : Float32 → Except Cause Float32) (v : Value) : Except Cause Value := do
  v.checkDimension
  match v.reals? with
  | some xs => return ofReals (← xs.mapM f)
  | none => throw .dataType

def mapNumeric (f : Float32 → Except Cause Float32) (g : Complex → Except Cause Complex) (v : Value) :
    Except Cause Value := do
  v.checkDimension
  match v.reals?, v.complexes? with
  | some xs, _ => return ofReals (← xs.mapM f)
  | none, some cs => return ofComplexes (← cs.mapM g)
  | none, none => throw .dataType

def elementwise (f : Float32 → Float32 → Except Cause Float32)
    (g : Complex → Complex → Except Cause Complex) (l r : Value) : Except Cause Value := do
  l.checkDimension
  r.checkDimension
  match l.reals?, r.reals?, l.complexes?, r.complexes? with
  | some xs, some ys, _, _ => return ofReals (← xs.combine f ys)
  | _, _, some xs, some ys => return ofComplexes (← xs.combine g ys)
  | _, _, _, _ => throw .dataType

def realElementwise (f : Float32 → Float32 → Except Cause Float32) (l r : Value) :
    Except Cause Value :=
  elementwise f (fun _ _ => .error .dataType) l r

def relation (f : Float32 → Float32 → Bool) (g : Complex → Complex → Except Cause Bool)
    (l r : Value) : Except Cause Value := do
  l.checkDimension
  r.checkDimension
  match l.reals?, r.reals?, l.complexes?, r.complexes? with
  | some xs, some ys, _, _ => return ofReals (← xs.combine (fun x y => .ok (truth (f x y))) ys)
  | _, _, some xs, some ys => return ofReals (← xs.combine (fun x y => (g x y).map truth) ys)
  | _, _, _, _ => throw .dataType

end Value

end GraphCalc

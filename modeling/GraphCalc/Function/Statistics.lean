import GraphCalc.Value

set_option autoImplicit false

namespace GraphCalc.Statistics

structure Weighing (ω : Type) where
  zero : ω
  add : ω → ω → ω
  half : ω → ω
  lt : ω → ω → Bool
  same : ω → ω → Bool

def singles : Weighing Float32 where
  zero := 0
  add := (· + ·)
  half := (· / 2)
  lt := fun a b => a < b
  same := (· == ·)

variable {α ω : Type}

/-- The value at which the weights seen pass `half`. Where they reach it exactly, the middle between
that value and the next one. -/
def scan (W : Weighing ω) (middle : α → α → α) (half : ω) : ω → List (α × ω) → Option α
  | _, [] => none
  | seen, (v, w) :: rest =>
    let seen := W.add seen w
    if W.lt half seen then some v
    else if W.same seen half then some (middle v ((rest.head?.map (·.1)).getD v))
    else scan W middle half seen rest

def medianWith (W : Weighing ω) (le : α → α → Bool) (middle : α → α → α) (pairs : List (α × ω)) :
    Option α :=
  let sorted := (pairs.filter fun p => W.lt W.zero p.2).mergeSort fun a b => le a.1 b.1
  let total := sorted.foldl (fun sum p => W.add sum p.2) W.zero
  scan W middle (W.half total) W.zero sorted

def weighted (v : Value) (weights : Option Value) : Except Cause (List Float32 × List Float32) := do
  v.checkDimension
  let values ← match v with
    | .list xs => pure xs
    | _ => throw .dataType
  let weights ← match weights with
    | none => pure (List.replicate values.length 1)
    | some (.list ws) => if ws.length = values.length then pure ws else throw .dimMismatch
    | some _ => throw .dataType
  if weights.any (fun w => w < 0) || sumOf weights == 0 then throw .domain
  return (values, weights)

def mean (v : Value) (weights : Option Value) : Except Cause Value := do
  let (values, weights) ← weighted v weights
  Value.ofNumber (sumOf (List.zipWith (· * ·) values weights) / sumOf weights)

def median (v : Value) (weights : Option Value) : Except Cause Value := do
  let (values, weights) ← weighted v weights
  match medianWith singles totalLe (fun a b => (a + b) / 2) (values.zip weights) with
  | some x => return .number x
  | none => throw .domain

end GraphCalc.Statistics

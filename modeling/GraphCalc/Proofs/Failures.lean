import GraphCalc.Function
import GraphCalc.Operation
import GraphCalc.Proofs.Results

set_option autoImplicit false

namespace GraphCalc

variable {α β γ : Type}

@[simp]
def Cause.OfValues : Cause → Prop
  | .overflow | .divideByZero | .dataType | .domain | .dimMismatch | .invalidDim => True
  | _ => False

abbrev BlamesValues (result : Except Cause α) : Prop := FailsOnly Cause.OfValues result

@[simp]
theorem finite_blames (x : Float32) : BlamesValues (finite x) := by
  unfold finite
  split
  · simp
  · split <;> simp

namespace Complex

@[simp]
theorem finite_blames (c : Complex) : BlamesValues c.finite := by
  simp [finite]

@[simp]
theorem add_blames (l r : Complex) : BlamesValues (l.add r) := finite_blames _

@[simp]
theorem sub_blames (l r : Complex) : BlamesValues (l.sub r) := finite_blames _

@[simp]
theorem mul_blames (l r : Complex) : BlamesValues (l.mul r) := finite_blames _

@[simp]
theorem div_blames (l r : Complex) : BlamesValues (l.div r) := by
  simp only [div]
  split <;> simp

@[simp]
theorem reciprocal_blames (c : Complex) : BlamesValues c.reciprocal := div_blames _ _

@[simp]
theorem square_blames (c : Complex) : BlamesValues c.square := finite_blames _

@[simp]
theorem cube_blames (c : Complex) : BlamesValues c.cube := finite_blames _

@[simp]
theorem exp_blames (c : Complex) : BlamesValues c.exp := finite_blames _

@[simp]
theorem ln_blames (c : Complex) : BlamesValues c.ln := by
  unfold ln
  split <;> simp

@[simp]
theorem square_root_blames (c : Complex) : BlamesValues c.squareRoot := by
  unfold squareRoot
  split
  · simp
  · split <;> simp

@[simp]
theorem power_blames (c w : Complex) : BlamesValues (c.power w) := by
  unfold power
  split
  · split <;> simp
  · simp

end Complex

namespace RealMatrix

@[simp]
theorem of_rows_blames (rows : List (List Float32)) : BlamesValues (ofRows rows) := by
  unfold ofRows
  split
  · split <;> simp
  · simp

@[simp]
theorem get_blames (m : RealMatrix) (row column : Nat) : BlamesValues (m.get row column) := by
  unfold get
  split
  · split
    · split <;> simp
    · simp
  · simp

@[simp]
theorem map_blames (f : Float32 → Except Cause Float32) (m : RealMatrix) (each : ∀ x, BlamesValues (f x)) :
    BlamesValues (m.map f) := by
  simp [map, each]

@[simp]
theorem zip_rows_blames (f : Float32 → Float32 → Except Cause Float32) (l r : List Float32)
    (each : ∀ x y, BlamesValues (f x y)) : BlamesValues (zipRows f l r) := by
  simp [zipRows, each]

@[simp]
theorem zip_with_blames (f : Float32 → Float32 → Except Cause Float32) (l r : RealMatrix)
    (each : ∀ x y, BlamesValues (f x y)) : BlamesValues (l.zipWith f r) := by
  unfold zipWith
  split
  · simp [each]
  · simp

@[simp]
theorem multiply_blames (l r : RealMatrix) : BlamesValues (l.multiply r) := by
  unfold multiply
  split <;> simp

@[simp]
theorem square_blames (m : RealMatrix) : BlamesValues m.square := by
  unfold square
  split <;> simp

@[simp]
theorem cube_blames (m : RealMatrix) : BlamesValues m.cube := by
  simp [cube]

@[simp]
theorem augment_blames (l r : RealMatrix) : BlamesValues (l.augment r) := by
  unfold augment
  split <;> simp

@[simp]
theorem determinant_blames (m : RealMatrix) : BlamesValues m.determinant := by
  unfold determinant
  split <;> simp

@[simp]
theorem inverse_blames (m : RealMatrix) : BlamesValues m.inverse := by
  unfold inverse
  split
  · split <;> simp
  · simp

@[simp]
theorem row_index_blames (m : RealMatrix) (row : Int) : BlamesValues (m.rowIndex row) := by
  unfold rowIndex
  split <;> simp

@[simp]
theorem row_swap_blames (m : RealMatrix) (a b : Int) : BlamesValues (m.rowSwap a b) := by
  simp [rowSwap]

@[simp]
theorem row_add_blames (m : RealMatrix) (value : Float32) (a b : Int) : BlamesValues (m.rowAdd value a b) := by
  apply fails_bind
  · simp
  · intro i
    apply fails_bind
    · simp
    · simp

@[simp]
theorem row_multiply_blames (m : RealMatrix) (value : Float32) (row : Int) :
    BlamesValues (m.rowMultiply value row) := by
  simp [rowMultiply]

end RealMatrix

namespace Entries

@[simp]
theorem mapM_blames (f : α → Except Cause β) (xs : Entries α) (each : ∀ x, BlamesValues (f x)) :
    BlamesValues (xs.mapM f) := by
  cases xs <;> simp [mapM, each]

@[simp]
theorem combine_blames (f : α → β → Except Cause γ) (xs : Entries α) (ys : Entries β)
    (each : ∀ x y, BlamesValues (f x y)) : BlamesValues (xs.combine f ys) := by
  unfold combine
  split
  · simp [each]
  · simp [each]
  · simp [each]
  · split <;> simp [each]

end Entries

namespace Value

@[simp]
theorem of_number_blames (x : Float32) : BlamesValues (ofNumber x) := by
  simp [ofNumber]

@[simp]
theorem of_complex_blames (c : Complex) : BlamesValues (ofComplex c) := by
  simp [ofComplex]

@[simp]
theorem check_dimension_blames (v : Value) : BlamesValues v.checkDimension := by
  unfold checkDimension
  split <;> simp

@[simp]
theorem integer_blames (v : Value) : BlamesValues v.integer := by
  unfold integer
  split
  · split <;> simp
  · simp

@[simp]
theorem as_number_blames (v : Value) : BlamesValues v.asNumber := by
  cases v <;> simp [asNumber]

@[simp]
theorem as_matrix_blames (v : Value) : BlamesValues v.asMatrix := by
  cases v <;> simp [asMatrix]

@[simp]
theorem map_real_blames (f : Float32 → Except Cause Float32) (v : Value) (each : ∀ x, BlamesValues (f x)) :
    BlamesValues (v.mapReal f) := by
  apply fails_bind
  · simp
  · intro _
    split <;> simp [each]

@[simp]
theorem map_numeric_blames (f : Float32 → Except Cause Float32) (g : Complex → Except Cause Complex) (v : Value)
    (real : ∀ x, BlamesValues (f x)) (complex : ∀ c, BlamesValues (g c)) : BlamesValues (v.mapNumeric f g) := by
  apply fails_bind
  · simp
  · intro _
    split <;> simp [real, complex]

@[simp]
theorem elementwise_blames (f : Float32 → Float32 → Except Cause Float32)
    (g : Complex → Complex → Except Cause Complex) (l r : Value)
    (real : ∀ x y, BlamesValues (f x y)) (complex : ∀ c w, BlamesValues (g c w)) :
    BlamesValues (l.elementwise f g r) := by
  apply fails_bind
  · simp
  · intro _
    apply fails_bind
    · simp
    · intro _
      split <;> simp [real, complex]

@[simp]
theorem real_elementwise_blames (f : Float32 → Float32 → Except Cause Float32) (l r : Value)
    (each : ∀ x y, BlamesValues (f x y)) : BlamesValues (l.realElementwise f r) := by
  simp [realElementwise, each]

@[simp]
theorem relation_blames (f : Float32 → Float32 → Bool) (g : Complex → Complex → Except Cause Bool) (l r : Value)
    (complex : ∀ c w, BlamesValues (g c w)) : BlamesValues (l.relation f g r) := by
  apply fails_bind
  · simp
  · intro _
    apply fails_bind
    · simp
    · intro _
      split <;> simp [complex]

end Value

namespace Counting

@[simp]
theorem counts_blames (n r : Float32) : BlamesValues (counts n r) := by
  unfold counts
  split <;> simp

@[simp]
theorem permutations_blames (n r : Float32) : BlamesValues (permutations n r) := by
  simp [permutations]

@[simp]
theorem combinations_blames (n r : Float32) : BlamesValues (combinations n r) := by
  simp [combinations]

@[simp]
theorem factorial_blames (x : Float32) : BlamesValues (factorial x) := by
  unfold factorial
  split
  · simp
  · split
    · simp
    · split <;> simp

end Counting

namespace Operation

@[simp]
theorem real_reciprocal_blames (x : Float32) : BlamesValues (realReciprocal x) := by
  unfold realReciprocal
  split <;> simp

@[simp]
theorem real_divide_blames (l r : Float32) : BlamesValues (realDivide l r) := by
  unfold realDivide
  split <;> simp

@[simp]
theorem real_power_blames (l r : Float32) : BlamesValues (realPower l r) := by
  unfold realPower
  split
  · simp
  · split
    · simp
    · split <;> simp

@[simp]
theorem of_degrees_blames (mode : Mode) (v : Value) : BlamesValues (ofDegrees mode v) := by
  unfold ofDegrees
  split <;> simp

@[simp]
theorem of_radians_blames (mode : Mode) (v : Value) : BlamesValues (ofRadians mode v) := by
  unfold ofRadians
  split <;> simp

theorem unary_blames (op : Operator) (mode : Mode) (v : Value) (takesOne : op.isUnary = true) :
    BlamesValues (unary op mode v) := by
  apply fails_bind
  · simp
  · intro _
    cases op with
    | negate => cases v <;> simp [negate]
    | reciprocal => cases v <;> simp [reciprocal]
    | square => cases v <;> simp [square]
    | cube => cases v <;> simp [cube]
    | factorial => simp
    | degrees => simp
    | radians => simp
    | transpose => cases v <;> simp [transpose]
    | _ => cases takesOne

@[simp]
theorem add_blames (l r : Value) : BlamesValues (add l r) := by
  unfold add
  split <;> simp

@[simp]
theorem subtract_blames (l r : Value) : BlamesValues (subtract l r) := by
  unfold subtract
  split <;> simp

@[simp]
theorem multiply_blames (l r : Value) : BlamesValues (multiply l r) := by
  unfold multiply
  split <;> simp

@[simp]
theorem divide_blames (l r : Value) : BlamesValues (divide l r) := by
  unfold divide
  split <;> simp

@[simp]
theorem equal_blames (l r : Value) : BlamesValues (equal l r) := by
  unfold equal
  split <;> simp

@[simp]
theorem not_equal_blames (l r : Value) : BlamesValues (notEqual l r) := by
  apply fails_bind
  · simp
  · intro same
    cases same <;> simp

@[simp]
theorem ordered_blames (f : Float32 → Float32 → Bool) (l r : Value) : BlamesValues (ordered f l r) := by
  simp [ordered]

@[simp]
theorem logical_blames (f : Bool → Bool → Bool) (l r : Value) : BlamesValues (logical f l r) := by
  unfold logical
  split <;> simp

theorem binary_blames (op : Operator) (l r : Value) (takesTwo : op.isUnary = false) (notStore : op ≠ .store)
    (notComma : op ≠ .comma) : BlamesValues (binary op l r) := by
  apply fails_bind
  · simp
  · intro _
    apply fails_bind
    · simp
    · intro _
      cases op with
      | store => exact absurd rfl notStore
      | comma => exact absurd rfl notComma
      | add | subtract | multiply | divide | power | permutations | combinations => simp
      | equal | notEqual | and | or | xor => simp
      | less | greater => simp [less]
      | lessEqual | greaterEqual => simp [lessEqual]
      | _ => cases takesTwo

end Operation

namespace Statistics

@[simp]
theorem weighted_blames (v : Value) (weights : Option Value) : BlamesValues (weighted v weights) := by
  apply fails_bind
  · simp
  · intro _
    cases v with
    | list xs =>
        rcases weights with _ | w
        · simp only [pure_bind]
          split <;> simp
        · cases w with
          | list ws =>
              by_cases same : ws.length = xs.length
              · simp only [if_pos same, pure_bind]
                split <;> simp
              · simp [same]
          | _ => simp
    | _ => simp

@[simp]
theorem mean_blames (v : Value) (weights : Option Value) : BlamesValues (mean v weights) := by
  simp [mean]

@[simp]
theorem median_blames (v : Value) (weights : Option Value) : BlamesValues (median v weights) := by
  apply fails_bind
  · simp
  · intro found
    dsimp only
    split <;> simp

end Statistics

namespace Function

@[simp]
theorem real_ln_blames (x : Float32) : BlamesValues (realLn x) := by
  unfold realLn
  split <;> simp

@[simp]
theorem unit_blames (x : Float32) : BlamesValues (unit x) := by
  unfold unit
  split <;> simp

@[simp]
theorem tangent_blames (mode : Mode) (x : Float32) : BlamesValues (tangent mode x) := by
  simp only [tangent]
  split <;> simp

@[simp]
theorem absolute_blames (v : Value) : BlamesValues (absolute v) := by
  apply fails_bind
  · simp
  · intro _
    cases v <;> simp

@[simp]
theorem round_blames (v : Value) (digits : Option Value) : BlamesValues (round v digits) := by
  unfold round
  cases digits with
  | none => cases v <;> simp
  | some d =>
      apply fails_bind
      · simp
      · intro n
        dsimp only
        split
        · simp
        · cases v <;> simp

@[simp]
theorem square_root_blames (v : Value) : BlamesValues (squareRoot v) := by
  apply fails_bind
  · simp
  · intro _
    split
    · split <;> simp
    · split <;> simp
    · simp

@[simp]
theorem extreme_blames (f : Float32 → Float32 → Float32) (first : Value) (rest : List Value) :
    BlamesValues (extreme f first rest) := by
  apply fails_bind
  · simp
  · intro _
    split
    · split <;> simp
    · simp

@[simp]
theorem dimension_blames (v : Value) : BlamesValues (dimension v) := by
  cases v <;> simp [dimension]

@[simp]
theorem sum_blames (v : Value) : BlamesValues (sum v) := by
  apply fails_bind
  · simp
  · intro _
    cases v <;> simp

@[simp]
theorem product_blames (v : Value) : BlamesValues (product v) := by
  apply fails_bind
  · simp
  · intro _
    cases v <;> simp

@[simp]
theorem augment_blames (l r : Value) : BlamesValues (augment l r) := by
  apply fails_bind
  · simp
  · intro _
    apply fails_bind
    · simp
    · intro _
      split <;> simp

@[simp]
theorem identity_blames (v : Value) : BlamesValues (identity v) := by
  apply fails_bind
  · simp
  · intro size
    dsimp only
    split <;> simp [RealMatrix.identity]

@[simp]
theorem determinant_blames (v : Value) : BlamesValues (determinant v) := by
  cases v <;> simp [determinant]

-- The extremes take any number of arguments and have a case of their own.
theorem apply_one_blames (mode : Mode) (f : Builtin) (v : Value) (count : f.arity.allows 1 = true)
    (available : isUnavailable f = false) (notMaximum : f ≠ .maximum) (notMinimum : f ≠ .minimum) :
    BlamesValues (applyOne mode f v) := by
  cases f with
  | arcosh | artanh =>
      apply Value.map_real_blames
      intro x
      split <;> simp
  | answer | getKey | random | randMatrix | pixelTest => cases available
  | solve | sequence | integral | derivative | functionMin | functionMax => cases available
  | augment | rowSwap | rowAdd | mulRow | mulRowAdd => cases count
  | polarRadius | polarAngle | cartesianX | cartesianY => cases count
  | maximum => exact absurd rfl notMaximum
  | minimum => exact absurd rfl notMinimum
  | _ => simp [applyOne]

theorem apply_two_blames (mode : Mode) (f : Builtin) (v w : Value) (count : f.arity.allows 2 = true)
    (available : isUnavailable f = false) (notMaximum : f ≠ .maximum) (notMinimum : f ≠ .minimum) :
    BlamesValues (applyTwo mode f v w) := by
  cases f with
  | round | mean | median | augment => simp [applyTwo]
  | polarRadius | polarAngle | cartesianX | cartesianY => simp [applyTwo]
  | pixelTest | randMatrix => cases available
  | maximum => exact absurd rfl notMaximum
  | minimum => exact absurd rfl notMinimum
  | _ => cases count

theorem row_operation_blames (operation : RealMatrix → Int → Int → Except Cause RealMatrix) (m a b : Value)
    (each : ∀ m i j, BlamesValues (operation m i j)) :
    BlamesValues (do
      let m ← m.asMatrix
      let i ← a.integer
      let j ← b.integer
      return Value.matrix (← operation m i j)) := by
  apply fails_bind
  · simp
  · intro m
    apply fails_bind
    · simp
    · simp [each]

theorem apply_rows_blames (f : Builtin) (args : List Value) (count : f.arity.allows args.length = true)
    (several : 3 ≤ args.length) (available : isUnavailable f = false) (notMaximum : f ≠ .maximum)
    (notMinimum : f ≠ .minimum) : BlamesValues (applyRows f args) := by
  obtain ⟨x, y, z, more, rfl⟩ : ∃ x y z more, args = x :: y :: z :: more := by
    match args, several with
    | x :: y :: z :: more, _ => exact ⟨x, y, z, more, rfl⟩
  cases f with
  | rowSwap =>
      match more, count with
      | [], _ => exact row_operation_blames RealMatrix.rowSwap x y z (by simp)
  | rowAdd =>
      match more, count with
      | [], _ => exact row_operation_blames (·.rowAdd 1) x y z (by simp)
  | mulRow =>
      match more, count with
      | [], _ =>
          apply fails_bind
          · simp
          · intro value
            apply fails_bind
            · simp
            · simp
  | mulRowAdd =>
      match more, count with
      | [w], _ =>
          apply fails_bind
          · simp
          · exact fun value => row_operation_blames (·.rowAdd value) y z w (by simp)
  | maximum => exact absurd rfl notMaximum
  | minimum => exact absurd rfl notMinimum
  | solve | sequence | integral | derivative | functionMin | functionMax => cases available
  | _ => simp [Builtin.arity, Arity.exactly, Arity.allows] at count

theorem apply_blames (mode : Mode) (f : Builtin) (args : List Value) (count : f.arity.allows args.length = true)
    (available : isUnavailable f = false) : BlamesValues (apply mode f args) := by
  unfold apply
  rw [if_pos count]
  split
  · cases f with
    | answer | getKey | random => cases available
    | _ => cases count
  · simp
  · simp
  · rename_i v notMaximum notMinimum
    exact apply_one_blames mode f v count available notMaximum notMinimum
  · rename_i v w notMaximum notMinimum
    exact apply_two_blames mode f v w count available notMaximum notMinimum
  · rename_i notEmpty notOne notTwo notMaximum notMinimum
    match args, count with
    | [], _ => exact absurd rfl notEmpty
    | [v], _ => exact absurd rfl (notOne v)
    | [v, w], _ => exact absurd rfl (notTwo v w)
    | v :: w :: x :: rest, count =>
        exact apply_rows_blames f _ count (by simp) available (fun same => notMaximum v _ same rfl)
          (fun same => notMinimum v _ same rfl)

theorem apply_unavailable (mode : Mode) (f : Builtin) (args : List Value) (count : f.arity.allows args.length = true)
    (unavailable : isUnavailable f = true) : apply mode f args = .error .notImplemented := by
  have refused : refusal f = .notImplemented := if_pos unavailable
  have one (v : Value) : applyOne mode f v = .error (refusal f) := by
    cases f with
    | answer | random | randMatrix | getKey | pixelTest => rfl
    | solve | sequence | integral | derivative | functionMin | functionMax => rfl
    | _ => cases unavailable
  have two (v w : Value) : applyTwo mode f v w = .error (refusal f) := by
    cases f with
    | answer | random | randMatrix | getKey | pixelTest => rfl
    | solve | sequence | integral | derivative | functionMin | functionMax => rfl
    | _ => cases unavailable
  have rows (args : List Value) : applyRows f args = .error (refusal f) := by
    cases f with
    | answer | random | randMatrix | getKey | pixelTest => rfl
    | solve | sequence | integral | derivative | functionMin | functionMax => rfl
    | _ => cases unavailable
  unfold apply
  rw [if_pos count]
  split
  · rfl
  · cases unavailable
  · cases unavailable
  · rw [one, refused]
  · rw [two, refused]
  · rw [rows, refused]

end Function

end GraphCalc

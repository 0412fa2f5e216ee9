import GraphCalc.Operation
import GraphCalc.Proofs.Precision
import GraphCalc.Proofs.Results
import GraphCalc.Proofs.WellFormed

set_option autoImplicit false

namespace GraphCalc

variable {α β γ : Type}

theorem guard_finite (x : Float32) : Yields (·.isFinite = true) (finite x) := by
  rw [finite]
  by_cases nan : x.isNaN = true
  · rw [if_pos nan]
    exact yields_error _
  · rw [if_neg nan]
    by_cases infinite : x.isInf = true
    · rw [if_pos infinite]
      exact yields_error _
    · rw [if_neg infinite, yields_ok]
      change x.toModel.unpack.isFinite = true
      change ¬ x.toModel.unpack.isNaN = true at nan
      change ¬ x.toModel.unpack.isInf = true at infinite
      cases held : x.toModel.unpack with rw [held] at nan infinite
      | infinity s => exact absurd rfl infinite
      | notANumber => exact absurd rfl nan
      | zero s | finite s m e positive => rfl

theorem guard_passes (x : Float32) (ordinary : x.isFinite = true) : finite x = .ok x := by
  change x.toModel.unpack.isFinite = true at ordinary
  have number : ¬ x.isNaN = true := by
    change ¬ x.toModel.unpack.isNaN = true
    cases held : x.toModel.unpack with rw [held] at ordinary
    | infinity s | notANumber => cases ordinary
    | zero s | finite s m e positive => exact Bool.false_ne_true
  have bounded : ¬ x.isInf = true := by
    change ¬ x.toModel.unpack.isInf = true
    cases held : x.toModel.unpack with rw [held] at ordinary
    | infinity s | notANumber => cases ordinary
    | zero s | finite s m e positive => exact Bool.false_ne_true
  rw [finite, if_neg number, if_neg bounded]

namespace Complex

def Finite (c : Complex) : Prop := c.re.isFinite = true ∧ c.im.isFinite = true

theorem of_real_finite (x : Float32) (finite : x.isFinite = true) : (ofReal x).Finite := ⟨finite, zero_finite⟩

@[simp]
theorem complex_guard_finite (c : Complex) : Yields Finite c.finite :=
  yields_bind _ _ _ (guard_finite c.re) fun _ re =>
    yields_bind _ _ _ (guard_finite c.im) fun _ im => (yields_pure _).mpr ⟨re, im⟩

theorem neg_finite (c : Complex) (finite : c.Finite) : c.neg.Finite :=
  ⟨Rounding.neg_finite c.re finite.1, Rounding.neg_finite c.im finite.2⟩

@[simp]
theorem div_finite (l r : Complex) : Yields Finite (l.div r) := by
  unfold div
  dsimp only
  split <;> simp

@[simp]
theorem ln_finite (c : Complex) : Yields Finite c.ln := by
  unfold ln
  split <;> simp

theorem square_root_finite (c : Complex) (finite : c.Finite) : Yields Finite c.squareRoot := by
  rw [squareRoot]
  by_cases zero : c.isZero = true
  · rw [if_pos zero, yields_ok]
    exact finite
  · rw [if_neg zero]
    by_cases negative : (c.im == 0 && c.re < 0) = true
    · rw [if_pos negative, yields_ok]
      have below : c.re < 0 := of_decide_eq_true (Bool.and_eq_true_iff.mp negative).2
      have opposite := Rounding.neg_not_negative _ finite.1 below
      exact ⟨zero_finite, Rounding.sqrt_finite _ (Rounding.neg_finite _ finite.1) opposite⟩
    · rw [if_neg negative]
      exact complex_guard_finite _

@[simp]
theorem power_finite (c w : Complex) : Yields Finite (c.power w) := by
  unfold power
  split
  · split
    · exact (yields_ok _).mpr (of_real_finite 0 zero_finite)
    · simp
  · exact yields_next _ _ fun log => yields_next _ _ fun product => complex_guard_finite _

end Complex

namespace RealMatrix

def Finite (m : RealMatrix) : Prop := ∀ row ∈ m.rows, ∀ x ∈ row, x.isFinite = true

theorem rows_finite (rows : Except Cause (List (List Float32)))
    (each : Yields (fun rows => ∀ row ∈ rows, ∀ x ∈ row, x.isFinite = true) rows) : Yields Finite (rows.map mk) :=
  (yields_map _ _).mpr each

theorem of_rows_finite (rows : List (List Float32)) (each : ∀ row ∈ rows, ∀ x ∈ row, x.isFinite = true) :
    Yields Finite (ofRows rows) := by
  unfold ofRows
  split
  · split
    · exact (yields_ok _).mpr each
    · simp
  · simp

theorem map_finite (f : Float32 → Except Cause Float32) (m : RealMatrix) (finite : m.Finite)
    (each : ∀ x, x.isFinite = true → Yields (·.isFinite = true) (f x)) : Yields Finite (m.map f) := by
  apply rows_finite
  intro rows done
  refine (yields_mapM m.rows _ (fun row member => ?_) rows done).2
  intro out made
  exact (yields_mapM row f (fun x among => each x (finite row member x among)) out made).2

theorem zip_rows_finite (f : Float32 → Float32 → Except Cause Float32) (l r : List Float32)
    (each : ∀ x y, Yields (·.isFinite = true) (f x y)) :
    Yields (fun row => ∀ x ∈ row, x.isFinite = true) (zipRows f l r) :=
  fun out done => (yields_mapM (l.zip r) _ (fun pair _ => each pair.1 pair.2) out done).2

theorem zip_with_finite (f : Float32 → Float32 → Except Cause Float32) (l r : RealMatrix)
    (each : ∀ x y, Yields (·.isFinite = true) (f x y)) : Yields Finite (l.zipWith f r) := by
  unfold zipWith
  split
  · apply rows_finite
    exact fun rows done => (yields_mapM _ _ (fun pair _ => zip_rows_finite f pair.1 pair.2 each) rows done).2
  · simp

@[simp]
theorem multiply_finite (l r : RealMatrix) : Yields Finite (l.multiply r) := by
  unfold multiply
  split
  · apply rows_finite
    refine fun rows done => (yields_mapM l.rows _ (fun row _ => ?_) rows done).2
    exact fun out made => (yields_mapM r.columns _ (fun column _ => guard_finite _) out made).2
  · simp

@[simp]
theorem square_finite (m : RealMatrix) : Yields Finite m.square := by
  unfold square
  split <;> simp

@[simp]
theorem cube_finite (m : RealMatrix) : Yields Finite m.cube :=
  yields_next _ _ fun squared => multiply_finite squared m

theorem columns_finite (m : RealMatrix) (finite : m.Finite) :
    ∀ column ∈ m.columns, ∀ x ∈ column, x.isFinite = true := by
  intro column member x among
  obtain ⟨c, _, rfl⟩ := List.mem_map.mp member
  obtain ⟨row, inside, rfl⟩ := List.mem_map.mp among
  rw [List.getD_eq_getElem?_getD]
  cases entry : row[c]? with
  | none => exact zero_finite
  | some x => exact finite row inside x (List.mem_of_getElem? entry)

theorem augment_finite (l r : RealMatrix) (left : l.Finite) (right : r.Finite) : Yields Finite (l.augment r) := by
  unfold augment
  split
  · rw [yields_ok]
    intro row member x among
    rw [← List.map_uncurry_zip_eq_zipWith] at member
    obtain ⟨pair, inside, rfl⟩ := List.mem_map.mp member
    have inLeft := left _ (List.of_mem_zip inside).1
    have inRight := right _ (List.of_mem_zip inside).2
    rcases List.mem_append.mp among with first | second
    · exact inLeft x first
    · exact inRight x second
  · simp

@[simp]
theorem inverse_finite (m : RealMatrix) : Yields Finite m.inverse := by
  unfold inverse
  split
  · split
    · apply rows_finite
      refine fun rows done => (yields_mapM _ _ (fun row _ => ?_) rows done).2
      exact fun out made => (yields_mapM row _ (fun x _ => guard_finite _) out made).2
    · simp
  · simp

theorem set_finite (m : RealMatrix) (i : Nat) (row : List Float32) (finite : m.Finite)
    (each : ∀ x ∈ row, x.isFinite = true) : Finite ⟨m.rows.set i row⟩ := by
  intro other member
  rcases List.mem_or_eq_of_mem_set member with among | rfl
  · exact finite other among
  · exact each

theorem row_finite (m : RealMatrix) (i : Nat) (finite : m.Finite) : ∀ x ∈ m.rows.getD i [], x.isFinite = true := by
  rw [List.getD_eq_getElem?_getD]
  cases found : m.rows[i]? with
  | none => simp
  | some row => exact finite row (List.mem_of_getElem? found)

theorem row_swap_finite (m : RealMatrix) (a b : Int) (finite : m.Finite) : Yields Finite (m.rowSwap a b) := by
  refine yields_next _ _ fun i => yields_next _ _ fun j => ?_
  rw [yields_pure]
  exact set_finite ⟨_⟩ _ _ (m.set_finite _ _ finite (m.row_finite _ finite)) (m.row_finite _ finite)

theorem row_add_finite (m : RealMatrix) (value : Float32) (a b : Int) (finite : m.Finite) :
    Yields Finite (m.rowAdd value a b) := by
  refine yields_next _ _ fun i => yields_next _ _ fun j => ?_
  refine yields_bind _ _ _ (zip_rows_finite _ _ _ fun _ _ => guard_finite _) fun sum each => ?_
  rw [yields_pure]
  exact m.set_finite _ _ finite each

theorem row_multiply_finite (m : RealMatrix) (value : Float32) (row : Int) (finite : m.Finite) :
    Yields Finite (m.rowMultiply value row) := by
  refine yields_next _ _ fun i => ?_
  refine yields_bind _ _ _ (yields_mapM _ _ fun _ _ => guard_finite _) fun scaled each => ?_
  rw [yields_pure]
  exact m.set_finite _ _ finite each.2

theorem identity_finite (size : Nat) : Yields Finite (identity size) := by
  apply of_rows_finite
  intro row member x among
  obtain ⟨r, _, rfl⟩ := List.mem_map.mp member
  obtain ⟨c, _, rfl⟩ := List.mem_map.mp among
  by_cases same : r = c
  · rw [if_pos same]
    rfl
  · rw [if_neg same]
    rfl

end RealMatrix

namespace Entries

def All (P : α → Prop) : Entries α → Prop
  | .one x => P x
  | .many xs => ∀ x ∈ xs, P x

variable (P : α → Prop) (Q : β → Prop) (R : γ → Prop)

theorem all_mapM (xs : List α) (f : α → Except Cause β) (each : ∀ x ∈ xs, Yields Q (f x)) :
    Yields (All Q) ((xs.mapM f).map .many) :=
  (yields_map _ _).mpr fun ys done => (yields_mapM xs f each ys done).2

theorem mapM_all (f : α → Except Cause β) (xs : Entries α) (all : xs.All P) (each : ∀ x, P x → Yields Q (f x)) :
    Yields (All Q) (xs.mapM f) := by
  cases xs with
  | one x => exact (yields_map _ _).mpr (each x all)
  | many xs => exact all_mapM Q xs f fun x member => each x (all x member)

theorem combine_all (f : α → β → Except Cause γ) (xs : Entries α) (ys : Entries β) (left : xs.All P) (right : ys.All Q)
    (each : ∀ x y, P x → Q y → Yields R (f x y)) : Yields (All R) (xs.combine f ys) := by
  cases xs with
  | one x =>
      cases ys with
      | one y => exact (yields_map _ _).mpr (each x y left right)
      | many ys => exact all_mapM R ys _ fun y member => each x y left (right y member)
  | many xs =>
      cases ys with
      | one y => exact all_mapM R xs _ fun x member => each x y (left x member) right
      | many ys =>
          rw [combine]
          split
          · exact all_mapM R _ _ fun pair member =>
              each _ _ (left _ (List.of_mem_zip member).1) (right _ (List.of_mem_zip member).2)
          · simp

end Entries

namespace Value

def Finite : Value → Prop
  | .number x => x.isFinite = true
  | .complex c => c.Finite
  | .string _ => True
  | .list xs => ∀ x ∈ xs, x.isFinite = true
  | .complexList cs => ∀ c ∈ cs, c.Finite
  | .matrix m => m.Finite

theorem truth_finite (b : Bool) : (truth b).isFinite = true := by
  cases b <;> rfl

theorem of_reals_finite (xs : Entries Float32) (all : xs.All (·.isFinite = true)) : (ofReals xs).Finite := by
  cases xs <;> exact all

theorem of_complexes_finite (cs : Entries Complex) (all : cs.All Complex.Finite) : (ofComplexes cs).Finite := by
  cases cs <;> exact all

theorem reals_finite (v : Value) (xs : Entries Float32) (finite : v.Finite) (found : v.reals? = some xs) :
    xs.All (·.isFinite = true) := by
  cases v with
  | number x | list xs => cases found; exact finite
  | _ => cases found

theorem complexes_finite (v : Value) (cs : Entries Complex) (finite : v.Finite) (found : v.complexes? = some cs) :
    cs.All Complex.Finite := by
  cases v with
  | number x => cases found; exact Complex.of_real_finite x finite
  | complex c | complexList cs => cases found; exact finite
  | list xs =>
      cases found
      intro c member
      obtain ⟨x, among, rfl⟩ := List.mem_map.mp member
      exact Complex.of_real_finite x (finite x among)
  | _ => cases found

theorem of_number_finite (x : Float32) : Yields Finite (ofNumber x) := (yields_map _ _).mpr (guard_finite x)

theorem of_complex_finite (c : Complex) : Yields Finite (ofComplex c) :=
  (yields_map _ _).mpr (Complex.complex_guard_finite c)

theorem map_real_finite (f : Float32 → Except Cause Float32) (v : Value) (finite : v.Finite)
    (each : ∀ x, x.isFinite = true → Yields (·.isFinite = true) (f x)) : Yields Finite (v.mapReal f) := by
  refine yields_next _ _ fun _ => ?_
  split
  · rename_i xs found
    exact yields_bind _ _ _ (xs.mapM_all _ _ f (v.reals_finite xs finite found) each) fun ys all =>
      (yields_pure _).mpr (of_reals_finite ys all)
  · simp

theorem map_numeric_finite (f : Float32 → Except Cause Float32) (g : Complex → Except Cause Complex) (v : Value)
    (finite : v.Finite) (real : ∀ x, x.isFinite = true → Yields (·.isFinite = true) (f x))
    (complex : ∀ c, c.Finite → Yields Complex.Finite (g c)) : Yields Finite (v.mapNumeric f g) := by
  refine yields_next _ _ fun _ => ?_
  split
  · rename_i xs found
    exact yields_bind _ _ _ (xs.mapM_all _ _ f (v.reals_finite xs finite found) real) fun ys all =>
      (yields_pure _).mpr (of_reals_finite ys all)
  · rename_i cs _ found
    exact yields_bind _ _ _ (cs.mapM_all _ _ g (v.complexes_finite cs finite found) complex) fun ds all =>
      (yields_pure _).mpr (of_complexes_finite ds all)
  · simp

theorem map_parts_finite (f : Float32 → Float32) (v : Value) (finite : v.Finite)
    (each : ∀ x, x.isFinite = true → (f x).isFinite = true) :
    Yields Finite (v.mapNumeric (fun x => .ok (f x)) fun c => .ok ⟨f c.re, f c.im⟩) :=
  map_numeric_finite _ _ v finite (fun x ordinary => (yields_ok _).mpr (each x ordinary)) fun c ordinary =>
    (yields_ok _).mpr ⟨each c.re ordinary.1, each c.im ordinary.2⟩

variable (l r : Value) (left : l.Finite) (right : r.Finite)

include left right

theorem elementwise_finite (f : Float32 → Float32 → Except Cause Float32) (g : Complex → Complex → Except Cause Complex)
    (real : ∀ x y, x.isFinite = true → y.isFinite = true → Yields (·.isFinite = true) (f x y))
    (complex : ∀ c d, c.Finite → d.Finite → Yields Complex.Finite (g c d)) : Yields Finite (l.elementwise f g r) := by
  refine yields_next _ _ fun _ => yields_next _ _ fun _ => ?_
  split
  · rename_i xs ys foundLeft foundRight
    exact yields_bind _ _ _ (xs.combine_all _ _ _ f ys (l.reals_finite xs left foundLeft)
      (r.reals_finite ys right foundRight) real) fun zs all => (yields_pure _).mpr (of_reals_finite zs all)
  · rename_i xs ys foundLeft foundRight _
    exact yields_bind _ _ _ (xs.combine_all _ _ _ g ys (l.complexes_finite xs left foundLeft)
      (r.complexes_finite ys right foundRight) complex) fun zs all => (yields_pure _).mpr (of_complexes_finite zs all)
  · simp

theorem elementwise_checked (f : Float32 → Float32 → Float32) (g : Complex → Complex → Except Cause Complex)
    (checked : ∀ c d, Yields Complex.Finite (g c d)) :
    Yields Finite (l.elementwise (fun x y => GraphCalc.finite (f x y)) g r) :=
  elementwise_finite l r left right _ g (fun _ _ _ _ => guard_finite _) fun c d _ _ => checked c d

theorem real_elementwise_finite (f : Float32 → Float32 → Except Cause Float32)
    (real : ∀ x y, x.isFinite = true → y.isFinite = true → Yields (·.isFinite = true) (f x y)) :
    Yields Finite (l.realElementwise f r) :=
  elementwise_finite l r left right f _ real fun _ _ _ _ => yields_error _

theorem relation_finite (f : Float32 → Float32 → Bool) (g : Complex → Complex → Except Cause Bool) :
    Yields Finite (l.relation f g r) := by
  refine yields_next _ _ fun _ => yields_next _ _ fun _ => ?_
  split
  · rename_i xs ys foundLeft foundRight
    exact yields_bind _ _ _ (xs.combine_all _ _ _ _ ys (l.reals_finite xs left foundLeft)
      (r.reals_finite ys right foundRight) fun x y _ _ => (yields_ok _).mpr (truth_finite _)) fun zs all =>
        (yields_pure _).mpr (of_reals_finite zs all)
  · rename_i xs ys foundLeft foundRight _
    exact yields_bind _ _ _ (xs.combine_all _ _ _ _ ys (l.complexes_finite xs left foundLeft)
      (r.complexes_finite ys right foundRight) fun x y _ _ => (yields_map _ _).mpr fun b _ => truth_finite b)
        fun zs all => (yields_pure _).mpr (of_reals_finite zs all)
  · simp

end Value

namespace Operation

theorem real_divide_finite (l r : Float32) : Yields (·.isFinite = true) (realDivide l r) := by
  unfold realDivide
  split
  · simp
  · exact guard_finite _

theorem real_reciprocal_finite (x : Float32) : Yields (·.isFinite = true) (realReciprocal x) := by
  unfold realReciprocal
  split
  · simp
  · exact guard_finite _

theorem real_power_finite (l r : Float32) : Yields (·.isFinite = true) (realPower l r) := by
  unfold realPower
  split
  · simp
  · split
    · simp
    · split
      · simp
      · exact guard_finite _

theorem permutations_finite (n r : Float32) : Yields (·.isFinite = true) (Counting.permutations n r) :=
  yields_next _ _ fun _ => guard_finite _

theorem combinations_finite (n r : Float32) : Yields (·.isFinite = true) (Counting.combinations n r) :=
  yields_next _ _ fun _ => guard_finite _

theorem factorial_finite (x : Float32) : Yields (·.isFinite = true) (Counting.factorial x) := by
  unfold Counting.factorial
  split
  · simp
  · split
    · simp
    · split
      · exact guard_finite _
      · simp

theorem unary_finite (op : Operator) (mode : Mode) (v : Value) (finite : v.Finite) :
    Yields Value.Finite (unary op mode v) := by
  refine yields_next _ _ fun _ => ?_
  cases op with
  | negate =>
      dsimp only [negate]
      split
      · rename_i m
        exact (yields_map _ _).mpr (m.map_finite _ finite fun x ordinary =>
          (yields_ok _).mpr (Rounding.neg_finite x ordinary))
      · exact v.map_numeric_finite _ _ finite (fun x ordinary => (yields_ok _).mpr (Rounding.neg_finite x ordinary))
          fun c ordinary => (yields_ok _).mpr (c.neg_finite ordinary)
  | reciprocal =>
      dsimp only [reciprocal]
      split
      · exact (yields_map _ _).mpr (RealMatrix.inverse_finite _)
      · exact v.map_numeric_finite _ _ finite (fun x _ => real_reciprocal_finite x) fun c _ => Complex.div_finite _ c
  | square =>
      dsimp only [square]
      split
      · exact (yields_map _ _).mpr (RealMatrix.square_finite _)
      · exact v.map_numeric_finite _ _ finite (fun x _ => guard_finite _) fun c _ => Complex.complex_guard_finite _
  | cube =>
      dsimp only [cube]
      split
      · exact (yields_map _ _).mpr (RealMatrix.cube_finite _)
      · exact v.map_numeric_finite _ _ finite (fun x _ => guard_finite _) fun c _ => Complex.complex_guard_finite _
  | factorial => exact v.map_real_finite _ finite fun x _ => factorial_finite x
  | degrees =>
      dsimp only [ofDegrees]
      split
      · exact v.map_real_finite _ finite fun x ordinary => (yields_ok _).mpr ordinary
      · exact v.map_real_finite _ finite fun x _ => guard_finite _
  | radians =>
      dsimp only [ofRadians]
      split
      · exact v.map_real_finite _ finite fun x ordinary => (yields_ok _).mpr ordinary
      · exact v.map_real_finite _ finite fun x _ => guard_finite _
  | transpose =>
      dsimp only [transpose]
      split
      · exact (yields_ok _).mpr (RealMatrix.columns_finite _ finite)
      · simp
  | _ => simp

variable (l r : Value) (left : l.Finite) (right : r.Finite)

include left right

theorem add_finite : Yields Value.Finite (add l r) := by
  unfold add
  split
  · simp [Value.Finite]
  · exact (yields_map _ _).mpr (RealMatrix.zip_with_finite _ _ _ fun x y => guard_finite _)
  · exact Value.elementwise_checked _ _ left right _ _ fun _ _ => Complex.complex_guard_finite _

theorem subtract_finite : Yields Value.Finite (subtract l r) := by
  unfold subtract
  split
  · exact (yields_map _ _).mpr (RealMatrix.zip_with_finite _ _ _ fun x y => guard_finite _)
  · exact Value.elementwise_checked _ _ left right _ _ fun _ _ => Complex.complex_guard_finite _

theorem multiply_finite : Yields Value.Finite (multiply l r) := by
  unfold multiply
  split
  · exact (yields_map _ _).mpr (RealMatrix.multiply_finite _ _)
  · exact (yields_map _ _).mpr (RealMatrix.map_finite _ _ left fun x _ => guard_finite _)
  · exact (yields_map _ _).mpr (RealMatrix.map_finite _ _ right fun x _ => guard_finite _)
  · exact Value.elementwise_checked _ _ left right _ _ fun _ _ => Complex.complex_guard_finite _

theorem divide_finite : Yields Value.Finite (divide l r) := by
  unfold divide
  split
  · exact (yields_map _ _).mpr (RealMatrix.map_finite _ _ left fun x _ => real_divide_finite x _)
  · exact Value.elementwise_finite _ _ left right _ _ (fun x y _ _ => real_divide_finite x y) fun c d _ _ =>
      c.div_finite d

theorem equal_finite : Yields Value.Finite (equal l r) := by
  unfold equal
  split
  · exact (yields_ok _).mpr (Value.truth_finite _)
  · exact (yields_map _ _).mpr fun same _ => Value.truth_finite _
  · exact Value.relation_finite _ _ left right _ _

omit left right in
theorem not_equal_finite : Yields Value.Finite (notEqual l r) := by
  refine yields_next _ _ fun same => ?_
  split
  · exact (yields_pure _).mpr (Value.truth_finite _)
  · rw [yields_pure]
    intro y member
    obtain ⟨x, _, rfl⟩ := List.mem_map.mp member
    exact Value.truth_finite _
  · simp

omit left right in
theorem logical_finite (f : Bool → Bool → Bool) : Yields Value.Finite (logical f l r) := by
  unfold logical
  split
  · exact (yields_ok _).mpr (Value.truth_finite _)
  · simp

theorem binary_finite (op : Operator) : Yields Value.Finite (binary op l r) := by
  refine yields_next _ _ fun _ => yields_next _ _ fun _ => ?_
  cases op with
  | add => exact add_finite l r left right
  | subtract => exact subtract_finite l r left right
  | multiply => exact multiply_finite l r left right
  | divide => exact divide_finite l r left right
  | power =>
      exact Value.elementwise_finite l r left right _ _ (fun x y _ _ => real_power_finite x y) fun c d _ _ =>
        c.power_finite d
  | permutations => exact Value.real_elementwise_finite l r left right _ fun n k _ _ => permutations_finite n k
  | combinations => exact Value.real_elementwise_finite l r left right _ fun n k _ _ => combinations_finite n k
  | equal => exact equal_finite l r left right
  | notEqual => exact not_equal_finite l r
  | less | lessEqual => exact Value.relation_finite l r left right _ _
  | greater | greaterEqual => exact Value.relation_finite r l right left _ _
  | and | or | xor => exact logical_finite l r _
  | _ => simp

end Operation

end GraphCalc

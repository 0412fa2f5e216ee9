import GraphCalc.Proofs.FiniteValues

set_option autoImplicit false

namespace GraphCalc

variable {α : Type}

namespace Statistics

theorem scan_values {ω : Type} (W : Weighing ω) (middle : α → α → α) (half seen : ω) (pairs : List (α × ω)) (v : α)
    (found : scan W middle half seen pairs = some v) :
    (∃ p ∈ pairs, v = p.1) ∨ ∃ p ∈ pairs, ∃ q ∈ pairs, v = middle p.1 q.1 := by
  induction pairs generalizing seen with
  | nil => cases found
  | cons first rest ih =>
      rw [scan] at found
      by_cases past : W.lt half (W.add seen first.2) = true
      · rw [if_pos past] at found
        cases found
        exact Or.inl ⟨first, by simp, rfl⟩
      · rw [if_neg past] at found
        by_cases exact : W.same (W.add seen first.2) half = true
        · rw [if_pos exact] at found
          cases found
          right
          cases rest with
          | nil => exact ⟨first, by simp, first, by simp, rfl⟩
          | cons second rest => exact ⟨first, by simp, second, by simp, rfl⟩
        · rw [if_neg exact] at found
          rcases ih _ found with ⟨p, member, same⟩ | ⟨p, member, q, among, same⟩
          · exact Or.inl ⟨p, by simp [member], same⟩
          · exact Or.inr ⟨p, by simp [member], q, by simp [among], same⟩

theorem median_with_values {ω : Type} (W : Weighing ω) (le : α → α → Bool) (middle : α → α → α) (pairs : List (α × ω))
    (v : α) (found : medianWith W le middle pairs = some v) :
    (∃ p ∈ pairs, v = p.1) ∨ ∃ p ∈ pairs, ∃ q ∈ pairs, v = middle p.1 q.1 := by
  have kept (p : α × ω) (member : p ∈ (pairs.filter fun p => W.lt W.zero p.2).mergeSort fun a b => le a.1 b.1) :
      p ∈ pairs := (List.mem_filter.mp (List.mem_mergeSort.mp member)).1
  rcases scan_values W middle _ _ _ v found with ⟨p, member, same⟩ | ⟨p, member, q, among, same⟩
  · exact Or.inl ⟨p, kept p member, same⟩
  · exact Or.inr ⟨p, kept p member, q, kept q among, same⟩

theorem weighted_list (v : Value) (weights : Option Value) :
    Yields (fun out => v = .list out.1) (weighted v weights) := by
  refine yields_next _ _ fun _ => ?_
  cases v with
  | list xs =>
      rcases weights with _ | w
      · simp only [pure_bind]
        split <;> simp
      · cases w with
        | list ws =>
            by_cases same : ws.length = xs.length
            · simp only [if_pos same, pure_bind]
              split <;> simp
            · simp [same]
        | _ => simp
  | _ => simp

-- Two of the values are added and their sum, out of range, is halved.
def SumLost (v result : Value) : Prop :=
  ∃ xs a b, v = .list xs ∧ a ∈ xs ∧ b ∈ xs ∧ (a + b).isFinite = false ∧ result = .number ((a + b) / 2)

theorem median_finite (v : Value) (weights : Option Value) (finite : v.Finite) :
    Yields (fun result => result.Finite ∨ SumLost v result) (median v weights) := by
  refine yields_bind _ _ _ (weighted_list v weights) fun found list => ?_
  obtain ⟨xs, ws⟩ := found
  cases list
  dsimp only
  split
  · rename_i x median
    rw [yields_pure]
    rcases median_with_values _ _ _ _ x median with ⟨p, member, rfl⟩ | ⟨p, member, q, among, rfl⟩
    · exact Or.inl (finite p.1 (List.of_mem_zip member).1)
    · by_cases ordinary : (p.1 + q.1).isFinite = true
      · exact Or.inl (Rounding.half_finite _ ordinary)
      · exact Or.inr ⟨xs, p.1, q.1, rfl, (List.of_mem_zip member).1, (List.of_mem_zip among).1,
          Bool.eq_false_iff.mpr ordinary, rfl⟩
  · simp

theorem median_found (v : Value) (weights : Option Value) (xs ws : List Float32) (x : Float32)
    (given : weighted v weights = .ok (xs, ws))
    (found : medianWith singles totalLe (fun a b => (a + b) / 2) (xs.zip ws) = some x) :
    median v weights = .ok (.number x) := by
  rw [median, given]
  change (pure (xs, ws) >>= _) = _
  rw [pure_bind]
  dsimp only
  rw [found]
  rfl

theorem mean_finite (v : Value) (weights : Option Value) : Yields Value.Finite (mean v weights) :=
  yields_next _ _ fun _ => Value.of_number_finite _

end Statistics

namespace Function

theorem real_ln_finite (x : Float32) : Yields (·.isFinite = true) (realLn x) := by
  unfold realLn
  split
  · simp
  · exact guard_finite _

theorem absolute_finite (v : Value) (finite : v.Finite) : Yields Value.Finite (absolute v) := by
  refine yields_next _ _ fun _ => ?_
  split
  · exact Value.of_number_finite _
  · exact yields_bind _ _ _ (yields_mapM _ _ fun _ _ => guard_finite _) fun xs all => (yields_pure _).mpr all.2
  · rename_i m
    exact yields_bind _ _ _ (m.map_finite _ finite fun x ordinary => (yields_ok _).mpr (Rounding.abs_finite x ordinary))
      fun m all => (yields_pure _).mpr all
  · exact v.map_real_finite _ finite fun x ordinary => (yields_ok _).mpr (Rounding.abs_finite x ordinary)

theorem round_finite (v : Value) (digits : Option Value) (finite : v.Finite) : Yields Value.Finite (round v digits) := by
  unfold round
  cases digits
  all_goals
    refine yields_next _ _ fun n => ?_
    dsimp only
    by_cases outside : n < 0 ∨ 9 < n
    · rw [if_pos outside]
      exact yields_throw_bind _ _
    · rw [if_neg outside]
      have rounded (x : Float32) := Rounding.decimals_finite x n.toNat (by omega)
      split
      · rename_i m
        exact yields_bind _ _ _ (m.map_finite _ finite fun x ordinary => (yields_ok _).mpr (rounded x ordinary))
          fun m all => (yields_pure _).mpr all
      · exact v.map_parts_finite _ finite rounded

theorem square_root_finite (v : Value) (finite : v.Finite) : Yields Value.Finite (squareRoot v) := by
  refine yields_next _ _ fun _ => ?_
  cases v with
  | number x =>
      dsimp only
      by_cases negative : x < 0
      · rw [if_pos negative]
        exact yields_bind _ _ _ (Complex.square_root_finite _ (Complex.of_real_finite x finite)) fun c ordinary =>
          (yields_pure _).mpr ordinary
      · rw [if_neg negative]
        exact (yields_pure _).mpr (Rounding.sqrt_finite x finite negative)
  | list xs =>
      dsimp only
      by_cases negative : xs.any (fun x => x < 0) = true
      · rw [if_pos negative]
        exact yields_bind _ _ _ (yields_mapM xs _ fun x member =>
          Complex.square_root_finite _ (Complex.of_real_finite x (finite x member))) fun cs all =>
            (yields_pure _).mpr all.2
      · rw [if_neg negative, yields_pure]
        intro y member
        obtain ⟨x, among, rfl⟩ := List.mem_map.mp member
        refine Rounding.sqrt_finite x (finite x among) fun below => negative ?_
        exact List.any_eq_true.mpr ⟨x, among, decide_eq_true below⟩
  | complex c =>
      refine yields_next _ _ fun _ => ?_
      exact yields_bind _ _ _ (Entries.mapM_all _ _ _ (.one c) finite Complex.square_root_finite) fun ds all =>
        (yields_pure _).mpr (Value.of_complexes_finite ds all)
  | complexList cs =>
      refine yields_next _ _ fun _ => ?_
      exact yields_bind _ _ _ (Entries.mapM_all _ _ _ (.many cs) finite Complex.square_root_finite) fun ds all =>
        (yields_pure _).mpr (Value.of_complexes_finite ds all)
  | string bytes | matrix m => exact yields_next _ _ fun _ => yields_throw _

theorem tangent_finite (mode : Mode) (x : Float32) : Yields (·.isFinite = true) (tangent mode x) := by
  unfold tangent
  dsimp only
  split
  · simp
  · exact guard_finite _

section Extremes

-- One of the two numbers, and never the first if it is a NaN.
structure Chooses (f : Float32 → Float32 → Float32) : Prop where
  one : ∀ a b, f a b = a ∨ f a b = b
  skips : ∀ a b, a.isNaN = true → f a b = b

theorem larger_chooses : Chooses larger := by
  constructor
  · intro a b
    unfold larger
    split
    · exact Or.inr rfl
    · split
      · exact Or.inr rfl
      · exact Or.inl rfl
  · exact fun a b nan => if_pos nan

theorem smaller_chooses : Chooses smaller := by
  constructor
  · intro a b
    unfold smaller
    split
    · exact Or.inr rfl
    · split
      · exact Or.inr rfl
      · exact Or.inl rfl
  · exact fun a b nan => if_pos nan

variable (f : Float32 → Float32 → Float32) (chooses : Chooses f)

include chooses

theorem choice_finite (a b : Float32) (left : a.isFinite = true) (right : b.isFinite = true) :
    (f a b).isFinite = true := by
  rcases chooses.one a b with same | same
  · rw [same]
    exact left
  · rw [same]
    exact right

theorem fold_finite (xs : List Float32) (start : Float32) (first : start.isFinite = true)
    (each : ∀ x ∈ xs, x.isFinite = true) : (xs.foldl f start).isFinite = true := by
  induction xs generalizing start with
  | nil => exact first
  | cons x xs ih =>
      exact ih _ (choice_finite f chooses start x first (each x (by simp))) fun y member => each y (by simp [member])

theorem extreme_finite (first : Value) (rest : List Value) (finite : first.Finite) (others : ∀ v ∈ rest, v.Finite) :
    Yields Value.Finite (extreme f first rest) := by
  by_cases alone : rest.isEmpty = true
  · unfold extreme
    cases first with
    | number x =>
        refine yields_next _ _ fun _ => ?_
        rw [if_pos alone]
        exact (yields_pure _).mpr finite
    | list xs =>
        cases xs with
        | nil => exact yields_error _
        | cons x xs =>
            refine yields_next _ _ fun _ => ?_
            rw [if_pos alone]
            have started : f (0 / 0) x = x := chooses.skips (0 / 0) x (by decide +kernel)
            refine (yields_pure _).mpr ?_
            change (xs.foldl f (f (0 / 0) x)).isFinite = true
            rw [started]
            exact fold_finite f chooses xs x (finite x (by simp)) fun y member => finite y (by simp [member])
    | _ =>
        refine yields_next _ _ fun _ => ?_
        rw [if_pos alone]
        exact yields_throw _
  · refine yields_next _ _ fun _ => ?_
    rw [if_neg alone]
    exact yields_foldlM rest _ first finite fun acc accFinite v member =>
      Value.real_elementwise_finite acc v accFinite (others v member) _ fun a b left right =>
        (yields_ok _).mpr (choice_finite f chooses a b left right)

end Extremes

theorem count_finite (n : Nat) : (ofCount n).isFinite = true := Rounding.single_finite _ _ (Rounding.count_single _)

theorem dimension_finite (v : Value) : Yields Value.Finite (dimension v) := by
  cases v with
  | list xs | complexList cs => exact (yields_ok _).mpr (count_finite _)
  | matrix m =>
      rw [dimension, yields_ok]
      simp [Value.Finite, count_finite]
  | _ => exact yields_error _

theorem sum_finite (v : Value) : Yields Value.Finite (sum v) := by
  refine yields_next _ _ fun _ => ?_
  cases v with
  | list xs => exact Value.of_number_finite _
  | complexList cs =>
      refine yields_bind Complex.Finite _ _ ?_ fun c ordinary => (yields_pure _).mpr ordinary
      exact yields_foldlM cs _ _ (Complex.of_real_finite 0 zero_finite) fun _ _ _ _ => Complex.complex_guard_finite _
  | _ => exact yields_throw _

theorem product_finite (v : Value) : Yields Value.Finite (product v) := by
  refine yields_next _ _ fun _ => ?_
  cases v with
  | list xs => exact Value.of_number_finite _
  | complexList cs =>
      refine yields_bind Complex.Finite _ _ ?_ fun c ordinary => (yields_pure _).mpr ordinary
      exact yields_foldlM cs _ _ (Complex.of_real_finite 1 rfl) fun _ _ _ _ => Complex.complex_guard_finite _
  | _ => exact yields_throw _

theorem augment_finite (l r : Value) (left : l.Finite) (right : r.Finite) : Yields Value.Finite (augment l r) := by
  refine yields_next _ _ fun _ => yields_next _ _ fun _ => ?_
  split
  · rename_i l r
    exact yields_bind _ _ _ (l.augment_finite r left right) fun m finite => (yields_pure _).mpr finite
  · exact (yields_pure _).mpr (List.forall_mem_append.mpr ⟨left, right⟩)
  · refine (yields_pure _).mpr (List.forall_mem_append.mpr ⟨?_, right⟩)
    exact List.forall_mem_map.mpr fun x member => Complex.of_real_finite x (left x member)
  · refine (yields_pure _).mpr (List.forall_mem_append.mpr ⟨left, ?_⟩)
    exact List.forall_mem_map.mpr fun x member => Complex.of_real_finite x (right x member)
  · exact (yields_pure _).mpr (List.forall_mem_append.mpr ⟨left, right⟩)
  · simp

theorem identity_finite (v : Value) : Yields Value.Finite (identity v) := by
  refine yields_next _ _ fun size => ?_
  dsimp only
  split
  · simp
  · exact yields_bind _ _ _ (RealMatrix.identity_finite _) fun m finite => (yields_pure _).mpr finite

theorem determinant_finite (v : Value) : Yields Value.Finite (determinant v) := by
  cases v with
  | matrix m => exact yields_next _ _ fun x => Value.of_number_finite x
  | _ => exact yields_throw _

section Library

-- An angle in radians that can be turned into one of the mode.
def AngleFinite (mode : Mode) (r : Float32) : Prop :=
  r.isFinite = true ∧ (mode.angle = .degree → r.abs ≤ Elementary.pi)

-- What has to hold of the elementary functions whose results are not checked: that they are finite inside
-- the domain, and that angles are no larger than a half turn where they are converted to degrees.
def LibraryFinite (mode : Mode) : Builtin → Prop
  | .cubeRoot => ∀ x : Float32, x.isFinite = true → (Elementary.cubeRoot x).isFinite = true
  | .tanh => ∀ x : Float32, x.isFinite = true → (Elementary.tanh x).isFinite = true
  | .arsinh => ∀ x : Float32, x.isFinite = true → (Elementary.arsinh x).isFinite = true
  | .arcosh => ∀ x : Float32, x.isFinite = true → ¬ x < 1 → (Elementary.arcosh x).isFinite = true
  | .artanh => ∀ x : Float32, x.isFinite = true → ¬ 1 ≤ x.abs → (Elementary.artanh x).isFinite = true
  | .arcsin => ∀ x : Float32, x.isFinite = true → ¬ 1 < x.abs → AngleFinite mode (Elementary.arcsin x)
  | .arccos => ∀ x : Float32, x.isFinite = true → ¬ 1 < x.abs → AngleFinite mode (Elementary.arccos x)
  | .arctan => ∀ x : Float32, x.isFinite = true → AngleFinite mode (Elementary.arctan x)
  | .polarAngle => ∀ x y : Float32, x.isFinite = true → y.isFinite = true → AngleFinite mode (Elementary.angle y x)
  | _ => True

theorem of_radians_finite (mode : Mode) (r : Float32) (angle : AngleFinite mode r) :
    (mode.ofRadians r).isFinite = true := by
  unfold Mode.ofRadians
  split
  · exact angle.1
  · rename_i degrees
    exact Rounding.degrees_finite r angle.1 (angle.2 degrees)

theorem inverse_finite (mode : Mode) (f : Float32 → Float32) (x : Float32) (ordinary : x.isFinite = true)
    (library : ∀ x : Float32, x.isFinite = true → ¬ 1 < x.abs → AngleFinite mode (f x)) :
    Yields (·.isFinite = true) ((unit x).map fun x => mode.ofRadians (f x)) := by
  rw [yields_map, unit]
  by_cases outside : 1 < x.abs
  · rw [if_pos outside]
    exact yields_error _
  · rw [if_neg outside, yields_ok]
    exact of_radians_finite mode _ (library x ordinary outside)

end Library

theorem guarded_finite (outside : Prop) [Decidable outside] (e : Cause) (y : Float32)
    (inside : ¬ outside → y.isFinite = true) : Yields (·.isFinite = true) (if outside then .error e else .ok y) := by
  by_cases refused : outside
  · rw [if_pos refused]
    exact yields_error _
  · rw [if_neg refused, yields_ok]
    exact inside refused

theorem common_log_finite (x : Float32) : Yields (·.isFinite = true) ((realLn x).map (· / Elementary.ln10)) :=
  (yields_map _ _).mpr fun log done => Rounding.common_log_finite log (real_ln_finite x log done)

theorem apply_one_finite (mode : Mode) (f : Builtin) (v : Value) (finite : v.Finite) (library : LibraryFinite mode f)
    (other : f ≠ .median) : Yields Value.Finite (applyOne mode f v) := by
  cases f with
  | median => exact absurd rfl other
  | absolute => exact absolute_finite v finite
  | floor => exact v.map_parts_finite _ finite Rounding.floor_finite
  | integerPart => exact v.map_parts_finite _ finite Rounding.truncate_finite
  | fractionPart => exact v.map_parts_finite _ finite Rounding.fraction_finite
  | round => exact round_finite v none finite
  | negation => exact v.map_real_finite _ finite fun _ _ => (yields_ok _).mpr (Value.truth_finite _)
  | squareRoot => exact square_root_finite v finite
  | cubeRoot | tanh | arsinh =>
      exact v.map_real_finite _ finite fun x ordinary => (yields_ok _).mpr (library x ordinary)
  | naturalLog => exact v.map_numeric_finite _ _ finite (fun x _ => real_ln_finite x) fun c _ => c.ln_finite
  | exponential =>
      exact v.map_numeric_finite _ _ finite (fun _ _ => guard_finite _) fun _ _ => Complex.complex_guard_finite _
  | commonLog =>
      exact v.map_numeric_finite _ _ finite (fun x _ => common_log_finite x) fun _ _ =>
        yields_next _ _ fun log => log.div_finite _
  | tenPower => exact v.map_numeric_finite _ _ finite (fun _ _ => guard_finite _) fun c _ => Complex.power_finite _ c
  | sin | cos | sinh | cosh => exact v.map_real_finite _ finite fun _ _ => guard_finite _
  | tan => exact v.map_real_finite _ finite fun x _ => tangent_finite mode x
  | arcsin | arccos => exact v.map_real_finite _ finite fun x ordinary => inverse_finite mode _ x ordinary library
  | arctan =>
      exact v.map_real_finite _ finite fun x ordinary =>
        (yields_ok _).mpr (of_radians_finite mode _ (library x ordinary))
  | arcosh | artanh =>
      exact v.map_real_finite _ finite fun x ordinary => guarded_finite _ _ _ fun inside => library x ordinary inside
  | dimension => exact dimension_finite v
  | sum => exact sum_finite v
  | product => exact product_finite v
  | mean => exact Statistics.mean_finite v none
  | determinant => exact determinant_finite v
  | identity => exact identity_finite v
  | _ => exact yields_error _

theorem apply_two_finite (mode : Mode) (f : Builtin) (v w : Value) (left : v.Finite) (right : w.Finite)
    (library : LibraryFinite mode f) (other : f ≠ .median) : Yields Value.Finite (applyTwo mode f v w) := by
  cases f with
  | median => exact absurd rfl other
  | round => exact round_finite v (some w) left
  | mean => exact Statistics.mean_finite v (some w)
  | augment => exact augment_finite v w left right
  | polarRadius | cartesianX | cartesianY =>
      exact v.real_elementwise_finite w left right _ fun _ _ _ _ => guard_finite _
  | polarAngle =>
      exact v.real_elementwise_finite w left right _ fun x y first second =>
        (yields_ok _).mpr (of_radians_finite mode _ (library x y first second))
  | _ => exact yields_error _

theorem as_matrix_finite (v : Value) (finite : v.Finite) : Yields RealMatrix.Finite v.asMatrix := by
  cases v with
  | matrix m => exact (yields_ok _).mpr finite
  | _ => exact yields_error _

theorem row_operation_finite (operation : RealMatrix → Int → Int → Except Cause RealMatrix) (m a b : Value)
    (finite : m.Finite) (each : ∀ m i j, m.Finite → Yields RealMatrix.Finite (operation m i j)) :
    Yields Value.Finite (do
      let m ← m.asMatrix
      let i ← a.integer
      let j ← b.integer
      return Value.matrix (← operation m i j)) := by
  refine yields_bind _ _ _ (as_matrix_finite m finite) fun m entries => ?_
  refine yields_next _ _ fun i => yields_next _ _ fun j => ?_
  exact yields_bind _ _ _ (each m i j entries) fun m entries => (yields_pure _).mpr entries

theorem apply_rows_finite (f : Builtin) (args : List Value) (finite : ∀ v ∈ args, v.Finite) :
    Yields Value.Finite (applyRows f args) := by
  unfold applyRows
  split
  · exact row_operation_finite RealMatrix.rowSwap _ _ _ (finite _ (by simp)) fun m i j => m.row_swap_finite i j
  · exact row_operation_finite (·.rowAdd 1) _ _ _ (finite _ (by simp)) fun m i j => m.row_add_finite 1 i j
  · rename_i x m a
    refine yields_next _ _ fun value => ?_
    refine yields_bind _ _ _ (as_matrix_finite m (finite m (by simp))) fun m entries => yields_next _ _ fun i => ?_
    exact yields_bind _ _ _ (m.row_multiply_finite value i entries) fun m entries => (yields_pure _).mpr entries
  · rename_i x m a b
    exact yields_next _ _ fun value => row_operation_finite (·.rowAdd value) m a b (finite m (by simp)) fun m i j =>
      m.row_add_finite value i j
  · simp

theorem apply_finite (mode : Mode) (f : Builtin) (args : List Value) (finite : ∀ v ∈ args, v.Finite)
    (library : LibraryFinite mode f) (other : f ≠ .median) : Yields Value.Finite (apply mode f args) := by
  unfold apply
  split
  · split
    · simp
    · exact extreme_finite larger larger_chooses _ _ (finite _ (by simp)) fun v member => finite v (by simp [member])
    · exact extreme_finite smaller smaller_chooses _ _ (finite _ (by simp)) fun v member => finite v (by simp [member])
    · exact apply_one_finite mode f _ (finite _ (by simp)) library other
    · exact apply_two_finite mode f _ _ (finite _ (by simp)) (finite _ (by simp)) library other
    · exact apply_rows_finite f args finite
  · simp

theorem apply_median (mode : Mode) (args : List Value) (finite : ∀ v ∈ args, v.Finite) :
    Yields (fun result => result.Finite ∨ ∃ v rest, args = v :: rest ∧ Statistics.SumLost v result)
      (apply mode .median args) := by
  have lost (v : Value) (rest : List Value) (same : args = v :: rest) (weights : Option Value) :
      Yields (fun result => result.Finite ∨ ∃ v rest, args = v :: rest ∧ Statistics.SumLost v result)
        (Statistics.median v weights) := by
    intro result done
    have ordinary : v.Finite := finite v (by simp [same])
    exact (Statistics.median_finite v weights ordinary result done).imp id fun sum => ⟨v, rest, same, sum⟩
  unfold apply
  split
  · rcases args with _ | ⟨v, _ | ⟨w, _ | ⟨u, rest⟩⟩⟩
    · simp
    · exact lost v [] rfl none
    · exact lost v [w] rfl (some w)
    · simp [applyRows]
  · simp

end Function

end GraphCalc

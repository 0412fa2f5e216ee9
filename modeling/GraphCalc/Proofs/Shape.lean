import GraphCalc.Function
import GraphCalc.Operation
import GraphCalc.Proofs.Results

set_option autoImplicit false

namespace GraphCalc

variable {α β γ : Type}

def Grid (rows : List (List α)) (r c : Nat) : Prop := rows.length = r ∧ ∀ row ∈ rows, row.length = c

theorem grid_cons (row : List α) (rows : List (List α)) (r c : Nat) :
    Grid (row :: rows) (r + 1) c ↔ row.length = c ∧ Grid rows r c := by
  simp only [Grid, List.length_cons, Nat.add_right_cancel_iff, List.forall_mem_cons]
  exact and_left_comm

theorem grid_append (first second : List (List α)) (r s c : Nat) (upper : Grid first r c) (lower : Grid second s c) :
    Grid (first ++ second) (r + s) c := by
  refine ⟨by rw [List.length_append, upper.1, lower.1], ?_⟩
  intro row member
  rcases List.mem_append.mp member with above | below
  · exact upper.2 row above
  · exact lower.2 row below

theorem grid_map (rows : List (List α)) (f : List α → List β) (r c d : Nat) (grid : Grid rows r c)
    (each : ∀ row, row.length = c → (f row).length = d) : Grid (rows.map f) r d := by
  refine ⟨by rw [List.length_map, grid.1], ?_⟩
  intro row member
  obtain ⟨source, among, rfl⟩ := List.mem_map.mp member
  exact each source (grid.2 source among)

theorem grid_set (rows : List (List α)) (i : Nat) (row : List α) (r c : Nat) (grid : Grid rows r c)
    (width : row.length = c) : Grid (rows.set i row) r c := by
  refine ⟨by rw [List.length_set, grid.1], ?_⟩
  intro other member
  rcases List.mem_or_eq_of_mem_set member with among | rfl
  · exact grid.2 other among
  · exact width

theorem grid_get (rows : List (List α)) (i : Nat) (fallback : List α) (r c : Nat) (grid : Grid rows r c)
    (inside : i < r) : (rows.getD i fallback).length = c := by
  have bound : i < rows.length := by rwa [grid.1]
  rw [List.getD_eq_getElem?_getD, List.getElem?_eq_getElem bound]
  exact grid.2 _ (List.getElem_mem bound)

theorem grid_mapM (rows : List (List α)) (f : List α → Except Cause (List β)) (r c d : Nat) (grid : Grid rows r c)
    (each : ∀ row, row.length = c → Yields (·.length = d) (f row)) : Yields (Grid · r d) (rows.mapM f) := by
  intro out done
  obtain ⟨count, widths⟩ := yields_mapM rows f (fun row member => each row (grid.2 row member)) out done
  exact ⟨count.trans grid.1, widths⟩

namespace Elimination

variable (A : Arithmetic α)

theorem bring_up_grid (i : Nat) (rows : List (List α)) (r c : Nat) (grid : Grid rows r c) :
    Grid (bringUp i rows) r c := by
  cases rows with
  | nil => exact grid
  | cons first rest =>
      cases i with
      | zero => exact grid
      | succ k =>
          obtain ⟨rfl, widths⟩ := grid
          have inRest : Grid rest rest.length c := ⟨rfl, fun row member => widths row (by simp [member])⟩
          refine (grid_cons _ _ rest.length c).mpr ⟨?_, grid_set rest k first rest.length c inRest (widths first (by simp))⟩
          by_cases inside : k < rest.length
          · exact grid_get rest k first rest.length c inRest inside
          · rw [List.getD_eq_getElem?_getD, List.getElem?_eq_none (by omega)]
            exact widths first (by simp)

theorem subtract_multiple_length (factor : α) (row top : List α) (c : Nat) (rowWidth : row.length = c)
    (topWidth : top.length = c) : (subtractMultiple A factor row top).length = c - 1 := by
  simp [subtractMultiple, rowWidth, topWidth]

-- Every step moves one row over to the solved ones and takes a column off all of them.
theorem invert_from_grid (n k c : Nat) (solved rows out : List (List α)) (solvedGrid : Grid solved k c)
    (grid : Grid rows n c) (done : invertFrom A n solved rows = some out) : Grid out (k + n) (c - n) := by
  induction n generalizing k c solved rows with
  | zero => cases done; exact solvedGrid
  | succ n ih =>
      have raised := bring_up_grid (pivotIndex A (rows.map (lead A))) rows (n + 1) c grid
      rw [invertFrom] at done
      cases brought : bringUp (pivotIndex A (rows.map (lead A))) rows with rw [brought] at raised done
      | nil => exact absurd raised.1 (by simp)
      | cons top others =>
          obtain ⟨topWidth, othersGrid⟩ := (grid_cons top others n c).mp raised
          dsimp only at done
          split at done
          · cases done
          · have scaledWidth : (top.map fun x => A.div x (lead A top)).length = c := by rw [List.length_map, topWidth]
            have cleared (row : List α) (width : row.length = c) :=
              subtract_multiple_length A (lead A row) row _ c width scaledWidth
            have moved := ih (k + 1) (c - 1) _ _
              (grid_append _ _ k 1 (c - 1) (grid_map solved _ k c (c - 1) solvedGrid cleared)
                ⟨rfl, by simp [scaledWidth]⟩)
              (grid_map others _ n c (c - 1) othersGrid cleared) done
            rwa [Nat.add_right_comm, Nat.add_assoc, Nat.sub_sub, Nat.add_comm 1 n] at moved

theorem inverse_grid (rows out : List (List α)) (n : Nat) (grid : Grid rows n n)
    (done : inverse A rows = some out) : Grid out n n := by
  have extended : Grid (rows.mapIdx fun r row => row ++ unitRow A rows.length r) n (n + n) := by
    refine ⟨by rw [List.length_mapIdx, grid.1], ?_⟩
    intro row member
    obtain ⟨i, bound, rfl⟩ := List.mem_mapIdx.mp member
    simp [unitRow, grid.1, grid.2 _ (List.getElem_mem bound)]
  unfold inverse at done
  rw [grid.1] at done extended
  have result := invert_from_grid A n 0 (n + n) [] _ out ⟨rfl, by simp⟩ extended done
  rwa [Nat.zero_add, Nat.add_sub_cancel] at result

end Elimination

namespace RealMatrix

def Rectangular (m : RealMatrix) : Prop := ∃ r c, 0 < r ∧ 0 < c ∧ Grid m.rows r c

theorem grid_counts (m : RealMatrix) (r c : Nat) (some : 0 < r) (grid : Grid m.rows r c) :
    m.rowCount = r ∧ m.columnCount = c := by
  refine ⟨grid.1, ?_⟩
  unfold columnCount
  cases rows : m.rows with rw [rows] at grid
  | nil => exact absurd grid.1 (by simpa using Nat.ne_of_lt some)
  | cons first rest => exact grid.2 first (by simp)

theorem rectangular_grid (m : RealMatrix) (rectangular : m.Rectangular) :
    0 < m.rowCount ∧ 0 < m.columnCount ∧ Grid m.rows m.rowCount m.columnCount := by
  obtain ⟨r, c, rowsPositive, columnsPositive, grid⟩ := rectangular
  obtain ⟨rfl, rfl⟩ := m.grid_counts r c rowsPositive grid
  exact ⟨rowsPositive, columnsPositive, grid⟩

theorem grid_rectangular (result : Except Cause (List (List Float32))) (r c : Nat) (rowsPositive : 0 < r)
    (columnsPositive : 0 < c) (grids : Yields (Grid · r c) result) : Yields Rectangular (result.map mk) := by
  rw [yields_map]
  exact fun rows done => ⟨r, c, rowsPositive, columnsPositive, grids rows done⟩

@[simp]
theorem of_rows_rectangular (rows : List (List Float32)) : Yields Rectangular (ofRows rows) := by
  unfold ofRows
  split
  · rename_i first rest
    split
    · rename_i fits
      rw [yields_ok]
      refine ⟨rest.length + 1, first.length, by omega, List.length_pos_iff.mpr fits.1, ?_⟩
      exact (grid_cons _ _ _ _).mpr ⟨rfl, rfl, by simpa using fits.2⟩
    · simp
  · simp

@[simp]
theorem map_rectangular (f : Float32 → Except Cause Float32) (m : RealMatrix) (rectangular : m.Rectangular) :
    Yields Rectangular (m.map f) := by
  obtain ⟨rowsPositive, columnsPositive, grid⟩ := m.rectangular_grid rectangular
  refine grid_rectangular _ _ _ rowsPositive columnsPositive (grid_mapM _ _ _ _ _ grid ?_)
  intro row width out done
  rw [← width]
  exact (yields_mapM row f (fun _ _ => yields_true _) out done).1

theorem zip_rows_length (f : Float32 → Float32 → Except Cause Float32) (l r : List Float32) (c : Nat)
    (left : l.length = c) (right : r.length = c) : Yields (·.length = c) (zipRows f l r) := by
  intro out done
  have count := (yields_mapM (l.zip r) _ (fun _ _ => yields_true _) out done).1
  rw [count, List.length_zip, left, right, Nat.min_self]

@[simp]
theorem zip_with_rectangular (f : Float32 → Float32 → Except Cause Float32) (l r : RealMatrix) (left : l.Rectangular)
    (right : r.Rectangular) : Yields Rectangular (l.zipWith f r) := by
  obtain ⟨rowsPositive, columnsPositive, leftGrid⟩ := l.rectangular_grid left
  obtain ⟨-, -, rightGrid⟩ := r.rectangular_grid right
  unfold zipWith
  split
  · rename_i same
    refine grid_rectangular _ l.rowCount l.columnCount rowsPositive columnsPositive ?_
    intro out done
    obtain ⟨count, widths⟩ := yields_mapM _ _ (fun pair member =>
      zip_rows_length f pair.1 pair.2 l.columnCount (leftGrid.2 _ (List.of_mem_zip member).1)
        (same.2 ▸ rightGrid.2 _ (List.of_mem_zip member).2)) out done
    refine ⟨?_, widths⟩
    rw [count, List.length_zip, leftGrid.1, rightGrid.1, same.1, Nat.min_self]
  · simp

theorem columns_grid (m : RealMatrix) : Grid m.columns m.columnCount m.rowCount := by
  refine ⟨by simp [columns], ?_⟩
  intro column member
  obtain ⟨c, _, rfl⟩ := List.mem_map.mp member
  exact List.length_map _

@[simp]
theorem multiply_rectangular (l r : RealMatrix) (left : l.Rectangular) (right : r.Rectangular) :
    Yields Rectangular (l.multiply r) := by
  obtain ⟨rowsPositive, _, leftGrid⟩ := l.rectangular_grid left
  obtain ⟨_, columnsPositive, _⟩ := r.rectangular_grid right
  unfold multiply
  split
  · refine grid_rectangular _ l.rowCount r.columnCount rowsPositive columnsPositive
      (grid_mapM _ _ _ _ _ leftGrid ?_)
    intro row _ out done
    rw [← r.columns_grid.1]
    exact (yields_mapM r.columns _ (fun _ _ => yields_true _) out done).1
  · simp

@[simp]
theorem square_rectangular (m : RealMatrix) (rectangular : m.Rectangular) : Yields Rectangular m.square := by
  unfold square
  split <;> simp [rectangular]

@[simp]
theorem cube_rectangular (m : RealMatrix) (rectangular : m.Rectangular) : Yields Rectangular m.cube :=
  yields_bind Rectangular _ _ (m.square_rectangular rectangular) fun squared grid =>
    multiply_rectangular squared m grid rectangular

@[simp]
theorem transpose_rectangular (m : RealMatrix) (rectangular : m.Rectangular) : m.transpose.Rectangular := by
  obtain ⟨rowsPositive, columnsPositive, _⟩ := m.rectangular_grid rectangular
  exact ⟨m.columnCount, m.rowCount, columnsPositive, rowsPositive, m.columns_grid⟩

@[simp]
theorem augment_rectangular (l r : RealMatrix) (left : l.Rectangular) (right : r.Rectangular) :
    Yields Rectangular (l.augment r) := by
  obtain ⟨rowsPositive, columnsPositive, leftGrid⟩ := l.rectangular_grid left
  obtain ⟨-, -, rightGrid⟩ := r.rectangular_grid right
  unfold augment
  split
  · rename_i same
    rw [yields_ok]
    refine ⟨l.rowCount, l.columnCount + r.columnCount, rowsPositive, by omega, ?_, ?_⟩
    · rw [List.length_zipWith, leftGrid.1, rightGrid.1, same, Nat.min_self]
    · intro row member
      rw [← List.map_uncurry_zip_eq_zipWith] at member
      obtain ⟨pair, among, rfl⟩ := List.mem_map.mp member
      have inLeft := leftGrid.2 _ (List.of_mem_zip among).1
      have inRight := rightGrid.2 _ (List.of_mem_zip among).2
      change (pair.1 ++ pair.2).length = l.columnCount + r.columnCount
      rw [List.length_append, inLeft, inRight]
  · simp

@[simp]
theorem inverse_rectangular (m : RealMatrix) (rectangular : m.Rectangular) : Yields Rectangular m.inverse := by
  obtain ⟨rowsPositive, _, grid⟩ := m.rectangular_grid rectangular
  unfold inverse
  split
  · rename_i square
    rw [isSquare, beq_iff_eq] at square
    rw [← square] at grid
    have widened : Grid m.widened m.rowCount m.rowCount :=
      grid_map m.rows _ _ _ _ grid fun row width => by rw [List.length_map, width]
    split
    · rename_i rows found
      have inverted := Elimination.inverse_grid doubles m.widened rows m.rowCount widened found
      refine grid_rectangular _ m.rowCount m.rowCount rowsPositive rowsPositive (grid_mapM _ _ _ _ _ inverted ?_)
      intro row width out done
      rw [← width]
      exact (yields_mapM row _ (fun _ _ => yields_true _) out done).1
    · simp
  · simp

theorem row_index_inside (m : RealMatrix) (row : Int) : Yields (· < m.rowCount) (m.rowIndex row) := by
  unfold rowIndex
  split
  · rw [yields_ok]
    omega
  · simp

@[simp]
theorem row_swap_rectangular (m : RealMatrix) (a b : Int) (rectangular : m.Rectangular) :
    Yields Rectangular (m.rowSwap a b) := by
  obtain ⟨rowsPositive, columnsPositive, grid⟩ := m.rectangular_grid rectangular
  refine yields_bind _ _ _ (m.row_index_inside a) fun i first => ?_
  refine yields_bind _ _ _ (m.row_index_inside b) fun j second => ?_
  rw [yields_pure]
  refine ⟨_, _, rowsPositive, columnsPositive, grid_set _ _ _ _ _ (grid_set _ _ _ _ _ grid ?_) ?_⟩
  · exact grid_get _ _ _ _ _ grid second
  · exact grid_get _ _ _ _ _ grid first

@[simp]
theorem row_add_rectangular (m : RealMatrix) (value : Float32) (a b : Int) (rectangular : m.Rectangular) :
    Yields Rectangular (m.rowAdd value a b) := by
  obtain ⟨rowsPositive, columnsPositive, grid⟩ := m.rectangular_grid rectangular
  refine yields_bind _ _ _ (m.row_index_inside a) fun i first => ?_
  refine yields_bind _ _ _ (m.row_index_inside b) fun j second => ?_
  refine yields_bind _ _ _ (zip_rows_length _ _ _ _ (grid_get _ _ _ _ _ grid second)
    (grid_get _ _ _ _ _ grid first)) fun sum width => ?_
  rw [yields_pure]
  exact ⟨_, _, rowsPositive, columnsPositive, grid_set _ _ _ _ _ grid width⟩

@[simp]
theorem row_multiply_rectangular (m : RealMatrix) (value : Float32) (row : Int) (rectangular : m.Rectangular) :
    Yields Rectangular (m.rowMultiply value row) := by
  obtain ⟨rowsPositive, columnsPositive, grid⟩ := m.rectangular_grid rectangular
  refine yields_bind _ _ _ (m.row_index_inside row) fun i inside => ?_
  refine yields_bind _ _ _ (yields_mapM _ _ fun _ _ => yields_true _) fun scaled width => ?_
  rw [yields_pure]
  refine ⟨_, _, rowsPositive, columnsPositive, grid_set _ _ _ _ _ grid ?_⟩
  rw [width.1, grid_get _ _ _ _ _ grid inside]

end RealMatrix

namespace Entries

def Filled : Entries α → Prop
  | .one _ => True
  | .many xs => xs ≠ []

theorem filled_mapM (xs : List α) (f : α → Except Cause β) (filled : xs ≠ []) :
    Yields Filled ((xs.mapM f).map .many) := by
  rw [yields_map]
  intro ys done
  have count := (yields_mapM xs f (fun _ _ => yields_true _) ys done).1
  exact List.ne_nil_of_length_pos (count ▸ List.length_pos_iff.mpr filled)

theorem mapM_filled (f : α → Except Cause β) (xs : Entries α) (filled : xs.Filled) : Yields Filled (xs.mapM f) := by
  cases xs with
  | one x => simp [mapM, Filled]
  | many xs => exact filled_mapM xs f filled

theorem combine_filled (f : α → β → Except Cause γ) (xs : Entries α) (ys : Entries β) (left : xs.Filled)
    (right : ys.Filled) : Yields Filled (xs.combine f ys) := by
  cases xs with
  | one x =>
      cases ys with
      | one y => simp [combine, Filled]
      | many ys => exact filled_mapM ys _ right
  | many xs =>
      cases ys with
      | one y => exact filled_mapM xs _ left
      | many ys =>
          rw [combine]
          split
          · rename_i same
            apply filled_mapM
            apply List.ne_nil_of_length_pos
            rw [List.length_zip, same, Nat.min_self]
            exact List.length_pos_iff.mpr right
          · simp

end Entries

namespace Value

def Shaped : Value → Prop
  | .list xs => xs ≠ []
  | .complexList cs => cs ≠ []
  | .matrix m => m.Rectangular
  | .number _ | .complex _ | .string _ => True

@[simp]
theorem number_shaped (x : Float32) : (number x).Shaped := trivial

@[simp]
theorem complex_shaped (c : Complex) : (complex c).Shaped := trivial

@[simp]
theorem string_shaped (bytes : Bytes) : (string bytes).Shaped := trivial

@[simp]
theorem list_shaped (xs : List Float32) : (list xs).Shaped ↔ xs ≠ [] := Iff.rfl

@[simp]
theorem complex_list_shaped (cs : List Complex) : (complexList cs).Shaped ↔ cs ≠ [] := Iff.rfl

@[simp]
theorem matrix_shaped (m : RealMatrix) : (matrix m).Shaped ↔ m.Rectangular := Iff.rfl

theorem of_reals_shaped (xs : Entries Float32) (filled : xs.Filled) : (ofReals xs).Shaped := by
  cases xs with
  | one x => trivial
  | many xs => exact filled

theorem of_complexes_shaped (cs : Entries Complex) (filled : cs.Filled) : (ofComplexes cs).Shaped := by
  cases cs with
  | one c => trivial
  | many cs => exact filled

theorem reals_filled (v : Value) (xs : Entries Float32) (shaped : v.Shaped) (found : v.reals? = some xs) : xs.Filled := by
  cases v with
  | number x => cases found; trivial
  | list xs => cases found; exact shaped
  | _ => cases found

theorem complexes_filled (v : Value) (cs : Entries Complex) (shaped : v.Shaped) (found : v.complexes? = some cs) :
    cs.Filled := by
  cases v with
  | number x => cases found; trivial
  | complex c => cases found; trivial
  | list xs =>
      cases found
      exact fun empty => shaped (List.map_eq_nil_iff.mp empty)
  | complexList cs => cases found; exact shaped
  | _ => cases found

@[simp]
theorem of_number_shaped (x : Float32) : Yields Shaped (ofNumber x) := by
  simp [ofNumber]

@[simp]
theorem of_complex_shaped (c : Complex) : Yields Shaped (ofComplex c) := by
  simp [ofComplex]

@[simp]
theorem map_real_shaped (f : Float32 → Except Cause Float32) (v : Value) (shaped : v.Shaped) :
    Yields Shaped (v.mapReal f) := by
  refine yields_next _ _ fun _ => ?_
  split
  · rename_i xs found
    exact yields_bind _ _ _ (xs.mapM_filled f (v.reals_filled xs shaped found)) fun ys filled =>
      (yields_pure _).mpr (of_reals_shaped ys filled)
  · simp

@[simp]
theorem map_numeric_shaped (f : Float32 → Except Cause Float32) (g : Complex → Except Cause Complex) (v : Value)
    (shaped : v.Shaped) : Yields Shaped (v.mapNumeric f g) := by
  refine yields_next _ _ fun _ => ?_
  split
  · rename_i xs found
    exact yields_bind _ _ _ (xs.mapM_filled f (v.reals_filled xs shaped found)) fun ys filled =>
      (yields_pure _).mpr (of_reals_shaped ys filled)
  · rename_i cs _ found
    exact yields_bind _ _ _ (cs.mapM_filled g (v.complexes_filled cs shaped found)) fun ds filled =>
      (yields_pure _).mpr (of_complexes_shaped ds filled)
  · simp

@[simp]
theorem elementwise_shaped (f : Float32 → Float32 → Except Cause Float32)
    (g : Complex → Complex → Except Cause Complex) (l r : Value) (left : l.Shaped) (right : r.Shaped) :
    Yields Shaped (l.elementwise f g r) := by
  refine yields_next _ _ fun _ => yields_next _ _ fun _ => ?_
  split
  · rename_i xs ys foundLeft foundRight
    exact yields_bind _ _ _ (xs.combine_filled f ys (l.reals_filled xs left foundLeft)
      (r.reals_filled ys right foundRight)) fun zs filled => (yields_pure _).mpr (of_reals_shaped zs filled)
  · rename_i xs ys foundLeft foundRight _
    exact yields_bind _ _ _ (xs.combine_filled g ys (l.complexes_filled xs left foundLeft)
      (r.complexes_filled ys right foundRight)) fun zs filled => (yields_pure _).mpr (of_complexes_shaped zs filled)
  · simp

@[simp]
theorem real_elementwise_shaped (f : Float32 → Float32 → Except Cause Float32) (l r : Value) (left : l.Shaped)
    (right : r.Shaped) : Yields Shaped (l.realElementwise f r) :=
  elementwise_shaped f _ l r left right

@[simp]
theorem relation_shaped (f : Float32 → Float32 → Bool) (g : Complex → Complex → Except Cause Bool) (l r : Value)
    (left : l.Shaped) (right : r.Shaped) : Yields Shaped (l.relation f g r) := by
  refine yields_next _ _ fun _ => yields_next _ _ fun _ => ?_
  split
  · rename_i xs ys foundLeft foundRight
    exact yields_bind _ _ _ (xs.combine_filled _ ys (l.reals_filled xs left foundLeft)
      (r.reals_filled ys right foundRight)) fun zs filled => (yields_pure _).mpr (of_reals_shaped zs filled)
  · rename_i xs ys foundLeft foundRight _
    exact yields_bind _ _ _ (xs.combine_filled _ ys (l.complexes_filled xs left foundLeft)
      (r.complexes_filled ys right foundRight)) fun zs filled => (yields_pure _).mpr (of_reals_shaped zs filled)
  · simp

@[simp]
theorem as_matrix_shaped (v : Value) (shaped : v.Shaped) : Yields RealMatrix.Rectangular v.asMatrix := by
  cases v with
  | matrix m => simpa [asMatrix] using shaped
  | _ => simp [asMatrix]

end Value

namespace Operation

theorem unary_shaped (op : Operator) (mode : Mode) (v : Value) (shaped : v.Shaped) :
    Yields Value.Shaped (unary op mode v) := by
  refine yields_next _ _ fun _ => ?_
  cases op with
  | negate => cases v <;> simp_all [negate]
  | reciprocal => cases v <;> simp_all [reciprocal]
  | square => cases v <;> simp_all [square]
  | cube => cases v <;> simp_all [cube]
  | factorial => simp [shaped]
  | degrees => cases angle : mode.angle <;> simp [ofDegrees, angle, shaped]
  | radians => cases angle : mode.angle <;> simp [ofRadians, angle, shaped]
  | transpose => cases v <;> simp_all [transpose]
  | _ => simp

variable (l r : Value) (left : l.Shaped) (right : r.Shaped)

include left right

@[simp]
theorem add_shaped : Yields Value.Shaped (add l r) := by
  unfold add
  split <;> simp_all

@[simp]
theorem subtract_shaped : Yields Value.Shaped (subtract l r) := by
  unfold subtract
  split <;> simp_all

@[simp]
theorem multiply_shaped : Yields Value.Shaped (multiply l r) := by
  unfold multiply
  split <;> simp_all

@[simp]
theorem divide_shaped : Yields Value.Shaped (divide l r) := by
  unfold divide
  split <;> simp_all

@[simp]
theorem equal_shaped : Yields Value.Shaped (equal l r) := by
  unfold equal
  split <;> simp_all

@[simp]
theorem not_equal_shaped : Yields Value.Shaped (notEqual l r) := by
  refine yields_bind _ _ _ (equal_shaped l r left right) fun same shaped => ?_
  cases same <;> simp_all

omit left right in
@[simp]
theorem logical_shaped (f : Bool → Bool → Bool) : Yields Value.Shaped (logical f l r) := by
  unfold logical
  split <;> simp

theorem binary_shaped (op : Operator) : Yields Value.Shaped (binary op l r) := by
  refine yields_next _ _ fun _ => yields_next _ _ fun _ => ?_
  cases op with
  | less | greater => simp [less, ordered, left, right]
  | lessEqual | greaterEqual => simp [lessEqual, ordered, left, right]
  | _ => simp [left, right]

end Operation

namespace Statistics

@[simp]
theorem mean_shaped (v : Value) (weights : Option Value) : Yields Value.Shaped (mean v weights) :=
  yields_next _ _ fun _ => Value.of_number_shaped _

@[simp]
theorem median_shaped (v : Value) (weights : Option Value) : Yields Value.Shaped (median v weights) := by
  refine yields_next _ _ fun found => ?_
  dsimp only
  split <;> simp

end Statistics

namespace Function

@[simp]
theorem absolute_shaped (v : Value) (shaped : v.Shaped) : Yields Value.Shaped (absolute v) := by
  refine yields_next _ _ fun _ => ?_
  cases v with
  | complexList cs =>
      refine yields_bind _ _ _ (yields_mapM cs _ fun _ _ => yields_true _) fun xs count => ?_
      rw [yields_pure]
      exact List.ne_nil_of_length_pos (count.1 ▸ List.length_pos_iff.mpr shaped)
  | matrix m => simpa using m.map_rectangular _ shaped
  | _ => simp_all

@[simp]
theorem round_shaped (v : Value) (digits : Option Value) (shaped : v.Shaped) : Yields Value.Shaped (round v digits) := by
  unfold round
  cases digits with
  | none => cases v <;> simp_all
  | some d =>
      refine yields_next _ _ fun n => ?_
      dsimp only
      split
      · simp
      · cases v <;> simp_all

@[simp]
theorem square_root_shaped (v : Value) (shaped : v.Shaped) : Yields Value.Shaped (squareRoot v) := by
  refine yields_next _ _ fun _ => ?_
  split
  · split
    · exact yields_next _ _ fun _ => by simp
    · simp
  · split
    · refine yields_bind _ _ _ (yields_mapM _ _ fun _ _ => yields_true _) fun cs count => ?_
      rw [yields_pure]
      exact List.ne_nil_of_length_pos (count.1 ▸ List.length_pos_iff.mpr shaped)
    · simpa using shaped
  · simp [shaped]

@[simp]
theorem extreme_shaped (f : Float32 → Float32 → Float32) (first : Value) (rest : List Value) (shaped : first.Shaped)
    (others : ∀ v ∈ rest, v.Shaped) : Yields Value.Shaped (extreme f first rest) := by
  refine yields_next _ _ fun _ => ?_
  split
  · split <;> simp
  · exact yields_foldlM rest _ first shaped fun acc accShaped v member =>
      acc.real_elementwise_shaped _ v accShaped (others v member)

@[simp]
theorem dimension_shaped (v : Value) : Yields Value.Shaped (dimension v) := by
  cases v <;> simp [dimension]

@[simp]
theorem sum_shaped (v : Value) : Yields Value.Shaped (sum v) := by
  refine yields_next _ _ fun _ => ?_
  cases v with
  | complexList cs => exact yields_next _ _ fun _ => by simp
  | _ => simp

@[simp]
theorem product_shaped (v : Value) : Yields Value.Shaped (product v) := by
  refine yields_next _ _ fun _ => ?_
  cases v with
  | complexList cs => exact yields_next _ _ fun _ => by simp
  | _ => simp

@[simp]
theorem augment_shaped (l r : Value) (left : l.Shaped) (right : r.Shaped) : Yields Value.Shaped (augment l r) := by
  refine yields_next _ _ fun _ => yields_next _ _ fun _ => ?_
  split
  · rename_i l r
    exact yields_bind _ _ _ (l.augment_rectangular r left right) fun m rectangular => (yields_pure _).mpr rectangular
  all_goals simp_all

@[simp]
theorem identity_shaped (v : Value) : Yields Value.Shaped (identity v) := by
  refine yields_next _ _ fun size => ?_
  dsimp only
  split
  · simp
  · exact yields_bind _ _ _ (RealMatrix.of_rows_rectangular _) fun m rectangular => (yields_pure _).mpr rectangular

@[simp]
theorem determinant_shaped (v : Value) : Yields Value.Shaped (determinant v) := by
  cases v with
  | matrix m => exact yields_next _ _ fun x => Value.of_number_shaped x
  | _ => simp [determinant]

theorem apply_one_shaped (mode : Mode) (f : Builtin) (v : Value) (shaped : v.Shaped) :
    Yields Value.Shaped (applyOne mode f v) := by
  cases f <;> simp [applyOne, shaped]

theorem apply_two_shaped (mode : Mode) (f : Builtin) (v w : Value) (left : v.Shaped) (right : w.Shaped) :
    Yields Value.Shaped (applyTwo mode f v w) := by
  cases f <;> simp [applyTwo, left, right]

theorem row_operation_shaped (operation : RealMatrix → Int → Int → Except Cause RealMatrix) (m a b : Value)
    (shaped : m.Shaped)
    (each : ∀ m i j, m.Rectangular → Yields RealMatrix.Rectangular (operation m i j)) :
    Yields Value.Shaped (do
      let m ← m.asMatrix
      let i ← a.integer
      let j ← b.integer
      return Value.matrix (← operation m i j)) := by
  refine yields_bind _ _ _ (m.as_matrix_shaped shaped) fun m rectangular => ?_
  refine yields_next _ _ fun i => yields_next _ _ fun j => ?_
  exact yields_bind _ _ _ (each m i j rectangular) fun m rectangular => (yields_pure _).mpr rectangular

theorem apply_rows_shaped (f : Builtin) (args : List Value) (shaped : ∀ v ∈ args, v.Shaped) :
    Yields Value.Shaped (applyRows f args) := by
  unfold applyRows
  split
  · exact row_operation_shaped RealMatrix.rowSwap _ _ _ (shaped _ (by simp)) fun m i j => m.row_swap_rectangular i j
  · exact row_operation_shaped (·.rowAdd 1) _ _ _ (shaped _ (by simp)) fun m i j => m.row_add_rectangular 1 i j
  · rename_i x m a
    refine yields_next _ _ fun value => ?_
    refine yields_bind _ _ _ (m.as_matrix_shaped (shaped m (by simp))) fun m rectangular => yields_next _ _ fun i => ?_
    exact yields_bind _ _ _ (m.row_multiply_rectangular value i rectangular) fun m rectangular =>
      (yields_pure _).mpr rectangular
  · rename_i x m a b
    exact yields_next _ _ fun value => row_operation_shaped (·.rowAdd value) m a b (shaped m (by simp)) fun m i j =>
      m.row_add_rectangular value i j
  · simp

theorem apply_shaped (mode : Mode) (f : Builtin) (args : List Value) (shaped : ∀ v ∈ args, v.Shaped) :
    Yields Value.Shaped (apply mode f args) := by
  unfold apply
  split
  · split
    · simp
    · exact extreme_shaped larger _ _ (shaped _ (by simp)) fun v member => shaped v (by simp [member])
    · exact extreme_shaped smaller _ _ (shaped _ (by simp)) fun v member => shaped v (by simp [member])
    · exact apply_one_shaped mode f _ (shaped _ (by simp))
    · exact apply_two_shaped mode f _ _ (shaped _ (by simp)) (shaped _ (by simp))
    · exact apply_rows_shaped f args shaped
  · simp

end Function

end GraphCalc

import GraphCalc.Proofs.Entrywise
import GraphCalc.Proofs.Shape

set_option autoImplicit false

namespace GraphCalc

section Factors

open Float.Model (Format UnpackedFloat)
open Float.Model.UnpackedFloat

theorem sign_mul_comm (s t : Sign) : s * t = t * s := by
  cases s <;> cases t <;> rfl

theorem unpacked_mul_comm (spec : Format) (x y : UnpackedFloat) : mul spec x y = mul spec y x := by
  cases x with
  | notANumber => cases y <;> rfl
  | infinity s =>
      cases y with
      | notANumber | zero t => rfl
      | infinity t | finite t n g positive => exact congrArg infinity (sign_mul_comm s t)
  | zero s =>
      cases y with
      | notANumber | infinity t => rfl
      | zero t | finite t n g positive => exact congrArg zero (sign_mul_comm s t)
  | finite s m e positive =>
      cases y with
      | notANumber => rfl
      | infinity t => exact congrArg infinity (sign_mul_comm s t)
      | zero t => exact congrArg zero (sign_mul_comm s t)
      | finite t n g positive' =>
          change roundWithAccuracy spec (s * t) (m * n) (e + g) .exact =
            roundWithAccuracy spec (t * s) (n * m) (g + e) .exact
          rw [sign_mul_comm, Nat.mul_comm, Int.add_comm]

theorem single_mul_comm (x y : Float32) : x * y = y * x :=
  congrArg Exact.single (unpacked_mul_comm .binary32 x.toModel.unpack y.toModel.unpack)

end Factors

namespace RealMatrix

-- Rows and columns counted from zero; there is a zero outside of the matrix.
def entry (m : RealMatrix) (i j : Nat) : Float32 := (m.rows.getD i []).getD j 0

theorem same_entries (m n : RealMatrix) (r c : Nat) (left : Grid m.rows r c) (right : Grid n.rows r c)
    (each : ∀ i < r, ∀ j < c, m.entry i j = n.entry i j) : m = n := by
  have rows : m.rows = n.rows := by
    apply List.ext_getElem (left.1.trans right.1.symm)
    intro i inside inside'
    have width := left.2 _ (List.getElem_mem inside)
    have width' := right.2 _ (List.getElem_mem inside')
    apply List.ext_getElem (width.trans width'.symm)
    intro j within within'
    have here := each i (left.1 ▸ inside) j (width ▸ within)
    simpa [entry, inside, inside', within, within'] using here
  cases m
  cases n
  exact congrArg mk rows

section Shapes

variable (m : RealMatrix) (rectangular : m.Rectangular)

include rectangular

theorem transpose_counts : m.transpose.rowCount = m.columnCount ∧ m.transpose.columnCount = m.rowCount := by
  obtain ⟨-, columnsPositive, -⟩ := m.rectangular_grid rectangular
  exact m.transpose.grid_counts _ _ columnsPositive m.columns_grid

theorem entry_outside (i j : Nat) (outside : ¬ (i < m.rowCount ∧ j < m.columnCount)) : m.entry i j = 0 := by
  obtain ⟨-, -, count, widths⟩ := m.rectangular_grid rectangular
  by_cases row : i < m.rows.length
  · have width := widths _ (List.getElem_mem row)
    have beyond : m.rows[i].length ≤ j := by omega
    rw [entry, List.getD_eq_getElem _ _ row, List.getD_eq_default _ _ beyond]
  · rw [entry, List.getD_eq_default _ _ (Nat.le_of_not_lt row)]
    rfl

theorem transpose_entry (i j : Nat) : m.transpose.entry i j = m.entry j i := by
  obtain ⟨rows, columns⟩ := m.transpose_counts rectangular
  by_cases inside : i < m.columnCount ∧ j < m.rowCount
  · obtain ⟨row, column⟩ := inside
    change j < m.rows.length at column
    simp [entry, transpose, RealMatrix.columns, row, column]
  · rw [m.entry_outside rectangular j i (by rwa [and_comm])]
    exact m.transpose.entry_outside (m.transpose_rectangular rectangular) i j (by rwa [rows, columns])

theorem get_entry (i j : Nat) : m.get (i + 1) (j + 1) =
    if i < m.rowCount ∧ j < m.columnCount then .ok (m.entry i j) else .error .invalidDim := by
  obtain ⟨-, -, count, widths⟩ := m.rectangular_grid rectangular
  rw [get]
  by_cases row : i < m.rows.length
  · have width := widths _ (List.getElem_mem row)
    rw [List.getElem?_eq_getElem row]
    dsimp only
    by_cases column : j < m.columnCount
    · have within : j < m.rows[i].length := width ▸ column
      rw [if_pos ⟨row, column⟩, List.getElem?_eq_getElem within]
      simp [entry, row, within]
    · have beyond : m.rows[i].length ≤ j := by omega
      rw [if_neg fun inside => column inside.2, List.getElem?_eq_none beyond]
  · rw [if_neg fun inside => row inside.1, List.getElem?_eq_none (Nat.le_of_not_lt row)]

theorem transpose_get (i j : Nat) : m.transpose.get i j = m.get j i := by
  cases i with
  | zero => cases j <;> rfl
  | succ i =>
      cases j with
      | zero => rfl
      | succ j =>
          obtain ⟨rows, columns⟩ := m.transpose_counts rectangular
          rw [m.transpose.get_entry (m.transpose_rectangular rectangular), m.get_entry rectangular,
            m.transpose_entry rectangular, rows, columns]
          exact if_congr and_comm rfl rfl

theorem transpose_transpose : m.transpose.transpose = m := by
  have turned := m.transpose_rectangular rectangular
  obtain ⟨rows, columns⟩ := m.transpose_counts rectangular
  have grid := m.transpose.columns_grid
  rw [rows, columns] at grid
  apply same_entries m.transpose.transpose m m.rowCount m.columnCount grid (m.rectangular_grid rectangular).2.2
  intro i _ j _
  rw [m.transpose.transpose_entry turned, m.transpose_entry rectangular]

end Shapes

theorem map_mk_ok (rows : Except Cause (List (List Float32))) (p : RealMatrix) :
    rows.map mk = .ok p ↔ rows = .ok p.rows := by
  cases p
  cases rows with
  | error e => constructor <;> intro done <;> cases done
  | ok rows => constructor <;> intro done <;> cases done <;> rfl

section Products

variable (l r : RealMatrix) (left : l.Rectangular) (right : r.Rectangular)

def dot (i j : Nat) : Float32 := sumOf ((List.range l.columnCount).map fun k => l.entry i k * r.entry k j)

include left right

theorem row_times_column (fits : l.columnCount = r.rowCount) (i j : Nat) (row : i < l.rowCount) (column : j < r.columnCount) :
    List.zipWith (· * ·) (l.rows.getD i []) (r.columns.getD j []) =
      (List.range l.columnCount).map fun k => l.entry i k * r.entry k j := by
  obtain ⟨-, -, leftGrid⟩ := l.rectangular_grid left
  have width := grid_get l.rows i [] _ _ leftGrid row
  have height := grid_get r.columns j [] _ _ r.columns_grid column
  apply List.ext_getElem
  · simp only [List.length_zipWith, List.length_map, List.length_range]
    omega
  · intro k inside inside'
    rw [List.length_map, List.length_range] at inside'
    have turned : (r.columns.getD j []).getD k 0 = r.entry k j := r.transpose_entry right j k
    rw [List.getElem_zipWith, List.getElem_map, List.getElem_range, ← turned]
    exact (congrArg₂ (· * ·) (List.getD_eq_getElem _ 0 (by omega)) (List.getD_eq_getElem _ 0 (by omega))).symm

theorem multiply_ok_iff (p : RealMatrix) : l.multiply r = .ok p ↔
    l.columnCount = r.rowCount ∧ Grid p.rows l.rowCount r.columnCount ∧
      ∀ i < l.rowCount, ∀ j < r.columnCount, finite (l.dot r i j) = .ok (p.entry i j) := by
  by_cases fits : l.columnCount = r.rowCount
  · have row (i : Nat) (inside : i < l.rowCount) :
        (r.columns.mapM fun column => finite (sumOf (List.zipWith (· * ·) (l.rows.getD i []) column))) =
            .ok (p.rows.getD i []) ↔
          (p.rows.getD i []).length = r.columnCount ∧ ∀ j < r.columnCount, finite (l.dot r i j) = .ok (p.entry i j) := by
      rw [mapM_ok_iff _ [] 0, r.columns_grid.1]
      refine and_congr_right fun _ => forall₂_congr fun j column => ?_
      rw [row_times_column l r left right fits i j inside column]
      rfl
    rw [multiply, if_pos fits, map_mk_ok, mapM_ok_iff _ [] []]
    constructor
    · rintro ⟨count, each⟩
      refine ⟨fits, ⟨count, fun line member => ?_⟩, fun i inside => ((row i inside).mp (each i inside)).2⟩
      obtain ⟨i, inside, rfl⟩ := List.getElem_of_mem member
      have within : i < l.rows.length := count ▸ inside
      have width := ((row i within).mp (each i within)).1
      rwa [List.getD_eq_getElem _ _ inside] at width
    · rintro ⟨-, grid, each⟩
      refine ⟨grid.1, fun i inside => (row i inside).mpr ⟨?_, each i inside⟩⟩
      exact grid_get p.rows i [] _ _ grid inside
  · rw [multiply, if_neg fits]
    constructor
    · intro done
      cases done
    · intro product
      exact absurd product.1 fits

theorem dot_transpose (fits : l.columnCount = r.rowCount) (i j : Nat) :
    r.transpose.dot l.transpose j i = l.dot r i j := by
  have terms (k : Nat) : r.transpose.entry j k * l.transpose.entry k i = l.entry i k * r.entry k j := by
    rw [r.transpose_entry right, l.transpose_entry left, single_mul_comm]
  rw [dot, dot, (r.transpose_counts right).2, fits]
  exact congrArg sumOf (List.map_congr_left fun k _ => terms k)

theorem transpose_multiply (p : RealMatrix) (done : l.multiply r = .ok p) :
    r.transpose.multiply l.transpose = .ok p.transpose := by
  have product := multiply_rectangular l r left right p done
  obtain ⟨fits, grid, each⟩ := (multiply_ok_iff l r left right p).mp done
  obtain ⟨leftRows, leftColumns⟩ := l.transpose_counts left
  obtain ⟨rightRows, rightColumns⟩ := r.transpose_counts right
  obtain ⟨rows, columns⟩ := p.grid_counts _ _ (l.rectangular_grid left).1 grid
  rw [multiply_ok_iff _ _ (r.transpose_rectangular right) (l.transpose_rectangular left), leftRows, leftColumns,
    rightRows, rightColumns]
  refine ⟨fits.symm, ?_, ?_⟩
  · have turned := p.columns_grid
    rwa [rows, columns] at turned
  · intro j column i row
    rw [dot_transpose l r left right fits, p.transpose_entry product]
    exact each i row j column

end Products

theorem transposition_laws (rows rows' : List (List Float32)) (l r : RealMatrix) (left : ofRows rows = .ok l)
    (right : ofRows rows' = .ok r) :
    l.transpose.transpose = l ∧ (∀ i j, l.transpose.get i j = l.get j i) ∧
      ((∃ p, l.multiply r = .ok p) ↔ ∃ q, r.transpose.multiply l.transpose = .ok q) ∧
      ∀ p, l.multiply r = .ok p → r.transpose.multiply l.transpose = .ok p.transpose := by
  have leftShape := of_rows_rectangular rows l left
  have rightShape := of_rows_rectangular rows' r right
  have forward := transpose_multiply l r leftShape rightShape
  refine ⟨l.transpose_transpose leftShape, l.transpose_get leftShape, ⟨?_, ?_⟩, forward⟩
  · rintro ⟨p, done⟩
    exact ⟨p.transpose, forward p done⟩
  · rintro ⟨q, done⟩
    have back := transpose_multiply r.transpose l.transpose (r.transpose_rectangular rightShape)
      (l.transpose_rectangular leftShape) q done
    rw [l.transpose_transpose leftShape, r.transpose_transpose rightShape] at back
    exact ⟨q.transpose, back⟩

theorem row_times_column_transposed :
    ofRows [[1, 2, 3]] = .ok ⟨[[1, 2, 3]]⟩ ∧ ofRows [[4, 5], [6, 7], [8, 9]] = .ok ⟨[[4, 5], [6, 7], [8, 9]]⟩ ∧
      RealMatrix.multiply ⟨[[1, 2, 3]]⟩ ⟨[[4, 5], [6, 7], [8, 9]]⟩ = .ok ⟨[[40, 46]]⟩ ∧
      RealMatrix.multiply ⟨[[4, 6, 8], [5, 7, 9]]⟩ ⟨[[1], [2], [3]]⟩ = .ok ⟨[[40], [46]]⟩ := by
  have left : ofRows [[1, 2, 3]] = .ok ⟨[[1, 2, 3]]⟩ := rfl
  have right : ofRows [[4, 5], [6, 7], [8, 9]] = .ok ⟨[[4, 5], [6, 7], [8, 9]]⟩ := rfl
  have product : RealMatrix.multiply ⟨[[1, 2, 3]]⟩ ⟨[[4, 5], [6, 7], [8, 9]]⟩ = .ok ⟨[[40, 46]]⟩ := by decide +kernel
  exact ⟨left, right, product, (transposition_laws _ _ _ _ left right).2.2.2 _ product⟩

end RealMatrix

end GraphCalc

import Mathlib.LinearAlgebra.Matrix.Determinant.Basic
import GraphCalc.Proofs.Shape

set_option autoImplicit false

namespace GraphCalc

def Arithmetic.ofField (K : Type) [Field K] [LinearOrder K] : Arithmetic K where
  zero := 0
  one := 1
  neg := fun x => -x
  sub := fun x y => x - y
  mul := fun x y => x * y
  div := fun x y => x / y
  isZero := fun x => decide (x = 0)
  absLe := fun x y => decide (|x| ≤ |y|)

namespace Arithmetic

variable {K : Type} [Field K] [LinearOrder K] (x y : K)

@[simp]
theorem of_field_is_zero : (ofField K).isZero x = true ↔ x = 0 := decide_eq_true_iff

@[simp]
theorem of_field_abs_le : (ofField K).absLe x y = true ↔ |x| ≤ |y| := decide_eq_true_iff

end Arithmetic

namespace Elimination

section Pivots

variable {K : Type} [Field K] [LinearOrder K]

structure Pivot (column : List K) (i : Nat) (x : K) : Prop where
  entry : column[i]? = some x
  largest : ∀ y ∈ column, |y| ≤ |x|
  last : ∀ j y, i < j → column[j]? = some y → |y| < |x|

theorem pivot_replaced (column : List K) (i : Nat) (x y : K) (pivot : Pivot column i x) (larger : |x| ≤ |y|) :
    Pivot (column ++ [y]) column.length y := by
  refine ⟨by simp, ?_, ?_⟩
  · intro z member
    rcases List.mem_append.mp member with before | new
    · exact (pivot.largest z before).trans larger
    · rw [List.mem_singleton.mp new]
  · intro j z later found
    rw [List.getElem?_eq_none (by simp; omega)] at found
    cases found

theorem pivot_kept (column : List K) (i : Nat) (x y : K) (pivot : Pivot column i x) (smaller : |y| < |x|) :
    Pivot (column ++ [y]) i x := by
  have inside : i < column.length := (List.getElem?_eq_some_iff.mp pivot.entry).1
  refine ⟨by rw [List.getElem?_append_left inside, pivot.entry], ?_, ?_⟩
  · intro z member
    rcases List.mem_append.mp member with before | new
    · exact pivot.largest z before
    · rw [List.mem_singleton.mp new]
      exact smaller.le
  · intro j z later found
    by_cases before : j < column.length
    · rw [List.getElem?_append_left before] at found
      exact pivot.last j z later found
    · rw [List.getElem?_append_right (by omega)] at found
      rw [List.mem_singleton.mp (List.mem_of_getElem? found)]
      exact smaller

theorem pivot_from_pivot (column rest : List K) (best : K) (found : Nat) (pivot : Pivot column found best) :
    ∃ x, Pivot (column ++ rest) (pivotFrom (.ofField K) best found column.length rest) x := by
  induction rest generalizing column best found with
  | nil =>
      rw [List.append_nil]
      exact ⟨best, pivot⟩
  | cons y rest ih =>
      have grown : column ++ y :: rest = (column ++ [y]) ++ rest := by simp
      have size : column.length + 1 = (column ++ [y]).length := by simp
      rw [pivotFrom, grown, size]
      by_cases larger : |best| ≤ |y|
      · rw [if_pos ((Arithmetic.of_field_abs_le best y).mpr larger)]
        exact ih _ y _ (pivot_replaced column found best y pivot larger)
      · rw [if_neg (mt (Arithmetic.of_field_abs_le best y).mp larger)]
        exact ih _ best _ (pivot_kept column found best y pivot (not_le.mp larger))

theorem pivot_index_pivot (column : List K) (filled : column ≠ []) :
    ∃ x, Pivot column (pivotIndex (.ofField K) column) x := by
  cases column with
  | nil => exact absurd rfl filled
  | cons first rest =>
      apply pivot_from_pivot [first] rest first 0
      refine ⟨rfl, by simp, ?_⟩
      intro j y later found
      rw [List.getElem?_eq_none (by simp; omega)] at found
      cases found

theorem bring_up_perm {α : Type} (i : Nat) (rows : List (List α)) : (bringUp i rows).Perm rows := by
  cases rows with
  | nil => exact .refl _
  | cons first rest =>
      cases i with
      | zero => exact .refl _
      | succ k => exact List.getD_set_perm_cons rest k first

theorem bring_up_entry {α : Type} (i : Nat) (rows : List (List α)) (r : Nat) (inside : i < rows.length) :
    (bringUp i rows)[r]? = rows[if r = 0 then i else if r = i then 0 else r]? := by
  cases rows with
  | nil => cases inside
  | cons first rest =>
      cases i with
      | zero =>
          by_cases top : r = 0 <;> simp [bringUp, top]
      | succ k =>
          have bound : k < rest.length := by simpa using inside
          cases r with
          | zero => simp [bringUp, bound]
          | succ j =>
              by_cases here : j = k
              · simp [bringUp, here, bound]
              · simp [bringUp, here, Ne.symm here]

theorem pivot_row (rows : List (List K)) (filled : rows ≠ []) :
    ∃ top others, pivotIndex (.ofField K) (rows.map (lead (.ofField K))) < rows.length ∧
      bringUp (pivotIndex (.ofField K) (rows.map (lead (.ofField K)))) rows = top :: others ∧
        ∀ row ∈ rows, |lead (.ofField K) row| ≤ |lead (.ofField K) top| := by
  obtain ⟨x, pivot⟩ := pivot_index_pivot (rows.map (lead (.ofField K))) (by simpa using filled)
  generalize pivotIndex (.ofField K) (rows.map (lead (.ofField K))) = i at pivot
  obtain ⟨top, found, rfl⟩ : ∃ top, rows[i]? = some top ∧ lead (.ofField K) top = x := by
    simpa using pivot.entry
  have inside := (List.getElem?_eq_some_iff.mp found).1
  have first := bring_up_entry i rows 0 inside
  rw [if_pos rfl, found, ← List.head?_eq_getElem?] at first
  obtain ⟨others, shape⟩ := List.head?_eq_some_iff.mp first
  exact ⟨top, others, inside, shape, fun row member => pivot.largest _ (List.mem_map_of_mem member)⟩

end Pivots

section Determinants

variable {K : Type} [Field K]

def view (n : Nat) (rows : List (List K)) : Matrix (Fin n) (Fin n) K :=
  Matrix.of fun i j => (rows.getD i []).getD j 0

theorem view_bring_up (n : Nat) (i : Fin (n + 1)) (rows : List (List K)) (size : rows.length = n + 1) :
    view (n + 1) (bringUp i rows) = (view (n + 1) rows).submatrix (Equiv.swap 0 i) id := by
  ext r c
  have entry := bring_up_entry i rows r (by omega)
  have place : (if (r : Nat) = 0 then (i : Nat) else if (r : Nat) = i then 0 else r) = (Equiv.swap 0 i r : Fin (n + 1)) := by
    rw [Equiv.swap_apply_def]
    by_cases top : r = 0
    · simp [top]
    · by_cases here : r = i
      · subst here
        simp [top]
      · simp [top, here, Fin.val_inj]
  rw [place] at entry
  simp [view, entry]

theorem bring_up_determinant (n i : Nat) (rows : List (List K)) (size : rows.length = n + 1) (inside : i < rows.length) :
    (view (n + 1) (bringUp i rows)).det = (if i = 0 then 1 else -1) * (view (n + 1) rows).det := by
  have moved := view_bring_up n ⟨i, by omega⟩ rows size
  rw [moved, Matrix.det_permute]
  by_cases top : i = 0
  · subst top
    simp
  · rw [Equiv.Perm.sign_swap (by simpa [Fin.ext_iff] using Ne.symm top), if_neg top]
    simp

variable [LinearOrder K]

theorem lead_entry (row : List K) : lead (.ofField K) row = row.getD 0 0 := by
  cases row <;> rfl

theorem subtract_multiple_entry (factor : K) (row top : List K) (width : row.length = top.length) (j : Nat) :
    (subtractMultiple (.ofField K) factor row top).getD j 0 = row.getD (j + 1) 0 - factor * top.getD (j + 1) 0 := by
  by_cases inside : j + 1 < row.length
  · have topInside : j + 1 < top.length := by omega
    simp [subtractMultiple, List.getElem?_zipWith, List.getElem?_tail, inside, topInside, Arithmetic.ofField]
  · have topOutside : ¬ j + 1 < top.length := by omega
    simp [subtractMultiple, List.getElem?_zipWith, List.getElem?_tail, inside, topOutside]

-- The rows below the pivot, each less the multiple of the top row that clears its lead.
def clearedBelow (top : List K) (others : List (List K)) : List (List K) :=
  others.map fun row => subtractMultiple (.ofField K) (lead (.ofField K) row / lead (.ofField K) top) row top

theorem cleared_below_grid (n : Nat) (top : List K) (others : List (List K)) (width : top.length = n + 1)
    (grid : Grid others n (n + 1)) : Grid (clearedBelow top others) n n :=
  grid_map others _ n (n + 1) n grid fun row rowWidth => subtract_multiple_length _ _ row top (n + 1) rowWidth width

theorem cleared_below_determinant (n : Nat) (top : List K) (others : List (List K)) (width : top.length = n + 1)
    (grid : Grid others n (n + 1)) (nonzero : lead (.ofField K) top ≠ 0) :
    (view (n + 1) (top :: others)).det = lead (.ofField K) top * (view n (clearedBelow top others)).det := by
  let whole := view (n + 1) (top :: others)
  let factor : Fin (n + 1) → K := fun i => if i = 0 then 0 else whole i 0 / whole 0 0
  let cleared : Matrix (Fin (n + 1)) (Fin (n + 1)) K := Matrix.of fun i j => whole i j - factor i * whole 0 j
  have corner : whole 0 0 = lead (.ofField K) top := (lead_entry top).symm
  have first : cleared 0 0 = lead (.ofField K) top := by simp [cleared, factor, corner]
  have column (i : Fin n) : cleared i.succ 0 = 0 := by simp [cleared, factor, corner, nonzero]
  have below : cleared.submatrix Fin.succ Fin.succ = view n (clearedBelow top others) := by
    ext i j
    have inside : (i : Nat) < others.length := by rw [grid.1]; exact i.isLt
    have rowWidth := (grid_get others i [] n (n + 1) grid i.isLt).trans width.symm
    have entry := subtract_multiple_entry (lead (.ofField K) (others.getD i []) / lead (.ofField K) top) _ top rowWidth j
    simpa [cleared, factor, whole, clearedBelow, view, inside, lead_entry] using entry.symm
  calc
    whole.det = cleared.det := by
      refine Matrix.det_eq_of_forall_row_eq_smul_add_const factor 0 (if_pos rfl) fun i j => ?_
      simp [cleared, factor]
    _ = ∑ i : Fin (n + 1), (-1) ^ (i : Nat) * cleared i 0 * (cleared.submatrix i.succAbove Fin.succ).det :=
      Matrix.det_succ_column_zero cleared
    _ = cleared 0 0 * (cleared.submatrix Fin.succ Fin.succ).det := by
      rw [Fin.sum_univ_succ]
      simp [column]
    _ = lead (.ofField K) top * (view n (clearedBelow top others)).det := by rw [first, below]

theorem zero_column_determinant (n : Nat) (rows : List (List K)) (size : rows.length = n + 1)
    (zero : ∀ row ∈ rows, lead (.ofField K) row = 0) : (view (n + 1) rows).det = 0 := by
  refine Matrix.det_eq_zero_of_column_eq_zero 0 fun i => ?_
  have inside : (i : Nat) < rows.length := by omega
  have entry := zero _ (List.getElem_mem inside)
  rw [lead_entry] at entry
  simpa [view, inside] using entry

variable [IsStrictOrderedRing K]

theorem leads_zero (rows : List (List K)) (top : List K) (zero : lead (.ofField K) top = 0)
    (largest : ∀ row ∈ rows, |lead (.ofField K) row| ≤ |lead (.ofField K) top|) :
    ∀ row ∈ rows, lead (.ofField K) row = 0 := by
  intro row member
  have bound := largest row member
  rwa [zero, abs_zero, abs_nonpos_iff] at bound

theorem determinant_from_view (n : Nat) (rows : List (List K)) (grid : Grid rows n n) (product : K) :
    determinantFrom (.ofField K) product n rows = product * (view n rows).det := by
  induction n generalizing rows product with
  | zero => simp [determinantFrom]
  | succ n ih =>
      obtain ⟨top, others, inside, raised, largest⟩ := pivot_row rows (List.ne_nil_of_length_eq_add_one grid.1)
      have sign := bring_up_determinant n _ rows grid.1 inside
      have raisedGrid := bring_up_grid (pivotIndex (.ofField K) (rows.map (lead (.ofField K)))) rows (n + 1) (n + 1) grid
      rw [raised] at sign raisedGrid
      obtain ⟨width, othersGrid⟩ := (grid_cons top others n (n + 1)).mp raisedGrid
      simp only [determinantFrom, raised]
      by_cases zero : lead (.ofField K) top = 0
      · rw [if_pos ((Arithmetic.of_field_is_zero _).mpr zero),
          zero_column_determinant n rows grid.1 (leads_zero rows top zero largest), mul_zero]
        rfl
      · rw [if_neg (mt (Arithmetic.of_field_is_zero _).mp zero)]
        generalize pivotIndex (.ofField K) (rows.map (lead (.ofField K))) = i at sign
        calc
          _ = (if i = 0 then product else -product) * lead (.ofField K) top * (view n (clearedBelow top others)).det :=
            ih (clearedBelow top others) (cleared_below_grid n top others width othersGrid) _
          _ = (if i = 0 then product else -product) * (view (n + 1) (top :: others)).det := by
            rw [cleared_below_determinant n top others width othersGrid zero, mul_assoc]
          _ = product * (view (n + 1) rows).det := by
            rw [sign]
            by_cases stays : i = 0 <;> simp [stays]

end Determinants

end Elimination

end GraphCalc

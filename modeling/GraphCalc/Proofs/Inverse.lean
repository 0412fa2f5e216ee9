import Mathlib.LinearAlgebra.Matrix.Notation
import Mathlib.LinearAlgebra.Matrix.ToLinearEquiv
import Mathlib.Algebra.Order.Ring.Rat
import GraphCalc.Proofs.Determinant

/-!
Inverses by elimination, without rounding. The rows stand for a system of equations, the matrix at the left
and the right-hand side at the right, and every column taken up keeps its solutions. At the end the rows read
the solution off the right-hand side, which is the inverse; a column without a pivot leaves a solution that
is not zero for a right-hand side that is, so then the determinant is zero.
-/

set_option autoImplicit false

namespace GraphCalc

namespace Elimination

section Systems

variable {K : Type} [Field K]

def dot (row z : List K) : K := (List.zipWith (· * ·) row z).sum

theorem dot_zeros (row : List K) (n : Nat) : dot row (List.replicate n 0) = 0 := by
  induction row generalizing n with
  | nil => rfl
  | cons x row ih =>
      cases n with
      | zero => rfl
      | succ n =>
          have rest := ih n
          simp only [dot, List.replicate_succ, List.zipWith_cons_cons, List.sum_cons] at rest ⊢
          rw [rest, mul_zero, zero_add]

theorem dot_append (row row' z z' : List K) (width : row.length = z.length) :
    dot (row ++ row') (z ++ z') = dot row z + dot row' z' := by
  rw [dot, List.zipWith_append width, List.sum_append]
  rfl

theorem dot_scaled (row z : List K) (p : K) : dot (row.map (· / p)) z = dot row z / p := by
  induction row generalizing z with
  | nil => simp [dot]
  | cons x row ih =>
      cases z with
      | nil => simp [dot]
      | cons c z =>
          have rest := ih z
          simp only [dot, List.map_cons, List.zipWith_cons_cons, List.sum_cons] at rest ⊢
          rw [rest]
          ring

variable [LinearOrder K]

theorem dot_lead (row z : List K) (c : K) : dot row (c :: z) = lead (.ofField K) row * c + dot row.tail z := by
  cases row with
  | nil => simp [dot, lead, Arithmetic.ofField]
  | cons x row => simp [dot, lead]

theorem dot_subtracted (row top z : List K) (factor : K) (width : row.length = top.length) :
    dot (subtractMultiple (.ofField K) factor row top) z = dot row.tail z - factor * dot top.tail z := by
  have tails : row.tail.length = top.tail.length := by simp [width]
  rw [subtractMultiple]
  generalize row.tail = row at tails
  generalize top.tail = top at tails
  induction row generalizing top z with
  | nil =>
      rw [List.eq_nil_of_length_eq_zero tails.symm]
      simp [dot]
  | cons x row ih =>
      cases top with
      | nil => cases tails
      | cons t top =>
          cases z with
          | nil => simp [dot]
          | cons c z =>
              have rest := ih z top (Nat.succ.inj tails)
              simp only [dot, List.zipWith_cons_cons, List.sum_cons] at rest ⊢
              rw [rest]
              simp only [Arithmetic.ofField]
              ring

-- A solution of the system that the rows stand for: `xs` for the columns already taken up, one for every
-- solved row, and `z` for the others.
structure Solution (solved rows : List (List K)) (xs z : List K) : Prop where
  solved : ∀ pair ∈ solved.zip xs, pair.2 + dot pair.1 z = 0
  zero : ∀ row ∈ rows, dot row z = 0

def scaledRow (top : List K) : List K := top.map fun x => x / lead (.ofField K) top

def clearedBy (top row : List K) : List K := subtractMultiple (.ofField K) (lead (.ofField K) row) row (scaledRow top)

theorem scaled_row_dot (top z : List K) (c : K) (nonzero : lead (.ofField K) top ≠ 0) :
    c + dot (scaledRow top).tail z = dot top (c :: z) / lead (.ofField K) top := by
  rw [scaledRow, ← List.map_tail, dot_scaled, dot_lead, add_div, mul_div_cancel_left₀ c nonzero]

theorem cleared_by_dot (top row z : List K) (c : K) (width : row.length = top.length)
    (held : c + dot (scaledRow top).tail z = 0) : dot (clearedBy top row) z = dot row (c :: z) := by
  rw [clearedBy, dot_subtracted row _ z _ (by rw [width, scaledRow, List.length_map]), dot_lead]
  rw [eq_neg_of_add_eq_zero_right held]
  ring

theorem solution_step (solved others : List (List K)) (top xs z : List K) (c : K) (count : solved.length = xs.length)
    (solvedWidth : ∀ row ∈ solved, row.length = top.length) (width : ∀ row ∈ others, row.length = top.length)
    (nonzero : lead (.ofField K) top ≠ 0) :
    Solution solved (top :: others) xs (c :: z) ↔
      Solution (solved.map (clearedBy top) ++ [(scaledRow top).tail]) (others.map (clearedBy top)) (xs ++ [c]) z := by
  have pairs : (solved.map (clearedBy top) ++ [(scaledRow top).tail]).zip (xs ++ [c]) =
      (solved.zip xs).map (Prod.map (clearedBy top) id) ++ [((scaledRow top).tail, c)] := by
    rw [List.zip_append (by rw [List.length_map, count]), List.zip_map_left]
    rfl
  have same (held : c + dot (scaledRow top).tail z = 0) (row : List K) (among : row.length = top.length) :=
    cleared_by_dot top row z c among held
  have inSolved (pair : List K × K) (member : pair ∈ solved.zip xs) : pair.1.length = top.length :=
    solvedWidth pair.1 (List.of_mem_zip member).1
  refine ⟨fun solution => ?_, fun solution => ?_⟩
  · have held : c + dot (scaledRow top).tail z = 0 := by
      rw [scaled_row_dot top z c nonzero, solution.zero top (by simp), zero_div]
    refine ⟨?_, ?_⟩
    · rw [pairs]
      intro pair member
      rcases List.mem_append.mp member with before | new
      · obtain ⟨source, among, rfl⟩ := List.mem_map.mp before
        change source.2 + dot (clearedBy top source.1) z = 0
        rw [same held _ (inSolved source among)]
        exact solution.solved source among
      · rw [List.mem_singleton.mp new]
        exact held
    · intro row member
      obtain ⟨source, among, rfl⟩ := List.mem_map.mp member
      rw [same held source (width source among)]
      exact solution.zero source (by simp [among])
  · have solvedNow := solution.solved
    rw [pairs] at solvedNow
    have held : c + dot (scaledRow top).tail z = 0 := solvedNow ((scaledRow top).tail, c) (by simp)
    refine ⟨?_, ?_⟩
    · intro pair member
      rw [← same held _ (inSolved pair member)]
      exact solvedNow (Prod.map (clearedBy top) id pair) (List.mem_append_left _ (List.mem_map_of_mem member))
    · intro row member
      rcases List.mem_cons.mp member with rfl | among
      · rw [scaled_row_dot row z c nonzero, div_eq_zero_iff] at held
        exact held.resolve_right nonzero
      · rw [← same held row (width row among)]
        exact solution.zero _ (List.mem_map_of_mem among)

omit [LinearOrder K] in
theorem solution_perm (solved rows rows' : List (List K)) (xs z : List K) (perm : rows.Perm rows') :
    Solution solved rows xs z ↔ Solution solved rows' xs z :=
  ⟨fun solution => ⟨solution.solved, fun row member => solution.zero row (perm.mem_iff.mpr member)⟩,
    fun solution => ⟨solution.solved, fun row member => solution.zero row (perm.mem_iff.mp member)⟩⟩

-- One column is taken up: a row more is solved, and the solutions are the same.
structure TakenUp (n k c : Nat) (solved rows solved' rows' : List (List K)) : Prop where
  next : invertFrom (.ofField K) (n + 1) solved rows = invertFrom (.ofField K) n solved' rows'
  solvedGrid : Grid solved' (k + 1) (c - 1)
  grid : Grid rows' n (c - 1)
  solutions : ∀ xs z x, xs.length = k → (Solution solved rows xs (x :: z) ↔ Solution solved' rows' (xs ++ [x]) z)

variable [IsStrictOrderedRing K]

theorem invert_from_step (n k c : Nat) (solved rows : List (List K)) (solvedGrid : Grid solved k c)
    (grid : Grid rows (n + 1) c) :
    (invertFrom (.ofField K) (n + 1) solved rows = none ∧ ∀ row ∈ rows, lead (.ofField K) row = 0) ∨
      ∃ solved' rows', TakenUp n k c solved rows solved' rows' := by
  obtain ⟨top, others, _, raised, largest⟩ := pivot_row rows (List.ne_nil_of_length_eq_add_one grid.1)
  have perm := bring_up_perm (pivotIndex (.ofField K) (rows.map (lead (.ofField K)))) rows
  have raisedGrid := bring_up_grid (pivotIndex (.ofField K) (rows.map (lead (.ofField K)))) rows (n + 1) c grid
  rw [raised] at perm raisedGrid
  obtain ⟨width, othersGrid⟩ := (grid_cons top others n c).mp raisedGrid
  by_cases zero : lead (.ofField K) top = 0
  · refine Or.inl ⟨?_, leads_zero rows top zero largest⟩
    simp only [invertFrom, raised]
    rw [if_pos ((Arithmetic.of_field_is_zero _).mpr zero)]
  · have scaledWidth : (scaledRow top).length = c := by rw [scaledRow, List.length_map, width]
    have cleared (row : List K) (rowWidth : row.length = c) : (clearedBy top row).length = c - 1 :=
      subtract_multiple_length _ _ row _ c rowWidth scaledWidth
    refine Or.inr ⟨solved.map (clearedBy top) ++ [(scaledRow top).tail], others.map (clearedBy top), ?_, ?_, ?_, ?_⟩
    · simp only [invertFrom, raised]
      rw [if_neg (mt (Arithmetic.of_field_is_zero _).mp zero)]
      rfl
    · exact grid_append _ _ k 1 (c - 1) (grid_map solved _ k c (c - 1) solvedGrid cleared) ⟨rfl, by simp [scaledWidth]⟩
    · exact grid_map others _ n c (c - 1) othersGrid cleared
    · intro xs z x count
      rw [← solution_perm solved _ _ xs _ perm]
      exact solution_step solved others top xs z x (solvedGrid.1.trans count.symm)
        (fun row member => (solvedGrid.2 row member).trans width.symm)
        (fun row member => (othersGrid.2 row member).trans width.symm) zero

theorem invert_from_solutions (n k c : Nat) (solved rows out : List (List K)) (solvedGrid : Grid solved k c)
    (grid : Grid rows n c) (done : invertFrom (.ofField K) n solved rows = some out) (xs us y : List K)
    (count : xs.length = k) (left : us.length = n) :
    Solution solved rows xs (us ++ y) ↔ Solution out [] (xs ++ us) y := by
  induction n generalizing k c solved rows xs us with
  | zero =>
      cases done
      rw [List.eq_nil_of_length_eq_zero left, List.eq_nil_of_length_eq_zero grid.1, List.append_nil]
      rfl
  | succ n ih =>
      obtain ⟨x, us, rfl⟩ := List.exists_cons_of_length_eq_add_one left
      rcases invert_from_step n k c solved rows solvedGrid grid with ⟨failed, _⟩ | ⟨solved', rows', taken⟩
      · rw [failed] at done
        cases done
      · have later := ih (k + 1) (c - 1) solved' rows' taken.solvedGrid taken.grid (taken.next ▸ done) (xs ++ [x]) us
          (by simp [count]) (by simpa using left)
        rw [List.cons_append, taken.solutions xs _ x count, later, List.append_assoc]
        rfl

-- A column without a pivot leaves a solution that is not zero, though the right-hand side is.
theorem invert_from_singular (n k c : Nat) (solved rows : List (List K)) (solvedGrid : Grid solved k c)
    (grid : Grid rows n c) (failed : invertFrom (.ofField K) n solved rows = none) (m : Nat) :
    ∃ xs us : List K, xs.length = k ∧ us.length = n ∧ (∃ u ∈ us, u ≠ 0) ∧
      Solution solved rows xs (us ++ List.replicate m 0) := by
  induction n generalizing k c solved rows with
  | zero => cases failed
  | succ n ih =>
      rcases invert_from_step n k c solved rows solvedGrid grid with ⟨_, zero⟩ | ⟨solved', rows', taken⟩
      · have alone (row : List K) : dot row (1 :: List.replicate (n + m) 0) = lead (.ofField K) row := by
          rw [dot_lead, dot_zeros, mul_one, add_zero]
        refine ⟨solved.map fun row => -lead (.ofField K) row, 1 :: List.replicate n 0, by rw [List.length_map, solvedGrid.1],
          by simp, ⟨1, by simp, one_ne_zero⟩, ?_⟩
        rw [List.cons_append, List.replicate_append_replicate]
        refine ⟨?_, fun row member => (alone row).trans (zero row member)⟩
        intro pair member
        obtain ⟨i, bound, rfl⟩ := List.mem_iff_getElem.mp member
        rw [List.getElem_zip, List.getElem_map]
        dsimp only
        rw [alone, neg_add_cancel]
      · obtain ⟨xs', us, count, left, nonzero, solution⟩ := ih (k + 1) (c - 1) solved' rows' taken.solvedGrid taken.grid
          (taken.next ▸ failed)
        obtain ⟨xs, x, rfl⟩ := (List.eq_nil_or_concat' xs').resolve_left (List.ne_nil_of_length_eq_add_one count)
        have before : xs.length = k := by simpa using count
        obtain ⟨u, member, different⟩ := nonzero
        exact ⟨xs, x :: us, before, by rw [List.length_cons, left], ⟨u, List.mem_cons_of_mem x member, different⟩,
          (taken.solutions xs _ x before).mpr solution⟩

end Systems

section Inverses

def rowsOf {α : Type} {n : Nat} (M : Matrix (Fin n) (Fin n) α) : List (List α) := List.ofFn fun i => List.ofFn (M i)

theorem rows_of_grid {α : Type} {n : Nat} (M : Matrix (Fin n) (Fin n) α) : Grid (rowsOf M) n n := by
  refine ⟨List.length_ofFn, ?_⟩
  intro row member
  obtain ⟨i, rfl⟩ := (List.mem_ofFn' _ _).mp member
  exact List.length_ofFn

variable {K : Type} [Field K] {n : Nat}

theorem view_rows_of (M : Matrix (Fin n) (Fin n) K) : view n (rowsOf M) = M := by
  ext i j
  simp [view, rowsOf]

theorem rows_of_view (rows : List (List K)) (grid : Grid rows n n) : rowsOf (view n rows) = rows := by
  refine List.ext_getElem (by rw [(rows_of_grid _).1, grid.1]) fun i _ inside => ?_
  have width := grid.2 _ (List.getElem_mem inside)
  refine List.ext_getElem (by simp [rowsOf, width]) fun j _ within => ?_
  simp [rowsOf, view, inside, within]

theorem dot_of_fn (a x : Fin n → K) : dot (List.ofFn a) (List.ofFn x) = a ⬝ᵥ x := by
  induction n with
  | zero => simp [dot]
  | succ n ih =>
      have rest := ih (fun i => a i.succ) fun i => x i.succ
      simp only [dot, dotProduct] at rest ⊢
      rw [List.ofFn_succ, List.ofFn_succ, List.zipWith_cons_cons, List.sum_cons, rest, Fin.sum_univ_succ]

theorem solution_solved (B : Matrix (Fin n) (Fin n) K) (x w : Fin n → K) :
    Solution (rowsOf B) [] (List.ofFn x) (List.ofFn w) ↔ x + B.mulVec w = 0 := by
  have pairs : (rowsOf B).zip (List.ofFn x) = List.ofFn fun i => (List.ofFn (B i), x i) :=
    List.ext_getElem (by simp [rowsOf]) fun i _ _ => by simp [rowsOf]
  have each : (∀ pair ∈ (rowsOf B).zip (List.ofFn x), pair.2 + dot pair.1 (List.ofFn w) = 0) ↔ x + B.mulVec w = 0 := by
    rw [pairs, List.forall_mem_ofFn_iff, funext_iff]
    simp only [dot_of_fn]
    rfl
  exact ⟨fun solution => each.mp solution.solved, fun equal => ⟨each.mpr equal, by simp⟩⟩

variable [LinearOrder K]

theorem unit_row_single (i : Fin n) : unitRow (.ofField K) n i = List.ofFn (Pi.single i 1 : Fin n → K) := by
  refine List.ext_getElem (by simp [unitRow]) fun j _ _ => ?_
  simp [unitRow, Pi.single_apply, Fin.ext_iff, eq_comm, Arithmetic.ofField]

def extended (M : Matrix (Fin n) (Fin n) K) : List (List K) :=
  (rowsOf M).mapIdx fun r row => row ++ unitRow (.ofField K) (rowsOf M).length r

theorem extended_rows (M : Matrix (Fin n) (Fin n) K) :
    extended M = List.ofFn fun i => List.ofFn (M i) ++ List.ofFn (Pi.single i 1 : Fin n → K) := by
  refine List.ext_getElem (by simp [extended, rowsOf]) fun i _ inside => ?_
  have bound : i < n := by simpa using inside
  have unit := unit_row_single (K := K) ⟨i, bound⟩
  simp only [extended, List.getElem_mapIdx, (rows_of_grid M).1, unit]
  simp [rowsOf]

theorem extended_grid (M : Matrix (Fin n) (Fin n) K) : Grid (extended M) n (n + n) := by
  rw [extended_rows]
  refine ⟨List.length_ofFn, ?_⟩
  rw [List.forall_mem_ofFn_iff]
  intro i
  rw [List.length_append, List.length_ofFn, List.length_ofFn]

theorem solution_extended (M : Matrix (Fin n) (Fin n) K) (x w : Fin n → K) :
    Solution [] (extended M) [] (List.ofFn x ++ List.ofFn w) ↔ M.mulVec x + w = 0 := by
  have each : (∀ row ∈ extended M, dot row (List.ofFn x ++ List.ofFn w) = 0) ↔ M.mulVec x + w = 0 := by
    rw [extended_rows, List.forall_mem_ofFn_iff, funext_iff]
    refine forall_congr' fun i => ?_
    rw [dot_append _ _ _ _ (by simp), dot_of_fn, dot_of_fn, single_one_dotProduct]
    rfl
  exact ⟨fun solution => each.mp solution.zero, fun equal => ⟨by simp, each.mpr equal⟩⟩

variable [IsStrictOrderedRing K]

omit [IsStrictOrderedRing K] in
theorem inverse_extended (M : Matrix (Fin n) (Fin n) K) :
    inverse (.ofField K) (rowsOf M) = invertFrom (.ofField K) n [] (extended M) := by
  change invertFrom _ (rowsOf M).length [] (extended M) = _
  rw [(rows_of_grid M).1]

theorem inverse_found (M : Matrix (Fin n) (Fin n) K) (out : List (List K))
    (done : inverse (.ofField K) (rowsOf M) = some out) : ∃ B, out = rowsOf B ∧ M * B = 1 := by
  have grid := inverse_grid _ _ out n (rows_of_grid M) done
  refine ⟨view n out, (rows_of_view out grid).symm, Matrix.mulVec_injective (funext fun w => ?_)⟩
  rw [inverse_extended] at done
  have solutions := invert_from_solutions n 0 (n + n) [] (extended M) out ⟨rfl, by simp⟩ (extended_grid M) done []
    (List.ofFn (-(view n out).mulVec w)) (List.ofFn w) rfl List.length_ofFn
  rw [solution_extended, List.nil_append, ← rows_of_view out grid, solution_solved, view_rows_of] at solutions
  have solved := solutions.mpr (neg_add_cancel _)
  rw [Matrix.mulVec_neg, neg_add_eq_zero, Matrix.mulVec_mulVec] at solved
  rw [solved, Matrix.one_mulVec]

theorem inverse_missing (M : Matrix (Fin n) (Fin n) K) (failed : inverse (.ofField K) (rowsOf M) = none) : M.det = 0 := by
  rw [inverse_extended] at failed
  obtain ⟨xs, us, none, left, ⟨u, member, nonzero⟩, solution⟩ :=
    invert_from_singular n 0 (n + n) [] (extended M) ⟨rfl, by simp⟩ (extended_grid M) failed n
  obtain ⟨x, rfl⟩ : ∃ x : Fin n → K, us = List.ofFn x := by
    subst left
    exact ⟨us.get, (List.ofFn_get us).symm⟩
  obtain ⟨i, rfl⟩ := (List.mem_ofFn' _ _).mp member
  rw [List.eq_nil_of_length_eq_zero none, ← List.ofFn_const, solution_extended] at solution
  refine Matrix.exists_mulVec_eq_zero_iff.mp ⟨x, fun zero => nonzero (congrFun zero i), ?_⟩
  rw [← solution]
  exact (add_zero _).symm

end Inverses

section Checked

variable {α : Type} (A : Arithmetic α) (rows : List (List α))

-- Both with the check of the shape that comes first, and with what they report.
def checkedDeterminant : Except Cause α :=
  if rows.length = (rows.headD []).length then .ok (determinant A rows) else .error .invalidDim

def checkedInverse : Except Cause (List (List α)) :=
  if rows.length = (rows.headD []).length then
    match inverse A rows with
    | some out => .ok out
    | none => .error .divideByZero
  else .error .invalidDim

theorem grid_width (r c : Nat) (grid : Grid rows r c) (filled : 0 < r) : (rows.headD []).length = c := by
  cases rows with
  | nil => exact absurd grid.1 (by simpa using filled.ne)
  | cons first rest => exact grid.2 first (by simp)

theorem square_width (n : Nat) (grid : Grid rows n n) : rows.length = (rows.headD []).length := by
  cases rows with
  | nil => rfl
  | cons first rest => exact grid.1.trans (grid.2 first (by simp)).symm

theorem checked_not_square (r c : Nat) (grid : Grid rows r c) (filled : 0 < r) (different : r ≠ c) :
    checkedDeterminant A rows = .error .invalidDim ∧ checkedInverse A rows = .error .invalidDim := by
  have refused : rows.length ≠ (rows.headD []).length := by
    rwa [grid.1, grid_width rows r c grid filled]
  exact ⟨if_neg refused, if_neg refused⟩

end Checked

end Elimination

namespace RealMatrix

open Elimination

theorem widened_square (m : RealMatrix) : m.isSquare = true ↔ m.widened.length = (m.widened.headD []).length := by
  rw [isSquare, beq_iff_eq, rowCount, columnCount, widened, List.length_map]
  cases m.rows <;> simp

theorem determinant_checked (m : RealMatrix) :
    m.determinant = (checkedDeterminant doubles m.widened).bind fun d => finite (narrow d) := by
  rw [determinant, checkedDeterminant]
  by_cases square : m.isSquare = true
  · rw [if_pos square, if_pos (m.widened_square.mp square)]
    rfl
  · rw [if_neg square, if_neg (mt m.widened_square.mpr square)]
    rfl

theorem inverse_checked (m : RealMatrix) :
    m.inverse = (checkedInverse doubles m.widened).bind fun rows =>
      (rows.mapM fun (row : List Float) => row.mapM fun x => finite (narrow x)).map mk := by
  rw [inverse, checkedInverse]
  by_cases square : m.isSquare = true
  · rw [if_pos square, if_pos (m.widened_square.mp square)]
    cases Elimination.inverse doubles m.widened <;> rfl
  · rw [if_neg square, if_neg (mt m.widened_square.mpr square)]
    rfl

end RealMatrix

namespace Elimination

theorem exact_determinant_and_inverse (K : Type) [Field K] [LinearOrder K] [IsStrictOrderedRing K] (n : Nat)
    (M : Matrix (Fin n) (Fin n) K) :
    checkedDeterminant (.ofField K) (rowsOf M) = .ok M.det ∧
      (checkedInverse (.ofField K) (rowsOf M) = .error .divideByZero ↔ M.det = 0) ∧
      (M.det ≠ 0 → ∃ B, checkedInverse (.ofField K) (rowsOf M) = .ok (rowsOf B) ∧ M * B = 1 ∧ B * M = 1) ∧
      (∀ column : List K, column ≠ [] → ∃ x, Pivot column (pivotIndex (.ofField K) column) x) ∧
      (∀ (rows : List (List K)) (r c : Nat), Grid rows r c → 0 < r → r ≠ c →
        checkedDeterminant (.ofField K) rows = .error .invalidDim ∧ checkedInverse (.ofField K) rows = .error .invalidDim) ∧
      ∀ m : RealMatrix,
        m.determinant = (checkedDeterminant RealMatrix.doubles m.widened).bind (fun d => finite (narrow d)) ∧
          m.inverse = (checkedInverse RealMatrix.doubles m.widened).bind fun rows =>
            (rows.mapM fun (row : List Float) => row.mapM fun x => finite (narrow x)).map .mk := by
  have grid := rows_of_grid M
  have square := square_width (rowsOf M) n grid
  have found (out : List (List K)) (done : inverse (.ofField K) (rowsOf M) = some out) :
      checkedInverse (.ofField K) (rowsOf M) = .ok out := by
    rw [checkedInverse, if_pos square, done]
  have missing (failed : inverse (.ofField K) (rowsOf M) = none) :
      checkedInverse (.ofField K) (rowsOf M) = .error .divideByZero := by
    rw [checkedInverse, if_pos square, failed]
  refine ⟨?_, ?_, ?_, pivot_index_pivot, fun rows r c => checked_not_square _ rows r c, fun m =>
    ⟨m.determinant_checked, m.inverse_checked⟩⟩
  · have value := determinant_from_view n (rowsOf M) grid 1
    rw [view_rows_of, one_mul] at value
    rw [checkedDeterminant, if_pos square, determinant, grid.1]
    exact congrArg Except.ok value
  · cases outcome : inverse (.ofField K) (rowsOf M) with
    | none => exact iff_of_true (missing outcome) (inverse_missing M outcome)
    | some out =>
        obtain ⟨B, -, product⟩ := inverse_found M out outcome
        have unit := Matrix.isUnit_det_of_right_inverse product
        refine iff_of_false ?_ unit.ne_zero
        rw [found out outcome]
        simp
  · intro regular
    cases outcome : inverse (.ofField K) (rowsOf M) with
    | none => exact absurd (inverse_missing M outcome) regular
    | some out =>
        obtain ⟨B, rfl, product⟩ := inverse_found M out outcome
        exact ⟨B, found _ outcome, product, mul_eq_one_comm.mp product⟩

-- The first matrix needs an exchange of rows, the second has none to offer for its last column.
theorem two_by_two_determinant_and_inverse :
    checkedDeterminant (.ofField ℚ) (rowsOf !![0, 2; 1, 3]) = .ok (-2) ∧
      (∃ B, checkedInverse (.ofField ℚ) (rowsOf !![0, 2; 1, 3]) = .ok (rowsOf B) ∧
        !![0, 2; 1, 3] * B = 1 ∧ B * !![0, 2; 1, 3] = 1) ∧
      checkedInverse (.ofField ℚ) (rowsOf !![1, 2; 2, 4]) = .error .divideByZero := by
  have regular := exact_determinant_and_inverse ℚ 2 !![0, 2; 1, 3]
  have singular := exact_determinant_and_inverse ℚ 2 !![1, 2; 2, 4]
  have value : Matrix.det !![(0 : ℚ), 2; 1, 3] = -2 := by simp [Matrix.det_fin_two]
  have zero : Matrix.det !![(1 : ℚ), 2; 2, 4] = 0 := by norm_num [Matrix.det_fin_two]
  rw [value] at regular
  exact ⟨regular.1, regular.2.2.1 (by norm_num), singular.2.1.mpr zero⟩

end Elimination

end GraphCalc

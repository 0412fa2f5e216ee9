import GraphCalc.Operation.Counting
import GraphCalc.Proofs.Exactness
import Mathlib.Data.Nat.Choose.Basic

set_option autoImplicit false

namespace GraphCalc.Counting

open Rounding

section Loop

variable {α : Type} (ofCount : UInt64 → α) (mul div : α → α → α) (n : UInt64)

-- The loop runs forward; seen from its end, one more step is taken on what it had before.
theorem choose_up_next (value : α) (k : UInt64) (left : Nat) :
    chooseUp ofCount mul div n value k (left + 1) =
      div (mul (chooseUp ofCount mul div n value k left) (ofCount (n - (k + .ofNat left))))
        (ofCount (k + .ofNat left + 1)) := by
  induction left generalizing value k with
  | zero =>
      rw [chooseUp, chooseUp, chooseUp]
      simp
  | succ left ih =>
      have later : k + 1 + .ofNat left = k + .ofNat (left + 1) := by
        rw [UInt64.ofNat_add, UInt64.add_assoc, UInt64.add_comm 1]
        rfl
      rw [chooseUp, ih, later]
      rfl

end Loop

section Words

theorem count_word (n : UInt64) (k : Nat) (inside : k < n.toNat) : (UInt64.ofNat k).toNat = k :=
  UInt64.toNat_ofNat_of_lt' (lt_trans inside n.toNat_lt)

-- The counter stays below `n`, so neither the difference nor the next count leaves the word.
theorem rest_of_count (n : UInt64) (k : Nat) (inside : k < n.toNat) : (n - .ofNat k).toNat = n.toNat - k := by
  have word := count_word n k inside
  rw [UInt64.toNat_sub_of_le _ _ (by rw [UInt64.le_iff_toNat_le, word]; omega), word]

theorem next_count (n : UInt64) (k : Nat) (inside : k < n.toNat) : (.ofNat k + 1 : UInt64).toNat = k + 1 := by
  have bound := n.toNat_lt
  rw [UInt64.toNat_add, count_word n k inside]
  exact Nat.mod_eq_of_lt (by change k + 1 < 2 ^ 64; omega)

end Words

-- What the loop has after so many steps, in exact fractions and in double precision.
def exactSteps (n : UInt64) (k : Nat) : ℚ := chooseUp (fun c => (c.toNat : ℚ)) (· * ·) (· / ·) n 1 0 k

def doubleSteps (n : UInt64) (k : Nat) : Float := chooseUp UInt64.toFloat (· * ·) (· / ·) n 1 0 k

def exactCombinations (n r : UInt64) : ℚ := combinationsWith (fun c => (c.toNat : ℚ)) (· * ·) (· / ·) 0 1 n r

theorem exact_steps_next (n : UInt64) (k : Nat) (inside : k < n.toNat) :
    exactSteps n (k + 1) = exactSteps n k * (n.toNat - k : ℕ) / (k + 1 : ℕ) := by
  rw [exactSteps, choose_up_next, UInt64.zero_add, rest_of_count n k inside, next_count n k inside]
  rfl

theorem double_steps_next (n : UInt64) (k : Nat) :
    doubleSteps n (k + 1) = doubleSteps n k * (n - .ofNat k).toFloat / (.ofNat k + 1 : UInt64).toFloat := by
  rw [doubleSteps, choose_up_next, UInt64.zero_add]
  rfl

theorem choose_next (n k : Nat) : (n.choose k : ℚ) * (n - k : ℕ) / (k + 1 : ℕ) = n.choose (k + 1) := by
  rw [div_eq_iff (Nat.cast_ne_zero.mpr (Nat.succ_ne_zero k))]
  exact_mod_cast (Nat.choose_succ_right_eq n k).symm

theorem exact_steps_choose (n : UInt64) (k : Nat) (inside : k ≤ n.toNat) : exactSteps n k = n.toNat.choose k := by
  induction k with
  | zero => rw [Nat.choose_zero_right, Nat.cast_one]; rfl
  | succ k ih => rw [exact_steps_next n k inside, ih (Nat.le_of_succ_le inside), choose_next]

section Result

variable {α : Type} (ofCount : UInt64 → α) (mul div : α → α → α) (zero one : α) (n r : UInt64)

theorem combinations_larger (larger : n < r) : combinationsWith ofCount mul div zero one n r = zero := if_pos larger

theorem combinations_steps (inside : r ≤ n) : combinationsWith ofCount mul div zero one n r =
    chooseUp ofCount mul div n one 0 (min r.toNat (n.toNat - r.toNat)) := by
  have rest : (n - r).toNat = n.toNat - r.toNat := UInt64.toNat_sub_of_le n r inside
  have smaller : (if r ≤ n - r then r else n - r).toNat = min r.toNat (n.toNat - r.toNat) := by
    by_cases less : r ≤ n - r
    · rw [if_pos less]
      rw [UInt64.le_iff_toNat_le, rest] at less
      omega
    · rw [if_neg less]
      rw [UInt64.le_iff_toNat_le, rest] at less
      omega
  rw [← smaller]
  exact if_neg (UInt64.not_lt.mpr inside)

end Result

theorem choose_smaller (n r : Nat) (inside : r ≤ n) : n.choose (min r (n - r)) = n.choose r := by
  rcases le_total r (n - r) with less | less
  · rw [min_eq_left less]
  · rw [min_eq_right less, Nat.choose_symm inside]

theorem exact_combinations_choose (n r : UInt64) : exactCombinations n r = n.toNat.choose r.toNat := by
  by_cases inside : r ≤ n
  · have size := UInt64.le_iff_toNat_le.mp inside
    rw [exactCombinations, combinations_steps _ _ _ _ _ _ _ inside, ← choose_smaller _ _ size]
    exact exact_steps_choose n _ (by omega)
  · have larger := UInt64.not_le.mp inside
    rw [exactCombinations, combinations_larger _ _ _ _ _ _ _ larger,
      Nat.choose_eq_zero_of_lt (UInt64.lt_iff_toNat_lt.mp larger), Nat.cast_zero]

-- The step is taken without rounding: both counts, the product and the quotient are the exact ones.
structure StepExact (n : UInt64) (k : Nat) : Prop where
  taken : doubleSteps n (k + 1) = doubleSteps n k * (n - .ofNat k).toFloat / (.ofNat k + 1 : UInt64).toFloat
  before : DoubleIs (n.toNat.choose k) (doubleSteps n k)
  factor : DoubleIs (n.toNat - k : ℕ) (n - .ofNat k).toFloat
  product : DoubleIs (n.toNat.choose k * (n.toNat - k) : ℕ) (doubleSteps n k * (n - .ofNat k).toFloat)
  divisor : DoubleIs (k + 1 : ℕ) (.ofNat k + 1 : UInt64).toFloat
  after : DoubleIs (n.toNat.choose (k + 1)) (doubleSteps n (k + 1))

section Doubles

variable (n : UInt64) (steps : Nat) (half : 2 * steps ≤ n.toNat)
  (small : ∀ k < steps, n.toNat.choose k * (n.toNat - k) < 2 ^ 53)

include half small

theorem step_exact (k : Nat) (inside : k < steps) (before : DoubleIs (n.toNat.choose k) (doubleSteps n k)) :
    StepExact n k := by
  have bound := small k inside
  have some : 0 < n.toNat.choose k := Nat.choose_pos (by omega)
  -- The factor is not above the product, and the divisor not above the factor.
  have factor : n.toNat - k < 2 ^ 53 := lt_of_le_of_lt (Nat.le_mul_of_pos_left _ some) bound
  have rest := rest_of_count n k (by omega)
  have next := next_count n k (by omega)
  have left := count_double (n - .ofNat k) (by rw [rest]; exact factor)
  have right := count_double (.ofNat k + 1) (by rw [next]; omega)
  rw [rest] at left
  rw [next] at right
  have product : DoubleIs (n.toNat.choose k * (n.toNat - k) : ℕ) (doubleSteps n k * (n - .ofNat k).toFloat) := by
    have fits := whole_fits .binary64 _ bound (by decide)
    rw [Nat.cast_mul] at fits ⊢
    exact mul_double _ _ _ _ before left fits
  have quotient : ((n.toNat.choose k * (n.toNat - k) : ℕ) : ℚ) / (k + 1 : ℕ) = n.toNat.choose (k + 1) := by
    rw [Nat.cast_mul, choose_next]
  have below : n.toNat.choose (k + 1) < 2 ^ 53 := by
    refine lt_of_le_of_lt ?_ bound
    rw [← Nat.choose_succ_right_eq]
    exact Nat.le_mul_of_pos_right _ (Nat.succ_pos k)
  refine ⟨double_steps_next n k, before, left, product, right, ?_⟩
  rw [double_steps_next, ← quotient]
  apply div_double _ _ _ _ product right (Nat.cast_ne_zero.mpr (Nat.succ_ne_zero k))
  rw [quotient]
  exact whole_fits .binary64 _ below (by decide)

theorem steps_exact (k : Nat) (inside : k ≤ steps) : DoubleIs (n.toNat.choose k) (doubleSteps n k) := by
  induction k with
  | zero =>
      rw [Nat.choose_zero_right]
      exact count_double 1 (by decide)
  | succ k ih => exact (step_exact n steps half small k inside (ih (Nat.le_of_succ_le inside))).after

end Doubles

theorem combinations_binomial (n r : UInt64) :
    (∀ k ≤ n.toNat, exactSteps n k = n.toNat.choose k) ∧
      exactCombinations n r = n.toNat.choose r.toNat ∧
      (r ≤ n → exactCombinations n (n - r) = exactCombinations n r) ∧
      (r ≤ n → (∀ k < min r.toNat (n.toNat - r.toNat), n.toNat.choose k * (n.toNat - k) < 2 ^ 53) →
        (∀ k < min r.toNat (n.toNat - r.toNat), StepExact n k) ∧
          DoubleIs (n.toNat.choose r.toNat) (combinationsWith UInt64.toFloat (· * ·) (· / ·) 0 1 n r)) := by
  refine ⟨exact_steps_choose n, exact_combinations_choose n r, fun inside => ?_, fun inside small => ?_⟩
  · rw [exact_combinations_choose, exact_combinations_choose, UInt64.toNat_sub_of_le n r inside,
      Nat.choose_symm (UInt64.le_iff_toNat_le.mp inside)]
  · have size := UInt64.le_iff_toNat_le.mp inside
    have exact (k : Nat) := steps_exact n _ (by omega) small k
    refine ⟨fun k below => step_exact n _ (by omega) small k below (exact k below.le), ?_⟩
    rw [combinations_steps _ _ _ _ _ _ _ inside, ← choose_smaller _ _ size]
    exact exact _ le_rfl

theorem seven_of_ten_binomial : (∀ k < 3, Nat.choose 10 k * (10 - k) < 2 ^ 53) ∧ (∀ k < 3, StepExact 10 k) ∧
    DoubleIs 120 (combinationsWith UInt64.toFloat (· * ·) (· / ·) 0 1 10 7) := by
  have small : ∀ k < 3, Nat.choose 10 k * (10 - k) < 2 ^ 53 := by decide
  obtain ⟨steps, result⟩ := (combinations_binomial 10 7).2.2.2 (by decide) small
  exact ⟨small, steps, result⟩

end GraphCalc.Counting

import GraphCalc.Number.Exact
import Mathlib.Algebra.Order.Field.Power
import Mathlib.Algebra.Order.Field.Rat
import Mathlib.Tactic.FieldSimp
import Mathlib.Tactic.GCongr
import Mathlib.Tactic.Linarith
import Mathlib.Tactic.NormNum
import Mathlib.Tactic.Positivity
import Mathlib.Tactic.Ring

/-!
Rounding does not pass a number of the format. Whatever is rounded, up or down, the result is at most as
large as every bound that the format can hold; so a result with such a bound is finite, and what comes
back from its bits is what was put there.
-/

set_option autoImplicit false

namespace GraphCalc.Rounding

open Float.Model (Format UnpackedFloat totalExponent)
open Float.Model.UnpackedFloat

section Scaled

def scaled (m : Nat) (e : Int) : ℚ := m * 2 ^ e

theorem scaled_nonneg (m : Nat) (e : Int) : 0 ≤ scaled m e := by
  unfold scaled
  positivity

theorem scaled_pos (m : Nat) (e : Int) (positive : 0 < m) : 0 < scaled m e := by
  unfold scaled
  positivity

theorem scaled_le (m n : Nat) (e : Int) : scaled m e ≤ scaled n e ↔ m ≤ n := by
  have power : (0 : ℚ) < 2 ^ e := by positivity
  rw [scaled, scaled, mul_le_mul_iff_left₀ power, Nat.cast_le]

theorem scaled_lt (m n : Nat) (e : Int) : scaled m e < scaled n e ↔ m < n := by
  have power : (0 : ℚ) < 2 ^ e := by positivity
  rw [scaled, scaled, mul_lt_mul_iff_left₀ power, Nat.cast_lt]

theorem scaled_shift (m k : Nat) (e : Int) : scaled (m * 2 ^ k) e = scaled m (e + k) := by
  rw [scaled, scaled, zpow_add₀ two_ne_zero, zpow_natCast]
  push_cast
  ring

theorem scaled_mul (m n : Nat) (e f : Int) : scaled m e * scaled n f = scaled (m * n) (e + f) := by
  rw [scaled, scaled, scaled, zpow_add₀ two_ne_zero]
  push_cast
  ring

theorem scaled_regrid (m : Nat) (e f : Int) (finer : e ≤ f) : scaled m f = scaled (m * 2 ^ (f - e).toNat) e := by
  rw [scaled_shift]
  congr 1
  omega

theorem scaled_next (m n : Nat) (e f : Int) (finer : e ≤ f) (below : scaled m e < scaled n f) :
    scaled (m + 1) e ≤ scaled n f := by
  rw [scaled_regrid n e f finer] at below ⊢
  exact (scaled_le _ _ e).mpr ((scaled_lt _ _ e).mp below)

theorem scaled_lead (p m n : Nat) (e f : Int) (bits : m < 2 ^ (p + 1)) (lead : 2 ^ p ≤ n) (higher : e < f) :
    scaled m e < scaled n f := by
  calc scaled m e < scaled (2 ^ (p + 1)) e := (scaled_lt _ _ e).mpr bits
    _ = scaled (2 ^ p) (e + 1) := by rw [Nat.pow_add]; exact scaled_shift (2 ^ p) 1 e
    _ ≤ scaled (2 ^ p * 2 ^ (f - (e + 1)).toNat) (e + 1) :=
      (scaled_le _ _ _).mpr (Nat.le_mul_of_pos_right _ (by positivity))
    _ = scaled (2 ^ p) f := (scaled_regrid _ _ _ (by omega)).symm
    _ ≤ scaled n f := (scaled_le _ _ f).mpr lead

end Scaled

section Formats

variable (spec : Format)

def maxExponent : Int := spec.exponentBias - spec.mantissaBitsWithoutImplicit

-- A number that the format can hold, in one of the ways to write it.
structure Held (m : Nat) (e : Int) : Prop where
  bits : m < 2 ^ spec.mantissaBits
  low : spec.minExponent ≤ e
  high : e ≤ maxExponent spec

-- The way it is stored: with a leading bit unless the exponent is the smallest one.
structure Canonical (m : Nat) (e : Int) : Prop extends Held spec m e where
  lead : 2 ^ spec.mantissaBitsWithoutImplicit ≤ m ∨ e = spec.minExponent

def Stored : UnpackedFloat → Prop
  | .zero _ => True
  | .finite _ m e _ => Canonical spec m e
  | _ => False

def magnitude : UnpackedFloat → ℚ
  | .finite _ m e _ => scaled m e
  | _ => 0

def Bounded (bound : ℚ) (f : UnpackedFloat) : Prop := Stored spec f ∧ magnitude f ≤ bound

theorem mantissa_bits : spec.mantissaBits = spec.mantissaBitsWithoutImplicit + 1 := Nat.add_comm 1 _

theorem min_exponent : spec.minExponent = 1 - spec.exponentBias - spec.mantissaBitsWithoutImplicit := by
  have positive : 1 ≤ 2 ^ (spec.exponentBits - 1) := Nat.one_le_two_pow
  rw [Format.minExponent, Format.exponentBias, mantissa_bits, Nat.cast_sub positive]
  push_cast
  ring

theorem min_exponent_nonpos : spec.minExponent ≤ 0 := by
  have := spec.hm
  rw [min_exponent]
  omega

theorem exponent_range : 2 ^ spec.exponentBits = 2 * spec.exponentBias + 2 := by
  have positive : 1 ≤ 2 ^ (spec.exponentBits - 1) := Nat.one_le_two_pow
  have split : 2 ^ spec.exponentBits = 2 ^ (spec.exponentBits - 1) * 2 := by
    rw [← Nat.pow_succ]
    congr 1
    have := spec.he
    omega
  rw [split, Format.exponentBias]
  omega

theorem target_mono (t u : Int) (below : t ≤ u) : spec.targetExponent t ≤ spec.targetExponent u := by
  unfold Format.targetExponent
  omega

theorem target_min (t : Int) : spec.minExponent ≤ spec.targetExponent t := le_max_right _ _

end Formats

section Shifts

def residual (em : ExtendedMantissa) : Bool := em.roundBit || em.stickyBit

-- What the bits stand for is at most `bound`; bits that were shifted out count.
def Below (em : ExtendedMantissa) (e : Int) (bound : ℚ) : Prop :=
  scaled em.mantissa e ≤ bound ∧ (residual em = true → scaled em.mantissa e < bound)

theorem of_accuracy_mantissa (m : Nat) (accuracy : Accuracy) :
    (ExtendedMantissa.ofMantissaAndAccuracy m accuracy).mantissa = m := by
  cases accuracy with
  | exact => rfl
  | inexact o => cases o <;> rfl

theorem shift_one_below (em : ExtendedMantissa) (e : Int) (bound : ℚ) (below : Below em e bound) :
    Below em.shiftRightOne (e + 1) bound := by
  have halves : scaled (em.mantissa / 2) (e + 1) = scaled (em.mantissa / 2 * 2) e := (scaled_shift _ 1 e).symm
  have cut : scaled (em.mantissa / 2) (e + 1) ≤ scaled em.mantissa e := by
    rw [halves, scaled_le]
    omega
  refine ⟨cut.trans below.1, fun left => ?_⟩
  change scaled (em.mantissa / 2) (e + 1) < bound
  by_cases odd : em.mantissa % 2 = 0
  · refine lt_of_le_of_lt cut (below.2 ?_)
    simpa [residual, ExtendedMantissa.shiftRightOne, odd] using left
  · refine lt_of_lt_of_le ?_ below.1
    rw [halves, scaled_lt]
    omega

theorem shift_succ (em : ExtendedMantissa) (k : Nat) : em >>> (k + 1) = (em >>> k).shiftRightOne := rfl

theorem shift_below (em : ExtendedMantissa) (e : Int) (bound : ℚ) (k : Nat) (below : Below em e bound) :
    Below (em >>> k) (e + k) bound := by
  induction k with
  | zero =>
      rw [Nat.cast_zero, add_zero]
      exact below
  | succ k ih =>
      rw [shift_succ, Nat.cast_succ, ← add_assoc]
      exact shift_one_below _ _ bound ih

theorem shift_mantissa (em : ExtendedMantissa) (k : Nat) : (em >>> k).mantissa = em.mantissa / 2 ^ k := by
  induction k with
  | zero => simp [HShiftRight.hShiftRight, Nat.repeat]
  | succ k ih =>
      rw [shift_succ, Nat.pow_succ, ← Nat.div_div_eq_div_mul, ← ih]
      rfl

theorem rounded_cases (em : ExtendedMantissa) :
    em.roundedMantissa = em.mantissa ∨ (residual em = true ∧ em.roundedMantissa = em.mantissa + 1) := by
  obtain ⟨m, roundBit, stickyBit⟩ := em
  cases roundBit <;> cases stickyBit
  · exact Or.inl rfl
  · exact Or.inl rfl
  · rcases Nat.mod_two_eq_zero_or_one m with even | odd
    · exact Or.inl (congrArg (m + ·) even)
    · exact Or.inr ⟨rfl, congrArg (m + ·) odd⟩
  · exact Or.inr ⟨rfl, rfl⟩

theorem rounded_bounded (em : ExtendedMantissa) (e f : Int) (b : Nat) (below : Below em e (scaled b f)) (grid : e ≤ f) :
    scaled em.roundedMantissa e ≤ scaled b f := by
  rcases rounded_cases em with down | ⟨left, up⟩
  · rw [down]
    exact below.1
  · rw [up]
    exact scaled_next em.mantissa b e f grid (below.2 left)

end Shifts

section Rounded

variable (spec : Format)

theorem shifted_bits (m : Nat) (e : Int) :
    m / 2 ^ (spec.targetExponent (totalExponent m e) - e).toNat < 2 ^ spec.mantissaBits := by
  rw [Nat.div_lt_iff_lt_mul (by positivity), ← Nat.pow_add]
  refine lt_of_lt_of_le Nat.lt_log2_self (Nat.pow_le_pow_right (by decide) ?_)
  unfold Format.targetExponent totalExponent
  omega

theorem shifted_lead (m : Nat) (e : Int) (low : e ≤ spec.targetExponent (totalExponent m e)) :
    2 ^ spec.mantissaBitsWithoutImplicit ≤ m / 2 ^ (spec.targetExponent (totalExponent m e) - e).toNat ∨
      spec.targetExponent (totalExponent m e) = spec.minExponent := by
  by_cases smallest : spec.targetExponent (totalExponent m e) = spec.minExponent
  · exact Or.inr smallest
  · have target : spec.targetExponent (totalExponent m e) = m.log2 + 1 + e - spec.mantissaBits := by
      unfold Format.targetExponent totalExponent at smallest ⊢
      omega
    have width := mantissa_bits spec
    have some := spec.hm
    have kept : spec.mantissaBitsWithoutImplicit + (spec.targetExponent (totalExponent m e) - e).toNat = m.log2 := by
      omega
    have nonzero : m ≠ 0 := by
      rintro rfl
      rw [Nat.log2_zero] at kept
      omega
    left
    rw [Nat.le_div_iff_mul_le (by positivity), ← Nat.pow_add, kept]
    exact Nat.log2_self_le nonzero

theorem exponent_bounded (m b : Nat) (e f : Int)
    (lead : 2 ^ spec.mantissaBitsWithoutImplicit ≤ m ∨ e = spec.minExponent) (held : Held spec b f) (below : scaled m e ≤ scaled b f) : e ≤ f := by
  rcases lead with leads | rfl
  · by_contra higher
    have larger := scaled_lead _ b m f e (mantissa_bits spec ▸ held.bits) leads (by omega)
    exact absurd below (not_le.mpr larger)
  · exact held.low

-- Rounding up can fill one bit more than fits; it is a power of two then, and moves into the exponent.
theorem carry (r : Nat) (e : Int) (bits : r ≤ 2 ^ spec.mantissaBits) (low : spec.minExponent ≤ e)
    (lead : 2 ^ spec.mantissaBitsWithoutImplicit ≤ r ∨ e = spec.minExponent) :
    ∃ m f, shiftToTargetExponent spec r e .exact = (⟨m, false, false⟩, f) ∧ scaled m f = scaled r e ∧
      m < 2 ^ spec.mantissaBits ∧ spec.minExponent ≤ f ∧
      (2 ^ spec.mantissaBitsWithoutImplicit ≤ m ∨ f = spec.minExponent) := by
  have width := mantissa_bits spec
  rcases Nat.lt_or_eq_of_le bits with fits | full
  · have length : r.log2 < spec.mantissaBits := by
      by_cases zero : r = 0
      · rw [zero, Nat.log2_zero]
        omega
      · exact (Nat.log2_lt zero).mpr fits
    have still : (spec.targetExponent (totalExponent r e) - e).toNat = 0 := by
      unfold Format.targetExponent totalExponent
      omega
    refine ⟨r, e, ?_, rfl, fits, low, lead⟩
    rw [shiftToTargetExponent, shiftToExponent, still]
    exact Prod.ext rfl (add_zero e)
  · have once : (spec.targetExponent (totalExponent r e) - e).toNat = 1 := by
      rw [full]
      unfold Format.targetExponent totalExponent
      rw [Nat.log2_two_pow]
      omega
    have half : r / 2 = 2 ^ spec.mantissaBitsWithoutImplicit := by
      rw [full, width, Nat.pow_succ, Nat.mul_div_cancel _ (by decide)]
    have even : r % 2 = 0 := by
      rw [full, width, Nat.pow_succ, Nat.mul_mod_left]
    refine ⟨2 ^ spec.mantissaBitsWithoutImplicit, e + 1, ?_, ?_, ?_, by omega, Or.inl le_rfl⟩
    · rw [shiftToTargetExponent, shiftToExponent, once, ← half]
      simp [ExtendedMantissa.ofMantissaAndAccuracy, HShiftRight.hShiftRight, Nat.repeat, ExtendedMantissa.shiftRightOne,
        even]
    · rw [full, width, Nat.pow_succ]
      exact (scaled_shift _ 1 e).symm
    · rw [width]
      exact Nat.pow_lt_pow_right (by decide) (Nat.lt_succ_self _)

-- Bits that fit, of a number that is at most `bound`, with the rest of them in `em`.
structure Fitted (em : ExtendedMantissa) (e : Int) (bound : ℚ) : Prop where
  bits : em.mantissa < 2 ^ spec.mantissaBits
  low : spec.minExponent ≤ e
  lead : 2 ^ spec.mantissaBitsWithoutImplicit ≤ em.mantissa ∨ e = spec.minExponent
  below : Below em e bound

theorem shift_fitted (m : Nat) (e : Int) (accuracy : Accuracy) (bound : ℚ)
    (low : e ≤ spec.targetExponent (totalExponent m e)) (below : Below (.ofMantissaAndAccuracy m accuracy) e bound) :
    Fitted spec (shiftToTargetExponent spec m e accuracy).1 (shiftToTargetExponent spec m e accuracy).2 bound := by
  have bits := shifted_bits spec m e
  have lead := shifted_lead spec m e low
  rw [shiftToTargetExponent, shiftToExponent]
  generalize target : spec.targetExponent (totalExponent m e) = t at low bits lead
  have place : e + ((t - e).toNat : Int) = t := by omega
  have mantissa : (ExtendedMantissa.ofMantissaAndAccuracy m accuracy >>> (t - e).toNat).mantissa =
      m / 2 ^ (t - e).toNat := by
    rw [shift_mantissa, of_accuracy_mantissa]
  rw [← mantissa] at bits lead
  have shifted := shift_below _ e bound (t - e).toNat below
  dsimp only
  rw [place] at shifted ⊢
  exact ⟨bits, target ▸ target_min spec _, lead, shifted⟩

theorem fitted_bounded (em : ExtendedMantissa) (e : Int) (b : Nat) (f : Int) (held : Held spec b f)
    (fitted : Fitted spec em e (scaled b f)) :
    Canonical spec (shiftToTargetExponent spec em.roundedMantissa e .exact).1.mantissa
        (shiftToTargetExponent spec em.roundedMantissa e .exact).2 ∧
      scaled (shiftToTargetExponent spec em.roundedMantissa e .exact).1.mantissa
        (shiftToTargetExponent spec em.roundedMantissa e .exact).2 ≤ scaled b f := by
  have grid := exponent_bounded spec em.mantissa b e f fitted.lead held fitted.below.1
  have rounded := rounded_bounded em e f b fitted.below grid
  have up : em.mantissa ≤ em.roundedMantissa ∧ em.roundedMantissa ≤ em.mantissa + 1 := by
    rcases rounded_cases em with same | ⟨_, next⟩ <;> omega
  have bits := fitted.bits
  obtain ⟨m, g, second, same, bits, low, lead⟩ := carry spec em.roundedMantissa e (by omega) fitted.low
    (fitted.lead.imp (fun leads => leads.trans up.1) id)
  rw [← same] at rounded
  have high := exponent_bounded spec m b g f lead held rounded
  rw [second]
  exact ⟨⟨⟨bits, low, high.trans held.high⟩, lead⟩, rounded⟩

theorem round_with_accuracy_cases (sign : Sign) (m : Nat) (e : Int) (accuracy : Accuracy) :
    let first := shiftToTargetExponent spec m e accuracy
    let last := shiftToTargetExponent spec first.1.roundedMantissa first.2 .exact
    roundWithAccuracy spec sign m e accuracy = .zero sign ∨
      ∃ positive, roundWithAccuracy spec sign m e accuracy = .finite sign last.1.mantissa last.2 positive := by
  intro first last
  by_cases nothing : last.1.mantissa = 0
  · exact Or.inl (dif_pos nothing)
  · exact Or.inr ⟨Nat.pos_of_ne_zero nothing, dif_neg nothing⟩

theorem round_with_accuracy_bounded (sign : Sign) (m : Nat) (e : Int) (accuracy : Accuracy) (b : Nat) (f : Int)
    (held : Held spec b f) (low : e ≤ spec.targetExponent (totalExponent m e))
    (below : Below (.ofMantissaAndAccuracy m accuracy) e (scaled b f)) :
    Bounded spec (scaled b f) (roundWithAccuracy spec sign m e accuracy) := by
  have fitted := shift_fitted spec m e accuracy (scaled b f) low below
  have bounded := fitted_bounded spec _ _ b f held fitted
  rcases round_with_accuracy_cases spec sign m e accuracy with zero | ⟨positive, rounded⟩
  · rw [zero]
    exact ⟨trivial, scaled_nonneg b f⟩
  · rw [rounded]
    exact bounded

end Rounded

section Operations

variable (spec : Format)

theorem exact_below (m : Nat) (e : Int) (bound : ℚ) (below : scaled m e ≤ bound) :
    Below (.ofMantissaAndAccuracy m .exact) e bound := by
  refine ⟨below, fun left => ?_⟩
  cases left

theorem inexact_below (m : Nat) (e : Int) (bound : ℚ) (accuracy : Accuracy) (below : scaled m e < bound) :
    Below (.ofMantissaAndAccuracy m accuracy) e bound := by
  rw [Below, of_accuracy_mantissa]
  exact ⟨below.le, fun _ => below⟩

theorem log2_shift (m k : Nat) (nonzero : m ≠ 0) : (m <<< k).log2 = m.log2 + k := by
  have shifted : m <<< k ≠ 0 := by
    rw [Nat.shiftLeft_eq]
    positivity
  rw [Nat.log2_eq_iff shifted, Nat.shiftLeft_eq, Nat.pow_add, Nat.add_right_comm, Nat.pow_add]
  refine ⟨Nat.mul_le_mul_right _ (Nat.log2_self_le nonzero), ?_⟩
  exact Nat.mul_lt_mul_of_pos_right Nat.lt_log2_self (by positivity)

theorem round_bounded (sign : Sign) (m : Nat) (e : Int) (positive : 0 < m) (b : Nat) (f : Int) (held : Held spec b f)
    (below : scaled m e ≤ scaled b f) : Bounded spec (scaled b f) (round spec sign m e) := by
  generalize shift : (e - spec.targetExponent (totalExponent m e)).toNat = k
  have moved : round spec sign m e = roundWithAccuracy spec sign (m <<< k) (e - k) .exact := by
    rw [← shift]
    rfl
  have same : totalExponent (m <<< k) (e - k) = totalExponent m e := by
    rw [totalExponent, totalExponent, log2_shift m k positive.ne']
    omega
  rw [moved]
  apply round_with_accuracy_bounded spec _ _ _ _ b f held
  · rw [same]
    omega
  · apply exact_below
    rw [Nat.shiftLeft_eq, scaled_shift, sub_add_cancel]
    exact below

theorem product_low (m n : Nat) (e g : Int) (positive : 0 < m) (positive' : 0 < n) (left : Canonical spec m e)
    (right : Canonical spec n g) : e + g ≤ spec.targetExponent (totalExponent (m * n) (e + g)) := by
  have product : m.log2 + n.log2 ≤ (m * n).log2 := by
    rw [Nat.le_log2 (Nat.mul_ne_zero positive.ne' positive'.ne'), Nat.pow_add]
    exact Nat.mul_le_mul (Nat.log2_self_le positive.ne') (Nat.log2_self_le positive'.ne')
  have width := mantissa_bits spec
  have nonpos := min_exponent_nonpos spec
  have lead (k : Nat) (nonzero : 0 < k) (leads : 2 ^ spec.mantissaBitsWithoutImplicit ≤ k) :
      spec.mantissaBitsWithoutImplicit ≤ k.log2 := (Nat.le_log2 nonzero.ne').mpr leads
  unfold Format.targetExponent totalExponent
  rcases left.lead with leads | least
  · have := lead m positive leads
    omega
  · rcases right.lead with leads | least'
    · have := lead n positive' leads
      omega
    · omega

theorem mul_bounded (x y : UnpackedFloat) (b : Nat) (f : Int) (left : Stored spec x) (right : Stored spec y)
    (held : Held spec b f) (below : magnitude x * magnitude y ≤ scaled b f) :
    Bounded spec (scaled b f) (mul spec x y) := by
  have zero (sign : Sign) : Bounded spec (scaled b f) (.zero sign) := ⟨trivial, scaled_nonneg b f⟩
  cases x with
  | infinity s | notANumber => exact left.elim
  | zero s =>
      cases y with
      | infinity s | notANumber => exact right.elim
      | zero t | finite t n g positive => exact zero _
  | finite s m e positive =>
      cases y with
      | infinity s | notANumber => exact right.elim
      | zero t => exact zero _
      | finite t n g positive' =>
          apply round_with_accuracy_bounded spec _ _ _ _ b f held
          · exact product_low spec m n e g positive positive' left right
          · apply exact_below
            rw [← scaled_mul]
            exact below

theorem quotient_bits (m n k : Nat) (nonzero : m ≠ 0) (positive : 0 < n) :
    m.log2 + k ≤ (m <<< k / n).log2 + n.log2 + 1 := by
  by_contra short
  have fits : 2 ^ ((m <<< k / n).log2 + 1) * n ≤ m <<< k := by
    calc 2 ^ ((m <<< k / n).log2 + 1) * n ≤ 2 ^ ((m <<< k / n).log2 + 1) * 2 ^ (n.log2 + 1) :=
          Nat.mul_le_mul_left _ Nat.lt_log2_self.le
      _ = 2 ^ ((m <<< k / n).log2 + 1 + (n.log2 + 1)) := (Nat.pow_add _ _ _).symm
      _ ≤ 2 ^ (m.log2 + k) := Nat.pow_le_pow_right (by decide) (by omega)
      _ = 2 ^ m.log2 * 2 ^ k := Nat.pow_add _ _ _
      _ ≤ m * 2 ^ k := Nat.mul_le_mul_right _ (Nat.log2_self_le nonzero)
      _ = m <<< k := (Nat.shiftLeft_eq m k).symm
  have quotient := (Nat.le_div_iff_mul_le positive).mpr fits
  exact absurd quotient (not_le.mpr Nat.lt_log2_self)

-- The dividend is moved so far that the quotient has the bits that the format keeps.
theorem quotient_rounded (s t : Sign) (m n : Nat) (e g : Int) (positive : 0 < m) (positive' : 0 < n) :
    ∃ k d, div spec (.finite s m e positive) (.finite t n g positive') =
        roundWithAccuracy spec (s / t) (m <<< k / n) d (accuracyOfFraction (m <<< k % n) n) ∧
      scaled m e = scaled (m <<< k) (d + g) ∧ d ≤ spec.targetExponent (totalExponent m e - totalExponent n g) ∧
      d ≤ spec.targetExponent (totalExponent (m <<< k / n) d) := by
  generalize exponent : min (e - g) (spec.targetExponent (totalExponent m e - totalExponent n g)) = d
  generalize shift : (e - g - d).toNat = k
  have place : d + g + k = e := by omega
  have bits := quotient_bits m n k positive.ne' positive'
  have higher : totalExponent m e - totalExponent n g ≤ totalExponent (m <<< k / n) d := by
    unfold totalExponent
    omega
  have target := target_mono spec _ _ higher
  refine ⟨k, d, ?_, ?_, by omega, by omega⟩
  · rw [← shift, ← exponent]
    rfl
  · rw [Nat.shiftLeft_eq, scaled_shift, place]

theorem div_finite_bounded (s t : Sign) (m n : Nat) (e g : Int) (positive : 0 < m) (positive' : 0 < n) (b : Nat)
    (f : Int) (held : Held spec b f) (below : scaled m e ≤ scaled b f * scaled n g) :
    Bounded spec (scaled b f) (div spec (.finite s m e positive) (.finite t n g positive')) := by
  obtain ⟨k, d, divided, dividend, -, low⟩ := quotient_rounded spec s t m n e g positive positive'
  have split := Nat.div_add_mod (m <<< k) n
  have divisor := scaled_pos n g positive'
  rw [divided]
  apply round_with_accuracy_bounded spec _ _ _ _ b f held low
  by_cases whole : m <<< k % n = 0
  · rw [accuracyOfFraction, if_pos whole]
    apply exact_below
    rw [← mul_le_mul_iff_left₀ divisor, scaled_mul]
    refine le_trans ?_ below
    rw [dividend, scaled_le, Nat.mul_comm]
    omega
  · apply inexact_below
    rw [← mul_lt_mul_iff_left₀ divisor, scaled_mul]
    refine lt_of_lt_of_le ?_ below
    rw [dividend, scaled_lt, Nat.mul_comm]
    omega

theorem div_bounded (x y : UnpackedFloat) (b : Nat) (f : Int) (left : Stored spec x) (right : Stored spec y)
    (held : Held spec b f) (nonzero : 0 < magnitude y) (below : magnitude x ≤ scaled b f * magnitude y) :
    Bounded spec (scaled b f) (div spec x y) := by
  cases y with
  | infinity t | notANumber => exact right.elim
  | zero t => exact absurd nonzero (lt_irrefl 0)
  | finite t n g positive' =>
      cases x with
      | infinity s | notANumber => exact left.elim
      | zero s => exact ⟨trivial, scaled_nonneg b f⟩
      | finite s m e positive => exact div_finite_bounded spec s t m n e g positive positive' b f held below

theorem root_bits (m : Nat) (nonzero : m ≠ 0) : m.log2 / 2 ≤ m.sqrt.log2 := by
  have least : 2 ^ (m.log2 / 2) ≤ m.sqrt := by
    rw [Nat.le_sqrt, ← Nat.pow_add]
    exact (Nat.pow_le_pow_right (by decide) (by omega)).trans (Nat.log2_self_le nonzero)
  have positive : m.sqrt ≠ 0 := (lt_of_lt_of_le (by positivity) least).ne'
  exact (Nat.le_log2 positive).mpr least

theorem sqrt_finite_bounded (m : Nat) (e : Int) (positive : 0 < m) (b : Nat) (f : Int) (held : Held spec b f)
    (below : scaled m e ≤ scaled b f * scaled b f) :
    Bounded spec (scaled b f) (sqrt spec (.finite .positive m e positive)) := by
  generalize exponent : min (e / 2) (spec.targetExponent ((totalExponent m e + 1) / 2)) = d
  generalize shift : (e - 2 * d).toNat = k
  have rooted : ∃ accuracy, sqrt spec (.finite .positive m e positive) =
      roundWithAccuracy spec .positive (m <<< k).sqrt d accuracy ∧
        (accuracy = .exact ∨ m <<< k - (m <<< k).sqrt * (m <<< k).sqrt ≠ 0) := by
    subst shift exponent
    refine ⟨_, rfl, ?_⟩
    exact (em _).imp (fun whole => if_pos whole) id
  obtain ⟨accuracy, rooted, rest⟩ := rooted
  have place : d + d + k = e := by omega
  have squared : scaled m e = scaled (m <<< k) (d + d) := by rw [Nat.shiftLeft_eq, scaled_shift, place]
  have nonzero : m <<< k ≠ 0 := by
    rw [Nat.shiftLeft_eq]
    positivity
  have bits := root_bits (m <<< k) nonzero
  have inside : (m <<< k).sqrt * (m <<< k).sqrt ≤ m <<< k := Nat.sqrt_le _
  rw [rooted]
  apply round_with_accuracy_bounded spec _ _ _ _ b f held
  · have higher : (totalExponent m e + 1) / 2 ≤ totalExponent (m <<< k).sqrt d := by
      rw [log2_shift m k positive.ne'] at bits
      unfold totalExponent
      omega
    have := target_mono spec _ _ higher
    omega
  · rcases rest with whole | part
    · rw [whole]
      apply exact_below
      apply (mul_self_le_mul_self_iff (scaled_nonneg _ _) (scaled_nonneg _ _)).mpr
      rw [scaled_mul]
      refine le_trans ?_ below
      rw [squared, scaled_le]
      exact inside
    · apply inexact_below
      apply (mul_self_lt_mul_self_iff (scaled_nonneg _ _) (scaled_nonneg _ _)).mpr
      rw [scaled_mul]
      refine lt_of_lt_of_le ?_ below
      rw [squared, scaled_lt]
      omega

theorem normalize_bounded (n : Int) (e : Int) (zeroSign : Sign) (b : Nat) (f : Int) (held : Held spec b f)
    (below : scaled n.natAbs e ≤ scaled b f) : Bounded spec (scaled b f) (normalize spec n e zeroSign) := by
  rcases lt_trichotomy n 0 with negative | zero | positive
  · rw [UnpackedFloat.normalize, compare_lt_iff_lt.mpr negative]
    have same : (-n).toNat = n.natAbs := by omega
    exact round_bounded spec _ _ e (by omega) b f held (same ▸ below)
  · rw [UnpackedFloat.normalize, compare_eq_iff_eq.mpr zero]
    exact ⟨trivial, scaled_nonneg b f⟩
  · rw [UnpackedFloat.normalize, compare_gt_iff_gt.mpr positive]
    have same : n.toNat = n.natAbs := by omega
    exact round_bounded spec _ _ e (by omega) b f held (same ▸ below)

def Signed (sign : Sign) : UnpackedFloat → Prop
  | .zero t => t = sign
  | .finite t _ _ _ => t = sign
  | _ => False

theorem round_with_accuracy_signed (sign : Sign) (m : Nat) (e : Int) (accuracy : Accuracy) :
    Signed sign (roundWithAccuracy spec sign m e accuracy) := by
  rcases round_with_accuracy_cases spec sign m e accuracy with zero | ⟨positive, rounded⟩
  · rw [zero]
    rfl
  · rw [rounded]
    rfl

theorem round_signed (sign : Sign) (m : Nat) (e : Int) : Signed sign (round spec sign m e) :=
  round_with_accuracy_signed spec sign _ _ .exact

theorem apply_difference (s : Sign) (m n : Nat) : (s.apply m - s.apply n).natAbs ≤ max m n := by
  cases s with
  | negative => dsimp only [Sign.apply]; omega
  | positive => dsimp only [Sign.apply]; omega

theorem sub_bounded (s : Sign) (m : Nat) (e : Int) (positive : 0 < m) (y : UnpackedFloat)
    (canonical : Canonical spec m e) (signed : Signed s y) (below : magnitude y ≤ scaled m e) :
    Bounded spec (scaled m e) (sub spec (.finite s m e positive) y) := by
  cases y with
  | infinity t | notANumber => exact signed.elim
  | zero t => exact ⟨canonical, le_rfl⟩
  | finite t n g positive' =>
      cases signed
      have left := scaled_regrid m (min e g) e (min_le_left e g)
      have right := scaled_regrid n (min e g) g (min_le_right e g)
      have larger : n * 2 ^ (g - min e g).toNat ≤ m * 2 ^ (e - min e g).toNat := by
        rw [← scaled_le _ _ (min e g), ← left, ← right]
        exact below
      apply normalize_bounded spec _ _ _ m e canonical.toHeld
      rw [left, scaled_le, Nat.shiftLeft_eq, Nat.shiftLeft_eq]
      exact (apply_difference _ _ _).trans (max_le le_rfl larger)

theorem magnitude_nonneg (x : UnpackedFloat) : 0 ≤ magnitude x := by
  cases x with
  | finite s m e positive => exact scaled_nonneg m e
  | _ => exact le_rfl

theorem neg_stored (x : UnpackedFloat) (stored : Stored spec x) : Stored spec x.neg := by
  cases x with
  | finite s m e positive => exact stored
  | zero s => trivial
  | _ => exact stored

theorem abs_stored (x : UnpackedFloat) (stored : Stored spec x) : Stored spec x.abs := by
  cases x with
  | finite s m e positive => exact stored
  | zero s => trivial
  | _ => exact stored

theorem magnitude_le (x y : UnpackedFloat) (left : Stored spec x) (right : Stored spec y) (below : x.abs.le y = true) :
    magnitude x ≤ magnitude y := by
  cases x with
  | infinity s | notANumber => exact left.elim
  | zero s => exact magnitude_nonneg y
  | finite s m e positive =>
      cases y with
      | infinity t | notANumber => exact right.elim
      | zero t => cases below
      | finite t n g positive' =>
          cases t with
          | negative => cases below
          | positive =>
              change ((compare e g).then (compare m n)).isLE = true at below
              rcases lt_trichotomy e g with lower | rfl | higher
              · have lead := right.lead.resolve_right (by have := left.low; omega)
                exact (scaled_lead _ m n e g (mantissa_bits spec ▸ left.bits) lead lower).le
              · rw [compare_eq_iff_eq.mpr rfl] at below
                exact (scaled_le m n e).mpr (Nat.isLE_compare.mp below)
              · rw [compare_gt_iff_gt.mpr higher] at below
                cases below

end Operations

end GraphCalc.Rounding

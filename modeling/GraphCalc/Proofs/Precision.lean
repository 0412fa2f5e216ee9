import Mathlib.Tactic.IntervalCases
import GraphCalc.Function
import GraphCalc.Proofs.Packing

set_option autoImplicit false

namespace GraphCalc

namespace Rounding

open Float.Model (Format UnpackedFloat)
open Float.Model.UnpackedFloat

theorem scaled_mono (m n : Nat) (e f : Int) (mantissa : m ≤ n) (exponent : e ≤ f) : scaled m e ≤ scaled n f := by
  rw [scaled_regrid n e f exponent, scaled_le]
  exact mantissa.trans (Nat.le_mul_of_pos_right n (by positivity))

def Single (bound : ℚ) (x : Float32) : Prop := Bounded .binary32 bound x.toModel.unpack

def Double (bound : ℚ) (x : Float) : Prop := Bounded .binary64 bound x.toModel.unpack

def largest : ℚ := scaled (2 ^ 24 - 1) 104

theorem largest_held : Held .binary32 (2 ^ 24 - 1) 104 := by
  refine ⟨?_, ?_, ?_⟩ <;> decide

theorem stored_largest (f : UnpackedFloat) (stored : Stored .binary32 f) : magnitude f ≤ largest := by
  cases f with
  | infinity s | notANumber | zero s => exact scaled_nonneg _ _
  | finite s m e positive => exact scaled_mono _ _ _ _ (Nat.le_sub_one_of_lt stored.bits) stored.high

theorem finite_stored (x : Float32) : x.isFinite = true ↔ Stored .binary32 x.toModel.unpack := by
  constructor
  · exact unpack_stored .binary32 _ (by decide)
  · intro stored
    change x.toModel.unpack.isFinite = true
    cases held : x.toModel.unpack with rw [held] at stored
    | infinity s | notANumber => exact stored.elim
    | zero s | finite s m e positive => rfl

theorem finite_single (x : Float32) (finite : x.isFinite = true) : Single largest x :=
  have stored := (finite_stored x).mp finite
  ⟨stored, stored_largest _ stored⟩

theorem single_finite (x : Float32) (bound : ℚ) (single : Single bound x) : x.isFinite = true :=
  (finite_stored x).mpr single.1

theorem single_pack (f : UnpackedFloat) (bound : ℚ) (bounded : Bounded .binary32 bound f) :
    Single bound (Exact.single f) := by
  change Bounded .binary32 bound (unpack .binary32 (pack .binary32 f))
  rw [unpack_pack .binary32 f bounded.1]
  exact bounded

theorem double_pack (f : UnpackedFloat) (bound : ℚ) (bounded : Bounded .binary64 bound f) :
    Double bound (Exact.double f) := by
  change Bounded .binary64 bound (unpack .binary64 (pack .binary64 f))
  rw [unpack_pack .binary64 f bounded.1]
  exact bounded

theorem lt_unpacked (x y : Float32) : x < y ↔ x.toModel.unpack.lt y.toModel.unpack = true := by
  change decide (x.toModel < y.toModel) = true ↔ _
  rw [decide_eq_true_iff]
  rfl

theorem le_unpacked (x y : Float32) : x ≤ y ↔ x.toModel.unpack.le y.toModel.unpack = true := by
  change decide (x.toModel ≤ y.toModel) = true ↔ _
  rw [decide_eq_true_iff]
  rfl

theorem single_of_unpacked (x : Float32) (sign : Sign) (m : Nat) (e : Int) (positive : 0 < m)
    (held : x.toModel.unpack = .finite sign m e positive) : Single (scaled m e) x := by
  have finite : x.isFinite = true := by
    change x.toModel.unpack.isFinite = true
    rw [held]
    rfl
  refine ⟨(finite_stored x).mp finite, ?_⟩
  rw [held]
  exact le_rfl

section Operations

variable (x y : Float32) (finite : x.isFinite = true)

theorem mul_single (b : Nat) (f : Int) (s t : ℚ) (held : Held .binary32 b f) (left : Single s x) (right : Single t y)
    (below : s * t ≤ scaled b f) : Single (scaled b f) (x * y) := by
  apply single_pack
  apply mul_bounded .binary32 _ _ b f left.1 right.1 held
  exact le_trans (mul_le_mul left.2 right.2 (magnitude_nonneg _) ((magnitude_nonneg _).trans left.2)) below

include finite

theorem neg_finite : (-x).isFinite = true := by
  have stored := neg_stored .binary32 _ ((finite_stored x).mp finite)
  exact single_finite _ _ (single_pack _ largest ⟨stored, stored_largest _ stored⟩)

theorem abs_finite : x.abs.isFinite = true := by
  have stored := abs_stored .binary32 _ ((finite_stored x).mp finite)
  exact single_finite _ _ (single_pack _ largest ⟨stored, stored_largest _ stored⟩)

theorem div_finite (n : Nat) (g : Int) (positive : 0 < n) (divisor : y.toModel.unpack = .finite .positive n g positive)
    (one : 1 ≤ scaled n g) : (x / y).isFinite = true := by
  have single := finite_single x finite
  have right := single_of_unpacked y _ n g positive divisor
  have size : magnitude y.toModel.unpack = scaled n g := by rw [divisor]; rfl
  apply single_finite _ largest (single_pack _ _ _)
  apply div_bounded .binary32 _ _ _ _ single.1 right.1 largest_held
  · rw [size]
    exact lt_of_lt_of_le one_pos one
  · rw [size]
    calc magnitude x.toModel.unpack ≤ largest := single.2
      _ = largest * 1 := (mul_one _).symm
      _ ≤ largest * scaled n g := mul_le_mul_of_nonneg_left one (scaled_nonneg _ _)

theorem sqrt_finite (nonnegative : ¬ x < 0) : x.sqrt.isFinite = true := by
  have stored := (finite_stored x).mp finite
  apply single_finite _ largest (single_pack _ _ _)
  cases held : x.toModel.unpack with rw [held] at stored
  | infinity s | notANumber => exact stored.elim
  | zero s => exact ⟨trivial, scaled_nonneg _ _⟩
  | finite s m e positive =>
      cases s with
      | negative =>
          rw [lt_unpacked, held] at nonnegative
          exact absurd rfl nonnegative
      | positive =>
          apply sqrt_finite_bounded .binary32 m e positive _ _ largest_held
          have one : 1 ≤ largest := by
            unfold largest scaled
            norm_num
          calc scaled m e ≤ largest := stored_largest (.finite .positive m e positive) stored
            _ = largest * 1 := (mul_one _).symm
            _ ≤ largest * largest := mul_le_mul_of_nonneg_left one (scaled_nonneg _ _)

theorem neg_not_negative (negative : x < 0) : ¬ -x < 0 := by
  have stored := (finite_stored x).mp finite
  have turned : (-x).toModel.unpack = x.toModel.unpack.neg := unpack_pack .binary32 _ (neg_stored .binary32 _ stored)
  rw [lt_unpacked] at negative ⊢
  rw [turned]
  cases held : x.toModel.unpack with rw [held] at stored negative
  | infinity s | notANumber => exact stored.elim
  | zero s => cases negative
  | finite s m e positive =>
      cases s with
      | negative => exact Bool.false_ne_true
      | positive => cases negative

theorem half_finite : (x / 2).isFinite = true :=
  div_finite x 2 finite 8388608 (-22) (by decide) rfl (by norm_num [scaled])

theorem common_log_finite : (x / Elementary.ln10).isFinite = true :=
  div_finite x Elementary.ln10 finite 9657742 (-22) (by decide) rfl (by norm_num [scaled])

-- Of the angles that the inverse functions give; an arbitrary number would leave the range.
theorem degrees_finite (small : x.abs ≤ Elementary.pi) : (x * 180 / Elementary.pi).isFinite = true := by
  have stored := (finite_stored x).mp finite
  have pi : Elementary.pi.toModel.unpack = .finite .positive 13176795 (-22) (by decide) := rfl
  have upright : x.abs.toModel.unpack = x.toModel.unpack.abs := unpack_pack .binary32 _ (abs_stored .binary32 _ stored)
  rw [le_unpacked, upright] at small
  have below := magnitude_le .binary32 _ _ stored (single_of_unpacked _ _ _ _ _ pi).1 small
  rw [pi] at below
  change magnitude x.toModel.unpack ≤ scaled 13176795 (-22) at below
  have product : Single (scaled 1 10) (x * 180) := by
    have right : Single (scaled 11796480 (-16)) 180 := single_of_unpacked 180 _ 11796480 (-16) (by decide) rfl
    apply mul_single x 180 1 10 _ _ _ ⟨stored, below⟩ right
    · norm_num [scaled]
    · refine ⟨?_, ?_, ?_⟩ <;> decide
  exact div_finite _ _ (single_finite _ _ product) 13176795 (-22) (by decide) pi (by norm_num [scaled])

end Operations

section WholeParts

open Exact

theorem of_whole_bounded (spec : Format) (sign : Sign) (n b : Nat) (f : Int) (held : Held spec b f)
    (below : scaled n 0 ≤ scaled b f) :
    Bounded spec (scaled b f) (if n = 0 then .zero sign else round spec sign n 0) := by
  by_cases zero : n = 0
  · rw [if_pos zero]
    exact ⟨trivial, scaled_nonneg b f⟩
  · rw [if_neg zero]
    exact round_bounded spec sign n 0 (Nat.pos_of_ne_zero zero) b f held below

theorem of_whole_signed (spec : Format) (sign : Sign) (n : Nat) :
    Signed sign (if n = 0 then .zero sign else round spec sign n 0) := by
  by_cases zero : n = 0
  · rw [if_pos zero]
    rfl
  · rw [if_neg zero]
    exact round_signed spec sign n 0

theorem whole_exact (m : Nat) (e : Int) (integral : 0 ≤ e) : scaled (m * Nat.pow 2 e.toNat) 0 = scaled m e := by
  rw [scaled_regrid m 0 e integral, sub_zero]
  rfl

theorem whole_below (m : Nat) (e : Int) : scaled (whole m e) 0 ≤ scaled m e := by
  unfold whole
  by_cases integral : 0 ≤ e
  · rw [if_pos integral, whole_exact m e integral]
  · rw [if_neg integral, scaled_regrid _ e 0 (by omega), scaled_le, zero_sub]
    exact Nat.div_mul_le_self m _

-- With a fraction, the next whole number is not larger than the mantissa itself.
theorem next_below (m : Nat) (e : Int) (positive : 0 < m) (part : e < 0) : whole m e + 1 ≤ m := by
  rw [whole, if_neg (by omega)]
  have even : 2 ≤ Nat.pow 2 (-e).toNat := Nat.le_self_pow (by omega) 2
  have half : m / Nat.pow 2 (-e).toNat ≤ m / 2 := Nat.div_le_div_left even (by decide)
  omega

theorem nearest_below (m : Nat) (e : Int) (positive : 0 < m) (part : e < 0) : nearest m e ≤ m := by
  obtain ⟨k, width⟩ : ∃ k, (-e).toNat = k + 1 := ⟨(-e).toNat - 1, by omega⟩
  rw [nearest, if_neg (by omega), width, Nat.add_sub_cancel]
  apply Nat.div_le_of_le_mul
  have one : 1 ≤ 2 ^ k := Nat.one_le_two_pow
  change m + 2 ^ k ≤ 2 ^ (k + 1) * m
  calc m + 2 ^ k ≤ 2 ^ k * m + 2 ^ k * m :=
        Nat.add_le_add (Nat.le_mul_of_pos_left m one) (Nat.le_mul_of_pos_right _ positive)
    _ = 2 ^ (k + 1) * m := by rw [Nat.pow_succ]; ring

theorem single_of_whole_finite (sign : Sign) (n : Nat) (below : scaled n 0 ≤ largest) :
    (singleOfWhole sign n).isFinite = true :=
  single_finite _ _ (single_pack _ _ (of_whole_bounded .binary32 sign n _ _ largest_held below))

variable (x : Float32) (finite : x.isFinite = true)

include finite

theorem truncate_finite : (truncate x).isFinite = true := by
  have stored := (finite_stored x).mp finite
  rw [truncate]
  cases held : x.toModel.unpack with rw [held] at stored
  | infinity s | notANumber | zero s => exact finite
  | finite s m e positive =>
      exact single_of_whole_finite s _ ((whole_below m e).trans (stored_largest (.finite s m e positive) stored))

theorem floor_finite : (floor x).isFinite = true := by
  have stored := (finite_stored x).mp finite
  rw [floor]
  cases held : x.toModel.unpack with rw [held] at stored
  | infinity s | notANumber | zero s => exact finite
  | finite s m e positive =>
      have inside := (whole_below m e).trans (stored_largest (.finite s m e positive) stored)
      cases s with
      | positive => exact single_of_whole_finite .positive _ inside
      | negative =>
          apply single_of_whole_finite .negative (if isWhole m e then whole m e else whole m e + 1)
          by_cases integral : isWhole m e = true
          · rw [if_pos integral]
            exact inside
          · rw [if_neg integral]
            have part : e < 0 := by
              by_contra nonnegative
              exact integral (by simp [isWhole, not_lt.mp nonnegative])
            have mantissa := Nat.le_sub_one_of_lt stored.bits
            exact scaled_mono _ _ _ _ ((next_below m e positive part).trans mantissa) (by decide)

theorem fraction_finite : (fraction x).isFinite = true := by
  have stored := (finite_stored x).mp finite
  cases held : x.toModel.unpack with rw [held] at stored
  | infinity s | notANumber => exact stored.elim
  | zero s =>
      have still : (truncate x).toModel.unpack = .zero s := by rw [truncate, held, held]
      apply single_finite _ 0 (single_pack _ _ _)
      rw [held, still]
      cases s <;> exact ⟨trivial, le_rfl⟩
  | finite s m e positive =>
      have cut : (truncate x).toModel.unpack = if whole m e = 0 then .zero s else round .binary32 s (whole m e) 0 := by
        rw [truncate, held]
        exact unpack_pack .binary32 _ (of_whole_bounded .binary32 s _ m e stored.toHeld (whole_below m e)).1
      have below := of_whole_bounded .binary32 s _ m e stored.toHeld (whole_below m e)
      apply single_finite _ (scaled m e) (single_pack _ _ _)
      rw [held, cut]
      exact sub_bounded .binary32 s m e positive _ stored (of_whole_signed .binary32 s _) below.2

end WholeParts

section Decimals

open Exact

variable (b : Nat) (f : Int)

theorem widen_double (x : Float32) (held : Held .binary64 b f) (single : Single (scaled b f) x) :
    Double (scaled b f) (widen x) := by
  obtain ⟨stored, below⟩ := single
  rw [widen]
  cases unpacked : x.toModel.unpack with rw [unpacked] at stored below
  | infinity s | notANumber => exact stored.elim
  | zero s => exact double_pack _ _ ⟨trivial, scaled_nonneg b f⟩
  | finite s m e positive => exact double_pack _ _ (round_bounded .binary64 s m e positive b f held below)

theorem narrow_single (x : Float) (held : Held .binary32 b f) (double : Double (scaled b f) x) :
    Single (scaled b f) (narrow x) := by
  obtain ⟨stored, below⟩ := double
  rw [narrow]
  cases unpacked : x.toModel.unpack with rw [unpacked] at stored below
  | infinity s | notANumber => exact stored.elim
  | zero s => exact single_pack _ _ ⟨trivial, scaled_nonneg b f⟩
  | finite s m e positive => exact single_pack _ _ (round_bounded .binary32 s m e positive b f held below)

theorem round_away_double (x : Float) (held : Held .binary64 b f) (large : scaled (2 ^ 53) 0 ≤ scaled b f)
    (double : Double (scaled b f) x) : Double (scaled b f) (roundAway x) := by
  have ⟨stored, below⟩ := double
  rw [roundAway]
  cases unpacked : x.toModel.unpack with rw [unpacked] at stored below
  | infinity s | notANumber | zero s => exact double
  | finite s m e positive =>
      apply double_pack _ _ (of_whole_bounded .binary64 s _ b f held _)
      by_cases integral : 0 ≤ e
      · rw [nearest, if_pos integral, whole_exact m e integral]
        exact below
      · refine le_trans ?_ large
        rw [scaled_le]
        exact (nearest_below m e positive (by omega)).trans stored.bits.le

theorem power_of_ten (k : Nat) (few : k ≤ 9) :
    Stored .binary64 (Float.ofNat (Nat.pow 10 k)).toModel.unpack ∧
      magnitude (Float.ofNat (Nat.pow 10 k)).toModel.unpack = scaled (10 ^ k) 0 := by
  have ordinary : (Float.ofNat (Nat.pow 10 k)).toModel.unpack.isFinite = true := by
    interval_cases k <;> rfl
  have digits : magnitude (Float.ofNat (Nat.pow 10 k)).toModel.unpack =
      scaled (10 ^ k * 2 ^ (52 - (10 ^ k).log2)) (-(52 - (10 ^ k).log2 : Nat)) := by
    interval_cases k <;> rfl
  refine ⟨unpack_stored .binary64 _ (by decide) ordinary, ?_⟩
  rw [digits, scaled_shift, neg_add_cancel]

theorem scale_up (k : Nat) : largest * scaled (10 ^ k) 0 = scaled ((2 ^ 24 - 1) * 5 ^ k) (104 + k) := by
  have split : (10 : Nat) ^ k = 5 ^ k * 2 ^ k := by rw [← Nat.mul_pow]
  rw [largest, scaled_mul, split, ← Nat.mul_assoc, scaled_shift, add_zero]

theorem scale_up_held (k : Nat) (few : k ≤ 9) : Held .binary64 ((2 ^ 24 - 1) * 5 ^ k) (104 + k) := by
  have power : 5 ^ k ≤ 5 ^ 9 := Nat.pow_le_pow_right (by decide) few
  refine ⟨?_, ?_, ?_⟩
  · exact lt_of_le_of_lt (Nat.mul_le_mul_left _ power) (by decide)
  · exact le_trans (by decide : Format.binary64.minExponent ≤ 0) (by omega)
  · exact le_trans (by omega) (by decide : 113 ≤ maxExponent .binary64)

theorem decimals_finite (x : Float32) (k : Nat) (few : k ≤ 9) (finite : x.isFinite = true) :
    (narrow (roundAway (widen x * Float.ofNat (Nat.pow 10 k)) / Float.ofNat (Nat.pow 10 k))).isFinite = true := by
  obtain ⟨stored, size⟩ := power_of_ten k few
  have held : Held .binary64 (2 ^ 24 - 1) 104 := by refine ⟨?_, ?_, ?_⟩ <;> decide
  have heldUp := scale_up_held k few
  have wide : Double largest (widen x) := widen_double _ _ x held (finite_single x finite)
  have product : Double (largest * scaled (10 ^ k) 0) (widen x * Float.ofNat (Nat.pow 10 k)) := by
    rw [scale_up]
    apply double_pack _ _ (mul_bounded .binary64 _ _ _ _ wide.1 stored heldUp _)
    rw [← scale_up, size]
    exact mul_le_mul_of_nonneg_right wide.2 (scaled_nonneg _ _)
  have whole : Double (largest * scaled (10 ^ k) 0) (roundAway (widen x * Float.ofNat (Nat.pow 10 k))) := by
    rw [scale_up] at product ⊢
    apply round_away_double _ _ _ heldUp _ product
    rw [← Nat.one_mul (2 ^ 53), scaled_shift]
    exact scaled_mono _ _ _ _ (Nat.mul_pos (by decide) (by positivity)) (by push_cast; omega)
  have back : Double largest (roundAway (widen x * Float.ofNat (Nat.pow 10 k)) / Float.ofNat (Nat.pow 10 k)) := by
    apply double_pack _ _ (div_bounded .binary64 _ _ _ _ whole.1 stored held _ _)
    · rw [size]
      exact scaled_pos _ _ (by positivity)
    · rw [size]
      exact whole.2
  exact single_finite _ _ (narrow_single _ _ _ largest_held back)

end Decimals

section Counts

theorem count_single (n : UInt64) : Single (scaled 1 64) n.toFloat32 := by
  have held : Held .binary32 1 64 := by refine ⟨?_, ?_, ?_⟩ <;> decide
  apply single_pack _ _ (normalize_bounded .binary32 _ 0 .positive 1 64 held _)
  have bits : n.toNat ≤ 1 * 2 ^ 64 := n.toNat_lt.le
  calc scaled (n.toNat : Int).natAbs 0 = scaled n.toNat 0 := by rw [Int.natAbs_natCast]
    _ ≤ scaled (1 * 2 ^ 64) 0 := (scaled_le _ _ 0).mpr bits
    _ = scaled 1 64 := scaled_shift 1 64 0

theorem count_fraction_finite (n : UInt64) : (n.toFloat32 / 16777216).isFinite = true :=
  div_finite _ 16777216 (single_finite _ _ (count_single n)) 8388608 1 (by decide) rfl (by norm_num [scaled])

theorem small_integer_finite (n : Int) (low : -9 ≤ n) (high : n ≤ 9) : (Float32.ofInt n).isFinite = true := by
  have each : ∀ k : Fin 19, (Float32.ofInt (k.val - 9)).isFinite = true := by decide +kernel
  have same : ((n + 9).toNat : Int) - 9 = n := by omega
  rw [← same]
  exact each ⟨(n + 9).toNat, by omega⟩

end Counts

end Rounding

end GraphCalc

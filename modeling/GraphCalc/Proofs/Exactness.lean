import GraphCalc.Proofs.Precision

set_option autoImplicit false

namespace GraphCalc.Rounding

open Float.Model (Format UnpackedFloat totalExponent)
open Float.Model.UnpackedFloat

section Values

def signed : Sign → ℚ → ℚ
  | .negative, q => -q
  | .positive, q => q

-- What a number stands for; an infinity or a NaN stands for none.
def value? : UnpackedFloat → Option ℚ
  | .zero _ => some 0
  | .finite s m e _ => some (signed s (scaled m e))
  | _ => none

variable (spec : Format)

def Exactly (q : ℚ) (f : UnpackedFloat) : Prop := Stored spec f ∧ value? f = some q

-- Written as the format asks; the exponent alone may still be too large for it.
structure Trimmed (m : Nat) (e : Int) : Prop where
  bits : m < 2 ^ spec.mantissaBits
  low : spec.minExponent ≤ e
  lead : 2 ^ spec.mantissaBitsWithoutImplicit ≤ m ∨ e = spec.minExponent

-- Nothing of the number was lost so far.
def Kept (sign : Sign) (q : ℚ) (f : UnpackedFloat) : Prop :=
  ∃ m e positive, f = .finite sign m e positive ∧ Trimmed spec m e ∧ scaled m e = q

-- The format can hold it, whatever its sign.
def Fits (q : ℚ) : Prop := ∃ m e, Held spec m e ∧ |q| = scaled m e

theorem signed_abs (s : Sign) (q : ℚ) (nonnegative : 0 ≤ q) : |signed s q| = q := by
  cases s with
  | negative => exact (abs_neg q).trans (abs_of_nonneg nonnegative)
  | positive => exact abs_of_nonneg nonnegative

theorem signed_mul (s t : Sign) (p q : ℚ) : signed (s * t) (p * q) = signed s p * signed t q := by
  cases s <;> cases t
  · exact (neg_mul_neg p q).symm
  · exact (neg_mul p q).symm
  · exact (mul_neg p q).symm
  · rfl

theorem signed_div (s t : Sign) (p q : ℚ) : signed (s / t) (p / q) = signed s p / signed t q := by
  cases s <;> cases t
  · exact (neg_div_neg_eq p q).symm
  · exact (neg_div q p).symm
  · exact (div_neg p).symm
  · rfl

theorem signed_apply (s : Sign) (m : Nat) (e : Int) : signed s (scaled m e) = (s.apply m : ℤ) * 2 ^ e := by
  cases s with
  | negative =>
      change -((m : ℚ) * 2 ^ e) = ((-(m : ℤ) : ℤ) : ℚ) * 2 ^ e
      push_cast
      ring
  | positive => rfl

theorem scaled_inj (m n : Nat) (e : Int) (same : scaled m e = scaled n e) : m = n :=
  le_antisymm ((scaled_le m n e).mp same.le) ((scaled_le n m e).mp same.ge)

theorem mantissa_pos (m n : Nat) (e f : Int) (positive : 0 < m) (same : scaled m e = scaled n f) : 0 < n := by
  by_contra zero
  have none : scaled n f = 0 := by rw [Nat.eq_zero_of_not_pos zero, scaled, Nat.cast_zero, zero_mul]
  exact absurd (same.trans none) (scaled_pos m e positive).ne'

theorem lead_place (m n : Nat) (e f : Int) (positive : 0 < m) (same : scaled m e = scaled n f) :
    totalExponent m e = totalExponent n f := by
  have nonzero := mantissa_pos m n e f positive same
  -- On the finer of the two grids the mantissas differ by a power of two.
  rcases le_total e f with finer | finer
  · have mantissa : m = n <<< (f - e).toNat := by
      rw [Nat.shiftLeft_eq]
      exact scaled_inj _ _ e (same.trans (scaled_regrid n e f finer))
    rw [totalExponent, totalExponent, mantissa, log2_shift n _ nonzero.ne']
    omega
  · have mantissa : n = m <<< (e - f).toNat := by
      rw [Nat.shiftLeft_eq]
      exact scaled_inj _ _ f (same.symm.trans (scaled_regrid m f e finer))
    rw [totalExponent, totalExponent, mantissa, log2_shift m _ positive.ne']
    omega

theorem target_coarse (m n : Nat) (e f : Int) (positive : 0 < m) (same : scaled m e = scaled n f)
    (bits : n < 2 ^ spec.mantissaBits) (least : spec.minExponent ≤ f) :
    spec.targetExponent (totalExponent m e) ≤ f := by
  have length : n.log2 < spec.mantissaBits := by
    by_cases zero : n = 0
    · rw [zero, Nat.log2_zero, mantissa_bits]
      omega
    · exact (Nat.log2_lt zero).mpr bits
  rw [lead_place m n e f positive same]
  unfold Format.targetExponent totalExponent
  omega

end Values

section Rounded

variable (spec : Format)

theorem shift_exact (m k : Nat) : (ExtendedMantissa.ofMantissaAndAccuracy (m * 2 ^ k) .exact) >>> k = ⟨m, false, false⟩ := by
  induction k generalizing m with
  | zero =>
      rw [Nat.pow_zero, Nat.mul_one]
      rfl
  | succ k ih =>
      rw [shift_succ, Nat.pow_succ', ← Nat.mul_assoc, ih]
      change (⟨m * 2 / 2, m * 2 % 2 != 0, false⟩ : ExtendedMantissa) = ⟨m, false, false⟩
      rw [Nat.mul_div_cancel _ (by decide), Nat.mul_mod_left]
      rfl

theorem round_with_accuracy_finite (sign : Sign) (m : Nat) (e : Int) (accuracy : Accuracy) (em last : ExtendedMantissa)
    (f g : Int) (first : shiftToTargetExponent spec m e accuracy = (em, f))
    (second : shiftToTargetExponent spec em.roundedMantissa f .exact = (last, g)) (positive : 0 < last.mantissa) :
    roundWithAccuracy spec sign m e accuracy = .finite sign last.mantissa g positive := by
  have twice : shiftToTargetExponent spec (shiftToTargetExponent spec m e accuracy).1.roundedMantissa
      (shiftToTargetExponent spec m e accuracy).2 .exact = (last, g) := by rw [first, second]
  have mantissa := congrArg (fun shifted => shifted.1.mantissa) twice
  have exponent := congrArg Prod.snd twice
  exact (dif_neg fun zero => positive.ne' (mantissa.symm.trans zero)).trans
    (finite_congr sign _ _ _ _ _ positive mantissa exponent)

theorem round_with_accuracy_kept (sign : Sign) (m : Nat) (e : Int) (positive : 0 < m) (n : Nat) (f : Int)
    (bits : n < 2 ^ spec.mantissaBits) (least : spec.minExponent ≤ f) (same : scaled m e = scaled n f)
    (low : e ≤ spec.targetExponent (totalExponent m e)) :
    Kept spec sign (scaled m e) (roundWithAccuracy spec sign m e .exact) := by
  have coarse := target_coarse spec m n e f positive same bits least
  have bits := shifted_bits spec m e
  have lead := shifted_lead spec m e low
  have least := target_min spec (totalExponent m e)
  generalize target : spec.targetExponent (totalExponent m e) = t at low coarse bits lead least
  have place : e + ((t - e).toNat : Int) = t := by omega
  -- The mantissa on the grid of the format.
  have regrid : scaled (n * 2 ^ (f - t).toNat) t = scaled m e := by rw [same, ← scaled_regrid n t f coarse]
  have mantissa : m = n * 2 ^ (f - t).toNat * 2 ^ (t - e).toNat := by
    apply scaled_inj _ _ e
    rw [scaled_shift, place, regrid]
  have first : shiftToTargetExponent spec m e .exact = (⟨n * 2 ^ (f - t).toNat, false, false⟩, t) := by
    rw [shiftToTargetExponent, shiftToExponent, target]
    refine Prod.ext ?_ place
    change ExtendedMantissa.ofMantissaAndAccuracy m .exact >>> (t - e).toNat = _
    rw [mantissa, shift_exact]
  rw [mantissa, Nat.mul_div_cancel _ (by positivity)] at bits lead
  obtain ⟨r, g, second, kept, bits, low, lead⟩ := carry spec (n * 2 ^ (f - t).toNat) t bits.le least lead
  rw [regrid] at kept
  have nonzero : 0 < r := mantissa_pos m r e g positive kept.symm
  exact ⟨r, g, nonzero, round_with_accuracy_finite spec sign m e .exact _ _ t g first second nonzero, ⟨bits, low, lead⟩, kept⟩

theorem round_kept (sign : Sign) (m : Nat) (e : Int) (positive : 0 < m) (n : Nat) (f : Int)
    (bits : n < 2 ^ spec.mantissaBits) (least : spec.minExponent ≤ f) (same : scaled m e = scaled n f) :
    Kept spec sign (scaled m e) (UnpackedFloat.round spec sign m e) := by
  generalize shift : (e - spec.targetExponent (totalExponent m e)).toNat = k
  have moved : UnpackedFloat.round spec sign m e = roundWithAccuracy spec sign (m <<< k) (e - k) .exact := by
    rw [← shift]
    rfl
  have place : totalExponent (m <<< k) (e - k) = totalExponent m e := by
    rw [totalExponent, totalExponent, log2_shift m k positive.ne']
    omega
  have number : scaled (m <<< k) (e - k) = scaled m e := by rw [Nat.shiftLeft_eq, scaled_shift, sub_add_cancel]
  rw [moved, ← number]
  apply round_with_accuracy_kept spec sign _ _ _ n f bits least (number.trans same)
  · rw [place]
    omega
  · rw [Nat.shiftLeft_eq]
    positivity

theorem kept_exact (sign : Sign) (f : UnpackedFloat) (n : Nat) (g : Int) (held : Held spec n g)
    (kept : Kept spec sign (scaled n g) f) : Exactly spec (signed sign (scaled n g)) f := by
  obtain ⟨m, e, positive, rfl, ⟨bits, low, lead⟩, same⟩ := kept
  have high := exponent_bounded spec m n e g lead held same.le
  refine ⟨⟨⟨bits, low, high.trans held.high⟩, lead⟩, ?_⟩
  rw [← same]
  rfl

-- A number that is too large becomes infinite on the way to its bits.
theorem kept_finite (sign : Sign) (f : UnpackedFloat) (q : ℚ) (kept : Kept spec sign q f)
    (finite : (unpack spec (pack spec f)).isFinite = true) : Exactly spec (signed sign q) f := by
  obtain ⟨m, e, positive, rfl, ⟨bits, low, lead⟩, same⟩ := kept
  have range := exponent_range spec
  have least := min_exponent spec
  have high : e ≤ maxExponent spec := by
    by_contra tooLarge
    unfold maxExponent at tooLarge
    have infinite : pack spec (.finite sign m e positive) = packedInfinity spec sign := if_pos (by omega)
    rw [infinite, unpack_infinity] at finite
    cases finite
  refine ⟨⟨⟨bits, low, high⟩, lead⟩, ?_⟩
  rw [← same]
  rfl

theorem normalize_apply (sign : Sign) (m : Nat) (e : Int) (zeroSign : Sign) (positive : 0 < m) :
    UnpackedFloat.normalize spec (sign.apply m) e zeroSign = UnpackedFloat.round spec sign m e := by
  cases sign with
  | negative =>
      rw [UnpackedFloat.normalize, compare_lt_iff_lt.mpr (by dsimp only [Sign.apply]; omega)]
      dsimp only [Sign.apply]
      rw [neg_neg, Int.toNat_natCast]
  | positive =>
      rw [UnpackedFloat.normalize, compare_gt_iff_gt.mpr (by dsimp only [Sign.apply]; omega)]
      dsimp only [Sign.apply]
      rw [Int.toNat_natCast]

theorem normalize_exact (n : Int) (e : Int) (zeroSign : Sign) (fits : Fits spec (n * 2 ^ e)) :
    Exactly spec (n * 2 ^ e) (UnpackedFloat.normalize spec n e zeroSign) := by
  by_cases zero : n = 0
  · rw [UnpackedFloat.normalize, compare_eq_iff_eq.mpr zero, zero, Int.cast_zero, zero_mul]
    exact ⟨trivial, rfl⟩
  · obtain ⟨sign, turned⟩ : ∃ sign : Sign, sign.apply n.natAbs = n := by
      rcases le_total n 0 with negative | positive
      · exact ⟨.negative, by dsimp only [Sign.apply]; omega⟩
      · exact ⟨.positive, by dsimp only [Sign.apply]; omega⟩
    have number : (n : ℚ) * 2 ^ e = signed sign (scaled n.natAbs e) := by rw [signed_apply, turned]
    obtain ⟨m, f, held, same⟩ := fits
    rw [number, signed_abs _ _ (scaled_nonneg _ e)] at same
    rw [number, ← turned, normalize_apply spec sign n.natAbs e zeroSign (by omega)]
    have kept := round_kept spec sign n.natAbs e (by omega) m f held.bits held.low same
    rw [same] at kept
    rw [turned, same]
    exact kept_exact spec sign _ m f held kept

end Rounded

section Operations

theorem log2_mul_le (m n : Nat) : (m * n).log2 ≤ m.log2 + n.log2 + 1 := by
  by_cases zero : m * n = 0
  · rw [zero, Nat.log2_zero]
    omega
  · have fits : m * n < 2 ^ (m.log2 + n.log2 + 2) := by
      calc m * n < 2 ^ (m.log2 + 1) * 2 ^ (n.log2 + 1) := Nat.mul_lt_mul'' Nat.lt_log2_self Nat.lt_log2_self
        _ = 2 ^ (m.log2 + n.log2 + 2) := by rw [← Nat.pow_add]; congr 1; omega
    exact Nat.lt_succ_iff.mp ((Nat.log2_lt zero).mpr fits)

variable (spec : Format) (x y : UnpackedFloat) (p q : ℚ) (left : Exactly spec p x) (right : Exactly spec q y)

theorem signed_regrid (s : Sign) (m : Nat) (e f : Int) (finer : e ≤ f) :
    signed s (scaled m f) = (s.apply (m <<< (f - e).toNat : Nat) : ℤ) * 2 ^ e := by
  rw [scaled_regrid m e f finer, signed_apply, Nat.shiftLeft_eq]

theorem div_finite_exact (s t : Sign) (m n : Nat) (e g : Int) (positive : 0 < m) (positive' : 0 < n) (b : Nat) (f : Int)
    (held : Held spec b f) (same : scaled m e = scaled b f * scaled n g) :
    Exactly spec (signed (s / t) (scaled b f)) (div spec (.finite s m e positive) (.finite t n g positive')) := by
  obtain ⟨k, d, divided, dividend, target, low⟩ := quotient_rounded spec s t m n e g positive positive'
  rw [scaled_mul] at same
  have nonzero : 0 < b := Nat.pos_of_mul_pos_right (mantissa_pos m _ e _ positive same)
  have coarse : d ≤ f := by
    have place := lead_place m (b * n) e (f + g) positive same
    have product := log2_mul_le b n
    have bits := (Nat.log2_lt nonzero.ne').mpr held.bits
    have least := held.low
    unfold Format.targetExponent totalExponent at target
    unfold totalExponent at place
    omega
  -- The divisor goes into the dividend without a rest.
  have product : m <<< k = b * 2 ^ (f - d).toNat * n := by
    apply scaled_inj _ _ (d + g)
    rw [← dividend, same, scaled_regrid (b * n) (d + g) (f + g) (by omega), add_sub_add_right_eq_sub]
    congr 1
    ring
  have number : scaled (b * 2 ^ (f - d).toNat) d = scaled b f := (scaled_regrid b d f coarse).symm
  rw [product, Nat.mul_div_cancel _ positive'] at low
  rw [divided, product, Nat.mul_div_cancel _ positive', Nat.mul_mod_left, accuracyOfFraction, if_pos rfl, ← number]
  have kept := round_with_accuracy_kept spec (s / t) _ d (by positivity) b f held.bits held.low number low
  rw [number] at kept ⊢
  exact kept_exact spec (s / t) _ b f held kept

-- The exponents are compared first: a larger one goes with a leading bit.
theorem compare_scaled (m n : Nat) (e g : Int) (first : Canonical spec m e) (second : Canonical spec n g) :
    (compare e g).then (compare m n) = compare (scaled m e) (scaled n g) := by
  have width := mantissa_bits spec
  rcases lt_trichotomy e g with lower | rfl | higher
  · have lead := second.lead.resolve_right (by have := first.low; omega)
    rw [compare_lt_iff_lt.mpr lower, compare_lt_iff_lt.mpr (scaled_lead _ m n e g (width ▸ first.bits) lead lower)]
    rfl
  · rw [compare_eq_iff_eq.mpr rfl]
    rcases lt_trichotomy m n with less | rfl | greater
    · rw [compare_lt_iff_lt.mpr less, compare_lt_iff_lt.mpr ((scaled_lt m n e).mpr less)]
      rfl
    · rw [compare_eq_iff_eq.mpr rfl, compare_eq_iff_eq.mpr rfl]
      rfl
    · rw [compare_gt_iff_gt.mpr greater, compare_gt_iff_gt.mpr ((scaled_lt n m e).mpr greater)]
      rfl
  · have lead := first.lead.resolve_right (by have := second.low; omega)
    rw [compare_gt_iff_gt.mpr higher, compare_gt_iff_gt.mpr (scaled_lead _ n m g e (width ▸ second.bits) lead higher)]
    rfl

theorem compare_opposite (a b : ℚ) : (compare a b).swap = compare (-a) (-b) := by
  rcases lt_trichotomy a b with less | rfl | greater
  · rw [compare_lt_iff_lt.mpr less, compare_gt_iff_gt.mpr (neg_lt_neg less)]
    rfl
  · rw [compare_eq_iff_eq.mpr rfl, compare_eq_iff_eq.mpr rfl]
    rfl
  · rw [compare_gt_iff_gt.mpr greater, compare_lt_iff_lt.mpr (neg_lt_neg greater)]
    rfl

include left right

theorem add_exact (fits : Fits spec (p + q)) : Exactly spec (p + q) (add spec x y) := by
  cases x with
  | infinity s | notANumber => exact left.1.elim
  | zero s =>
      obtain rfl := Option.some.inj left.2
      cases y with
      | infinity t | notANumber => exact right.1.elim
      | zero t =>
          obtain rfl := Option.some.inj right.2
          rw [add_zero]
          cases s <;> cases t <;> exact ⟨trivial, rfl⟩
      | finite t n g positive =>
          rw [zero_add]
          exact right
  | finite s m e positive =>
      cases y with
      | infinity t | notANumber => exact right.1.elim
      | zero t =>
          obtain rfl := Option.some.inj right.2
          rw [add_zero]
          exact left
      | finite t n g positive' =>
          obtain rfl := Option.some.inj left.2
          obtain rfl := Option.some.inj right.2
          have total : signed s (scaled m e) + signed t (scaled n g) =
              ((s.apply (m <<< (e - min e g).toNat : Nat) + t.apply (n <<< (g - min e g).toNat : Nat) : ℤ) : ℚ) *
                2 ^ (min e g) := by
            rw [signed_regrid s m _ e (min_le_left e g), signed_regrid t n _ g (min_le_right e g), Int.cast_add, add_mul]
          rw [total] at fits ⊢
          exact normalize_exact spec _ _ .positive fits

theorem mul_exact (fits : Fits spec (p * q)) : Exactly spec (p * q) (mul spec x y) := by
  cases x with
  | infinity s | notANumber => exact left.1.elim
  | zero s =>
      obtain rfl := Option.some.inj left.2
      rw [zero_mul]
      cases y with
      | infinity t | notANumber => exact right.1.elim
      | zero t | finite t n g positive => exact ⟨trivial, rfl⟩
  | finite s m e positive =>
      cases y with
      | infinity t | notANumber => exact right.1.elim
      | zero t =>
          obtain rfl := Option.some.inj right.2
          rw [mul_zero]
          exact ⟨trivial, rfl⟩
      | finite t n g positive' =>
          obtain rfl := Option.some.inj left.2
          obtain rfl := Option.some.inj right.2
          rw [← signed_mul, scaled_mul] at fits ⊢
          obtain ⟨b, f, held, same⟩ := fits
          rw [signed_abs _ _ (scaled_nonneg _ _)] at same
          have kept := round_with_accuracy_kept spec (s * t) (m * n) (e + g) (Nat.mul_pos positive positive') b f held.bits
            held.low same (product_low spec m n e g positive positive' left.1 right.1)
          rw [same] at kept ⊢
          exact kept_exact spec (s * t) _ b f held kept

theorem div_exact (nonzero : q ≠ 0) (fits : Fits spec (p / q)) : Exactly spec (p / q) (div spec x y) := by
  cases y with
  | infinity t | notANumber => exact right.1.elim
  | zero t =>
      obtain rfl := Option.some.inj right.2
      exact absurd rfl nonzero
  | finite t n g positive' =>
      cases x with
      | infinity s | notANumber => exact left.1.elim
      | zero s =>
          obtain rfl := Option.some.inj left.2
          rw [zero_div]
          exact ⟨trivial, rfl⟩
      | finite s m e positive =>
          obtain rfl := Option.some.inj left.2
          obtain rfl := Option.some.inj right.2
          rw [← signed_div] at fits ⊢
          obtain ⟨b, f, held, same⟩ := fits
          rw [signed_abs _ _ (div_nonneg (scaled_nonneg m e) (scaled_nonneg n g))] at same
          rw [same]
          apply div_finite_exact spec s t m n e g positive positive' b f held
          rw [← same, div_mul_cancel₀ _ (scaled_pos n g positive').ne']

theorem compare_exact : x.compare y = some (compare p q) := by
  cases x with
  | infinity s | notANumber => exact left.1.elim
  | zero s =>
      obtain rfl := Option.some.inj left.2
      cases y with
      | infinity t | notANumber => exact right.1.elim
      | zero t =>
          obtain rfl := Option.some.inj right.2
          exact congrArg some (compare_eq_iff_eq.mpr rfl).symm
      | finite t n g positive' =>
          obtain rfl := Option.some.inj right.2
          have above := scaled_pos n g positive'
          cases t with
          | negative => exact congrArg some (compare_gt_iff_gt.mpr (neg_neg_of_pos above)).symm
          | positive =>
              exact congrArg some (compare_lt_iff_lt.mpr above).symm
  | finite s m e positive =>
      obtain rfl := Option.some.inj left.2
      have above := scaled_pos m e positive
      cases y with
      | infinity t | notANumber => exact right.1.elim
      | zero t =>
          obtain rfl := Option.some.inj right.2
          cases s with
          | negative => exact congrArg some (compare_lt_iff_lt.mpr (neg_neg_of_pos above)).symm
          | positive =>
              exact congrArg some (compare_gt_iff_gt.mpr above).symm
      | finite t n g positive' =>
          obtain rfl := Option.some.inj right.2
          have above' := scaled_pos n g positive'
          have order := compare_scaled spec m n e g left.1 right.1
          cases s with
          | negative =>
              cases t with
              | negative =>
                  change some ((compare e g).then (compare m n)).swap = _
                  rw [order, compare_opposite]
                  rfl
              | positive => exact congrArg some (compare_lt_iff_lt.mpr (lt_trans (neg_neg_of_pos above) above')).symm
          | positive =>
              cases t with
              | negative => exact congrArg some (compare_gt_iff_gt.mpr (lt_trans (neg_neg_of_pos above') above)).symm
              | positive =>
                  change some ((compare e g).then (compare m n)) = _
                  rw [order]
                  rfl

theorem lt_exact : x.lt y = true ↔ p < q := by
  change (x.compare y == some .lt) = true ↔ p < q
  rw [compare_exact spec x y p q left right, beq_iff_eq, Option.some.injEq, compare_lt_iff_lt]

theorem same_exact : x.beq y = true ↔ p = q := by
  change (x.compare y == some .eq) = true ↔ p = q
  rw [compare_exact spec x y p q left right, beq_iff_eq, Option.some.injEq, compare_eq_iff_eq]

omit right in
theorem stored_once (same : Exactly spec p y) (nonzero : p ≠ 0) : x = y := by
  cases x with
  | infinity s | notANumber => exact left.1.elim
  | zero s => exact absurd (Option.some.inj left.2).symm nonzero
  | finite s m e positive =>
      cases y with
      | infinity t | notANumber => exact same.1.elim
      | zero t => exact absurd (Option.some.inj same.2).symm nonzero
      | finite t n g positive' =>
          have number : signed s (scaled m e) = signed t (scaled n g) := Option.some.inj (left.2.trans same.2.symm)
          have size : scaled m e = scaled n g := by
            rw [← signed_abs s _ (scaled_nonneg m e), number, signed_abs t _ (scaled_nonneg n g)]
          have above := scaled_pos n g positive'
          have sign : s = t := by
            rw [size] at number
            cases s <;> cases t
            · rfl
            · exact absurd number (lt_trans (neg_neg_of_pos above) above).ne
            · exact absurd number (lt_trans (neg_neg_of_pos above) above).ne'
            · rfl
          have exponent : e = g := le_antisymm (exponent_bounded spec m n e g left.1.lead same.1.toHeld size.le)
            (exponent_bounded spec n m g e same.1.lead left.1.toHeld size.ge)
          subst sign exponent
          exact finite_congr s m n e e positive positive' (scaled_inj m n e size) rfl

end Operations

section Precisions

def SingleIs (q : ℚ) (x : Float32) : Prop := Exactly .binary32 q x.toModel.unpack

def DoubleIs (q : ℚ) (x : Float) : Prop := Exactly .binary64 q x.toModel.unpack

theorem single_exact (q : ℚ) (f : UnpackedFloat) (exact : Exactly .binary32 q f) : SingleIs q (Exact.single f) := by
  change Exactly .binary32 q (unpack .binary32 (pack .binary32 f))
  rwa [unpack_pack .binary32 f exact.1]

theorem double_exact (q : ℚ) (f : UnpackedFloat) (exact : Exactly .binary64 q f) : DoubleIs q (Exact.double f) := by
  change Exactly .binary64 q (unpack .binary64 (pack .binary64 f))
  rwa [unpack_pack .binary64 f exact.1]

theorem whole_fits (spec : Format) (n : Nat) (bits : n < 2 ^ spec.mantissaBits) (high : 0 ≤ maxExponent spec) :
    Fits spec n := by
  refine ⟨n, 0, ⟨bits, min_exponent_nonpos spec, high⟩, ?_⟩
  rw [scaled, zpow_zero, mul_one, Nat.abs_cast]

section Single

variable (x y : Float32) (p q : ℚ) (left : SingleIs p x) (right : SingleIs q y)

include left right

theorem add_single (fits : Fits .binary32 (p + q)) : SingleIs (p + q) (x + y) :=
  single_exact _ _ (add_exact .binary32 _ _ p q left right fits)

theorem div_single (nonzero : q ≠ 0) (fits : Fits .binary32 (p / q)) : SingleIs (p / q) (x / y) :=
  single_exact _ _ (div_exact .binary32 _ _ p q left right nonzero fits)

theorem lt_single : x < y ↔ p < q := by
  rw [lt_unpacked]
  exact lt_exact .binary32 _ _ p q left right

theorem same_single : (x == y) = true ↔ p = q := same_exact .binary32 _ _ p q left right

end Single

section Double

variable (x y : Float) (p q : ℚ) (left : DoubleIs p x) (right : DoubleIs q y)

include left right

theorem mul_double (fits : Fits .binary64 (p * q)) : DoubleIs (p * q) (x * y) :=
  double_exact _ _ (mul_exact .binary64 _ _ p q left right fits)

theorem div_double (nonzero : q ≠ 0) (fits : Fits .binary64 (p / q)) : DoubleIs (p / q) (x / y) :=
  double_exact _ _ (div_exact .binary64 _ _ p q left right nonzero fits)

end Double

theorem count_double (n : UInt64) (small : n.toNat < 2 ^ 53) : DoubleIs n.toNat n.toFloat := by
  have fits : Fits .binary64 (((n.toNat : ℤ) : ℚ) * 2 ^ (0 : ℤ)) := by
    rw [zpow_zero, mul_one]
    exact whole_fits .binary64 n.toNat small (by decide)
  have exact := normalize_exact .binary64 n.toNat 0 .positive fits
  rw [zpow_zero, mul_one] at exact
  exact double_exact _ _ exact

theorem whole_scaled (m : Nat) (e : Int) (integral : Exact.isWhole m e = true) :
    scaled (Exact.whole m e) 0 = scaled m e := by
  unfold Exact.whole
  by_cases nonnegative : 0 ≤ e
  · rw [if_pos nonnegative, whole_exact m e nonnegative]
  · have divides : m % 2 ^ (-e).toNat = 0 := by
      simpa [Exact.isWhole, nonnegative] using integral
    rw [if_neg nonnegative, scaled_regrid _ e 0 (by omega), zero_sub]
    exact congrArg (scaled · e) (Nat.div_mul_cancel (Nat.dvd_of_mod_eq_zero divides))

theorem integer_cases (x : Float32) (n : Int) (integral : integer? x = some n) :
    (∃ s, x.toModel.unpack = .zero s ∧ n = 0) ∨ ∃ s m e positive, x.toModel.unpack = .finite s m e positive ∧
      Exact.isWhole m e = true ∧ n = s.apply (Exact.whole m e) := by
  unfold integer? at integral
  cases held : x.toModel.unpack with rw [held] at integral
  | infinity s | notANumber => cases integral
  | zero s => exact Or.inl ⟨s, rfl, (Option.some.inj integral).symm⟩
  | finite s m e positive =>
      dsimp only at integral
      by_cases exact : Exact.isWhole m e = true
      · rw [if_pos exact] at integral
        refine Or.inr ⟨s, m, e, positive, rfl, exact, ?_⟩
        cases s <;> exact (Option.some.inj integral).symm
      · rw [if_neg exact] at integral
        cases integral

theorem integer_single (x : Float32) (n : Int) (integral : integer? x = some n) : SingleIs n x := by
  rcases integer_cases x n integral with ⟨s, held, rfl⟩ | ⟨s, m, e, positive, held, exact, rfl⟩
  · rw [SingleIs, held, Int.cast_zero]
    exact ⟨trivial, rfl⟩
  · have stored := (single_of_unpacked x s m e positive held).1
    rw [held] at stored
    rw [SingleIs, held]
    refine ⟨stored, ?_⟩
    have number := signed_apply s (Exact.whole m e) 0
    rw [whole_scaled m e exact, zpow_zero, mul_one] at number
    rw [← number]
    rfl

theorem zero_single : SingleIs 0 0 := ⟨trivial, rfl⟩

theorem two_single : SingleIs 2 2 := integer_single 2 2 rfl

end Precisions

section Halves

theorem bits_determine (x y : Float32) (same : x.toBits = y.toBits) : x = y := by
  obtain ⟨⟨bits, valid⟩⟩ := x
  obtain ⟨⟨bits', valid'⟩⟩ := y
  obtain rfl : bits = bits' := same
  rfl

theorem single_unpacked (x : Float32) (finite : x.isFinite = true) : Exact.single x.toModel.unpack = x := by
  apply bits_determine
  exact congrArg UInt32.ofBitVec (pack_unpack .binary32 x.toBits.toBitVec (by decide) finite)

theorem single_once (x y : Float32) (p : ℚ) (left : SingleIs p x) (right : SingleIs p y) (nonzero : p ≠ 0) : x = y := by
  rw [← single_unpacked x ((finite_stored x).mpr left.1), ← single_unpacked y ((finite_stored y).mpr right.1),
    stored_once .binary32 _ _ p left right nonzero]

-- Twice a number has the same bits one place higher, so that only its size can be a problem.
theorem twice_single (x : Float32) (s : Sign) (m : Nat) (e : Int) (positive : 0 < m)
    (held : x.toModel.unpack = .finite s m e positive) (finite : (x + x).isFinite = true) :
    SingleIs (signed s (scaled m (e + 1))) (x + x) := by
  have stored := (single_of_unpacked x s m e positive held).1
  rw [held] at stored
  have twice : scaled (m + m) e = scaled m (e + 1) := by
    rw [← mul_two, ← pow_one 2, scaled_shift]
    rfl
  have whole : s.apply (m <<< (e - min e e).toNat) + s.apply (m <<< (e - min e e).toNat) = s.apply (m + m : Nat) := by
    rw [min_self, Int.sub_self]
    cases s with
    | negative => exact (neg_add (m : Int) m).symm
    | positive => rfl
  have sum : x + x = Exact.single (UnpackedFloat.round .binary32 s (m + m) e) := by
    change Exact.single (add .binary32 x.toModel.unpack x.toModel.unpack) = _
    rw [held]
    change Exact.single (UnpackedFloat.normalize .binary32 (s.apply (m <<< (e - min e e).toNat) +
      s.apply (m <<< (e - min e e).toNat)) (min e e) .positive) = _
    rw [whole, min_self, normalize_apply .binary32 s _ e .positive (Nat.add_pos_left positive m)]
  rw [sum] at finite ⊢
  have kept := round_kept .binary32 s (m + m) e (Nat.add_pos_left positive m) m (e + 1) stored.bits
    (stored.low.trans (Int.le_add_one le_rfl)) twice
  rw [twice] at kept
  exact single_exact _ _ (kept_finite .binary32 s _ _ kept finite)

theorem half_of_double (x : Float32) (finite : (x + x).isFinite = true) : (x + x) / 2 = x := by
  have sum : (Exact.single (add .binary32 x.toModel.unpack x.toModel.unpack)).isFinite = true := finite
  cases held : x.toModel.unpack with rw [held] at sum
  | infinity s => cases s <;> exact absurd sum (by decide)
  | notANumber => exact absurd sum (by decide)
  | zero s =>
      have same := single_unpacked x ((finite_stored x).mpr (held ▸ trivial))
      rw [held] at same
      rw [← same]
      cases s <;> decide +kernel
  | finite s m e positive =>
      have stored := (single_of_unpacked x s m e positive held).1
      have number : SingleIs (signed s (scaled m e)) x := ⟨stored, by rw [held]; rfl⟩
      rw [held] at stored
      have double := twice_single x s m e positive held finite
      have half : signed s (scaled m (e + 1)) / 2 = signed s (scaled m e) := by
        rw [signed_apply, signed_apply, zpow_add_one₀ two_ne_zero]
        ring
      have above := scaled_pos m e positive
      have nonzero : signed s (scaled m e) ≠ 0 := by
        rw [← abs_pos, signed_abs s _ above.le]
        exact above
      have halved := div_single _ _ _ _ double two_single two_ne_zero (by
        rw [half]
        exact ⟨m, e, stored.toHeld, signed_abs s _ above.le⟩)
      rw [half] at halved
      exact single_once _ _ _ halved number nonzero

end Halves

end GraphCalc.Rounding

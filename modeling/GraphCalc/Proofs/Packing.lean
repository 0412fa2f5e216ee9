import GraphCalc.Proofs.Rounding

set_option autoImplicit false

namespace GraphCalc.Rounding

open Float.Model (Format UnpackedFloat totalExponent)
open Float.Model.UnpackedFloat

variable (spec : Format)

section Words

theorem of_nat_value (width n : Nat) (fits : n < 2 ^ width) : (BitVec.ofNat width n).toNat = n := by
  rw [BitVec.toNat_ofNat, Nat.mod_eq_of_lt fits]

theorem of_nat_nonzero (width n : Nat) (positive : 0 < n) (fits : n < 2 ^ width) : BitVec.ofNat width n ≠ 0#_ := by
  intro zero
  have value := congrArg BitVec.toNat zero
  rw [of_nat_value width n fits, BitVec.toNat_zero] at value
  omega

-- The largest exponent is kept for infinities and NaNs.
theorem of_nat_ordinary (width n : Nat) (small : n + 1 < 2 ^ width) : BitVec.ofNat width n ≠ -1#_ := by
  intro largest
  have value := congrArg BitVec.toNat largest
  rw [of_nat_value width n (by omega), BitVec.neg_one_eq_allOnes, BitVec.toNat_allOnes] at value
  omega

theorem implicit_bit (width : Nat) (m : BitVec width) : (1#1 ++ m).toNat = m.toNat + 2 ^ width := by
  rw [BitVec.toNat_append, ← Nat.shiftLeft_add_eq_or_of_lt m.isLt, BitVec.toNat_one (by decide), Nat.one_shiftLeft,
    Nat.add_comm]

theorem sign_of_components (sign : Sign) (exponent : BitVec spec.exponentBits)
    (mantissa : BitVec spec.mantissaBitsWithoutImplicit) :
    Sign.ofBitVec (unpackSign (packComponents spec sign exponent mantissa)) = sign := by
  have top : unpackSign (packComponents spec sign exponent mantissa) = sign.toBitVec := by
    unfold unpackSign packComponents
    ext i inside
    simp [BitVec.getElem_append, BitVec.getLsbD_append, show i = 0 by omega]
  rw [top]
  cases sign <;> rfl

end Words

theorem finite_congr (sign : Sign) (m n : Nat) (e g : Int) (positive : 0 < m) (positive' : 0 < n) (mantissa : m = n)
    (exponent : e = g) : UnpackedFloat.finite sign m e positive = .finite sign n g positive' := by
  subst mantissa exponent
  rfl

theorem unpack_normal (sign : Sign) (exponent : BitVec spec.exponentBits)
    (mantissa : BitVec spec.mantissaBitsWithoutImplicit) (ordinary : exponent ≠ -1#_) (nonzero : exponent ≠ 0#_)
    (positive : 0 < (1#1 ++ mantissa).toNat) :
    unpack spec (packComponents spec sign exponent mantissa) =
      .finite sign (1#1 ++ mantissa).toNat (exponent.toNat - (spec.exponentBias + spec.mantissaBitsWithoutImplicit))
        positive := by
  unfold unpack
  dsimp only
  rw [sign_of_components, if_neg (by rwa [unpackExponent_packComponents]),
    if_neg (by rwa [unpackExponent_packComponents])]
  apply finite_congr
  · rw [unpackMantissa_packComponents]
  · rw [unpackExponent_packComponents]

theorem zero_ordinary : (0#_ : BitVec spec.exponentBits) ≠ -1#_ :=
  of_nat_ordinary spec.exponentBits 0 (Nat.one_lt_two_pow spec.he.ne')

theorem unpack_subnormal (sign : Sign) (mantissa : BitVec spec.mantissaBitsWithoutImplicit)
    (nonzero : mantissa ≠ 0#_) (positive : 0 < mantissa.toNat) :
    unpack spec (packComponents spec sign 0#_ mantissa) = .finite sign mantissa.toNat spec.minExponent positive := by
  unfold unpack
  dsimp only
  rw [sign_of_components, if_neg (by rw [unpackExponent_packComponents]; exact zero_ordinary spec),
    if_pos (unpackExponent_packComponents ..), dif_neg (by rwa [unpackMantissa_packComponents])]
  apply finite_congr
  · rw [unpackMantissa_packComponents]
  · rw [unpackExponent_packComponents, min_exponent, BitVec.toNat_zero]
    omega

theorem unpack_infinity (sign : Sign) : unpack spec (packedInfinity spec sign) = .infinity sign := by
  change unpack spec (packComponents spec sign (-1#_) 0#_) = .infinity sign
  unfold unpack
  dsimp only
  rw [sign_of_components, if_pos (unpackExponent_packComponents ..), if_pos (unpackMantissa_packComponents ..)]

theorem unpack_zero (sign : Sign) : unpack spec (packedZero spec sign) = .zero sign := by
  change unpack spec (packComponents spec sign 0#_ 0#_) = .zero sign
  unfold unpack
  dsimp only
  rw [sign_of_components, if_neg (by rw [unpackExponent_packComponents]; exact zero_ordinary spec),
    if_pos (unpackExponent_packComponents ..), dif_pos (unpackMantissa_packComponents ..)]

theorem pack_finite (s : Sign) (m : Nat) (e : Int) (positive : 0 < m)
    (inside : (e + spec.exponentBias + spec.mantissaBitsWithoutImplicit).toNat + 1 < 2 ^ spec.exponentBits) :
    pack spec (.finite s m e positive) =
      if m.log2 + 1 = spec.mantissaBits then
        packComponents spec s (.ofNat _ (e + spec.exponentBias + spec.mantissaBitsWithoutImplicit).toNat) (.ofNat _ m)
      else packComponents spec s 0#_ (.ofNat _ m) :=
  if_neg inside.not_ge

theorem unpack_pack (f : UnpackedFloat) (stored : Stored spec f) : unpack spec (pack spec f) = f := by
  cases f with
  | infinity s | notANumber => exact stored.elim
  | zero s => exact unpack_zero spec s
  | finite s m e positive =>
      have width := mantissa_bits spec
      have range := exponent_range spec
      have least := min_exponent spec
      have low := stored.low
      have high := stored.high
      unfold maxExponent at high
      have bits := (Nat.log2_lt positive.ne').mpr stored.bits
      rw [pack_finite spec s m e positive (by omega)]
      by_cases normal : m.log2 + 1 = spec.mantissaBits
      · have lead : 2 ^ spec.mantissaBitsWithoutImplicit ≤ m := (Nat.le_log2 positive.ne').mp (by omega)
        have above := stored.bits
        rw [width, Nat.pow_succ] at above
        have restored : (1#1 ++ BitVec.ofNat spec.mantissaBitsWithoutImplicit m).toNat = m := by
          rw [implicit_bit, BitVec.toNat_ofNat, Nat.mod_eq_sub_mod lead, Nat.mod_eq_of_lt (by omega)]
          omega
        rw [if_pos normal, unpack_normal spec s _ _ (of_nat_ordinary _ _ (by omega))
          (of_nat_nonzero _ _ (by omega) (by omega)) (by rwa [restored])]
        apply finite_congr
        · exact restored
        · rw [of_nat_value _ _ (by omega)]
          omega
      · have below : m < 2 ^ spec.mantissaBitsWithoutImplicit := (Nat.log2_lt positive.ne').mp (by omega)
        have smallest : e = spec.minExponent := stored.lead.resolve_left (by omega)
        have restored := of_nat_value spec.mantissaBitsWithoutImplicit m below
        rw [if_neg normal, unpack_subnormal spec s _ (of_nat_nonzero _ _ positive below) (by rwa [restored])]
        exact finite_congr s _ _ _ _ _ _ restored smallest.symm

theorem subnormal_canonical (m : Nat) (small : m < 2 ^ spec.mantissaBitsWithoutImplicit)
    (wide : 0 < spec.exponentBias) : Canonical spec m spec.minExponent := by
  refine ⟨⟨?_, le_rfl, ?_⟩, Or.inr rfl⟩
  · rw [mantissa_bits, Nat.pow_succ]
    omega
  · rw [min_exponent, maxExponent]
    omega

theorem normal_canonical (k n : Nat) (small : k < 2 ^ spec.mantissaBitsWithoutImplicit) (positive : 0 < n)
    (ordinary : n + 1 < 2 ^ spec.exponentBits) :
    Canonical spec (k + 2 ^ spec.mantissaBitsWithoutImplicit)
      (n - (spec.exponentBias + spec.mantissaBitsWithoutImplicit)) := by
  have range := exponent_range spec
  refine ⟨⟨?_, ?_, ?_⟩, Or.inl (Nat.le_add_left _ _)⟩
  · rw [mantissa_bits, Nat.pow_succ]
    omega
  · rw [min_exponent]
    omega
  · rw [maxExponent]
    omega

theorem ordinary_exponent (bits : BitVec spec.numBits) (ordinary : unpackExponent bits ≠ -1#_) :
    (unpackExponent bits).toNat + 1 < 2 ^ spec.exponentBits := by
  have below := (unpackExponent bits).isLt
  have different : (unpackExponent bits).toNat ≠ 2 ^ spec.exponentBits - 1 := by
    intro largest
    apply ordinary
    rw [← BitVec.toNat_inj, BitVec.neg_one_eq_allOnes, BitVec.toNat_allOnes, largest]
  omega

theorem unpack_stored (bits : BitVec spec.numBits) (wide : 0 < spec.exponentBias)
    (finite : (unpack spec bits).isFinite = true) : Stored spec (unpack spec bits) := by
  unfold unpack at finite ⊢
  dsimp only at finite ⊢
  by_cases special : unpackExponent bits = -1#_
  · rw [if_pos special] at finite
    split at finite <;> cases finite
  · rw [if_neg special]
    by_cases least : unpackExponent bits = 0#_
    · rw [if_pos least]
      by_cases nothing : unpackMantissa bits = 0#_
      · rw [dif_pos nothing]
        trivial
      · have exponent : spec.minExponent =
            (unpackExponent bits).toNat - (spec.exponentBias + spec.mantissaBitsWithoutImplicit) + 1 := by
          rw [least, BitVec.toNat_zero, min_exponent]
          omega
        rw [dif_neg nothing]
        dsimp only [Stored]
        rw [← exponent]
        exact subnormal_canonical spec _ (BitVec.isLt _) wide
    · have ordinary := ordinary_exponent spec bits special
      have positive : (unpackExponent bits).toNat ≠ 0 := fun zero => least (BitVec.eq_of_toNat_eq zero)
      rw [if_neg least]
      dsimp only [Stored]
      rw [implicit_bit]
      exact normal_canonical spec _ _ (BitVec.isLt _) (by omega) ordinary

theorem sign_bits (b : BitVec 1) : (Sign.ofBitVec b).toBitVec = b := by
  revert b
  decide

theorem components_unpacked (bits : BitVec spec.numBits) :
    packComponents spec (Sign.ofBitVec (unpackSign bits)) (unpackExponent bits) (unpackMantissa bits) = bits := by
  have mantissa := spec.hm
  have exponent := spec.he
  unfold packComponents
  rw [sign_bits]
  unfold unpackSign unpackExponent unpackMantissa
  apply BitVec.eq_of_getLsbD_eq
  intro i inside
  simp only [BitVec.getLsbD_append, BitVec.getLsbD_cast, BitVec.getLsbD_extractLsb]
  by_cases low : i < spec.mantissaBitsWithoutImplicit
  · rw [if_pos low, decide_eq_true (by omega), Bool.true_and, Nat.zero_add]
  · rw [if_neg low]
    by_cases middle : i - spec.mantissaBitsWithoutImplicit < spec.exponentBits
    · rw [if_pos middle, decide_eq_true (by omega), Bool.true_and, Nat.add_sub_cancel' (by omega)]
    · rw [if_neg middle, decide_eq_true (by omega), Bool.true_and, Nat.sub_sub, Nat.add_sub_cancel' (by omega)]

theorem pack_unpack (bits : BitVec spec.numBits) (wide : 0 < spec.exponentBias)
    (finite : (unpack spec bits).isFinite = true) : pack spec (unpack spec bits) = bits := by
  have width := mantissa_bits spec
  have range := exponent_range spec
  have small := (unpackMantissa bits).isLt
  have again (exponent : BitVec spec.exponentBits) (mantissa : BitVec spec.mantissaBitsWithoutImplicit)
      (first : exponent = unpackExponent bits) (second : mantissa = unpackMantissa bits) :
      packComponents spec (Sign.ofBitVec (unpackSign bits)) exponent mantissa = bits := by
    rw [first, second, components_unpacked]
  unfold unpack at finite ⊢
  dsimp only at finite ⊢
  by_cases special : unpackExponent bits = -1#_
  · rw [if_pos special] at finite
    split at finite <;> cases finite
  · rw [if_neg special]
    by_cases least : unpackExponent bits = 0#_
    · rw [if_pos least]
      by_cases nothing : unpackMantissa bits = 0#_
      · rw [dif_pos nothing]
        exact again _ _ least.symm nothing.symm
      · have positive : 0 < (unpackMantissa bits).toNat :=
          Nat.pos_of_ne_zero fun zero => nothing (BitVec.eq_of_toNat_eq zero)
        have bits := (Nat.log2_lt positive.ne').mpr small
        rw [dif_neg nothing, pack_finite, if_neg (by omega)]
        · exact again _ _ least.symm (by rw [BitVec.ofNat_toNat, BitVec.setWidth_eq])
        · rw [least, BitVec.toNat_zero]
          omega
    · have ordinary := ordinary_exponent spec bits special
      have whole := implicit_bit _ (unpackMantissa bits)
      have length : (1#1 ++ unpackMantissa bits).toNat.log2 + 1 = spec.mantissaBits := by
        have nonzero : (1#1 ++ unpackMantissa bits).toNat ≠ 0 := by
          rw [whole]
          positivity
        rw [width, Nat.add_right_cancel_iff, Nat.log2_eq_iff nonzero, whole, Nat.pow_succ]
        omega
      rw [if_neg least, pack_finite, if_pos length]
      · apply again
        · apply BitVec.eq_of_toNat_eq
          rw [BitVec.toNat_ofNat, Nat.mod_eq_of_lt] <;> omega
        · apply BitVec.eq_of_toNat_eq
          rw [BitVec.toNat_ofNat, whole, Nat.add_mod_right, Nat.mod_eq_of_lt small]
      · omega

end GraphCalc.Rounding

import Mathlib.Data.Nat.Factorial.Basic
import GraphCalc.Operation.Counting
import GraphCalc.Proofs.Exactness

set_option autoImplicit false

namespace GraphCalc.Counting

open Rounding
open Float.Model (UnpackedFloat)
open Float.Model.UnpackedFloat
open scoped Nat

section Loop

variable {α : Type} (ofCount : UInt64 → α) (mul : α → α → α)

-- The counter may pass the largest word after the last factor, where it is not looked at any more.
theorem multiply_up_fold (product : α) (k : UInt64) (left : Nat) (room : k.toNat + left ≤ 2 ^ 64) :
    multiplyUp ofCount mul product k left =
      (List.range' k.toNat left).foldl (fun p i => mul p (ofCount (.ofNat i))) product := by
  induction left generalizing product k with
  | zero => rfl
  | succ left ih =>
      rw [multiplyUp, List.range'_succ, List.foldl_cons, UInt64.ofNat_toNat]
      cases left with
      | zero => rfl
      | succ left =>
          have next : (k + 1).toNat = k.toNat + 1 := by
            rw [UInt64.toNat_add]
            exact Nat.mod_eq_of_lt (by change k.toNat + 1 < 2 ^ 64; omega)
          rw [ih _ _ (by rw [next]; omega), next]

variable (zero one : α) (n r : UInt64) (inside : r ≤ n)

include inside

theorem first_factor_word : (firstFactor n r).toNat = (n.toNat - r.toNat + 1) % 2 ^ 64 := by
  rw [firstFactor, UInt64.toNat_add, UInt64.toNat_sub_of_le n r inside]
  rfl

theorem permutations_fold (room : n.toNat - r.toNat + 1 < 2 ^ 64) :
    permutationsWith ofCount mul zero one n r =
      (List.range' (n.toNat - r.toNat + 1) r.toNat).foldl (fun p i => mul p (ofCount (.ofNat i))) one := by
  have size := UInt64.le_iff_toNat_le.mp inside
  have word := n.toNat_lt
  have first : (firstFactor n r).toNat = n.toNat - r.toNat + 1 := by
    rw [first_factor_word n r inside, Nat.mod_eq_of_lt room]
  have length : rangeLength (firstFactor n r) n = r.toNat := by
    rw [rangeLength, first]
    omega
  rw [permutationsWith, if_neg (UInt64.not_lt.mpr inside), length, multiply_up_fold _ _ _ _ _ (by omega), first]

end Loop

section Product

theorem ascending_product (k left : Nat) (room : k + left ≤ 2 ^ 64) :
    (List.range' k left).foldl (fun p i => p * (UInt64.ofNat i).toNat) 1 = k.ascFactorial left := by
  induction left with
  | zero => rfl
  | succ left ih =>
      have word : (UInt64.ofNat (k + left)).toNat = k + left :=
        UInt64.toNat_ofNat_of_lt' (by change k + left < 2 ^ 64; omega)
      rw [List.range'_1_concat, List.foldl_append, ih (by omega), List.foldl_cons, List.foldl_nil, word,
        Nat.ascFactorial_succ, Nat.mul_comm]

theorem exact_product (n r : UInt64) (inside : r ≤ n) (room : n.toNat - r.toNat + 1 < 2 ^ 64) :
    permutationsWith UInt64.toNat (· * ·) 0 1 n r = n.toNat.descFactorial r.toNat := by
  have size := UInt64.le_iff_toNat_le.mp inside
  have word := n.toNat_lt
  have split : n.toNat - r.toNat + r.toNat = n.toNat := Nat.sub_add_cancel size
  have product := ascending_product (n.toNat - r.toNat + 1) r.toNat (by omega)
  rw [permutations_fold _ _ _ _ n r inside room, product,
    ← Nat.add_descFactorial_eq_ascFactorial, split]

theorem factors_positive (n k : Nat) (inside : k ≤ n) : 0 < n.descFactorial k := by
  rw [Nat.pos_iff_ne_zero, Ne, Nat.descFactorial_eq_zero_iff_lt]
  omega

theorem fewer_factors (n k r : Nat) (fewer : k ≤ r) (inside : r ≤ n) : n.descFactorial k ≤ n.descFactorial r := by
  rw [← Nat.descFactorial_mul_descFactorial fewer]
  exact Nat.le_mul_of_pos_left _ (factors_positive _ _ (by omega))

theorem smaller_factors (m n k : Nat) (some : 0 < k) (inside : k ≤ m) (smaller : m < n) :
    m.descFactorial k < n.descFactorial k := by
  obtain ⟨k, rfl⟩ := Nat.exists_eq_add_of_lt some
  obtain ⟨m, rfl⟩ := Nat.exists_eq_add_of_lt (some.trans_le inside)
  obtain ⟨n, rfl⟩ := Nat.exists_eq_add_of_lt ((some.trans_le inside).trans smaller)
  rw [Nat.succ_descFactorial_succ, Nat.succ_descFactorial_succ]
  exact Nat.mul_lt_mul_of_lt_of_le smaller (Nat.descFactorial_le _ (by omega)) (factors_positive _ _ (by omega))

end Product

section Words

open Exact

theorem round_to_int (s : Sign) (m : Nat) (e : Int) : roundToInt s m e = s.apply (whole m e) := by
  have kept : (shiftToExponent (m <<< (e - 0).toNat) (e - (e - 0).toNat) .exact 0).1.mantissa =
      m <<< e.toNat / 2 ^ (-e).toNat := by
    rw [shiftToExponent]
    dsimp only
    rw [shift_mantissa, of_accuracy_mantissa, sub_zero]
    congr 2
    omega
  have same : m <<< e.toNat / 2 ^ (-e).toNat = whole m e := by
    rw [whole, Nat.shiftLeft_eq]
    by_cases integral : 0 ≤ e
    · rw [if_pos integral, show (-e).toNat = 0 by omega, Nat.pow_zero, Nat.div_one]
      rfl
    · rw [if_neg integral, show e.toNat = 0 by omega, Nat.pow_zero, Nat.mul_one]
      rfl
  rw [← same, ← kept]
  rfl

theorem count_saturates (x : Float32) (n : Nat) (integral : integer? x = some (n : Int)) :
    x.toUInt64.toNat = min n (2 ^ 64 - 1) := by
  have number : x.toModel.unpack.toInt 0 (UInt64.size - 1) = n := by
    rcases integer_cases x n integral with ⟨s, held, same⟩ | ⟨s, m, e, positive, held, -, same⟩
    · rw [held, same]
      rfl
    · rw [held, same]
      exact round_to_int s m e
  change (UInt64.ofNatClamp (x.toModel.unpack.toInt 0 (UInt64.size - 1)).toNat).toNat = _
  rw [number, Int.toNat_natCast]
  by_cases small : n < UInt64.size
  · rw [UInt64.toNat_ofNatClamp_of_lt small]
    change n < 2 ^ 64 at small
    omega
  · rw [UInt64.toNat_ofNatClamp_of_le (not_lt.mp small)]
    change ¬ n < 2 ^ 64 at small
    change 2 ^ 64 - 1 = _
    omega

theorem whole_small_or_even (m : Nat) (e : Int) : whole m e ≤ m ∨ whole m e % 2 = 0 := by
  unfold whole
  by_cases integral : 0 ≤ e
  · rw [if_pos integral]
    change m * 2 ^ e.toNat ≤ m ∨ m * 2 ^ e.toNat % 2 = 0
    cases e.toNat with
    | zero =>
        rw [Nat.pow_zero, Nat.mul_one]
        exact Or.inl le_rfl
    | succ k =>
        rw [Nat.pow_succ, ← Nat.mul_assoc, Nat.mul_mod_left]
        exact Or.inr rfl
  · rw [if_neg integral]
    exact Or.inl (Nat.div_le_self m _)

-- Single precision jumps over the largest word, which is odd and too long for a mantissa.
theorem largest_word_missing (x : Float32) (n : Nat) (integral : integer? x = some (n : Int)) : n ≠ 2 ^ 64 - 1 := by
  rintro rfl
  rcases integer_cases x _ integral with ⟨s, held, same⟩ | ⟨s, m, e, positive, held, -, same⟩
  · cases same
  · have stored := (single_of_unpacked x s m e positive held).1
    rw [held] at stored
    have bits : m < 2 ^ 24 := stored.bits
    have size : whole m e = 2 ^ 64 - 1 := by
      cases s <;> dsimp only [Sign.apply] at same <;> omega
    have few := whole_small_or_even m e
    omega

theorem counts_words (n r : Float32) (a b : UInt64) (accepted : counts n r = .ok (a, b)) :
    ∃ N R : Nat, integer? n = some (N : Int) ∧ integer? r = some (R : Int) ∧ a.toNat = min N (2 ^ 64 - 1) ∧
      b.toNat = min R (2 ^ 64 - 1) := by
  have count (x : Float32) (positive : ¬ x < 0) (integral : isIntegral x = true) :
      ∃ N : Nat, integer? x = some (N : Int) := by
    obtain ⟨z, whole⟩ := Option.isSome_iff_exists.mp integral
    have nonnegative : 0 ≤ z := by
      rw [lt_single x 0 z 0 (integer_single x z whole) zero_single] at positive
      exact_mod_cast not_lt.mp positive
    exact ⟨z.toNat, by rw [whole, Int.toNat_of_nonneg nonnegative]⟩
  unfold counts at accepted
  split at accepted
  · cases accepted
  · rename_i fit
    simp only [Bool.or_eq_true, decide_eq_true_eq, Bool.not_eq_true', not_or, Bool.not_eq_false] at fit
    obtain ⟨⟨⟨first, second⟩, firstWhole⟩, secondWhole⟩ := fit
    obtain ⟨N, numberN⟩ := count n first firstWhole
    obtain ⟨R, numberR⟩ := count r second secondWhole
    cases accepted
    exact ⟨N, R, numberN, numberR, count_saturates n N numberN, count_saturates r R numberR⟩

end Words

section Doubles

theorem count_positive (k : UInt64) :
    Stored .binary64 k.toFloat.toModel.unpack ∧ Signed .positive k.toFloat.toModel.unpack := by
  have held : Held .binary64 1 64 := by refine ⟨?_, ?_, ?_⟩ <;> decide
  have bounded : Rounding.Bounded .binary64 (scaled 1 64) (UnpackedFloat.normalize .binary64 k.toNat 0 .positive) := by
    apply normalize_bounded .binary64 _ 0 .positive 1 64 held
    calc scaled (k.toNat : Int).natAbs 0 = scaled k.toNat 0 := by rw [Int.natAbs_natCast]
      _ ≤ scaled (1 * 2 ^ 64) 0 := (scaled_le _ _ 0).mpr (by have := k.toNat_lt; omega)
      _ = scaled 1 64 := scaled_shift 1 64 0
  have unpacked : k.toFloat.toModel.unpack = UnpackedFloat.normalize .binary64 k.toNat 0 .positive :=
    unpack_pack .binary64 _ bounded.1
  rw [unpacked]
  refine ⟨bounded.1, ?_⟩
  rcases Nat.eq_zero_or_pos k.toNat with zero | positive
  · rw [zero]
    rfl
  · have sign : Sign.positive.apply k.toNat = k.toNat := rfl
    rw [← sign, normalize_apply .binary64 .positive _ 0 .positive positive]
    exact round_signed .binary64 .positive _ 0

theorem zero_times_count (k : UInt64) : (0 : Float) * k.toFloat = 0 := by
  obtain ⟨stored, signed⟩ := count_positive k
  have product : mul .binary64 (.zero .positive) k.toFloat.toModel.unpack = .zero .positive := by
    cases held : k.toFloat.toModel.unpack with rw [held] at stored signed
    | infinity s | notANumber => exact stored.elim
    | zero s | finite s m e positive =>
        obtain rfl : s = .positive := signed
        rfl
  change Exact.double (mul .binary64 (.zero .positive) k.toFloat.toModel.unpack) = 0
  rw [product]
  rfl

theorem zero_product (k : UInt64) (left : Nat) : multiplyUp UInt64.toFloat (· * ·) 0 k left = 0 := by
  induction left generalizing k with
  | zero => rfl
  | succ left ih => rw [multiplyUp, zero_times_count, ih]

theorem single_one : narrow 1 = 1 := by decide +kernel

end Doubles

theorem permutations_counted (n r : Float32) (a b : UInt64) (accepted : counts n r = .ok (a, b)) :
    permutations n r = finite (narrow (permutationsWith UInt64.toFloat (· * ·) 0 1 a b)) := by
  rw [permutations, accepted]
  rfl

-- What the permutations of `R` out of `N` ought to be, where the words `a` and `b` stand for the two numbers.
structure PermutationsSound (n r : Float32) (N R : Nat) (a b : UInt64) : Prop where
  room : b ≤ a → a.toNat - b.toNat + 1 < 2 ^ 64
  factors : R ≤ N → ∀ {α : Type} (ofCount : UInt64 → α) (mul : α → α → α) (zero one : α),
    permutationsWith ofCount mul zero one a b =
      (List.range' (N - R + 1) R).foldl (fun p i => mul p (ofCount (.ofNat i))) one
  product : R ≤ N → permutationsWith UInt64.toNat (· * ·) 0 1 a b = N ! / (N - R)!
  nothing : R = 0 → permutations n r = .ok 1
  larger : N < R → permutationsWith UInt64.toNat (· * ·) 0 1 a b = 0 ∧ permutations n r = .ok 0

section Numbers

variable (n r : Float32) (N R : Nat) (a b : UInt64)
  (wordN : a.toNat = min N (2 ^ 64 - 1)) (wordR : b.toNat = min R (2 ^ 64 - 1))

include wordN wordR

theorem small_sound (accepted : counts n r = .ok (a, b)) (small : N < 2 ^ 64 - 1) : PermutationsSound n r N R a b := by
  have first : a.toNat = N := by omega
  have second (inside : R ≤ N) : b ≤ a ∧ b.toNat = R := by
    rw [UInt64.le_iff_toNat_le]
    omega
  have room (inside : R ≤ N) : a.toNat - b.toNat + 1 < 2 ^ 64 := by omega
  constructor
  case room =>
    intro
    omega
  case factors =>
    intro inside _ ofCount mul zero one
    obtain ⟨words, same⟩ := second inside
    rw [permutations_fold ofCount mul zero one a b words (room inside), first, same]
  case product =>
    intro inside
    obtain ⟨words, same⟩ := second inside
    rw [exact_product a b words (room inside), first, same, Nat.descFactorial_eq_div inside]
  case nothing =>
    rintro rfl
    obtain ⟨words, same⟩ := second (Nat.zero_le N)
    rw [permutations_counted n r a b accepted, permutations_fold _ _ _ _ a b words (room (Nat.zero_le N)), same,
      List.range'_zero, List.foldl_nil, single_one]
    rfl
  case larger =>
    intro more
    have words : a < b := UInt64.lt_iff_toNat_lt.mpr (by omega)
    rw [permutations_counted n r a b accepted, permutationsWith, if_pos words, permutationsWith, if_pos words]
    exact ⟨rfl, rfl⟩

theorem large_unsound (large : 2 ^ 64 ≤ N) : ¬ PermutationsSound n r N R a b := by
  intro sound
  have words : b ≤ a := UInt64.le_iff_toNat_le.mpr (by omega)
  have room := sound.room words
  have product := exact_product a b words room
  have size := UInt64.le_iff_toNat_le.mp words
  rcases Nat.lt_or_ge N R with more | inside
  · rw [(sound.larger more).1] at product
    exact absurd product (factors_positive _ _ size).ne
  · rw [sound.product inside, ← Nat.descFactorial_eq_div inside] at product
    have smaller := smaller_factors a.toNat N b.toNat (by omega) size (by omega)
    have fewer := fewer_factors N b.toNat R (by omega) inside
    omega

end Numbers

-- The first factor is taken for zero, and it is multiplied with all other words.
theorem full_counter (n r : Float32) (a : UInt64) (accepted : counts n r = .ok (a, 0)) (full : a.toNat = 2 ^ 64 - 1) :
    firstFactor a 0 = 0 ∧ permutations n r = .ok 0 := by
  have least : (0 : UInt64) ≤ a := UInt64.zero_le
  have first : firstFactor a 0 = 0 := by
    apply UInt64.toNat_inj.mp
    rw [first_factor_word a 0 least, full]
    rfl
  have length : rangeLength 0 a = (2 ^ 64 - 1) + 1 := by
    rw [rangeLength, full]
    rfl
  refine ⟨first, ?_⟩
  rw [permutations_counted n r a 0 accepted, permutationsWith, if_neg (UInt64.not_lt.mpr least), first, length,
    multiplyUp]
  have start : (1 : Float) * (0 : UInt64).toFloat = 0 := rfl
  rw [start, zero_product]
  rfl

theorem permutations_sound_iff (n r : Float32) (a b : UInt64) (accepted : counts n r = .ok (a, b)) :
    ∃ N R : Nat, integer? n = some (N : Int) ∧ integer? r = some (R : Int) ∧ a.toNat = min N (2 ^ 64 - 1) ∧
      b.toNat = min R (2 ^ 64 - 1) ∧ (PermutationsSound n r N R a b ↔ N < 2 ^ 64) ∧
      ((b ≤ a → a.toNat - b.toNat + 1 < 2 ^ 64) ↔ ¬ (2 ^ 64 ≤ N ∧ R = 0)) ∧
      (2 ^ 64 ≤ N → R = 0 → firstFactor a b = 0 ∧ permutations n r = .ok 0) := by
  obtain ⟨N, R, first, second, wordN, wordR⟩ := counts_words n r a b accepted
  have missing := largest_word_missing n N first
  refine ⟨N, R, first, second, wordN, wordR, ⟨?_, ?_⟩, ⟨?_, ?_⟩, ?_⟩
  · intro sound
    by_contra large
    exact large_unsound n r N R a b wordN wordR (Nat.le_of_not_lt large) sound
  · intro small
    exact small_sound n r N R a b wordN wordR accepted (by omega)
  · rintro room ⟨large, rfl⟩
    have counter := room (UInt64.le_iff_toNat_le.mpr (by omega))
    omega
  · intro ordinary inside
    have size := UInt64.le_iff_toNat_le.mp inside
    omega
  · rintro large rfl
    obtain rfl : b = 0 := UInt64.toNat_inj.mp (by rw [wordR]; rfl)
    exact full_counter n r a accepted (by omega)

theorem two_of_five_sound : counts 5 2 = .ok (5, 2) ∧ PermutationsSound 5 2 5 2 5 2 := by
  have accepted : counts 5 2 = .ok (5, 2) := rfl
  obtain ⟨N, R, first, second, -, -, sound, -⟩ := permutations_sound_iff 5 2 5 2 accepted
  obtain rfl : N = 5 := Int.ofNat_inj.mp (Option.some.inj first).symm
  obtain rfl : R = 2 := Int.ofNat_inj.mp (Option.some.inj second).symm
  exact ⟨accepted, sound.mpr (by decide)⟩

-- One of 2 ^ 65 comes out as 2 ^ 64, the largest word rounded. None of 2 ^ 64 has its first factor one above the
-- largest word, at zero, and comes out as zero.
theorem counts_past_largest_word :
    permutations (Float32.ofBits 0x60000000) 1 = .ok (Float32.ofBits 0x5F800000) ∧
      permutations (Float32.ofBits 0x60000000) 1 ≠ .ok (Float32.ofBits 0x60000000) ∧
      firstFactor 0xFFFFFFFFFFFFFFFF 0 = 0 ∧ permutations (Float32.ofBits 0x5F800000) 0 = .ok 0 := by
  have one : permutations (Float32.ofBits 0x60000000) 1 = .ok (Float32.ofBits 0x5F800000) := by
    have accepted : counts (Float32.ofBits 0x60000000) 1 = .ok (0xFFFFFFFFFFFFFFFF, 1) := rfl
    have result : narrow (1 * (0xFFFFFFFFFFFFFFFF : UInt64).toFloat) = Float32.ofBits 0x5F800000 := by decide +kernel
    rw [permutations_counted _ _ _ _ accepted, permutations_fold _ _ _ _ _ _ (by decide) (by decide)]
    exact (congrArg finite result).trans rfl
  have none : counts (Float32.ofBits 0x5F800000) 0 = .ok (0xFFFFFFFFFFFFFFFF, 0) := rfl
  refine ⟨one, ?_, full_counter _ _ _ none rfl⟩
  rw [one]
  intro same
  exact absurd (Except.ok.inj same) (by decide)

end GraphCalc.Counting

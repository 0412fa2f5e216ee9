import GraphCalc.Function.Statistics
import GraphCalc.Proofs.Exactness

set_option autoImplicit false

namespace GraphCalc.Statistics

open Rounding

section Middle

variable {α ω : Type} (middle : α → α → α)

def middleOf (s : List α) : Option α :=
  if s.length % 2 = 1 then s[s.length / 2]?
  else s[s.length / 2 - 1]?.bind fun a => s[s.length / 2]?.map (middle a)

def expanded (count : ω → Nat) (pairs : List (α × ω)) : List α :=
  pairs.flatMap fun p => List.replicate (count p.2) p.1

theorem expanded_cons (count : ω → Nat) (p : α × ω) (pairs : List (α × ω)) :
    expanded count (p :: pairs) = List.replicate (count p.2) p.1 ++ expanded count pairs := List.flatMap_cons

theorem expanded_length (count : ω → Nat) (pairs : List (α × ω)) :
    (expanded count pairs).length = ((pairs.map (·.2)).map count).sum := by
  induction pairs with
  | nil => rfl
  | cons p pairs ih => simp [expanded_cons, ih]

theorem expanded_filter (count : ω → Nat) (kept : α × ω → Bool) (pairs : List (α × ω))
    (each : ∀ p ∈ pairs, kept p = true ↔ 0 < count p.2) : expanded count (pairs.filter kept) = expanded count pairs := by
  induction pairs with
  | nil => rfl
  | cons p pairs ih =>
      obtain ⟨here, later⟩ := List.forall_mem_cons.mp each
      by_cases positive : kept p = true
      · rw [List.filter_cons_of_pos positive, expanded_cons, expanded_cons, ih later]
      · have none : count p.2 = 0 := by rw [here] at positive; omega
        rw [List.filter_cons_of_neg positive, expanded_cons, none, ih later]
        rfl

theorem expanded_pairwise (count : ω → Nat) (le : α → α → Bool) (total : ∀ a b, (le a b || le b a) = true)
    (pairs : List (α × ω)) (ordered : pairs.Pairwise fun a b => le a.1 b.1 = true) :
    (expanded count pairs).Pairwise (fun a b => le a b = true) := by
  rw [expanded, List.pairwise_flatMap]
  constructor
  · intro p _
    have reflexive : le p.1 p.1 = true := (Bool.or_self _).symm.trans (total p.1 p.1)
    exact List.pairwise_replicate.mpr (Or.inr reflexive)
  · refine ordered.imp fun {a b} inOrder x first y second => ?_
    rwa [(List.mem_replicate.mp first).2, (List.mem_replicate.mp second).2]

theorem block_entry (before after : List α) (v : α) (c i : Nat) (low : before.length ≤ i) (high : i < before.length + c) :
    (before ++ (List.replicate c v ++ after))[i]? = some v := by
  rw [List.getElem?_append_right low, List.getElem?_append_left (by rw [List.length_replicate]; omega),
    List.getElem?_replicate, if_pos (by omega)]

section Block

variable (before after : List α) (v : α) (c total : Nat)
  (size : (before ++ (List.replicate c v ++ after)).length = total)

include size

theorem middle_inside (low : 2 * before.length < total) (high : total < 2 * (before.length + c))
    (steady : 1 < c → middle v v = v) : middleOf middle (before ++ (List.replicate c v ++ after)) = some v := by
  rw [middleOf, size]
  by_cases odd : total % 2 = 1
  · rw [if_pos odd, block_entry before after v c _ (by omega) (by omega)]
  · rw [if_neg odd, block_entry before after v c _ (by omega) (by omega),
      block_entry before after v c _ (by omega) (by omega)]
    exact congrArg some (steady (by omega))

theorem middle_between (next : α) (rest : List α) (copies : 0 < c) (here : 2 * (before.length + c) = total)
    (follows : after = next :: rest) :
    middleOf middle (before ++ (List.replicate c v ++ after)) = some (middle v next) := by
  have half : total / 2 = before.length + c := by omega
  rw [middleOf, size, if_neg (by omega), half, block_entry before after v c _ (by omega) (by omega), follows]
  simp

end Block

end Middle

theorem middle_present {α : Type} (middle : α → α → α) (s : List α) (some : 0 < s.length) :
    ∃ m, middleOf middle s = .some m := by
  rw [middleOf]
  by_cases odd : s.length % 2 = 1
  · rw [if_pos odd, List.getElem?_eq_getElem (by omega)]
    exact ⟨_, rfl⟩
  · rw [if_neg odd, List.getElem?_eq_getElem (by omega), List.getElem?_eq_getElem (by omega)]
    exact ⟨_, rfl⟩

-- The weights stand for whole numbers: they are added and compared like these below the limit.
structure Weighing.Counts {ω : Type} (W : Weighing ω) (holds : Nat → ω → Prop) (limit : Nat) : Prop where
  zero : holds 0 W.zero
  add (m n : Nat) (a b : ω) : holds m a → holds n b → m + n < limit → holds (m + n) (W.add a b)
  positive (n : Nat) (a : ω) : holds n a → (W.lt W.zero a = true ↔ 0 < n)
  passed (total n : Nat) (t a : ω) : holds total t → holds n a → total < limit →
    (W.lt (W.half t) a = true ↔ total < 2 * n)
  reached (total n : Nat) (t a : ω) : holds total t → holds n a → total < limit →
    (W.same a (W.half t) = true ↔ 2 * n = total)

section Scan

variable {α ω : Type} (W : Weighing ω) (holds : Nat → ω → Prop) (limit : Nat) (counts : W.Counts holds limit)
  (middle : α → α → α) (count : ω → Nat)

include counts

theorem sum_holds (ws : List ω) (n : Nat) (start : ω) (initial : holds n start) (each : ∀ w ∈ ws, holds (count w) w)
    (few : n + (ws.map count).sum < limit) : holds (n + (ws.map count).sum) (ws.foldl W.add start) := by
  induction ws generalizing n start with
  | nil => exact initial
  | cons w ws ih =>
      obtain ⟨here, later⟩ := List.forall_mem_cons.mp each
      rw [List.map_cons, List.sum_cons, ← Nat.add_assoc] at few ⊢
      exact ih _ _ (counts.add _ _ _ _ initial here (by omega)) later few

-- By induction on the pairs. The values passed so far stand in `before`, each repeated, and are less than half of all.
theorem scan_middle (pairs : List (α × ω)) (before : List α) (seen total : ω)
    (each : ∀ p ∈ pairs, holds (count p.2) p.2 ∧ 0 < count p.2 ∧ (1 < count p.2 → middle p.1 p.1 = p.1))
    (passed : holds before.length seen) (whole : holds (before ++ expanded count pairs).length total)
    (few : (before ++ expanded count pairs).length < limit)
    (less : 2 * before.length < (before ++ expanded count pairs).length) :
    scan W middle (W.half total) seen pairs = middleOf middle (before ++ expanded count pairs) := by
  induction pairs generalizing before seen with
  | nil =>
      rw [expanded, List.flatMap_nil, List.append_nil] at less
      omega
  | cons p pairs ih =>
      obtain ⟨⟨held, positive, steady⟩, later⟩ := List.forall_mem_cons.mp each
      rw [expanded_cons] at whole few less ⊢
      generalize size : (before ++ (List.replicate (count p.2) p.1 ++ expanded count pairs)).length = T at whole few less
      have length : before.length + (count p.2 + (expanded count pairs).length) = T := by
        rw [← size, List.length_append, List.length_append, List.length_replicate]
      have next := counts.add _ _ _ _ passed held (by omega)
      rw [scan]
      by_cases beyond : T < 2 * (before.length + count p.2)
      · rw [if_pos ((counts.passed _ _ _ _ whole next few).mpr beyond),
          middle_inside middle before _ p.1 _ T size less beyond steady]
      · rw [if_neg fun more => beyond ((counts.passed _ _ _ _ whole next few).mp more)]
        by_cases here : 2 * (before.length + count p.2) = T
        · rw [if_pos ((counts.reached _ _ _ _ whole next few).mpr here)]
          cases pairs with
          | nil =>
              change before.length + (count p.2 + 0) = T at length
              omega
          | cons q pairs =>
              obtain ⟨k, copies⟩ := Nat.exists_eq_add_of_lt (later q List.mem_cons_self).2.1
              have follows : expanded count (q :: pairs) = q.1 :: (List.replicate k q.1 ++ expanded count pairs) := by
                rw [expanded_cons, copies, Nat.zero_add, List.replicate_succ, List.cons_append]
              rw [middle_between middle before _ p.1 _ T size q.1 _ positive here follows]
              rfl
        · rw [if_neg fun same => here ((counts.reached _ _ _ _ whole next few).mp same)]
          have joined : before ++ List.replicate (count p.2) p.1 ++ expanded count pairs =
              before ++ (List.replicate (count p.2) p.1 ++ expanded count pairs) := List.append_assoc _ _ _
          have longer : (before ++ List.replicate (count p.2) p.1).length = before.length + count p.2 := by
            rw [List.length_append, List.length_replicate]
          rw [← joined] at size ⊢
          apply ih _ _ later
          · rwa [longer]
          · rwa [size]
          · rwa [size]
          · rw [longer, size]
            omega

theorem median_with_middle (le : α → α → Bool) (trans : ∀ a b c, le a b = true → le b c = true → le a c = true)
    (total : ∀ a b, (le a b || le b a) = true) (pairs : List (α × ω))
    (each : ∀ p ∈ pairs, holds (count p.2) p.2 ∧ (1 < count p.2 → middle p.1 p.1 = p.1))
    (some : 0 < (expanded count pairs).length) (few : (expanded count pairs).length < limit) :
    ∃ s, s.Perm (expanded count pairs) ∧ s.Pairwise (fun a b => le a b = true) ∧
      medianWith W le middle pairs = middleOf middle s := by
  generalize sort : ((pairs.filter fun p => W.lt W.zero p.2).mergeSort fun a b => le a.1 b.1) = sorted
  have same : sorted.Perm (pairs.filter fun p => W.lt W.zero p.2) := sort ▸ List.mergeSort_perm _ _
  have member (p : α × ω) (among : p ∈ sorted) :
      holds (count p.2) p.2 ∧ 0 < count p.2 ∧ (1 < count p.2 → middle p.1 p.1 = p.1) := by
    obtain ⟨given, kept⟩ := List.mem_filter.mp (same.mem_iff.mp among)
    obtain ⟨held, steady⟩ := each p given
    exact ⟨held, (counts.positive _ _ held).mp kept, steady⟩
  have perm : (expanded count sorted).Perm (expanded count pairs) := by
    have kept := expanded_filter count (fun p => W.lt W.zero p.2) pairs fun p given =>
      counts.positive _ _ (each p given).1
    rw [← kept]
    exact same.flatMap_right _
  have ordered : sorted.Pairwise fun a b => le a.1 b.1 = true := by
    rw [← sort]
    exact List.pairwise_mergeSort (fun a b c => trans a.1 b.1 c.1) (fun a b => total a.1 b.1) _
  refine ⟨expanded count sorted, perm, expanded_pairwise count le total sorted ordered, ?_⟩
  rw [← perm.length_eq] at some few
  have weights (w : ω) (among : w ∈ sorted.map (·.2)) : holds (count w) w := by
    obtain ⟨p, given, rfl⟩ := List.mem_map.mp among
    exact (member p given).1
  have sum := sum_holds W holds limit counts count (sorted.map (·.2)) 0 W.zero counts.zero weights
    (by rwa [Nat.zero_add, ← expanded_length])
  rw [Nat.zero_add, ← expanded_length, List.foldl_map] at sum
  rw [medianWith, sort]
  exact scan_middle W holds limit counts middle count sorted [] W.zero _ member counts.zero sum few some

end Scan

section Singles

theorem count_half (n : Nat) (x : Float32) (small : n < 2 ^ 24) (held : SingleIs n x) : SingleIs (n / 2) (x / 2) := by
  apply div_single x 2 n 2 held two_single two_ne_zero
  have half : (n : ℚ) / 2 = scaled n (-1) := by
    rw [scaled, zpow_neg_one, div_eq_mul_inv]
  rw [half]
  exact ⟨n, -1, ⟨small, by decide, by decide⟩, abs_of_nonneg (scaled_nonneg n (-1))⟩

theorem singles_count : singles.Counts (fun n x => SingleIs n x) (2 ^ 24) where
  zero := ⟨trivial, rfl⟩
  add m n a b left right small := by
    have fits := whole_fits .binary32 (m + n) small (by decide)
    rw [Nat.cast_add] at fits ⊢
    exact add_single a b m n left right fits
  positive n a held := decide_eq_true_iff.trans ((lt_single 0 a 0 n zero_single held).trans Nat.cast_pos)
  passed total n t a whole held small := by
    have half := count_half total t small whole
    refine decide_eq_true_iff.trans ((lt_single (t / 2) a _ n half held).trans ?_)
    rw [div_lt_iff₀ two_pos, mul_comm]
    exact_mod_cast Iff.rfl
  reached total n t a whole held small := by
    have half := count_half total t small whole
    refine (same_single a (t / 2) n _ held half).trans ?_
    rw [eq_div_iff two_ne_zero, mul_comm]
    exact_mod_cast Iff.rfl

theorem order_key_inj (a b : Float32) (same : orderKey a = orderKey b) : a = b := by
  have bound := a.toBits.toNat_lt
  have bound' := b.toBits.toNat_lt
  have bits : a.toBits.toNat = b.toBits.toNat := by
    unfold orderKey at same
    dsimp only at same
    split at same <;> split at same <;> omega
  exact bits_determine a b (UInt32.toNat_inj.mp bits)

theorem total_le_trans (a b c : Float32) (first : totalLe a b = true) (second : totalLe b c = true) : totalLe a c = true := by
  rw [totalLe, decide_eq_true_iff] at first second ⊢
  exact first.trans second

theorem total_le_total (a b : Float32) : (totalLe a b || totalLe b a) = true := by
  rw [Bool.or_eq_true, totalLe, totalLe, decide_eq_true_iff, decide_eq_true_iff]
  exact le_total _ _

theorem total_le_antisymm (a b : Float32) (first : totalLe a b = true) (second : totalLe b a = true) : a = b := by
  rw [totalLe, decide_eq_true_iff] at first second
  exact order_key_inj a b (le_antisymm first second)

end Singles

def halfSum (a b : Float32) : Float32 := (a + b) / 2

-- In the total order, the entry in the middle of the list or half the sum of the two there.
def IsMedian (xs : List Float32) (m : Float32) : Prop :=
  ∃ s, s.Perm xs ∧ s.Pairwise (fun a b => totalLe a b = true) ∧ middleOf halfSum s = some m

theorem is_median_unique (xs ys : List Float32) (m n : Float32) (same : ys.Perm xs) (first : IsMedian xs m)
    (second : IsMedian ys n) : n = m := by
  obtain ⟨s, perm, ordered, here⟩ := first
  obtain ⟨t, perm', ordered', here'⟩ := second
  obtain rfl : t = s := List.Perm.eq_of_pairwise (fun a b _ _ => total_le_antisymm a b) ordered' ordered
    (perm'.trans (same.trans perm.symm))
  exact Option.some.inj (here'.symm.trans here)

section Frequencies

def IsCount (w : Float32) : Prop := ∃ n : Nat, integer? w = some (n : Int)

def frequency (w : Float32) : Nat := ((integer? w).getD 0).toNat

def repeated (xs ws : List Float32) : List Float32 := expanded frequency (xs.zip ws)

-- Weights that are whole numbers, with some value counted, few enough in all, and none counted that overflows when it
-- is added to itself.
structure Frequencies (xs ws : List Float32) : Prop where
  length : ws.length = xs.length
  whole : ∀ w ∈ ws, IsCount w
  counted : repeated xs ws ≠ []
  few : (repeated xs ws).length < 2 ^ 24
  bounded : ∀ x ∈ repeated xs ws, (x + x).isFinite = true

theorem frequency_single (w : Float32) (whole : IsCount w) : SingleIs (frequency w) w := by
  obtain ⟨n, found⟩ := whole
  rw [frequency, found]
  exact_mod_cast integer_single w n found

theorem repeated_length (xs ws : List Float32) (same : ws.length = xs.length) :
    (repeated xs ws).length = (ws.map frequency).sum := by
  rw [repeated, expanded_length, List.map_snd_zip same.le]

theorem repeated_once (xs : List Float32) : repeated xs (List.replicate xs.length 1) = xs := by
  induction xs with
  | nil => rfl
  | cons x xs ih =>
      have single : frequency 1 = 1 := rfl
      rw [repeated, List.length_cons, List.replicate_succ, List.zip_cons_cons, expanded_cons]
      dsimp only
      rw [single]
      exact congrArg (x :: ·) ih

theorem weights_pass (ws : List Float32) (whole : ∀ w ∈ ws, IsCount w)
    (some : 0 < (ws.map frequency).sum) (few : (ws.map frequency).sum < 2 ^ 24) :
    (ws.any (fun w => w < 0) || sumOf ws == 0) = false := by
  rw [Bool.or_eq_false_iff]
  constructor
  · rw [List.any_eq_false]
    intro w among negative
    rw [decide_eq_true_iff, lt_single w 0 _ 0 (frequency_single w (whole w among)) zero_single] at negative
    exact absurd negative (not_lt.mpr (Nat.cast_nonneg _))
  · have initial : SingleIs ((0 : Nat) : ℚ) (-0.0 : Float32) := ⟨trivial, rfl⟩
    have sum := sum_holds singles _ _ singles_count frequency ws 0 (-0.0) initial
      (fun w among => frequency_single w (whole w among)) (by rwa [Nat.zero_add])
    rw [Nat.zero_add] at sum
    rw [Bool.eq_false_iff, Ne, same_single (sumOf ws) 0 _ 0 sum zero_single, Nat.cast_eq_zero]
    omega

theorem weights_given (xs ws : List Float32) (weights : Option Value) (present : xs ≠ [])
    (given : weights = none ∧ ws = List.replicate xs.length 1 ∨ weights = some (.list ws) ∧ ws.length = xs.length)
    (pass : (ws.any (fun w => w < 0) || sumOf ws == 0) = false) : weighted (.list xs) weights = .ok (xs, ws) := by
  obtain ⟨x, rest, rfl⟩ := List.exists_cons_of_ne_nil present
  rw [weighted]
  dsimp only [Value.checkDimension, bind, Except.bind, pure, Except.pure]
  rcases given with ⟨rfl, rfl⟩ | ⟨rfl, length⟩
  · dsimp only
    rw [pass]
    rfl
  · dsimp only
    rw [if_pos length, pass]
    rfl

theorem median_counted (v : Value) (weights : Option Value) (xs ws : List Float32)
    (admitted : weighted v weights = .ok (xs, ws)) (whole : ∀ w ∈ ws, IsCount w)
    (steady : ∀ p ∈ xs.zip ws, 1 < frequency p.2 → halfSum p.1 p.1 = p.1) (counted : repeated xs ws ≠ [])
    (few : (repeated xs ws).length < 2 ^ 24) :
    ∃ m, median v weights = .ok (.number m) ∧ IsMedian (repeated xs ws) m := by
  have some := List.length_pos_iff.mpr counted
  obtain ⟨s, perm, ordered, result⟩ := median_with_middle singles _ _ singles_count halfSum frequency totalLe
    total_le_trans total_le_total (xs.zip ws)
    (fun p among => ⟨frequency_single _ (whole _ (List.of_mem_zip among).2), steady p among⟩) some few
  obtain ⟨m, found⟩ := middle_present halfSum s (by rwa [perm.length_eq])
  refine ⟨m, ?_, s, perm, ordered, found⟩
  have here : medianWith singles totalLe (fun a b => (a + b) / 2) (xs.zip ws) = .some m := result.trans found
  rw [median, admitted]
  dsimp only [bind, Except.bind]
  rw [here]
  rfl

theorem median_plain (xs : List Float32) (present : xs ≠ []) (few : xs.length < 2 ^ 24) :
    ∃ m, median (.list xs) none = .ok (.number m) ∧ IsMedian xs m := by
  have once := repeated_once xs
  have whole (w : Float32) (among : w ∈ List.replicate xs.length (1 : Float32)) : IsCount w := by
    rw [(List.mem_replicate.mp among).2]
    exact ⟨1, rfl⟩
  have size := repeated_length xs (List.replicate xs.length 1) List.length_replicate
  rw [once] at size
  have some := List.length_pos_iff.mpr present
  have pass := weights_pass _ whole (size ▸ some) (size ▸ few)
  have admitted := weights_given xs _ none present (Or.inl ⟨rfl, rfl⟩) pass
  -- No value stands twice for itself, so that it does not matter what the sum of a value with itself is.
  have alone (p : Float32 × Float32) (among : p ∈ xs.zip (List.replicate xs.length 1)) (more : 1 < frequency p.2) :
      halfSum p.1 p.1 = p.1 := by
    rw [(List.mem_replicate.mp (List.of_mem_zip among).2).2] at more
    exact absurd more (by decide)
  have found := median_counted _ _ _ _ admitted whole alone (once.symm ▸ present) (once.symm ▸ few)
  rwa [once] at found

theorem median_weighted (xs ws : List Float32) (frequencies : Frequencies xs ws) :
    ∃ m, median (.list xs) (some (.list ws)) = .ok (.number m) ∧ IsMedian (repeated xs ws) m := by
  obtain ⟨length, whole, counted, few, bounded⟩ := frequencies
  have size := repeated_length xs ws length
  have pass := weights_pass ws whole (size ▸ List.length_pos_iff.mpr counted) (size ▸ few)
  have present : xs ≠ [] := by
    rintro rfl
    exact counted rfl
  have admitted := weights_given xs ws _ present (Or.inr ⟨rfl, length⟩) pass
  refine median_counted _ _ _ _ admitted whole ?_ counted few
  intro p among more
  apply half_of_double
  apply bounded
  exact List.mem_flatMap.mpr ⟨p, among, List.mem_replicate.mpr ⟨by omega, rfl⟩⟩

theorem frequencies_perm (xs ws ys vs : List Float32) (frequencies : Frequencies xs ws) (length : vs.length = ys.length)
    (same : (ys.zip vs).Perm (xs.zip ws)) : (repeated ys vs).Perm (repeated xs ws) ∧ Frequencies ys vs := by
  have perm : (repeated ys vs).Perm (repeated xs ws) := same.flatMap_right _
  refine ⟨perm, length, ?_, ?_, ?_, ?_⟩
  · have weights := same.map (·.2)
    rw [List.map_snd_zip length.le, List.map_snd_zip frequencies.length.le] at weights
    exact fun w among => frequencies.whole w (weights.mem_iff.mp among)
  · intro empty
    rw [empty] at perm
    exact frequencies.counted perm.nil_eq.symm
  · rw [perm.length_eq]
    exact frequencies.few
  · exact fun x among => frequencies.bounded x (perm.mem_iff.mp among)

end Frequencies

theorem half_sum_exact (a b : Float32) (p q : ℚ) (left : SingleIs p a) (right : SingleIs q b)
    (sum : Fits .binary32 (p + q)) (half : Fits .binary32 ((p + q) / 2)) : SingleIs ((p + q) / 2) (halfSum a b) :=
  div_single _ 2 _ 2 (add_single a b p q left right sum) two_single two_ne_zero half

theorem median_middle_entry (xs ws : List Float32) :
    (xs ≠ [] → xs.length < 2 ^ 24 → ∃ m, median (.list xs) none = .ok (.number m) ∧ IsMedian xs m ∧
        ∀ ys, ys.Perm xs → median (.list ys) none = .ok (.number m)) ∧
      (Frequencies xs ws → ∃ m, median (.list xs) (some (.list ws)) = .ok (.number m) ∧ IsMedian (repeated xs ws) m ∧
        median (.list (repeated xs ws)) none = .ok (.number m) ∧
        ∀ ys vs, vs.length = ys.length → (ys.zip vs).Perm (xs.zip ws) →
          median (.list ys) (some (.list vs)) = .ok (.number m)) ∧
      ∀ a b p q, SingleIs p a → SingleIs q b → Fits .binary32 (p + q) → Fits .binary32 ((p + q) / 2) →
        SingleIs ((p + q) / 2) (halfSum a b) := by
  refine ⟨fun present few => ?_, fun frequencies => ?_, half_sum_exact⟩
  · obtain ⟨m, found, is⟩ := median_plain xs present few
    refine ⟨m, found, is, fun ys same => ?_⟩
    obtain ⟨n, found', is'⟩ := median_plain ys (fun empty => present (by rw [empty] at same; exact same.nil_eq.symm))
      (same.length_eq ▸ few)
    rw [found', is_median_unique xs ys m n same is is']
  · obtain ⟨m, found, is⟩ := median_weighted xs ws frequencies
    obtain ⟨n, plain, is'⟩ := median_plain (repeated xs ws) frequencies.counted frequencies.few
    refine ⟨m, found, is, ?_, fun ys vs length same => ?_⟩
    · rw [plain, is_median_unique _ _ m n (.refl _) is is']
    · obtain ⟨perm, frequencies'⟩ := frequencies_perm xs ws ys vs frequencies length same
      obtain ⟨k, found', is''⟩ := median_weighted ys vs frequencies'
      rw [found', is_median_unique _ _ m k perm is is'']

theorem two_fours_and_two_ones : median (.list [4, 1, 7]) none = .ok (.number 4) ∧ Frequencies [4, 1, 7] [2, 2, 0] ∧
    median (.list [4, 1, 7]) (some (.list [2, 2, 0])) = .ok (.number 2.5) ∧
    median (.list [4, 4, 1, 1]) none = .ok (.number 2.5) ∧
    median (.list [7, 1, 4]) (some (.list [0, 2, 2])) = .ok (.number 2.5) := by
  have counted : repeated [4, 1, 7] [2, 2, 0] = [4, 4, 1, 1] := rfl
  have frequencies : Frequencies [4, 1, 7] [2, 2, 0] := by
    refine ⟨by decide, ?_, ?_, ?_, ?_⟩
    · simp only [List.forall_mem_cons, List.not_mem_nil, false_imp_iff, implies_true, and_true]
      exact ⟨⟨2, rfl⟩, ⟨2, rfl⟩, ⟨0, rfl⟩⟩
    · rw [counted]
      exact List.cons_ne_nil _ _
    · rw [counted]
      decide
    · rw [counted]
      simp only [List.forall_mem_cons, List.not_mem_nil, false_imp_iff, implies_true, and_true]
      decide +kernel
  have odd : IsMedian [4, 1, 7] 4 := by
    refine ⟨[1, 4, 7], ?_, ?_, ?_⟩ <;> decide +kernel
  have even : IsMedian [4, 4, 1, 1] 2.5 := by
    refine ⟨[1, 1, 4, 4], ?_, ?_, ?_⟩ <;> decide +kernel
  obtain ⟨once, weighted, -⟩ := median_middle_entry [4, 1, 7] [2, 2, 0]
  obtain ⟨n, single, isSingle, -⟩ := once (List.cons_ne_nil _ _) (by decide)
  obtain rfl : n = 4 := is_median_unique _ _ _ _ (.refl _) odd isSingle
  obtain ⟨m, found, is, plain, swapped⟩ := weighted frequencies
  rw [counted] at is plain
  obtain rfl : m = 2.5 := is_median_unique _ _ _ _ (.refl _) even is
  refine ⟨single, frequencies, found, plain, swapped [7, 1, 4] [0, 2, 2] (by decide) ?_⟩
  decide +kernel

end GraphCalc.Statistics

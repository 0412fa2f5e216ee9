import Mathlib.Data.List.Zip
import GraphCalc.Operation
import GraphCalc.Proofs.Results

set_option autoImplicit false

namespace GraphCalc

namespace Entries

variable {α β γ δ : Type}

-- How many entries there are; a single one stands for any number of them.
def size? : Entries α → Option Nat
  | .one _ => none
  | .many xs => some xs.length

def entry (blank : α) (i : Nat) : Entries α → α
  | .one x => x
  | .many xs => xs.getD i blank

theorem combine_mismatch (f : α → β → Except Cause γ) (xs : Entries α) (ys : Entries β) (m n : Nat)
    (left : xs.size? = some m) (right : ys.size? = some n) (different : m ≠ n) :
    xs.combine f ys = .error .dimMismatch := by
  cases xs with
  | one x => cases left
  | many xs =>
      cases ys with
      | one y => cases right
      | many ys =>
          cases left
          cases right
          exact if_neg different

theorem combine_results (f : α → β → Except Cause γ) (xs : Entries α) (ys : Entries β) (blank : α) (blank' : β) (n : Nat)
    (left : ∀ m ∈ xs.size?, m = n) (right : ∀ m ∈ ys.size?, m = n) (listed : xs.size?.isSome ∨ ys.size?.isSome) :
    xs.combine f ys = ((List.range n).mapM fun i => f (xs.entry blank i) (ys.entry blank' i)).map .many := by
  cases xs with
  | one x =>
      cases ys with
      | one y => simp [size?] at listed
      | many ys =>
          cases right _ rfl
          have positions := list_by_position blank' ys
          rw [combine]
          conv => lhs; rw [positions, List.mapM_map]
          rfl
  | many xs =>
      cases left _ rfl
      cases ys with
      | one y =>
          have positions := list_by_position blank xs
          rw [combine]
          conv => lhs; rw [positions, List.mapM_map]
          rfl
      | many ys =>
          have size : ys.length = xs.length := right _ rfl
          have positions : xs.zip ys = (List.range xs.length).map fun i => (xs.getD i blank, ys.getD i blank') := by
            apply List.ext_getElem
            · simp [size]
            · intro i inside _
              have both : i < xs.length ∧ i < ys.length := by simpa [Nat.lt_min] using inside
              simp [both]
          rw [combine, if_pos size.symm, positions, List.mapM_map]
          rfl

theorem combine_swap (f : α → β → Except Cause γ) (xs : Entries α) (ys : Entries β) :
    ys.combine (fun y x => f x y) xs = xs.combine f ys := by
  cases xs with
  | one x => cases ys <;> rfl
  | many xs =>
      cases ys with
      | one y => rfl
      | many ys =>
          rw [combine, combine]
          by_cases same : xs.length = ys.length
          · rw [if_pos same, if_pos same.symm, ← List.zip_swap xs ys, List.mapM_map]
            rfl
          · rw [if_neg same, if_neg (Ne.symm same)]

theorem combine_map (f : α → β → Except Cause γ) (k : γ → δ) (xs : Entries α) (ys : Entries β) :
    (xs.combine f ys).map (Entries.map k) = xs.combine (fun x y => (f x y).map k) ys := by
  have many_map (results : Except Cause (List γ)) :
      (results.map many).map (Entries.map k) = (results.map (List.map k)).map many := by
    cases results <;> rfl
  cases xs with
  | one x =>
      cases ys with
      | one y =>
          rw [combine, combine]
          cases f x y <;> rfl
      | many ys => rw [combine, combine, many_map, mapM_each]
  | many xs =>
      cases ys with
      | one y => rw [combine, combine, many_map, mapM_each]
      | many ys =>
          rw [combine, combine]
          by_cases same : xs.length = ys.length
          · rw [if_pos same, if_pos same, many_map, mapM_each]
          · rw [if_neg same, if_neg same]
            rfl

end Entries

namespace Value

def IsOperand : Value → Prop
  | .number _ | .complex _ => True
  | .list xs => xs ≠ []
  | .complexList cs => cs ≠ []
  | .string _ | .matrix _ => False

def count? : Value → Option Nat
  | .list xs => some xs.length
  | .complexList cs => some cs.length
  | _ => none

-- An entry of a list as a number; what is no list goes with every position.
def entry (i : Nat) : Value → Value
  | .list xs => .number (xs.getD i 0)
  | .complexList cs => .complex (cs.getD i (.ofReal 0))
  | v => v

theorem operand_dimension (v : Value) (operand : v.IsOperand) : v.checkDimension = .ok () := by
  cases v with
  | list xs =>
      cases xs with
      | nil => exact absurd rfl operand
      | cons x xs => rfl
  | complexList cs =>
      cases cs with
      | nil => exact absurd rfl operand
      | cons c cs => rfl
  | _ => rfl

theorem operand_complexes (v : Value) (operand : v.IsOperand) : ∃ cs, v.complexes? = some cs := by
  cases v with
  | string _ | matrix _ => exact absurd operand id
  | _ => exact ⟨_, rfl⟩

theorem operand_entry (v : Value) (operand : v.IsOperand) (i : Nat) : (v.entry i).IsOperand := by
  cases v with
  | string _ | matrix _ => exact absurd operand id
  | _ => trivial

theorem reals_size (v : Value) (xs : Entries Float32) (found : v.reals? = some xs) : xs.size? = v.count? := by
  cases v <;> cases found <;> rfl

theorem complexes_size (v : Value) (cs : Entries Complex) (found : v.complexes? = some cs) : cs.size? = v.count? := by
  cases v with
  | list xs =>
      cases found
      simp [Entries.size?, count?]
  | _ => cases found <;> rfl

theorem entry_reals (v : Value) (i : Nat) : (v.entry i).reals? = v.reals?.map fun xs => .one (xs.entry 0 i) := by
  cases v <;> rfl

theorem entry_complexes (v : Value) (i : Nat) :
    (v.entry i).complexes? = v.complexes?.map fun cs => .one (cs.entry (.ofReal 0) i) := by
  cases v with
  | list xs =>
      change some (Entries.one (Complex.ofReal (xs.getD i 0))) = some (.one ((xs.map .ofReal).getD i (.ofReal 0)))
      rw [List.getD_map]
  | _ => rfl

theorem count_positive (l r : Value) (left : l.IsOperand) (right : r.IsOperand) (listed : l.count?.isSome ∨ r.count?.isSome)
    {n : Nat} (leftSize : ∀ m ∈ l.count?, m = n) (rightSize : ∀ m ∈ r.count?, m = n) : 0 < n := by
  have nonempty (v : Value) (operand : v.IsOperand) (m : Nat) (counted : v.count? = some m) : 0 < m := by
    cases v with
    | list _ | complexList _ =>
        cases counted
        exact List.length_pos_iff.mpr operand
    | _ => cases counted
  rcases listed with counted | counted
  · obtain ⟨m, counted⟩ := Option.isSome_iff_exists.mp counted
    exact leftSize m counted ▸ nonempty l left m counted
  · obtain ⟨m, counted⟩ := Option.isSome_iff_exists.mp counted
    exact rightSize m counted ▸ nonempty r right m counted

theorem positions_determine {α : Type} (blank : α) (xs ys : List α) (size : ys.length = xs.length)
    (same : ∀ i < xs.length, xs.getD i blank = ys.getD i blank) : xs = ys := by
  rw [list_by_position blank xs, list_by_position blank ys, size]
  exact List.map_congr_left fun i inside => same i (List.mem_range.mp inside)

theorem list_determined (v w : Value) (n : Nat) (positive : 0 < n) (left : v.count? = some n) (right : w.count? = some n)
    (same : ∀ i < n, v.entry i = w.entry i) : v = w := by
  cases v with
  | list xs =>
      cases left
      cases w with
      | list ys =>
          rw [positions_determine 0 xs ys (Option.some.inj right) fun i inside => Value.number.inj (same i inside)]
      | complexList ds => cases same 0 positive
      | _ => cases right
  | complexList cs =>
      cases left
      cases w with
      | list ys => cases same 0 positive
      | complexList ds =>
          rw [positions_determine (Complex.ofReal 0) cs ds (Option.some.inj right) fun i inside =>
            Value.complex.inj (same i inside)]
      | _ => cases right
  | _ => cases left

end Value

-- A way to make a value of entries: a list of them is a list of values.
structure Wraps {δ : Type} (wrap : Entries δ → Value) : Prop where
  count : ∀ zs, (wrap (.many zs)).count? = some zs.length
  entry : ∀ zs i (inside : i < zs.length), (wrap (.many zs)).entry i = wrap (.one zs[i])

theorem wraps_reals : Wraps Value.ofReals := ⟨fun _ => rfl, fun zs i inside => by simp [Value.ofReals, Value.entry, inside]⟩

theorem wraps_complexes : Wraps Value.ofComplexes :=
  ⟨fun _ => rfl, fun zs i inside => by simp [Value.ofComplexes, Value.entry, inside]⟩

-- What an operation is on real operands, and what it is as soon as one of them is complex.
structure Acts {δ : Type} (apply : Value → Value → Except Cause Value) (wrap : Entries δ → Value)
    (f : Float32 → Float32 → Except Cause Float32) (g : Complex → Complex → Except Cause δ) : Prop where
  real : ∀ l r xs ys, l.IsOperand → r.IsOperand → l.reals? = some xs → r.reals? = some ys →
    apply l r = (xs.combine f ys).map .ofReals
  complex : ∀ l r xs ys, l.IsOperand → r.IsOperand → l.reals? = none ∨ r.reals? = none → l.complexes? = some xs →
    r.complexes? = some ys → apply l r = (xs.combine g ys).map wrap

section Operations

variable {δ : Type} {apply : Value → Value → Except Cause Value} {wrap : Entries δ → Value}
variable {f : Float32 → Float32 → Except Cause Float32} {g : Complex → Complex → Except Cause δ}

theorem acts_on_operands (apply' : Value → Value → Except Cause Value) (acts : Acts apply wrap f g)
    (same : ∀ l r, l.IsOperand → r.IsOperand → apply' l r = apply l r) : Acts apply' wrap f g := by
  refine ⟨?_, ?_⟩
  · intro l r xs ys left right
    rw [same l r left right]
    exact acts.real l r xs ys left right
  · intro l r xs ys left right
    rw [same l r left right]
    exact acts.complex l r xs ys left right

theorem acts_swapped (acts : Acts apply wrap f g) :
    Acts (fun l r => apply r l) wrap (fun x y => f y x) (fun x y => g y x) := by
  refine ⟨?_, ?_⟩
  · intro l r xs ys left right leftReal rightReal
    rw [acts.real r l ys xs right left rightReal leftReal, Entries.combine_swap]
  · intro l r xs ys left right complex leftComplex rightComplex
    rw [acts.complex r l ys xs right left complex.symm rightComplex leftComplex, Entries.combine_swap]

theorem elementwise_acts (f : Float32 → Float32 → Except Cause Float32) (g : Complex → Complex → Except Cause Complex) :
    Acts (Value.elementwise f g) .ofComplexes f g := by
  refine ⟨?_, ?_⟩
  · intro l r xs ys left right leftReal rightReal
    rw [Value.elementwise, l.operand_dimension left, r.operand_dimension right, leftReal, rightReal]
    exact bind_pure_comp Value.ofReals (xs.combine f ys)
  · intro l r xs ys left right complex leftComplex rightComplex
    rw [Value.elementwise, l.operand_dimension left, r.operand_dimension right, leftComplex, rightComplex]
    rcases complex with noReals | noReals
    · rw [noReals]
      exact bind_pure_comp Value.ofComplexes (xs.combine g ys)
    · rw [noReals]
      cases l.reals? <;> exact bind_pure_comp Value.ofComplexes (xs.combine g ys)

theorem relation_acts (f : Float32 → Float32 → Bool) (g : Complex → Complex → Except Cause Bool) :
    Acts (Value.relation f g) .ofReals (fun x y => .ok (Value.truth (f x y))) (fun x y => (g x y).map Value.truth) := by
  refine ⟨?_, ?_⟩
  · intro l r xs ys left right leftReal rightReal
    rw [Value.relation, l.operand_dimension left, r.operand_dimension right, leftReal, rightReal]
    exact bind_pure_comp Value.ofReals (xs.combine _ ys)
  · intro l r xs ys left right complex leftComplex rightComplex
    rw [Value.relation, l.operand_dimension left, r.operand_dimension right, leftComplex, rightComplex]
    rcases complex with noReals | noReals
    · rw [noReals]
      exact bind_pure_comp Value.ofReals (xs.combine _ ys)
    · rw [noReals]
      cases l.reals? <;> exact bind_pure_comp Value.ofReals (xs.combine _ ys)

theorem acts_mapped {g : Complex → Complex → Except Cause Float32} (acts : Acts apply .ofReals f g) (k : Float32 → Float32)
    (apply' : Value → Value → Except Cause Value)
    (mapped : ∀ l r (zs : Except Cause (Entries Float32)), apply l r = zs.map .ofReals →
      apply' l r = (zs.map (Entries.map k)).map .ofReals) :
    Acts apply' .ofReals (fun x y => (f x y).map k) (fun x y => (g x y).map k) := by
  refine ⟨?_, ?_⟩
  · intro l r xs ys left right leftReal rightReal
    rw [← Entries.combine_map]
    exact mapped l r _ (acts.real l r xs ys left right leftReal rightReal)
  · intro l r xs ys left right complex leftComplex rightComplex
    rw [← Entries.combine_map]
    exact mapped l r _ (acts.complex l r xs ys left right complex leftComplex rightComplex)

theorem combine_single {α β γ : Type} (h : α → β → Except Cause γ) (wrap : Entries γ → Value) (x : α) (y : β) :
    ((Entries.one x).combine h (.one y)).map wrap = (h x y).map fun z => wrap (.one z) := by
  rw [Entries.combine]
  cases h x y <;> rfl

-- Both operands as entries of one kind, real or complex, and the operation on single ones of them.
structure Combined {α γ : Type} (apply : Value → Value → Except Cause Value) (l r : Value) (blank : α) (xs ys : Entries α)
    (h : α → α → Except Cause γ) (wrap : Entries γ → Value) : Prop where
  wraps : Wraps wrap
  left : xs.size? = l.count?
  right : ys.size? = r.count?
  whole : apply l r = (xs.combine h ys).map wrap
  each : ∀ i, apply (l.entry i) (r.entry i) = (h (xs.entry blank i) (ys.entry blank i)).map fun z => wrap (.one z)

theorem acts_combined (wraps : Wraps wrap) (acts : Acts apply wrap f g) (l r : Value) (left : l.IsOperand)
    (right : r.IsOperand) :
    ∃ (α γ : Type) (blank : α) (xs ys : Entries α) (h : α → α → Except Cause γ) (wrap' : Entries γ → Value),
      Combined apply l r blank xs ys h wrap' := by
  by_cases complex : l.reals? = none ∨ r.reals? = none
  · obtain ⟨xs, leftComplex⟩ := l.operand_complexes left
    obtain ⟨ys, rightComplex⟩ := r.operand_complexes right
    refine ⟨Complex, δ, .ofReal 0, xs, ys, g, wrap, wraps, l.complexes_size xs leftComplex, r.complexes_size ys rightComplex,
      acts.complex l r xs ys left right complex leftComplex rightComplex, fun i => ?_⟩
    rw [← combine_single]
    refine acts.complex _ _ _ _ (l.operand_entry left i) (r.operand_entry right i) ?_ ?_ ?_
    · simpa [Value.entry_reals] using complex
    · rw [Value.entry_complexes, leftComplex]
      rfl
    · rw [Value.entry_complexes, rightComplex]
      rfl
  · obtain ⟨xs, leftReal⟩ := Option.ne_none_iff_exists'.mp fun none => complex (.inl none)
    obtain ⟨ys, rightReal⟩ := Option.ne_none_iff_exists'.mp fun none => complex (.inr none)
    refine ⟨Float32, Float32, 0, xs, ys, f, .ofReals, wraps_reals, l.reals_size xs leftReal, r.reals_size ys rightReal,
      acts.real l r xs ys left right leftReal rightReal, fun i => ?_⟩
    rw [← combine_single]
    refine acts.real _ _ _ _ (l.operand_entry left i) (r.operand_entry right i) ?_ ?_
    · rw [Value.entry_reals, leftReal]
      rfl
    · rw [Value.entry_reals, rightReal]
      rfl

-- The whole is the run of what happens at each position, and each position is the operation on two numbers.
structure Pointwise (apply : Value → Value → Except Cause Value) (l r : Value) (n : Nat) (wrap : Entries δ → Value)
    (result : Nat → Except Cause δ) : Prop where
  wraps : Wraps wrap
  whole : apply l r = ((List.range n).mapM result).map fun zs => wrap (.many zs)
  each : ∀ i, apply (l.entry i) (r.entry i) = (result i).map fun z => wrap (.one z)

section Combination

variable {α γ : Type} {l r : Value} {blank : α} {xs ys : Entries α} {h : α → α → Except Cause γ} {wrap' : Entries γ → Value}
variable (combined : Combined apply l r blank xs ys h wrap')

include combined

theorem combined_pointwise (n : Nat) (leftSize : ∀ m ∈ l.count?, m = n) (rightSize : ∀ m ∈ r.count?, m = n)
    (listed : l.count?.isSome ∨ r.count?.isSome) :
    Pointwise apply l r n wrap' fun i => h (xs.entry blank i) (ys.entry blank i) := by
  rw [← combined.left, ← combined.right] at listed
  rw [← combined.left] at leftSize
  rw [← combined.right] at rightSize
  refine ⟨combined.wraps, ?_, combined.each⟩
  rw [combined.whole, Entries.combine_results h xs ys blank blank n leftSize rightSize listed]
  cases (List.range n).mapM fun i => h (xs.entry blank i) (ys.entry blank i) <;> rfl

theorem combined_mismatch (m n : Nat) (leftSize : l.count? = some m) (rightSize : r.count? = some n) (different : m ≠ n) :
    apply l r = .error .dimMismatch := by
  rw [← combined.left] at leftSize
  rw [← combined.right] at rightSize
  rw [combined.whole, Entries.combine_mismatch h xs ys m n leftSize rightSize different]
  rfl

end Combination

section Positions

variable {l r : Value} {n : Nat} {result : Nat → Except Cause δ} (points : Pointwise apply l r n wrap result)

include points

theorem pointwise_ok (v : Value) (done : apply l r = .ok v) :
    v.count? = some n ∧ ∀ i < n, apply (l.entry i) (r.entry i) = .ok (v.entry i) := by
  rw [points.whole] at done
  cases all : (List.range n).mapM result with rw [all] at done
  | error e => cases done
  | ok zs =>
      cases done
      obtain ⟨size, each⟩ := results_ok result n zs all
      refine ⟨by rw [points.wraps.count, size], fun i inside => ?_⟩
      have within : i < zs.length := by omega
      rw [points.each, each i within, points.wraps.entry zs i within]
      rfl

theorem pointwise_error (e : Cause) : apply l r = .error e ↔
    ∃ i < n, apply (l.entry i) (r.entry i) = .error e ∧ ∀ j < i, ∃ v, apply (l.entry j) (r.entry j) = .ok v := by
  have mapped_error {α β : Type} (k : α → β) (x : Except Cause α) : x.map k = .error e ↔ x = .error e := by
    cases x <;> simp [Except.map]
  have mapped_ok (j : Nat) : (∃ v, (result j).map (fun z => wrap (.one z)) = .ok v) ↔ ∃ z, result j = .ok z := by
    cases result j <;> simp [Except.map]
  simp only [points.whole, points.each, mapped_error, mapped_ok]
  exact results_error result n e

end Positions

end Operations

namespace Operation

-- The operators that take lists, `and`, `or` and `xor` apart: those take single numbers only.
def entrywise : List Operator :=
  [.add, .subtract, .multiply, .divide, .power, .permutations, .combinations, .equal, .notEqual, .less, .greater,
    .lessEqual, .greaterEqual]

theorem add_acts : Acts add .ofComplexes (fun x y => finite (x + y)) Complex.add := by
  refine acts_on_operands add (elementwise_acts _ _) fun l r left right => ?_
  cases l with
  | string _ | matrix _ => exact absurd left id
  | _ => rfl

theorem subtract_acts : Acts subtract .ofComplexes (fun x y => finite (x - y)) Complex.sub := by
  refine acts_on_operands subtract (elementwise_acts _ _) fun l r left right => ?_
  cases l with
  | string _ | matrix _ => exact absurd left id
  | _ => rfl

theorem multiply_acts : Acts multiply .ofComplexes (fun x y => finite (x * y)) Complex.mul := by
  refine acts_on_operands multiply (elementwise_acts _ _) fun l r left right => ?_
  cases l with
  | string _ | matrix _ => exact absurd left id
  | number x =>
      cases r with
      | string _ | matrix _ => exact absurd right id
      | _ => rfl
  | _ => rfl

theorem divide_acts : Acts divide .ofComplexes realDivide Complex.div := by
  refine acts_on_operands divide (elementwise_acts _ _) fun l r left right => ?_
  cases l with
  | string _ | matrix _ => exact absurd left id
  | _ => rfl

theorem equal_acts : Acts equal .ofReals (fun x y => .ok (Value.truth (x == y))) (fun x y => .ok (Value.truth (x.same y))) := by
  refine acts_on_operands equal (relation_acts (· == ·) fun x y => .ok (x.same y)) fun l r left right => ?_
  cases l with
  | string _ | matrix _ => exact absurd left id
  | _ => rfl

theorem not_equal_acts : Acts notEqual .ofReals (fun x y => .ok (Value.truth (Value.truth (x == y) == 0)))
    (fun x y => .ok (Value.truth (Value.truth (x.same y) == 0))) := by
  refine acts_mapped equal_acts (fun x => Value.truth (x == 0)) notEqual fun l r zs same => ?_
  rw [notEqual, same]
  cases zs with
  | error e => rfl
  | ok zs => cases zs <;> rfl

theorem binary_own {δ : Type} {wrap : Entries δ → Value} {f : Float32 → Float32 → Except Cause Float32}
    {g : Complex → Complex → Except Cause δ} {op : Operator} {apply : Value → Value → Except Cause Value}
    (acts : Acts apply wrap f g)
    (own : ∀ l r, binary op l r = l.checkDimension >>= fun _ => r.checkDimension >>= fun _ => apply l r) :
    Acts (binary op) wrap f g := by
  refine acts_on_operands (binary op) acts fun l r left right => ?_
  rw [own, l.operand_dimension left, r.operand_dimension right]
  rfl

theorem binary_acts (op : Operator) (among : op ∈ entrywise) :
    ∃ (δ : Type) (wrap : Entries δ → Value) (f : Float32 → Float32 → Except Cause Float32)
      (g : Complex → Complex → Except Cause δ), Wraps wrap ∧ Acts (binary op) wrap f g := by
  cases op with
  | add => exact ⟨_, _, _, _, wraps_complexes, binary_own add_acts fun _ _ => rfl⟩
  | subtract => exact ⟨_, _, _, _, wraps_complexes, binary_own subtract_acts fun _ _ => rfl⟩
  | multiply => exact ⟨_, _, _, _, wraps_complexes, binary_own multiply_acts fun _ _ => rfl⟩
  | divide => exact ⟨_, _, _, _, wraps_complexes, binary_own divide_acts fun _ _ => rfl⟩
  | power => exact ⟨_, _, _, _, wraps_complexes, binary_own (elementwise_acts _ _) fun _ _ => rfl⟩
  | permutations => exact ⟨_, _, _, _, wraps_complexes, binary_own (elementwise_acts _ _) fun _ _ => rfl⟩
  | combinations => exact ⟨_, _, _, _, wraps_complexes, binary_own (elementwise_acts _ _) fun _ _ => rfl⟩
  | equal => exact ⟨_, _, _, _, wraps_reals, binary_own equal_acts fun _ _ => rfl⟩
  | notEqual => exact ⟨_, _, _, _, wraps_reals, binary_own not_equal_acts fun _ _ => rfl⟩
  | less => exact ⟨_, _, _, _, wraps_reals, binary_own (relation_acts _ _) fun _ _ => rfl⟩
  | greater => exact ⟨_, _, _, _, wraps_reals, binary_own (acts_swapped (relation_acts _ _)) fun _ _ => rfl⟩
  | lessEqual => exact ⟨_, _, _, _, wraps_reals, binary_own (relation_acts _ _) fun _ _ => rfl⟩
  | greaterEqual => exact ⟨_, _, _, _, wraps_reals, binary_own (acts_swapped (relation_acts _ _)) fun _ _ => rfl⟩
  | _ => simp [entrywise] at among

theorem lists_combined_entrywise (op : Operator) (among : op ∈ entrywise) (l r : Value) (left : l.IsOperand)
    (right : r.IsOperand) (listed : l.count?.isSome ∨ r.count?.isSome) :
    (∀ m n, l.count? = some m → r.count? = some n → m ≠ n → binary op l r = .error .dimMismatch) ∧
    ∀ n, (∀ m ∈ l.count?, m = n) → (∀ m ∈ r.count?, m = n) →
      (∀ v, binary op l r = .ok v ↔
        v.count? = some n ∧ ∀ i < n, binary op (l.entry i) (r.entry i) = .ok (v.entry i)) ∧
      (∀ e, binary op l r = .error e ↔
        ∃ i < n, binary op (l.entry i) (r.entry i) = .error e ∧
          ∀ j < i, ∃ v, binary op (l.entry j) (r.entry j) = .ok v) := by
  obtain ⟨δ, wrap, f, g, wraps, acts⟩ := binary_acts op among
  obtain ⟨α, γ, blank, xs, ys, h, wrap', combined⟩ := acts_combined wraps acts l r left right
  refine ⟨combined_mismatch combined, fun n leftSize rightSize => ?_⟩
  have points := combined_pointwise combined n leftSize rightSize listed
  refine ⟨fun v => ⟨pointwise_ok points v, ?_⟩, pointwise_error points⟩
  rintro ⟨size, each⟩
  cases all : binary op l r with
  | error e =>
      obtain ⟨i, inside, failed, _⟩ := (pointwise_error points e).mp all
      cases failed.symm.trans (each i inside)
  | ok w =>
      obtain ⟨size', each'⟩ := pointwise_ok points w all
      have positive : 0 < n := l.count_positive r left right listed leftSize rightSize
      have same (i : Nat) (inside : i < n) : w.entry i = v.entry i :=
        Except.ok.inj ((each' i inside).symm.trans (each i inside))
      rw [Value.list_determined w v n positive size' size same]

theorem second_entry_divides_by_zero :
    (Value.list [6, 1, 8]).IsOperand ∧ (Value.complexList [.ofReal 3, .ofReal 0, .ofReal 2]).IsOperand ∧
      binary .divide (.list [6, 1, 8]) (.complexList [.ofReal 3, .ofReal 0, .ofReal 2]) = .error .divideByZero := by
  have left : (Value.list [6, 1, 8]).IsOperand := List.cons_ne_nil 6 _
  have right : (Value.complexList [.ofReal 3, .ofReal 0, .ofReal 2]).IsOperand := List.cons_ne_nil (Complex.ofReal 3) _
  have entries := lists_combined_entrywise .divide (by simp [entrywise]) _ _ left right (.inl rfl)
  refine ⟨left, right, ((entries.2 3 (by simp [Value.count?]) (by simp [Value.count?])).2 .divideByZero).mpr ?_⟩
  refine ⟨1, by omega, by decide +kernel, fun j first => ?_⟩
  obtain rfl : j = 0 := by omega
  exact ⟨.complex (.ofReal 2), by decide +kernel⟩

end Operation

end GraphCalc

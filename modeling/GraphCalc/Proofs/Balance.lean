import GraphCalc.Proofs.Items

/-!
Counting the two stacks against each other. Every pending operator of two operands, the comma included,
has its left operand on the output, so an item that misses its operand leaves the output one tree short.
Nothing makes up for that later: in an expression that is accepted every item stands where it belongs.
-/

set_option autoImplicit false

namespace GraphCalc

namespace Item

-- An item that takes what stands before it as its operand. A minus sign may do without one.
def needsOperand : Item → Bool
  | .operator op => op != .subtract && op != .negate
  | .closer _ _ => true
  | _ => false

def endsOperand : Item → Bool
  | .operand _ | .text _ _ => true
  | .operator op => op.isUnary && !op.isPrefix
  | .opener _ _ => false
  | .closer _ _ => true

end Item

def Placed : Bool → List Item → Prop
  | ended, [] => ended = true
  | ended, item :: rest => (item.needsOperand = true → ended = true) ∧ Placed item.endsOperand rest

def Pending.isBinary : Pending → Bool
  | .operator op => !op.isUnary
  | _ => false

namespace Stacks

def weight (pending : List Pending) : Nat := pending.countP Pending.isBinary

-- The output is `missing` trees short of what the pending operators ask for.
def Short (missing : Nat) (s : Stacks) : Prop :=
  s.output.length + missing = weight s.pending + s.needMultiply.toNat

@[simp] theorem weight_operator (op : Operator) (pending : List Pending) :
    weight (.operator op :: pending) = weight pending + (!op.isUnary).toNat := by
  cases arity : op.isUnary <;> simp [weight, Pending.isBinary, arity]

@[simp] theorem weight_group (group : Group) (height : Nat) (pending : List Pending) :
    weight (.group group height :: pending) = weight pending := by
  simp [weight, Pending.isBinary]

@[simp] theorem weight_call (target : Target) (pending : List Pending) :
    weight (.call target :: pending) = weight pending := by
  simp [weight, Pending.isBinary]

theorem weight_opening (target : Option Target) (group : Group) (height : Nat) (pending : List Pending) :
    weight (openingEntries target group height ++ pending) = weight pending := by
  cases target <;> simp [openingEntries]

theorem weight_commas (commas : Nat) (pending : List Pending) :
    weight (List.replicate commas (.operator .comma) ++ pending) = weight pending + commas := by
  induction commas with
  | zero => rfl
  | succ n ih =>
      rw [List.replicate_succ, List.cons_append, weight_operator, ih]
      rfl

theorem apply_operator_balance (op : Operator) (pending : List Pending) (output output' : List Tree)
    (applied : applyOperator op output = .ok output') :
    output'.length + weight (.operator op :: pending) = output.length + weight pending := by
  rcases apply_operator_ok op output output' applied with ⟨unary, x, rest, rfl, rfl⟩ | ⟨binary, lhs, rhs, rest, rfl, rfl⟩
  · simp [unary]
  · simp [binary]
    omega

theorem reduce_stacks_balance (strength : Nat) (right : Bool) (pending pending' : List Pending)
    (output output' : List Tree) (reduced : reduceStacks strength right pending output = .ok (pending', output')) :
    output'.length + weight pending = output.length + weight pending' := by
  fun_induction reduceStacks strength right pending output with
  | case1 => cases reduced; rfl
  | case2 op pending output _ output₁ applied ih =>
      have here := apply_operator_balance op pending output output₁ applied
      have later := ih reduced
      omega
  | case3 => cases reduced
  | case4 => cases reduced; rfl

theorem group_closes_balance (group : Group) (pending pending' : List Pending) (output output' : List Tree)
    (closed : GroupCloses group pending output pending' output') :
    output'.length + weight pending = output.length + weight pending' := by
  obtain ⟨commas, height, below, _, opening, _, count, closes⟩ := closed
  have gathered (o : Opening) : (gather o.node (commas + 1) output).length + commas = output.length := by
    simp only [gather, List.length_cons, List.length_drop]
    omega
  rw [weight_commas, weight_group]
  cases closes with
  | brace => have := gathered .braces; simp only [closedOutput]; omega
  | bracket => have := gathered .brackets; simp only [closedOutput]; omega
  | call target => have := gathered (.call target); simp only [closedOutput, weight_call]; omega
  | plain => simp only [closedOutput]; omega

theorem finishes_balance (pending : List Pending) (output : List Tree) (tree : Tree)
    (finished : Finishes pending output tree) : output.length = weight pending + 1 := by
  induction finished with
  | done pending output tree reduced =>
      have flushed := reduce_stacks_balance _ _ _ _ _ _ reduced
      simp only [List.length_singleton, weight, List.countP_nil] at flushed ⊢
      omega
  | close pending pending₁ pending₂ output output₁ output₂ tree reduced closes rest ih =>
      have flushed := reduce_stacks_balance _ _ _ _ _ _ reduced
      have closed := group_closes_balance _ _ _ _ _ closes
      omega

theorem flag_and_opposite (b : Bool) : b.toNat + (!b).toNat = 1 := by
  cases b <;> rfl

theorem place_operator_short (s s' : Stacks) (op : Operator) (missing : Nat) (short : Short missing s)
    (placed : s.placeOperator op = .ok s') : Short (missing + (!s.needMultiply).toNat) s' := by
  obtain ⟨pending, output, reduced, rfl⟩ := place_operator_ok s s' op placed
  have balance := reduce_stacks_balance _ _ _ _ _ _ reduced
  have need := flag_and_opposite s.needMultiply
  have arity := flag_and_opposite op.isUnary
  unfold Short at short ⊢
  rw [weight_operator]
  dsimp only
  omega

theorem multiply_short (s s' : Stacks) (missing : Nat) (short : Short missing s) (multiplied : s.multiply = .ok s') :
    Short missing s' ∧ s'.needMultiply = false := by
  rcases multiply_ok s s' multiplied with ⟨waiting, rfl⟩ | ⟨ended, placed⟩
  · exact ⟨short, waiting⟩
  · have after := place_operator_short s s' .multiply missing short placed
    rw [ended] at after
    obtain ⟨_, _, _, rfl⟩ := place_operator_ok s s' .multiply placed
    exact ⟨after, rfl⟩

theorem resolved_negation (ended : Bool) (written : Operator) (negation : resolved ended written = .negate) :
    written = .negate ∨ (written = .subtract ∧ ended = false) := by
  unfold resolved at negation
  by_cases minus : written = .subtract ∧ ended = false
  · exact Or.inr minus
  · rw [if_neg minus] at negation
    exact Or.inl negation

theorem resolved_other (ended : Bool) (written : Operator) (other : resolved ended written ≠ .negate) :
    resolved ended written = written ∧ written ≠ .negate ∧ (written = .subtract → ended = true) := by
  unfold resolved at other ⊢
  by_cases minus : written = .subtract ∧ ended = false
  · rw [if_pos minus] at other
    exact absurd rfl other
  · rw [if_neg minus] at other ⊢
    exact ⟨rfl, other, fun same => by simpa [same] using minus⟩

theorem take_operator_short (s s' : Stacks) (written : Operator) (missing : Nat) (short : Short missing s)
    (taken : s.takeOperator written = .ok s') :
    Short (missing + ((Item.operator written).needsOperand && !s.needMultiply).toNat) s' ∧
      s'.needMultiply = (Item.operator written).endsOperand := by
  rcases take_operator_ok s s' written taken with ⟨negation, s₁, multiplied, rfl⟩ | ⟨other, placed⟩
  · obtain ⟨before, waiting⟩ := multiply_short s s₁ missing short multiplied
    have spare : (Item.operator written).needsOperand = false ∧ (Item.operator written).endsOperand = false := by
      rcases resolved_negation _ _ negation with rfl | ⟨rfl, _⟩ <;> exact ⟨rfl, rfl⟩
    rw [spare.1, spare.2]
    unfold Short at before ⊢
    rw [waiting] at before
    exact ⟨before, rfl⟩
  · obtain ⟨same, notNegate, minusEnded⟩ := resolved_other _ _ other
    rw [same] at placed
    have after := place_operator_short s s' written missing short placed
    have needed : ((Item.operator written).needsOperand && !s.needMultiply) = !s.needMultiply := by
      cases ended : s.needMultiply with
      | true => simp
      | false =>
          have notMinus : written ≠ .subtract := fun minus => by simp [minusEnded minus] at ended
          simp [Item.needsOperand, notMinus, notNegate]
    rw [needed]
    refine ⟨after, ?_⟩
    obtain ⟨_, _, _, rfl⟩ := place_operator_ok s s' written placed
    simp [Item.endsOperand, Operator.isPrefix, notNegate]

theorem take_closer_short (s s' : Stacks) (group : Group) (missing : Nat) (short : Short missing s)
    (taken : s.takeCloser group = .ok s') :
    Short (missing + (!s.needMultiply).toNat) s' ∧ s'.needMultiply = true := by
  obtain ⟨pending, output, pending', output', reduced, closes, rfl⟩ := take_closer_ok s s' group taken
  have flushed := reduce_stacks_balance _ _ _ _ _ _ reduced
  have closed := group_closes_balance _ _ _ _ _ closes
  have need := flag_and_opposite s.needMultiply
  refine ⟨?_, rfl⟩
  unfold Short at short ⊢
  simp only [Bool.toNat_true]
  omega

theorem accept_short (s s' : Stacks) (item : Item) (missing : Nat) (short : Short missing s) (single : item.Single)
    (accepted : s.accept item = .ok s') :
    Short (missing + (item.needsOperand && !s.needMultiply).toNat) s' ∧ s'.needMultiply = item.endsOperand := by
  cases item with
  | operand tree =>
      obtain ⟨s₁, multiplied, rfl⟩ := take_operand_ok s s' tree accepted
      obtain ⟨before, waiting⟩ := multiply_short s s₁ missing short multiplied
      refine ⟨?_, rfl⟩
      unfold Short at before ⊢
      rw [waiting] at before
      simp only [Item.needsOperand, Bool.false_and, Bool.toNat_false, Bool.toNat_true, List.length_cons] at before ⊢
      omega
  | text bytes closed =>
      cases single
      obtain ⟨s₁, multiplied, rfl⟩ := take_text_ok s s' bytes true accepted
      obtain ⟨before, waiting⟩ := multiply_short s s₁ missing short multiplied
      refine ⟨?_, rfl⟩
      unfold Short at before ⊢
      rw [waiting] at before
      simp only [Item.needsOperand, Bool.false_and, Bool.toNat_false, Bool.toNat_true, List.length_cons] at before ⊢
      omega
  | operator op => exact take_operator_short s s' op missing short accepted
  | opener target group =>
      obtain ⟨s₁, multiplied, rfl⟩ := take_opener_ok s s' target group accepted
      obtain ⟨before, waiting⟩ := multiply_short s s₁ missing short multiplied
      refine ⟨?_, rfl⟩
      unfold Short at before ⊢
      rw [waiting] at before
      rw [weight_opening]
      exact before
  | closer group rowFollows =>
      cases single
      obtain ⟨s₁, closed, unchanged⟩ := bind_ok accepted
      cases Except.ok.inj unchanged
      exact take_closer_short s s' group missing short closed

theorem run_placed (s s' : Stacks) (all : List Item) (tree : Tree) (missing : Nat) (short : Short missing s)
    (single : ∀ item ∈ all, item.Single) (ran : s.run all = .ok s') (finished : Finishes s'.pending s'.output tree) :
    missing = 0 ∧ Placed s.needMultiply all := by
  induction all generalizing s missing with
  | nil =>
      cases Except.ok.inj ran
      have total := finishes_balance _ _ _ finished
      unfold Short at short
      cases ended : s'.needMultiply with
      | false =>
          rw [ended, Bool.toNat_false] at short
          omega
      | true =>
          rw [ended, Bool.toNat_true] at short
          exact ⟨by omega, rfl⟩
  | cons item rest ih =>
      obtain ⟨s₁, accepted, restRan⟩ := bind_ok ran
      obtain ⟨after, ended⟩ := accept_short s s₁ item missing short (single item (by simp)) accepted
      obtain ⟨none, placed⟩ := ih s₁ _ after (fun later member => single later (by simp [member])) restRan
      rw [ended] at placed
      refine ⟨by omega, ?_, placed⟩
      intro needed
      cases before : s.needMultiply with
      | true => rfl
      | false => simp [needed, before] at none

end Stacks

end GraphCalc

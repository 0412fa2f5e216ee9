import GraphCalc.Proofs.Outline
import GraphCalc.Proofs.WellFormed

set_option autoImplicit false

namespace GraphCalc

theorem Tree.leaf_outline (tree : Tree) (wellFormed : tree.WellFormed) (leaf : tree.children = []) :
    tree.outline = [.operand tree] := by
  cases wellFormed with
  | operator op args _ count =>
      have none : args = [] := leaf
      rw [none] at count
      cases arity : op.isUnary <;> simp [arity] at count
  | call target args =>
      have none : args = [] := leaf
      subst none
      rfl
  | braces args filled => exact absurd leaf filled
  | brackets args filled => exact absurd leaf filled
  | _ => rfl

namespace Stacks

def factorials (pending : List Pending) : Nat := pending.count (.operator .factorial)

def waitingFactorials (late : Nat) : List Pending := List.replicate late (.operator .factorial)

def settledMarks (settled : Nat) : List Mark := List.replicate settled (.operator .factorial)

def traced (mark : Mark) : List Mark := [mark].filter Mark.isTraced

-- Stacks that expect an operand. Each pending operator of two operands has its left one on the output;
-- factorials that it passed wait below it.
inductive Awaiting : List Pending → List Tree → List (Option Opening) → List Mark → Prop where
  | start : Awaiting [] [] [] []
  | negate (pending : List Pending) (output : List Tree) (around : List (Option Opening)) (marks : List Mark)
      (before : Awaiting pending output around marks) :
      Awaiting (.operator .negate :: pending) output around (marks ++ [.operator .negate])
  | binary (op : Operator) (late : Nat) (lhs : Tree) (pending : List Pending) (output : List Tree)
      (around : List (Option Opening)) (marks : List Mark) (two : op.isUnary = false) (notComma : op ≠ .comma)
      (before : Awaiting pending output around marks) :
      Awaiting (.operator op :: (waitingFactorials late ++ pending)) (lhs :: output) around
        (marks ++ (lhs.outline ++ [.operator op]))
  | comma (lhs : Tree) (pending : List Pending) (output : List Tree) (around : List (Option Opening))
      (marks : List Mark) (before : Awaiting pending output around marks) :
      Awaiting (.operator .comma :: pending) (lhs :: output) around
        (marks ++ (lhs.outline ++ traced (separatorMark around)))
  | bracket (group : Group) (pending : List Pending) (output : List Tree) (around : List (Option Opening))
      (marks : List Mark) (before : Awaiting pending output around marks) :
      Awaiting (.group group output.length :: pending) output (Opening.ofItem? none group :: around)
        (marks ++ traced (enterMark (Opening.ofItem? none group)))
  | call (target : Target) (pending : List Pending) (output : List Tree) (around : List (Option Opening))
      (marks : List Mark) (before : Awaiting pending output around marks) :
      Awaiting (.group .paren output.length :: .call target :: pending) output (some (.call target) :: around)
        (marks ++ [.enter (.call target)])

-- Stacks with a finished operand on top of the output, and the operators after it still pending.
inductive Complete (pending : List Pending) (output : List Tree) (around : List (Option Opening))
    (marks : List Mark) : Prop where
  | tree (late : Nat) (top : Tree) (pending₀ : List Pending) (output₀ : List Tree) (marks₀ : List Mark)
      (shape : pending = waitingFactorials late ++ pending₀) (stacked : output = top :: output₀)
      (read : marks = marks₀ ++ top.outline) (before : Awaiting pending₀ output₀ around marks₀) :
      Complete pending output around marks
  | tight (op : Operator) (late : Nat) (top : Tree) (pending₀ : List Pending) (output₀ : List Tree)
      (marks₀ : List Mark) (first : op.precedence = 1) (shape : pending = .operator op :: (waitingFactorials late ++ pending₀))
      (stacked : output = top :: output₀) (read : marks = marks₀ ++ (top.outline ++ [.operator op]))
      (before : Awaiting pending₀ output₀ around marks₀) : Complete pending output around marks

def Clean (s : Stacks) (around : List (Option Opening)) (marks : List Mark) : Prop :=
  if s.needMultiply then Complete s.pending s.output around marks else Awaiting s.pending s.output around marks

theorem factorials_operator (op : Operator) (pending : List Pending) :
    factorials (.operator op :: pending) = factorials pending + if op = .factorial then 1 else 0 := by
  simp [factorials, List.count_cons, beq_iff_eq]

theorem unary_outline (op : Operator) (x : Tree) (after : op ≠ .negate) :
    (Tree.operator op [x]).outline = x.outline ++ [.operator op] := by
  simp [Tree.outline, Operator.isPrefix, after]

theorem complete_apply (op : Operator) (pending : List Pending) (output output' : List Tree)
    (around : List (Option Opening)) (marks : List Mark) (notComma : op ≠ .comma)
    (complete : Complete (.operator op :: pending) output around marks) (applied : applyOperator op output = .ok output') :
    Complete pending output' around (marks ++ settledMarks (if op = .factorial then 1 else 0)) := by
  cases complete with
  | tree late top pending₀ output₀ marks₀ shape stacked read before =>
      subst stacked read
      cases late with
      | succ n =>
          rw [waitingFactorials, List.replicate_succ, List.cons_append] at shape
          obtain ⟨same, rest⟩ := List.cons.inj shape
          cases same
          cases applied
          refine .tree n _ pending₀ output₀ marks₀ rest rfl ?_ before
          rw [unary_outline .factorial top (by decide), if_pos rfl, List.append_assoc]
          rfl
      | zero =>
          have shape₀ : pending₀ = .operator op :: pending := shape.symm
          subst shape₀
          cases before with
          | negate _ _ _ marks₁ before =>
              cases applied
              refine .tree 0 _ pending output₀ marks₁ rfl rfl ?_ before
              simp [Tree.outline, Operator.isPrefix, settledMarks]
          | binary _ late lhs pending₁ output₁ _ marks₁ two _ before =>
              have notFactorial : op ≠ .factorial := fun same => by rw [same] at two; cases two
              simp only [applyOperator, two, Bool.false_eq_true, if_false] at applied
              cases applied
              refine .tree late _ pending₁ output₁ marks₁ rfl rfl ?_ before
              simp [Tree.outline, notFactorial, settledMarks]
          | comma => exact absurd rfl notComma
  | tight tightOp late top pending₀ output₀ marks₀ first shape stacked read before =>
      subst stacked read
      obtain ⟨same, rest⟩ := List.cons.inj shape
      cases same
      have unary : op.isUnary = true := by simp [Operator.isUnary, first]
      have notFactorial : op ≠ .factorial := fun same => by rw [same] at first; cases first
      have notNegate : op ≠ .negate := fun same => by rw [same] at first; cases first
      simp only [applyOperator, unary, if_true] at applied
      cases applied
      refine .tree late _ pending₀ output₀ marks₀ rest rfl ?_ before
      rw [unary_outline _ _ notNegate, if_neg notFactorial, settledMarks, List.replicate_zero, List.append_nil]

theorem complete_reduce (strength : Nat) (right : Bool) (pending pending' : List Pending) (output output' : List Tree)
    (around : List (Option Opening)) (marks : List Mark) (spared : waits .comma strength right = true)
    (complete : Complete pending output around marks)
    (reduced : reduceStacks strength right pending output = .ok (pending', output')) :
    ∃ settled, Complete pending' output' around (marks ++ settledMarks settled) ∧
      factorials pending = settled + factorials pending' := by
  fun_induction reduceStacks strength right pending output generalizing marks with
  | case1 => cases reduced; exact ⟨0, by simpa [settledMarks] using complete, (Nat.zero_add _).symm⟩
  | case2 op pending output ready output₁ applied ih =>
      have notComma : op ≠ .comma := fun same => ready (same ▸ spared)
      obtain ⟨settled, after, count⟩ :=
        ih _ (complete_apply op pending output output₁ around marks notComma complete applied) reduced
      refine ⟨(if op = .factorial then 1 else 0) + settled, ?_, ?_⟩
      · rw [settledMarks, ← List.replicate_append_replicate, ← List.append_assoc]
        exact after
      · rw [factorials_operator, count]
        omega
  | case3 => cases reduced
  | case4 => cases reduced; exact ⟨0, by simpa [settledMarks] using complete, (Nat.zero_add _).symm⟩

theorem tight_gives_way (tight op : Operator) (first : tight.precedence = 1) :
    waits tight (strengthOf op) op.isRightAssociative = false := by
  unfold waits
  rw [first]
  cases op <;> rfl

theorem complete_place (op : Operator) (pending pending' : List Pending) (output output' : List Tree)
    (around : List (Option Opening)) (marks : List Mark) (complete : Complete pending output around marks)
    (reduced : reduceStacks (strengthOf op) op.isRightAssociative pending output = .ok (pending', output')) :
    ∃ settled late top pending₀ output₀ marks₀, pending' = waitingFactorials late ++ pending₀ ∧
      output' = top :: output₀ ∧ marks ++ settledMarks settled = marks₀ ++ top.outline ∧
        Awaiting pending₀ output₀ around marks₀ ∧ factorials pending = settled + factorials pending' := by
  obtain ⟨settled, after, count⟩ :=
    complete_reduce _ _ _ _ _ _ around marks (placing_spares_comma op) complete reduced
  cases after with
  | tree late top pending₀ output₀ marks₀ shape stacked read before =>
      exact ⟨settled, late, top, pending₀, output₀, marks₀, shape, stacked, read, before, count⟩
  | tight tightOp late top pending₀ output₀ marks₀ first shape =>
      have waiting := reduce_stacks_stops _ _ _ _ _ _ reduced _ _ shape
      rw [tight_gives_way tightOp op first] at waiting
      cases waiting

-- A factorial on top is applied first unless what is placed binds tighter.
theorem fresh_settles (strength : Nat) (right : Bool) (pending pending' : List Pending) (output output' : List Tree)
    (settled : Nat) (reduced : reduceStacks strength right (.operator .factorial :: pending) output = .ok (pending', output'))
    (count : factorials (.operator .factorial :: pending) = settled + factorials pending') :
    if waits .factorial strength right then settled = 0 else settled ≠ 0 := by
  rw [reduceStacks] at reduced
  cases waiting : waits .factorial strength right with
  | true =>
      rw [waiting, if_pos rfl] at reduced
      cases reduced
      simp only [if_true]
      omega
  | false =>
      rw [waiting, if_neg Bool.false_ne_true] at reduced
      rw [if_neg Bool.false_ne_true]
      split at reduced
      · have suffix := reduce_stacks_suffix _ _ _ _ _ _ reduced
        have fewer : factorials pending' ≤ factorials pending := suffix.sublist.count_le _
        rw [factorials_operator, if_pos rfl] at count
        omega
      · cases reduced

theorem unary_precedence (op : Operator) (unary : op.isUnary = true) (notNegate : op ≠ .negate)
    (notFactorial : op ≠ .factorial) : op.precedence = 1 := by
  cases op <;> first | rfl | exact absurd rfl notNegate | exact absurd rfl notFactorial | cases unary

theorem clean_place (op : Operator) (late : Nat) (top : Tree) (pending : List Pending) (output : List Tree)
    (around : List (Option Opening)) (marks : List Mark) (nested : Nat) (notNegate : op ≠ .negate)
    (settled : op = .comma → late = 0) (before : Awaiting pending output around marks) :
    Clean ⟨top :: output, .operator op :: (waitingFactorials late ++ pending), nested, op.isUnary⟩ around
      (marks ++ top.outline ++ traced ((Item.operator op).mark true around)) := by
  have kept : resolved true op = op := if_neg (by simp)
  rw [List.append_assoc]
  simp only [Clean, Item.mark, kept]
  cases arity : op.isUnary with
  | true =>
      have notComma : op ≠ .comma := fun same => by rw [same] at arity; cases arity
      rw [if_pos rfl, if_neg notComma]
      by_cases factorial : op = .factorial
      · subst factorial
        exact .tree (late + 1) top pending output marks rfl rfl (by simp [traced, Mark.isTraced]) before
      · have first := unary_precedence op arity notNegate factorial
        have shown : traced (.operator op) = [.operator op] := by simp [traced, Mark.isTraced, factorial]
        rw [shown]
        exact .tight op late top pending output marks first rfl rfl rfl before
  | false =>
      rw [if_neg Bool.false_ne_true]
      by_cases comma : op = .comma
      · subst comma
        cases settled rfl
        exact .comma top pending output around marks before
      · have notFactorial : op ≠ .factorial := fun same => by rw [same] at arity; cases arity
        rw [if_neg comma]
        have shown : traced (.operator op) = [.operator op] := by simp [traced, Mark.isTraced, notFactorial]
        rw [shown]
        exact .binary op late top pending output around marks arity comma before

def Fresh (s : Stacks) : Prop := ∃ pending, s.pending = .operator .factorial :: pending

-- From `s` the stacks read some marks: `settled` factorials are applied first, which spares a fresh one
-- only if the first mark is tight, and the factorials among the marks are put off.
def Reads (s s' : Stacks) (around : List (Option Opening)) (marks read : List Mark) : Prop :=
  ∃ settled waiting, Clean s' around (marks ++ (settledMarks settled ++ read.filter Mark.isTraced)) ∧
    factorials s.pending = settled + waiting ∧
      factorials s'.pending = waiting + read.countP Mark.isFactorial ∧
        (Fresh s → ∀ first ∈ read.head?, if first.isTight then settled = 0 else settled ≠ 0)

theorem operator_mark_factorial (op : Operator) (around : List (Option Opening)) :
    [(Item.operator op).mark true around].countP Mark.isFactorial = if op = .factorial then 1 else 0 := by
  cases op with
  | comma =>
      rw [Item.mark, if_pos rfl]
      rcases separator_mark_cases around with same | same <;> rw [same] <;> rfl
  | _ => rfl

theorem operator_mark_tight (op : Operator) (around : List (Option Opening)) :
    ((Item.operator op).mark true around).isTight = decide (op.precedence < 3) := by
  cases op with
  | comma =>
      rw [Item.mark, if_pos rfl]
      rcases separator_mark_cases around with same | same <;> rw [same] <;> rfl
  | _ => rfl

theorem place_operator_reads (s s' : Stacks) (op : Operator) (around : List (Option Opening)) (marks : List Mark)
    (complete : Complete s.pending s.output around marks) (notNegate : op ≠ .negate)
    (placed : s.placeOperator op = .ok s') :
    Reads s s' around marks [(Item.operator op).mark true around] := by
  obtain ⟨pending', output', reduced, rfl⟩ := place_operator_ok s s' op placed
  obtain ⟨settled, late, top, pending₀, output₀, marks₀, rfl, rfl, read, before, count⟩ :=
    complete_place op _ _ _ _ around marks complete reduced
  refine ⟨settled, _, ?_, count, ?_, ?_⟩
  · rw [← List.append_assoc, read]
    refine clean_place op late top pending₀ output₀ around marks₀ s.nested notNegate ?_ before
    rintro rfl
    cases late with
    | zero => rfl
    | succ n => exact absurd (reduce_stacks_stops _ _ _ _ _ _ reduced .factorial _ rfl) (by decide)
  · rw [factorials_operator, operator_mark_factorial]
  · rintro ⟨pending, shape⟩ first ⟨⟩
    rw [shape] at reduced count
    have fresh := fresh_settles _ _ _ _ _ _ settled reduced count
    have same : waits .factorial (strengthOf op) op.isRightAssociative = decide (op.precedence < 3) := by
      cases op <;> rfl
    rw [same] at fresh
    rw [operator_mark_tight]
    exact fresh

theorem awaiting_not_fresh (s : Stacks) (around : List (Option Opening)) (marks : List Mark)
    (awaiting : Awaiting s.pending s.output around marks) : ¬ Fresh s := by
  rintro ⟨pending, shape⟩
  rw [shape] at awaiting
  generalize s.output = output at awaiting
  cases awaiting with
  | binary _ _ _ _ _ _ _ two => cases two

theorem multiply_reads (s s' : Stacks) (around : List (Option Opening)) (marks : List Mark)
    (clean : Clean s around marks) (multiplied : s.multiply = .ok s') :
    s'.needMultiply = false ∧ Reads s s' around marks (implied s.needMultiply) := by
  rcases multiply_ok s s' multiplied with ⟨waiting, rfl⟩ | ⟨ended, placed⟩
  · refine ⟨waiting, 0, factorials s'.pending, ?_, (Nat.zero_add _).symm, ?_, ?_⟩
    · simpa [settledMarks, implied, waiting] using clean
    · simp [implied, waiting]
    · simp [implied, waiting]
  · rw [Clean, ended, if_pos rfl] at clean
    have read := place_operator_reads s s' .multiply around marks clean (by decide) placed
    obtain ⟨_, _, _, rfl⟩ := place_operator_ok s s' .multiply placed
    rw [ended]
    exact ⟨rfl, read⟩

theorem multiply_then (s s₁ s' : Stacks) (around around' : List (Option Opening)) (marks : List Mark) (mark : Mark)
    (clean : Clean s around marks) (multiplied : s.multiply = .ok s₁) (other : mark.isFactorial = false)
    (same : factorials s'.pending = factorials s₁.pending)
    (next : ∀ before, Awaiting s₁.pending s₁.output around before → Clean s' around' (before ++ traced mark)) :
    Reads s s' around' marks (implied s.needMultiply ++ [mark]) := by
  obtain ⟨waits, settled, waiting, after, count, count₁, fresh⟩ := multiply_reads s s₁ around marks clean multiplied
  rw [Clean, waits, if_neg Bool.false_ne_true] at after
  refine ⟨settled, waiting, ?_, count, ?_, ?_⟩
  · simpa only [traced, List.filter_append, List.append_assoc] using next _ after
  · rw [same, count₁, List.countP_append, List.countP_singleton, other]
    rfl
  · intro isFresh first head
    cases ended : s.needMultiply with
    | false =>
        rw [Clean, ended, if_neg Bool.false_ne_true] at clean
        exact absurd isFresh (awaiting_not_fresh s around marks clean)
    | true =>
        rw [ended] at head fresh
        exact fresh isFresh first head

theorem push_tree (s s₁ : Stacks) (tree : Tree) (around : List (Option Opening)) (marks : List Mark)
    (clean : Clean s around marks) (multiplied : s.multiply = .ok s₁) (leaf : tree.outline = [.operand tree]) :
    Reads s { s₁ with output := tree :: s₁.output, needMultiply := true } around marks
      (implied s.needMultiply ++ [.operand tree]) := by
  refine multiply_then s s₁ _ around around marks _ clean multiplied rfl rfl ?_
  intro before awaiting
  exact .tree 0 tree s₁.pending s₁.output before rfl rfl (by rw [leaf]; rfl) awaiting

theorem take_operator_reads (s s' : Stacks) (written : Operator) (around : List (Option Opening)) (marks : List Mark)
    (clean : Clean s around marks) (placed : (Item.operator written).needsOperand = true → s.needMultiply = true)
    (taken : s.takeOperator written = .ok s') :
    Reads s s' around marks ((Item.operator written).outline s.needMultiply around) := by
  rcases take_operator_ok s s' written taken with ⟨negation, s₁, multiplied, rfl⟩ | ⟨other, taken⟩
  · have notComma : written ≠ .comma := by
      rcases resolved_negation _ _ negation with rfl | ⟨rfl, _⟩ <;> decide
    have lead : ((Item.operator written).startsOperand && s.needMultiply) = s.needMultiply := by
      rcases resolved_negation _ _ negation with rfl | ⟨rfl, waiting⟩
      · rfl
      · rw [waiting]
        rfl
    simp only [Item.outline, Item.mark, lead, if_neg notComma, negation]
    refine multiply_then s s₁ _ around around marks _ clean multiplied rfl ?_ ?_
    · exact factorials_operator .negate s₁.pending
    · intro before awaiting
      exact .negate s₁.pending s₁.output around before awaiting
  · obtain ⟨same, notNegate, minusEnded⟩ := resolved_other _ _ other
    rw [same] at taken
    have ended : s.needMultiply = true := by
      by_cases minus : written = .subtract
      · exact minusEnded minus
      · exact placed (by simp [Item.needsOperand, minus, notNegate])
    rw [Clean, ended, if_pos rfl] at clean
    have lead : (Item.operator written).startsOperand = false := by simpa [Item.startsOperand] using notNegate
    simp only [Item.outline, lead, ended, Bool.false_and]
    exact place_operator_reads s s' written around marks clean notNegate taken

theorem take_opener_reads (s s' : Stacks) (target : Option Target) (group : Group) (around : List (Option Opening))
    (marks : List Mark) (clean : Clean s around marks) (sound : (Item.opener target group).Sound)
    (taken : s.takeOpener target group = .ok s') :
    Reads s s' (Opening.ofItem? target group :: around) marks
      ((Item.opener target group).outline s.needMultiply around) := by
  obtain ⟨s₁, multiplied, rfl⟩ := take_opener_ok s s' target group taken
  have other (opening : Option Opening) : (enterMark opening).isFactorial = false := by cases opening <;> rfl
  simp only [Item.outline, Item.startsOperand, Bool.true_and, Item.mark]
  refine multiply_then s s₁ _ around _ marks _ clean multiplied (other _) ?_ ?_
  · cases target <;> simp [openingEntries, factorials]
  · intro before awaiting
    cases target with
    | none => exact .bracket group s₁.pending s₁.output around before awaiting
    | some t =>
        cases (sound t rfl).2
        exact .call t s₁.pending s₁.output around before awaiting

theorem awaiting_arguments (commas : Nat) (group : Group) (height : Nat) (below : List Pending) (top : Tree)
    (output : List Tree) (around : List (Option Opening)) (marks : List Mark)
    (awaiting : Awaiting (List.replicate commas (.operator .comma) ++ .group group height :: below) output around marks) :
    ∃ first more output₀ marks₀, more.length = commas ∧ top :: output = (first :: more).reverse ++ output₀ ∧
      Awaiting (.group group height :: below) output₀ around marks₀ ∧
        (separatorMark around = .separator →
          marks ++ top.outline = marks₀ ++ (first.outline ++ Tree.outlineMore more)) := by
  induction commas generalizing top output marks with
  | zero => exact ⟨top, [], output, marks, rfl, rfl, awaiting, fun _ => by simp [Tree.outlineMore]⟩
  | succ n ih =>
      rw [List.replicate_succ, List.cons_append] at awaiting
      generalize shape : List.replicate n (.operator .comma) ++ .group group height :: below = pending at awaiting
      cases awaiting with
      | binary _ _ _ _ _ _ _ _ notComma => exact absurd rfl notComma
      | comma lhs _ output₁ _ marks₁ before =>
          obtain ⟨first, more, output₀, marks₀, count, stacked, opened, read⟩ := ih lhs output₁ marks₁ (shape ▸ before)
          refine ⟨first, more ++ [top], output₀, marks₀, by simp [count], by simp [stacked], opened, ?_⟩
          intro separated
          rw [Tree.outline_more_append, ← List.append_assoc first.outline, ← List.append_assoc marks₀, ← read separated]
          simp only [Tree.outlineMore, separated, List.append_nil, List.append_assoc]
          rfl

theorem complete_node (opening : Opening) (first : Tree) (more : List Tree) (pending : List Pending)
    (output : List Tree) (around : List (Option Opening)) (marks : List Mark)
    (before : Awaiting pending output around marks) :
    Complete pending (opening.node (first :: more) :: output) around
      (marks ++ traced (enterMark (some opening)) ++ (first.outline ++ Tree.outlineMore more) ++
        traced (leaveMark (some opening))) := by
  refine .tree 0 _ pending output marks rfl rfl ?_ before
  rw [Tree.outline_node]
  simp only [List.append_assoc]
  rfl

theorem group_closes_complete (group : Group) (pending pending' : List Pending) (output output' : List Tree)
    (around : List (Option Opening)) (marks : List Mark) (complete : Complete pending output around marks)
    (closed : GroupCloses group pending output pending' output') :
    ∃ opening outside, around = opening :: outside ∧
      Complete pending' output' outside (marks ++ traced (leaveMark opening)) ∧
        factorials pending' = factorials pending := by
  obtain ⟨commas, height, below, _, opening, _, count, closes⟩ := closed
  have awaiting : ∃ top output₀ marks₀, output = top :: output₀ ∧ marks = marks₀ ++ top.outline ∧
      Awaiting (List.replicate commas (.operator .comma) ++ .group group height :: below) output₀ around marks₀ := by
    cases complete with
    | tree late top pending₀ output₀ marks₀ shape stacked read before =>
        cases late with
        | zero => exact ⟨top, output₀, marks₀, stacked, read, shape ▸ before⟩
        | succ n => cases commas <;> cases shape
    | tight op late top pending₀ output₀ marks₀ first shape =>
        cases commas with
        | zero => cases shape
        | succ n =>
            obtain ⟨same, _⟩ := List.cons.inj shape
            cases same
            cases first
  obtain ⟨top, output₀, marks₀, rfl, rfl, awaiting⟩ := awaiting
  have spared : factorials (List.replicate commas (.operator .comma) ++ .group group height :: below) =
      factorials below := by
    simp [factorials, List.count_append, List.count_replicate]
  rw [spared]
  obtain ⟨first, more, output₁, marks₁, arguments, stacked, opened, read⟩ :=
    awaiting_arguments commas group height below top output₀ around marks₀ awaiting
  cases closes with
  | brace =>
      cases opened with
      | bracket _ _ _ outside marks₂ before =>
          refine ⟨_, outside, rfl, ?_, rfl⟩
          rw [read rfl, stacked, ← arguments, closedOutput, ← List.length_cons, gather_reverse]
          exact complete_node .braces first more _ output₁ outside marks₂ before
  | bracket =>
      cases opened with
      | bracket _ _ _ outside marks₂ before =>
          refine ⟨_, outside, rfl, ?_, rfl⟩
          rw [read rfl, stacked, ← arguments, closedOutput, ← List.length_cons, gather_reverse]
          exact complete_node .brackets first more _ output₁ outside marks₂ before
  | call target =>
      cases opened with
      | bracket _ _ _ outside marks₂ before => cases before
      | call _ _ _ outside marks₂ before =>
          refine ⟨_, outside, rfl, ?_, by simp [factorials]⟩
          rw [read rfl, stacked, ← arguments, closedOutput, ← List.length_cons, gather_reverse]
          exact complete_node (.call target) first more _ output₁ outside marks₂ before
  | plain _ alone =>
      cases awaiting with
      | bracket _ _ _ outside marks₂ before =>
          refine ⟨_, outside, rfl, ?_, rfl⟩
          exact .tree 0 top _ output₀ marks₂ rfl rfl (by simp [traced, enterMark, leaveMark, Opening.ofItem?, Mark.isTraced]) before
      | call target => exact absurd rfl (alone target)

theorem take_closer_reads (s s' : Stacks) (group : Group) (around : List (Option Opening)) (marks : List Mark)
    (complete : Complete s.pending s.output around marks) (taken : s.takeCloser group = .ok s') :
    Reads s s' around.tail marks [leaveMark around.head?.join] := by
  obtain ⟨pending, output, pending', output', reduced, closes, rfl⟩ := take_closer_ok s s' group taken
  obtain ⟨settled, flushed, count⟩ := complete_reduce _ _ _ _ _ _ around marks rfl complete reduced
  obtain ⟨opening, outside, rfl, after, same⟩ := group_closes_complete group _ _ _ _ around _ flushed closes
  refine ⟨settled, factorials pending, ?_, count, ?_, ?_⟩
  · rw [← List.append_assoc]
    exact after
  · rw [same]
    cases opening <;> rfl
  · rintro ⟨pending₀, shape⟩ first ⟨⟩
    rw [shape] at reduced count
    have fresh := fresh_settles _ _ _ _ _ _ settled reduced count
    cases opening <;> exact fresh

theorem accept_reads (s s' : Stacks) (item : Item) (around : List (Option Opening)) (marks : List Mark)
    (clean : Clean s around marks) (single : item.Single) (sound : item.Sound)
    (placed : item.needsOperand = true → s.needMultiply = true) (accepted : s.accept item = .ok s') :
    Reads s s' (item.around around) marks (item.outline s.needMultiply around) := by
  cases item with
  | operand tree =>
      obtain ⟨s₁, multiplied, rfl⟩ := take_operand_ok s s' tree accepted
      simp only [Item.outline, Item.startsOperand, Bool.true_and, Item.mark]
      exact push_tree s s₁ tree around marks clean multiplied (tree.leaf_outline sound.1 sound.2)
  | text bytes closed =>
      cases single
      obtain ⟨s₁, multiplied, rfl⟩ := take_text_ok s s' bytes true accepted
      simp only [Item.outline, Item.startsOperand, Bool.true_and, Item.mark]
      exact push_tree s s₁ (.text bytes) around marks clean multiplied rfl
  | operator op => exact take_operator_reads s s' op around marks clean placed accepted
  | opener target group => exact take_opener_reads s s' target group around marks clean sound accepted
  | closer group rowFollows =>
      cases single
      obtain ⟨s₁, closed, unchanged⟩ := bind_ok accepted
      cases Except.ok.inj unchanged
      rw [Clean, placed rfl, if_pos rfl] at clean
      exact take_closer_reads s s' group around marks clean closed

theorem empty_complete (tree : Tree) (around : List (Option Opening)) (marks : List Mark)
    (complete : Complete [] [tree] around marks) : around = [] ∧ marks = tree.outline := by
  cases complete with
  | tree late top pending₀ output₀ marks₀ shape stacked read before =>
      cases late with
      | zero =>
          cases pending₀ with
          | nil =>
              cases stacked
              cases before
              exact ⟨rfl, read⟩
          | cons p rest => cases shape
      | succ n => cases shape
  | tight _ _ _ _ _ _ _ shape => cases shape

theorem finishes_outline (pending : List Pending) (output : List Tree) (tree : Tree) (around : List (Option Opening))
    (marks : List Mark) (fresh : Bool) (complete : Complete pending output around marks)
    (top : fresh = true → ∃ rest, pending = .operator .factorial :: rest) (finished : Finishes pending output tree) :
    ∃ more, tree.outline = marks ++ more ∧ Late fresh (factorials pending) (around.map leaveMark) more := by
  induction finished generalizing around marks fresh with
  | done pending output tree reduced =>
      obtain ⟨settled, flushed, count⟩ := complete_reduce _ _ _ _ _ _ around marks rfl complete reduced
      obtain ⟨rfl, read⟩ := empty_complete tree around _ flushed
      refine ⟨settledMarks settled ++ [], by simpa using read.symm, ?_⟩
      rw [count]
      refine late_settle fresh settled 0 [] [] ?_ (.done false)
      intro isFresh
      obtain ⟨rest, rfl⟩ := top isFresh
      exact ⟨fresh_settles _ _ _ _ _ _ settled reduced count, nofun⟩
  | close pending pending₁ pending₂ output output₁ output₂ tree reduced closes rest ih =>
      obtain ⟨settled, flushed, count⟩ := complete_reduce _ _ _ _ _ _ around marks rfl complete reduced
      obtain ⟨opening, outside, rfl, after, same⟩ := group_closes_complete .paren _ _ _ _ around _ flushed closes
      obtain ⟨more, read, late⟩ := ih outside _ false after nofun
      refine ⟨settledMarks settled ++ (traced (leaveMark opening) ++ more), by simpa using read, ?_⟩
      rw [count, ← same]
      have others : ∀ mark ∈ [leaveMark opening], mark.isFactorial = false := by cases opening <;> simp [leaveMark, Mark.isFactorial]
      refine late_settle fresh settled _ _ _ ?_ (late_copy [leaveMark opening] _ _ _ others late)
      intro isFresh
      obtain ⟨rest, rfl⟩ := top isFresh
      exact ⟨fresh_settles _ _ _ _ _ _ settled reduced count, by cases opening <;> simp [leaveMark, Mark.isTight]⟩

theorem accept_fresh (s s' : Stacks) (item : Item) (factorial : item = .operator .factorial)
    (accepted : s.accept item = .ok s') : Fresh s' := by
  subst factorial
  obtain ⟨pending, output, _, rfl⟩ := place_operator_ok s s' .factorial accepted
  exact ⟨pending, rfl⟩

theorem run_outline (s s' : Stacks) (all : List Item) (tree : Tree) (around : List (Option Opening)) (marks : List Mark)
    (fresh : Bool) (clean : Clean s around marks) (top : fresh = true → Fresh s) (short : Short 0 s)
    (single : ∀ item ∈ all, item.Single) (sound : ∀ item ∈ all, item.Sound) (ran : s.run all = .ok s')
    (finished : Finishes s'.pending s'.output tree) :
    ∃ more, tree.outline = marks ++ more ∧
      Late fresh (factorials s.pending) (sourceOutline s.needMultiply around all) more := by
  have placed := (run_placed s s' all tree 0 short single ran finished).2
  induction all generalizing s around marks fresh with
  | nil =>
      cases Except.ok.inj ran
      have ended : s'.needMultiply = true := placed
      rw [Clean, ended, if_pos rfl] at clean
      exact finishes_outline _ _ tree around marks fresh clean top finished
  | cons item rest ih =>
      obtain ⟨s₁, accepted, restRan⟩ := bind_ok ran
      have itemSingle := single item (by simp)
      obtain ⟨after, ended⟩ := accept_short s s₁ item 0 short itemSingle accepted
      have balanced : (item.needsOperand && !s.needMultiply).toNat = 0 := by
        cases needs : item.needsOperand with
        | false => rfl
        | true => simp [placed.1 needs]
      rw [balanced] at after
      obtain ⟨settled, waiting, clean₁, count, count₁, due⟩ :=
        accept_reads s s₁ item around marks clean itemSingle (sound item (by simp)) placed.1 accepted
      have top₁ : (item.mark s.needMultiply around).isFactorial = true → Fresh s₁ :=
        fun factorial => accept_fresh s s₁ item (item.factorial_item _ _ factorial) accepted
      obtain ⟨more, read, late⟩ := ih s₁ (item.around around) _ _ clean₁ top₁ after
        (fun later member => single later (by simp [member])) (fun later member => sound later (by simp [member]))
        restRan (ended ▸ placed.2)
      rw [ended, count₁] at late
      refine ⟨settledMarks settled ++ ((item.outline s.needMultiply around).filter Mark.isTraced ++ more), ?_, ?_⟩
      · simpa only [List.append_assoc] using read
      · rw [count]
        refine late_item fresh _ settled waiting _ _ more ?_ (fun isFresh => due (top isFresh)) ?_
        · intro factorial
          rw [item.factorial_item _ _ factorial]
          rfl
        · rwa [item.outline_factorials] at late

end Stacks

namespace Expression

theorem parse_outline (c : Cursor) (tree : Tree) (parsed : (parse lineOnly c).1 = .ok tree) :
    ∃ all s, source c.rest = .ok all ∧ Stacks.empty.run all = .ok s ∧ Stacks.Finishes s.pending s.output tree ∧
      Placed false all ∧ Late false 0 (sourceOutline false [] all) tree.outline := by
  obtain ⟨all, s, cut, ran, finished⟩ := parse_source c tree parsed
  have single := source_single c.rest all cut
  have placed := (Stacks.run_placed .empty s all tree 0 rfl single ran finished).2
  obtain ⟨more, read, late⟩ := Stacks.run_outline .empty s all tree [] [] false .start nofun rfl single
    (source_sound c.rest all cut) ran finished
  rw [List.nil_append] at read
  rw [← read] at late
  exact ⟨all, s, cut, ran, finished, placed, late⟩

end Expression

end GraphCalc

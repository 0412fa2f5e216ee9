import GraphCalc.Expression.Stacks
import GraphCalc.Proofs.Results

set_option autoImplicit false

namespace GraphCalc

-- What a group of arguments becomes when it is closed. A parenthesis on its own becomes nothing.
inductive Opening where
  | call (target : Target)
  | braces
  | brackets
deriving DecidableEq, Repr

namespace Opening

def node : Opening → List Tree → Tree
  | .call target => .call target
  | .braces => .braces
  | .brackets => .brackets

def ofItem? : Option Target → Group → Option Opening
  | some target, _ => some (.call target)
  | none, .paren => none
  | none, .bracket => some .brackets
  | none, .brace => some .braces

end Opening

namespace Stacks

def openingEntries (target : Option Target) (group : Group) (height : Nat) : List Pending :=
  match target with
  | some t => [.group group height, .call t]
  | none => [.group group height]

def strengthOf (op : Operator) : Nat :=
  if op = .store then Operator.flush else op.precedence

theorem push_output_ok (s s' : Stacks) (tree : Tree) (pushed : s.pushOutput tree = .ok s') :
    s' = { s with output := tree :: s.output } := by
  unfold pushOutput at pushed
  split at pushed
  · exact (Except.ok.inj pushed).symm
  · cases pushed

theorem push_pending_ok (s s' : Stacks) (p : Pending) (pushed : s.pushPending p = .ok s') :
    s' = { s with pending := p :: s.pending } := by
  unfold pushPending at pushed
  split at pushed
  · exact (Except.ok.inj pushed).symm
  · cases pushed

theorem apply_operator_ok (op : Operator) (output output' : List Tree)
    (applied : applyOperator op output = .ok output') :
    (op.isUnary = true ∧ ∃ x rest, output = x :: rest ∧ output' = .operator op [x] :: rest) ∨
      (op.isUnary = false ∧ ∃ lhs rhs rest, output = rhs :: lhs :: rest ∧
        output' = .operator op [lhs, rhs] :: rest) := by
  unfold applyOperator at applied
  cases arity : op.isUnary with
  | true =>
      rw [arity, if_pos rfl] at applied
      split at applied
      · exact Or.inl ⟨rfl, _, _, rfl, (Except.ok.inj applied).symm⟩
      · cases applied
  | false =>
      rw [arity, if_neg Bool.false_ne_true] at applied
      split at applied
      · exact Or.inr ⟨rfl, _, _, _, rfl, (Except.ok.inj applied).symm⟩
      · cases applied

theorem reduce_ok (s s' : Stacks) (strength : Nat) (right : Bool) (reduced : s.reduce strength right = .ok s') :
    ∃ pending output, reduceStacks strength right s.pending s.output = .ok (pending, output) ∧
      s' = { s with pending := pending, output := output } := by
  unfold reduce at reduced
  cases result : reduceStacks strength right s.pending s.output with
  | error e => rw [result] at reduced; cases reduced
  | ok pair =>
      rw [result] at reduced
      exact ⟨pair.1, pair.2, rfl, (Except.ok.inj reduced).symm⟩

theorem reduce_stacks_suffix (strength : Nat) (right : Bool) (pending pending' : List Pending)
    (output output' : List Tree) (reduced : reduceStacks strength right pending output = .ok (pending', output')) :
    pending' <:+ pending := by
  fun_induction reduceStacks strength right pending output with
  | case1 op pending output waiting =>
      cases reduced
      exact List.suffix_rfl
  | case2 op pending output waiting output₁ applied ih => exact (ih reduced).trans (List.suffix_cons _ _)
  | case3 => cases reduced
  | case4 pending output other =>
      cases reduced
      exact List.suffix_rfl

theorem reduce_stacks_stops (strength : Nat) (right : Bool) (pending pending' : List Pending)
    (output output' : List Tree) (reduced : reduceStacks strength right pending output = .ok (pending', output'))
    (op : Operator) (rest : List Pending) (top : pending' = .operator op :: rest) : waits op strength right = true := by
  fun_induction reduceStacks strength right pending output with
  | case1 op' pending output waiting =>
      cases reduced
      cases top
      exact waiting
  | case2 op' pending output _ output₁ _ ih => exact ih reduced
  | case3 => cases reduced
  | case4 pending output other =>
      cases reduced
      exact absurd top (other op rest)

theorem place_operator_eq (s : Stacks) (op : Operator) :
    s.placeOperator op =
      if op = .store ∧ s.storePending = true then .error .multipleStores
      else
        match reduceStacks (strengthOf op) op.isRightAssociative s.pending s.output with
        | .error e => .error e
        | .ok (pending, output) =>
            if pending.length < pendingLimit then .ok ⟨output, .operator op :: pending, s.nested, op.isUnary⟩
            else .error .expressionTooComplex := by
  unfold placeOperator
  by_cases second : op = .store ∧ s.storePending = true
  · rw [if_pos second, if_pos second]
    rfl
  · rw [if_neg second, if_neg second]
    simp only [reduce, strengthOf]
    cases reduceStacks (if op = .store then Operator.flush else op.precedence) op.isRightAssociative s.pending s.output with
    | error e => rfl
    | ok pair =>
        simp only [Except.map, bind, Except.bind, pushPending]
        by_cases room : pair.1.length < pendingLimit
        · rw [if_pos room, if_pos room]
          rfl
        · rw [if_neg room, if_neg room]

theorem place_operator_ok (s s' : Stacks) (op : Operator) (placed : s.placeOperator op = .ok s') :
    ∃ pending output,
      reduceStacks (strengthOf op) op.isRightAssociative s.pending s.output = .ok (pending, output) ∧
        s' = ⟨output, .operator op :: pending, s.nested, op.isUnary⟩ := by
  rw [place_operator_eq] at placed
  split at placed
  · cases placed
  · split at placed
    · cases placed
    · rename_i pending output reduced
      split at placed
      · exact ⟨pending, output, reduced, (Except.ok.inj placed).symm⟩
      · cases placed

theorem multiply_ok (s s' : Stacks) (multiplied : s.multiply = .ok s') :
    (s.needMultiply = false ∧ s' = s) ∨ (s.needMultiply = true ∧ s.placeOperator .multiply = .ok s') := by
  unfold multiply at multiplied
  cases need : s.needMultiply with
  | false =>
      rw [need] at multiplied
      exact Or.inl ⟨rfl, (Except.ok.inj multiplied).symm⟩
  | true =>
      rw [need] at multiplied
      exact Or.inr ⟨rfl, multiplied⟩

-- The operator a written one stands for: a minus sign with no operand before it is a negation.
def resolved (ended : Bool) (written : Operator) : Operator :=
  if written = .subtract ∧ ended = false then .negate else written

theorem take_operator_ok (s s' : Stacks) (written : Operator) (taken : s.takeOperator written = .ok s') :
    (resolved s.needMultiply written = .negate ∧ ∃ s₁, s.multiply = .ok s₁ ∧
        s' = { s₁ with pending := .operator .negate :: s₁.pending, needMultiply := false }) ∨
      (resolved s.needMultiply written ≠ .negate ∧
        s.placeOperator (resolved s.needMultiply written) = .ok s') := by
  unfold takeOperator at taken
  have folded : (if written = .subtract ∧ s.needMultiply = false then Operator.negate else written) =
      resolved s.needMultiply written := rfl
  rw [folded] at taken
  generalize resolved s.needMultiply written = op at taken ⊢
  by_cases negation : op = .negate
  · subst negation
    rw [if_pos (by decide)] at taken
    obtain ⟨s₁, multiplied, taken⟩ := bind_ok taken
    obtain ⟨s₂, pushed, taken⟩ := bind_ok taken
    cases push_pending_ok _ _ _ pushed
    exact Or.inl ⟨rfl, s₁, multiplied, (Except.ok.inj taken).symm⟩
  · rw [if_neg (by simpa [Operator.isPrefix] using negation)] at taken
    exact Or.inr ⟨negation, taken⟩

theorem take_operand_ok (s s' : Stacks) (tree : Tree) (taken : s.takeOperand tree = .ok s') :
    ∃ s₁, s.multiply = .ok s₁ ∧ s' = { s₁ with output := tree :: s₁.output, needMultiply := true } := by
  obtain ⟨s₁, multiplied, taken⟩ := bind_ok taken
  obtain ⟨s₂, pushed, taken⟩ := bind_ok taken
  cases push_output_ok _ _ _ pushed
  exact ⟨s₁, multiplied, (Except.ok.inj taken).symm⟩

theorem take_text_ok (s s' : Stacks) (bytes : Bytes) (closed : Bool) (taken : s.takeText bytes closed = .ok s') :
    ∃ s₁, s.multiply = .ok s₁ ∧
      s' = { s₁ with output := .text bytes :: s₁.output, needMultiply := closed } := by
  obtain ⟨s₁, multiplied, taken⟩ := bind_ok taken
  obtain ⟨s₂, pushed, taken⟩ := bind_ok taken
  cases push_output_ok _ _ _ pushed
  exact ⟨s₁, multiplied, (Except.ok.inj taken).symm⟩

theorem take_opener_ok (s s' : Stacks) (target : Option Target) (group : Group)
    (taken : s.takeOpener target group = .ok s') :
    ∃ s₁, s.multiply = .ok s₁ ∧
      s' = ⟨s₁.output, openingEntries target group s₁.output.length ++ s₁.pending, s₁.nested + 1, false⟩ := by
  obtain ⟨s₁, multiplied, taken⟩ := bind_ok taken
  refine ⟨s₁, multiplied, ?_⟩
  cases target with
  | none =>
      obtain ⟨s₂, unchanged, taken⟩ := bind_ok taken
      cases Except.ok.inj unchanged
      obtain ⟨s₃, pushed, taken⟩ := bind_ok taken
      cases push_pending_ok _ _ _ pushed
      exact (Except.ok.inj taken).symm
  | some t =>
      obtain ⟨s₂, called, taken⟩ := bind_ok taken
      cases push_pending_ok _ _ _ called
      obtain ⟨s₃, pushed, taken⟩ := bind_ok taken
      cases push_pending_ok _ _ _ pushed
      exact (Except.ok.inj taken).symm

theorem collect_ok (group : Group) (pending below : List Pending) (before args height : Nat)
    (collected : collect group pending before = .ok (args, height, below)) :
    ∃ commas, args = before + commas ∧
      pending = List.replicate commas (.operator .comma) ++ .group group height :: below := by
  fun_induction collect group pending before with
  | case1 pending before ih =>
      obtain ⟨commas, count, shape⟩ := ih collected
      refine ⟨commas + 1, by omega, ?_⟩
      rw [shape, List.replicate_succ, List.cons_append]
  | case2 height' pending before =>
      cases collected
      exact ⟨0, rfl, rfl⟩
  | case3 => cases collected
  | case4 => cases collected

-- How the entries below a bracket decide what `args` arguments become, and which entries remain.
inductive Closes : Group → List Pending → Nat → Option Opening → List Pending → Prop where
  | brace (below : List Pending) (args : Nat) : Closes .brace below args (some .braces) below
  | bracket (below : List Pending) (args : Nat) : Closes .bracket below args (some .brackets) below
  | call (target : Target) (below : List Pending) (args : Nat) (allowed : target.arity.allows args = true) :
      Closes .paren (.call target :: below) args (some (.call target)) below
  | plain (below : List Pending) (alone : ∀ target, below.head? ≠ some (.call target)) :
      Closes .paren below 1 none below

def closedOutput (opening : Option Opening) (args : Nat) (output : List Tree) : List Tree :=
  match opening with
  | some o => gather o.node args output
  | none => output

theorem gather_reverse (node : List Tree → Tree) (args output : List Tree) :
    gather node args.length (args.reverse ++ output) = node args :: output := by
  have size : args.reverse.length = args.length := List.length_reverse
  rw [gather, List.take_left' size, List.drop_left' size, List.reverse_reverse]

-- The stacks before and after the innermost bracket is closed over the commas above it.
inductive GroupCloses (group : Group) : List Pending → List Tree → List Pending → List Tree → Prop where
  | close (commas height : Nat) (below remaining : List Pending) (opening : Option Opening) (output : List Tree)
      (count : output.length = height + (commas + 1)) (closes : Closes group below (commas + 1) opening remaining) :
      GroupCloses group (List.replicate commas (.operator .comma) ++ .group group height :: below) output
        remaining (closedOutput opening (commas + 1) output)

theorem close_group_ok (s s' : Stacks) (group : Group) (closed : s.closeGroup group = .ok s') :
    ∃ pending output, GroupCloses group s.pending s.output pending output ∧
      s' = { s with pending := pending, output := output } := by
  obtain ⟨⟨args, height, below⟩, collected, closed⟩ := bind_ok closed
  obtain ⟨commas, total, shape⟩ := collect_ok group s.pending below 1 args height collected
  rw [Nat.add_comm] at total
  subst total
  dsimp only at closed
  rw [shape]
  by_cases count : s.output.length = height + (commas + 1)
  · rw [if_neg (by simpa using count)] at closed
    split at closed
    · exact ⟨_, _, .close _ _ _ _ _ _ count (.brace _ _), (Except.ok.inj closed).symm⟩
    · exact ⟨_, _, .close _ _ _ _ _ _ count (.bracket _ _), (Except.ok.inj closed).symm⟩
    · split at closed
      · rename_i allowed
        exact ⟨_, _, .close _ _ _ _ _ _ count (.call _ _ _ allowed), (Except.ok.inj closed).symm⟩
      · cases closed
    · rename_i alone
      split at closed
      · rename_i one
        have none : commas = 0 := by omega
        subst none
        refine ⟨_, _, .close 0 _ _ _ none _ count (.plain _ ?_), (Except.ok.inj closed).symm⟩
        intro target head
        cases below with
        | nil => cases head
        | cons p rest => cases head; exact alone target rest rfl
      · cases closed
  · rw [if_pos count] at closed
    cases closed

theorem take_closer_ok (s s' : Stacks) (group : Group) (taken : s.takeCloser group = .ok s') :
    ∃ pending output pending' output', reduceStacks Operator.flush false s.pending s.output = .ok (pending, output) ∧
      GroupCloses group pending output pending' output' ∧ s' = ⟨output', pending', s.nested - 1, true⟩ := by
  obtain ⟨s₀, flushed, taken⟩ := bind_ok taken
  obtain ⟨pending, output, reduced, rfl⟩ := reduce_ok _ _ _ _ flushed
  dsimp only at taken
  split at taken
  · cases taken
  · obtain ⟨s₁, closed, taken⟩ := bind_ok taken
    obtain ⟨pending', output', closes, rfl⟩ := close_group_ok _ _ _ closed
    exact ⟨pending, output, pending', output', reduced, closes, (Except.ok.inj taken).symm⟩

theorem multiply_ready (s : Stacks) (waiting : s.needMultiply = false) : s.multiply = .ok s := by
  rw [multiply, waiting]
  rfl

theorem push_output_room (s : Stacks) (tree : Tree) (room : s.output.length < outputLimit) :
    s.pushOutput tree = .ok { s with output := tree :: s.output } := if_pos room

theorem accept_operand_ready (s : Stacks) (tree : Tree) (waiting : s.needMultiply = false)
    (room : s.output.length < outputLimit) :
    s.accept (.operand tree) = .ok ⟨tree :: s.output, s.pending, s.nested, true⟩ := by
  simp only [accept, takeOperand, multiply_ready s waiting, push_output_room s tree room, bind, Except.bind]
  rfl

theorem accept_text_ready (s : Stacks) (bytes : Bytes) (waiting : s.needMultiply = false)
    (room : s.output.length < outputLimit) :
    s.accept (.text bytes true) = .ok ⟨.text bytes :: s.output, s.pending, s.nested, true⟩ := by
  simp only [accept, takeText, multiply_ready s waiting, push_output_room s _ room, bind, Except.bind]
  rfl

theorem push_pending_room (s : Stacks) (p : Pending) (room : s.pending.length + 1 ≤ pendingLimit) :
    s.pushPending p = .ok { s with pending := p :: s.pending } := if_pos room

theorem push_pending_full (s : Stacks) (p : Pending) (full : ¬ s.pending.length + 1 ≤ pendingLimit) :
    s.pushPending p = .error .expressionTooComplex := if_neg full

theorem accept_negate_ready (s : Stacks) (waiting : s.needMultiply = false) :
    s.accept (.operator .negate) =
      if s.pending.length + 1 ≤ pendingLimit then .ok ⟨s.output, .operator .negate :: s.pending, s.nested, false⟩
      else .error .expressionTooComplex := by
  have before : Operator.isPrefix .negate = true := rfl
  have unchanged : ¬ (Operator.negate = .subtract ∧ s.needMultiply = false) := by simp
  simp only [accept, takeOperator, if_neg unchanged, before, if_true, multiply_ready s waiting, bind, Except.bind]
  by_cases room : s.pending.length + 1 ≤ pendingLimit
  · rw [push_pending_room s _ room, if_pos room]
    rfl
  · rw [push_pending_full s _ room, if_neg room]

theorem accept_opener_ready (s : Stacks) (target : Option Target) (group : Group) (waiting : s.needMultiply = false) :
    s.accept (.opener target group) =
      if s.pending.length + (openingEntries target group s.output.length).length ≤ pendingLimit then
        .ok ⟨s.output, openingEntries target group s.output.length ++ s.pending, s.nested + 1, false⟩
      else .error .expressionTooComplex := by
  simp only [accept, takeOpener, multiply_ready s waiting, bind, Except.bind]
  by_cases room : s.pending.length + (openingEntries target group s.output.length).length ≤ pendingLimit
  · rw [if_pos room]
    cases target with
    | none =>
        simp only [pure, Except.pure, push_pending_room s _ room]
        rfl
    | some t =>
        have first : s.pending.length + 1 ≤ pendingLimit := Nat.le_of_succ_le room
        dsimp only
        rw [push_pending_room s _ first]
        dsimp only
        rw [push_pending_room _ _ room]
        rfl
  · rw [if_neg room]
    cases target with
    | none => simp only [pure, Except.pure, push_pending_full s _ room]
    | some t =>
        dsimp only
        by_cases first : s.pending.length + 1 ≤ pendingLimit
        · rw [push_pending_room s _ first]
          dsimp only
          rw [push_pending_full _ _ room]
        · rw [push_pending_full s _ first]

theorem accept_operator_complete (s : Stacks) (op : Operator) (ended : s.needMultiply = true) (notNegate : op ≠ .negate) :
    s.accept (.operator op) = s.placeOperator op := by
  have other : op.isPrefix = false := by simpa [Operator.isPrefix] using notNegate
  simp [accept, takeOperator, ended, other]

theorem collect_commas (group : Group) (commas before height : Nat) (below : List Pending) :
    collect group (List.replicate commas (.operator .comma) ++ .group group height :: below) before =
      .ok (before + commas, height, below) := by
  induction commas generalizing before with
  | zero => simp [collect]
  | succ n ih =>
      rw [List.replicate_succ, List.cons_append, collect, ih]
      congr 2
      omega

theorem close_group_closes (s : Stacks) (group : Group) (pending' : List Pending) (output' : List Tree)
    (closes : GroupCloses group s.pending s.output pending' output') :
    s.closeGroup group = .ok { s with pending := pending', output := output' } := by
  obtain ⟨output, pending, nested, need⟩ := s
  obtain ⟨commas, height, below, _, opening, _, count, closes⟩ := closes
  have total : 1 + commas = commas + 1 := Nat.add_comm 1 commas
  change (collect group (List.replicate commas (.operator .comma) ++ .group group height :: below) 1 >>= _) = _
  rw [collect_commas, total]
  change (if output.length ≠ height + (commas + 1) then _ else _) = _
  rw [if_neg (not_not_intro count)]
  cases closes with
  | brace => rfl
  | bracket => rfl
  | call target below args allowed =>
      dsimp only
      rw [if_pos allowed]
      rfl
  | plain _ alone =>
      cases pending' with
      | nil => rfl
      | cons entry rest =>
          cases entry with
          | call target => exact absurd rfl (alone target)
          | operator _ | group _ _ => rfl

theorem accept_closer_closes (s : Stacks) (group : Group) (pending pending' : List Pending) (output output' : List Tree)
    (nested : Nat) (inside : s.nested = nested + 1)
    (reduced : reduceStacks Operator.flush false s.pending s.output = .ok (pending, output))
    (closes : GroupCloses group pending output pending' output') :
    s.accept (.closer group false) = .ok ⟨output', pending', nested, true⟩ := by
  have closed := close_group_closes ⟨output, pending, nested, s.needMultiply⟩ group pending' output' closes
  simp only [accept, takeCloser, flush, reduce, reduced, Except.map, bind, Except.bind, inside]
  rw [if_neg (Nat.succ_ne_zero nested), Nat.add_sub_cancel, closed]
  rfl

-- The end of an expression: what is pending is applied and open parentheses are closed, until one
-- tree is left.
inductive Finishes : List Pending → List Tree → Tree → Prop where
  | done (pending : List Pending) (output : List Tree) (tree : Tree)
      (reduced : reduceStacks Operator.flush false pending output = .ok ([], [tree])) : Finishes pending output tree
  | close (pending pending₁ pending₂ : List Pending) (output output₁ output₂ : List Tree) (tree : Tree)
      (reduced : reduceStacks Operator.flush false pending output = .ok (pending₁, output₁))
      (closes : GroupCloses .paren pending₁ output₁ pending₂ output₂) (rest : Finishes pending₂ output₂ tree) :
      Finishes pending output tree

theorem close_open_finishes (n : Nat) (s s' : Stacks) (tree : Tree) (closed : closeOpen n s = .ok s')
    (empty : s'.pending = []) (single : s'.output = [tree]) : Finishes s.pending s.output tree := by
  induction n generalizing s with
  | zero =>
      obtain ⟨pending, output, reduced, rfl⟩ := reduce_ok _ _ _ _ closed
      dsimp only at empty single
      subst empty single
      exact .done _ _ _ reduced
  | succ n ih =>
      obtain ⟨s₁, flushed, closed⟩ := bind_ok closed
      obtain ⟨pending, output, reduced, rfl⟩ := reduce_ok _ _ _ _ flushed
      split at closed
      · obtain ⟨s₂, closing, closed⟩ := bind_ok closed
        obtain ⟨pending', output', closes, rfl⟩ := close_group_ok _ _ _ closing
        exact .close _ _ _ _ _ _ _ reduced closes (ih _ closed)
      · cases closed
      · cases Except.ok.inj closed
        dsimp only at empty single
        subst empty single
        exact .done _ _ _ reduced

theorem finish_ok (s : Stacks) (tree : Tree) (finished : s.finish = .ok tree) : Finishes s.pending s.output tree := by
  obtain ⟨s₁, closed, finished⟩ := bind_ok finished
  split at finished
  · rename_i empty single
    cases Except.ok.inj finished
    exact close_open_finishes s.nested s s₁ tree closed empty single
  · cases finished

end Stacks

end GraphCalc

import GraphCalc.Proofs.FormulaItems

/-!
The bytes of a formula are read back as its tree, as long as the pending stack has room. What is read
from one formula may still be spread over both stacks; what counts is what they become when something
weaker follows.
-/

set_option autoImplicit false

namespace GraphCalc

namespace Stacks

-- Something that applies every operator up to the given level.
def Weaker (strength : Nat) (right : Bool) (level : Nat) : Prop :=
  level < strength ∨ (level = strength ∧ right = false)

theorem weaker_applies (op : Operator) (strength : Nat) (right : Bool) (level : Nat)
    (weaker : Weaker strength right level) (inside : op.precedence ≤ level) : waits op strength right = false := by
  rcases weaker with less | ⟨same, left⟩
  · have different : op.precedence ≠ strength := by omega
    simp [waits, different]
    omega
  · simp [waits, left]
    omega

theorem weaker_mono (strength : Nat) (right : Bool) (level level' : Nat) (less : level' ≤ level)
    (weaker : Weaker strength right level) : Weaker strength right level' := by
  rcases weaker with inside | ⟨same, left⟩
  · exact Or.inl (by omega)
  · by_cases equal : level' = strength
    · exact Or.inr ⟨equal, left⟩
    · exact Or.inl (by omega)

-- The entry on top stays where it is for every operator up to the given level.
def Holds (pending : List Pending) (level : Nat) : Prop :=
  ∀ prev rest, pending = .operator prev :: rest → ∀ op : Operator, op.isPrefix = false → op.precedence ≤ level →
    waits prev op.precedence op.isRightAssociative = true

theorem holds_reduce (pending : List Pending) (output : List Tree) (level : Nat) (holds : Holds pending level)
    (op : Operator) (after : op.isPrefix = false) (inside : op.precedence ≤ level) :
    reduceStacks op.precedence op.isRightAssociative pending output = .ok (pending, output) := by
  cases pending with
  | nil => rfl
  | cons entry rest =>
      cases entry with
      | operator prev => rw [reduceStacks, if_pos (holds prev rest rfl op after inside)]
      | call target => rfl
      | group kind height => rfl

-- Stacks that expect a formula of the given level.
structure Ready (s : Stacks) (level : Nat) : Prop where
  waiting : s.needMultiply = false
  alone : ∀ target, s.pending.head? ≠ some (.call target)
  holds : Holds s.pending level
  fits : s.output.length ≤ s.pending.length
  within : s.pending.length ≤ pendingLimit

theorem ready_mono (s : Stacks) (level level' : Nat) (less : level' ≤ level) (ready : Ready s level) : Ready s level' :=
  { ready with holds := fun prev rest shape op after inside => ready.holds prev rest shape op after (by omega) }

-- Whatever is weaker than the formula finds its tree on the output.
structure Settles (s : Stacks) (level : Nat) (tree : Tree) (s' : Stacks) : Prop where
  ended : s'.needMultiply = true
  nested : s'.nested = s.nested
  reduces : ∀ strength right, Weaker strength right level →
    reduceStacks strength right s'.pending s'.output = reduceStacks strength right s.pending (tree :: s.output)

-- The items give the tree exactly if there is room for `depth` more pending entries.
structure Builds (all : List Item) (level depth : Nat) (tree : Tree) : Prop where
  room : ∀ s, Ready s level → s.pending.length + depth ≤ pendingLimit → ∃ s', s.run all = .ok s' ∧ Settles s level tree s'
  full : ∀ s, Ready s level → pendingLimit < s.pending.length + depth → s.run all = .error .expressionTooComplex

theorem run_single (s : Stacks) (item : Item) : s.run [item] = s.accept item := by
  rw [run]
  cases s.accept item <;> rfl

theorem run_then (s s' : Stacks) (first second : List Item) (ran : s.run first = .ok s') :
    s.run (first ++ second) = s'.run second := by
  rw [run_append, ran]
  rfl

theorem run_fails (s : Stacks) (first second : List Item) (cause : Cause) (failed : s.run first = .error cause) :
    s.run (first ++ second) = .error cause := by
  rw [run_append, failed]
  rfl

theorem run_cons (s s' : Stacks) (item : Item) (rest : List Item) (accepted : s.accept item = .ok s') :
    s.run (item :: rest) = s'.run rest := by
  rw [run, accepted]
  rfl

theorem builds_operand (x : Operand) : Builds [x.item] 0 0 x.tree := by
  refine ⟨?_, ?_⟩
  · intro s ready _
    have room : s.output.length < outputLimit := by
      have fits := ready.fits
      have within := ready.within
      simp only [pendingLimit, outputLimit] at within ⊢
      omega
    have accepted : s.accept x.item = .ok ⟨x.tree :: s.output, s.pending, s.nested, true⟩ := by
      cases x with
      | text tokens => exact accept_text_ready s _ ready.waiting room
      | _ => exact accept_operand_ready s _ ready.waiting room
    rw [run_single, accepted]
    exact ⟨_, rfl, rfl, rfl, fun _ _ _ => rfl⟩
  · intro s ready beyond
    exact absurd ready.within (by omega)

theorem place_settled (s s₁ : Stacks) (op : Operator) (level : Nat) (tree : Tree) (settles : Settles s level tree s₁)
    (notNegate : op ≠ .negate) (notStore : op ≠ .store) (weaker : Weaker op.precedence op.isRightAssociative level)
    (held : reduceStacks op.precedence op.isRightAssociative s.pending (tree :: s.output) =
      .ok (s.pending, tree :: s.output)) :
    s₁.accept (.operator op) =
      if s.pending.length + 1 ≤ pendingLimit then
        .ok ⟨tree :: s.output, .operator op :: s.pending, s.nested, op.isUnary⟩
      else .error .expressionTooComplex := by
  have strength : strengthOf op = op.precedence := if_neg notStore
  rw [accept_operator_complete s₁ op settles.ended notNegate, place_operator_eq, if_neg (fun both => notStore both.1),
    strength, settles.reduces _ _ weaker, held, settles.nested]
  rfl

theorem run_operator (s : Stacks) (op : Operator) (left right : List Item) (level depth : Nat) (lhs : Tree)
    (before : Builds left level depth lhs) (ready : Ready s level) (notNegate : op ≠ .negate) (notStore : op ≠ .store)
    (weaker : Weaker op.precedence op.isRightAssociative level)
    (held : reduceStacks op.precedence op.isRightAssociative s.pending (lhs :: s.output) =
      .ok (s.pending, lhs :: s.output)) :
    s.run (left ++ .operator op :: right) =
      if s.pending.length + max depth 1 ≤ pendingLimit then
        run ⟨lhs :: s.output, .operator op :: s.pending, s.nested, op.isUnary⟩ right
      else .error .expressionTooComplex := by
  by_cases short : pendingLimit < s.pending.length + depth
  · rw [run_fails s _ _ _ (before.full s ready short), if_neg (by omega)]
  · obtain ⟨s₁, ran, settles⟩ := before.room s ready (by omega)
    rw [run_then s s₁ _ _ ran, run, place_settled s s₁ op level lhs settles notNegate notStore weaker held]
    by_cases room : s.pending.length + 1 ≤ pendingLimit
    · rw [if_pos room, if_pos (by omega)]
      rfl
    · rw [if_neg room, if_neg (by omega)]
      rfl

theorem builds_after (op : Operator) (all : List Item) (level depth : Nat) (tree : Tree)
    (inner : Builds all level depth tree) (one : op.isUnary = true) (notNegate : op ≠ .negate)
    (within : level ≤ op.precedence) :
    Builds (all ++ [.operator op]) op.precedence (max depth 1) (.operator op [tree]) := by
  have after : op.isPrefix = false := by simpa [Operator.isPrefix] using notNegate
  have notStore : op ≠ .store := fun same => by rw [same] at one; cases one
  have left : op.isRightAssociative = false := by cases op <;> first | rfl | exact absurd rfl notNegate | cases one
  have weaker : Weaker op.precedence op.isRightAssociative level := by
    rw [left]
    by_cases same : level = op.precedence
    · exact Or.inr ⟨same, rfl⟩
    · exact Or.inl (by omega)
  have placed (s : Stacks) (ready : Ready s op.precedence) :=
    run_operator s op all [] level depth tree inner (ready_mono s _ level within ready) notNegate notStore weaker
      (holds_reduce s.pending _ _ ready.holds op after (Nat.le_refl _))
  refine ⟨?_, ?_⟩
  · intro s ready room
    rw [placed s ready, if_pos room]
    refine ⟨_, rfl, one, rfl, ?_⟩
    intro strength right weaker
    have applies := weaker_applies op strength right op.precedence weaker (Nat.le_refl _)
    simp [reduceStacks, applies, applyOperator, one]
  · intro s ready beyond
    rw [placed s ready, if_neg (by omega)]

theorem builds_negate (all : List Item) (level depth : Nat) (tree : Tree) (inner : Builds all level depth tree)
    (within : level ≤ Operator.precedence .negate) :
    Builds (.operator .negate :: all) (Operator.precedence .negate) (depth + 1) (.operator .negate [tree]) := by
  have accepted (s : Stacks) (ready : Ready s (Operator.precedence .negate)) := accept_negate_ready s ready.waiting
  have pushed (s : Stacks) (ready : Ready s (Operator.precedence .negate)) (room : s.pending.length + 1 ≤ pendingLimit) :
      Ready ⟨s.output, .operator .negate :: s.pending, s.nested, false⟩ level := by
    refine ⟨rfl, nofun, ?_, Nat.le_succ_of_le ready.fits, room⟩
    rintro prev rest ⟨⟩ op after inside
    have less : op.precedence < Operator.precedence .negate := by
      have other : op.precedence ≠ Operator.precedence .negate := by cases op <;> first | decide | cases after
      omega
    simp [waits, less]
  refine ⟨?_, ?_⟩
  · intro s ready room
    obtain ⟨s₁, ran, settles⟩ := inner.room _ (pushed s ready (by omega)) (by simp only [List.length_cons]; omega)
    rw [run_cons s _ _ _ ((accepted s ready).trans (if_pos (by omega)))]
    refine ⟨s₁, ran, settles.ended, settles.nested, ?_⟩
    intro strength right weaker
    have applies := weaker_applies .negate strength right _ weaker (Nat.le_refl _)
    rw [settles.reduces strength right (weaker_mono _ _ _ level within weaker)]
    simp [reduceStacks, applies, applyOperator, Operator.isUnary, Operator.precedence]
  · intro s ready beyond
    by_cases room : s.pending.length + 1 ≤ pendingLimit
    · rw [run_cons s _ _ _ ((accepted s ready).trans (if_pos room))]
      exact inner.full _ (pushed s ready room) (by simp only [List.length_cons]; omega)
    · rw [run, accepted s ready, if_neg room]
      rfl

theorem builds_binary (op : Operator) (left right : List Item) (level level' depth depth' : Nat) (lhs rhs : Tree)
    (before : Builds left level depth lhs) (later : Builds right level' depth' rhs) (two : op.isUnary = false)
    (notStore : op ≠ .store) (notComma : op ≠ .comma) (weaker : Weaker op.precedence op.isRightAssociative level)
    (within : level' < op.precedence ∨ (level' = op.precedence ∧ op = .power)) :
    Builds (left ++ .operator op :: right) op.precedence (max depth (depth' + 1)) (.operator op [lhs, rhs]) := by
  have notNegate : op ≠ .negate := fun same => by rw [same] at two; cases two
  have after : op.isPrefix = false := by simpa [Operator.isPrefix] using notNegate
  have lower : level ≤ op.precedence := by rcases weaker with less | ⟨same, _⟩ <;> omega
  have lower' : level' ≤ op.precedence := by omega
  have placed (s : Stacks) (ready : Ready s op.precedence) :=
    run_operator s op left right level depth lhs before (ready_mono s _ level lower ready) notNegate notStore weaker
      (holds_reduce s.pending _ _ ready.holds op after (Nat.le_refl _))
  have pushed (s : Stacks) (ready : Ready s op.precedence) (room : s.pending.length + 1 ≤ pendingLimit) :
      Ready ⟨lhs :: s.output, .operator op :: s.pending, s.nested, op.isUnary⟩ level' := by
    refine ⟨two, by simp, ?_, Nat.succ_le_succ ready.fits, room⟩
    rintro prev rest ⟨⟩ op' after' inside
    rcases within with less | ⟨same, rfl⟩
    · have smaller : op'.precedence < op.precedence := by omega
      simp [waits, smaller]
    · rw [same] at inside
      cases op' <;> first | rfl | exact absurd inside (by decide)
  refine ⟨?_, ?_⟩
  · intro s ready room
    obtain ⟨s₁, ran, settles⟩ := later.room _ (pushed s ready (by omega)) (by simp only [List.length_cons]; omega)
    rw [placed s ready, if_pos (by omega)]
    refine ⟨s₁, ran, settles.ended, settles.nested, ?_⟩
    intro strength right weaker
    have applies := weaker_applies op strength right _ weaker (Nat.le_refl _)
    rw [settles.reduces strength right (weaker_mono _ _ _ level' lower' weaker)]
    simp [reduceStacks, applies, applyOperator, two]
  · intro s ready beyond
    rw [placed s ready]
    by_cases room : s.pending.length + max depth 1 ≤ pendingLimit
    · rw [if_pos room]
      exact later.full _ (pushed s ready (by omega)) (by simp only [List.length_cons]; omega)
    · rw [if_neg room]

def openingSize (target : Option Target) : Nat := if target.isSome then 2 else 1

theorem opening_entries_length (target : Option Target) (group : Group) (height : Nat) :
    (openingEntries target group height).length = openingSize target := by
  cases target <;> rfl

def opened (s : Stacks) (target : Option Target) (group : Group) : Stacks :=
  ⟨s.output, openingEntries target group s.output.length ++ s.pending, s.nested + 1, false⟩

theorem opened_length (s : Stacks) (target : Option Target) (group : Group) :
    (s.opened target group).pending.length = s.pending.length + openingSize target := by
  rw [opened, List.length_append, opening_entries_length, Nat.add_comm]

theorem builds_group (target : Option Target) (group : Group) (all : List Item) (depth : Nat) (tree : Tree)
    (room : ∀ s, Ready s 0 → (s.opened target group).pending.length + depth ≤ pendingLimit →
      ∃ s₁ pending output, (s.opened target group).run all = .ok s₁ ∧ s₁.nested = s.nested + 1 ∧
        reduceStacks Operator.flush false s₁.pending s₁.output = .ok (pending, output) ∧
          GroupCloses group pending output s.pending (tree :: s.output))
    (full : ∀ s, Ready s 0 → (s.opened target group).pending.length ≤ pendingLimit →
      pendingLimit < (s.opened target group).pending.length + depth →
        (s.opened target group).run all = .error .expressionTooComplex) :
    Builds (.opener target group :: (all ++ [.closer group false])) 0 (depth + openingSize target) tree := by
  have accepted (s : Stacks) (ready : Ready s 0) := accept_opener_ready s target group ready.waiting
  simp only [opening_entries_length] at accepted
  simp only [opened_length] at room full
  refine ⟨?_, ?_⟩
  · intro s ready space
    obtain ⟨s₁, pending, output, ran, nested, reduced, closes⟩ := room s ready (by omega)
    rw [run_cons s (s.opened target group) _ _ ((accepted s ready).trans (if_pos (by omega))), run_then _ s₁ _ _ ran,
      run_single, accept_closer_closes s₁ group pending s.pending output _ s.nested nested reduced closes]
    exact ⟨_, rfl, rfl, rfl, fun _ _ _ => rfl⟩
  · intro s ready beyond
    by_cases space : s.pending.length + openingSize target ≤ pendingLimit
    · rw [run_cons s (s.opened target group) _ _ ((accepted s ready).trans (if_pos space))]
      exact run_fails _ _ _ _ (full s ready space (by omega))
    · rw [run, accepted s ready, if_neg space]
      rfl

theorem builds_enclosed (all : List Item) (level depth : Nat) (tree : Tree) (inner : Builds all level depth tree)
    (flushed : level < Operator.flush) :
    Builds (.opener none .paren :: (all ++ [.closer .paren false])) 0 (depth + 1) tree := by
  have inside (s : Stacks) (ready : Ready s 0) (within : (s.opened none .paren).pending.length ≤ pendingLimit) :
      Ready (s.opened none .paren) level :=
    ⟨rfl, nofun, nofun, Nat.le_succ_of_le ready.fits, within⟩
  refine builds_group none .paren all depth tree ?_ ?_
  · intro s ready space
    obtain ⟨s₁, ran, settles⟩ := inner.room _ (inside s ready (by omega)) space
    refine ⟨s₁, _, _, ran, settles.nested, settles.reduces _ _ (Or.inl flushed), ?_⟩
    exact .close 0 s.output.length s.pending s.pending none (tree :: s.output) rfl (.plain s.pending ready.alone)
  · intro s ready within beyond
    exact inner.full _ (inside s ready within) beyond

-- Stacks that expect an argument: on top is the opening bracket or the comma before it.
structure Inside (s : Stacks) : Prop where
  waiting : s.needMultiply = false
  edge : (∃ rest, s.pending = .operator .comma :: rest) ∨ ∃ group height rest, s.pending = .group group height :: rest
  fits : s.output.length ≤ s.pending.length
  within : s.pending.length ≤ pendingLimit

theorem inside_ready (s : Stacks) (level : Nat) (inside : Inside s) (flushed : level < Operator.flush) : Ready s level := by
  refine ⟨inside.waiting, ?_, ?_, inside.fits, inside.within⟩
  · rcases inside.edge with ⟨rest, shape⟩ | ⟨group, height, rest, shape⟩ <;> rw [shape] <;> exact nofun
  · intro prev rest top op _ bound
    rcases inside.edge with ⟨below, shape⟩ | ⟨group, height, below, shape⟩
    · rw [shape] at top
      cases top
      have less : op.precedence < Operator.precedence .comma := by
        have limit : Operator.flush < Operator.precedence .comma := by decide
        omega
      simp [waits, less]
    · rw [shape] at top
      cases top

theorem inside_held (s : Stacks) (inside : Inside s) (strength : Nat) (right : Bool) (output : List Tree)
    (spared : waits .comma strength right = true) :
    reduceStacks strength right s.pending output = .ok (s.pending, output) := by
  rcases inside.edge with ⟨rest, shape⟩ | ⟨group, height, rest, shape⟩
  · rw [shape, reduceStacks, if_pos spared]
  · rw [shape]
    rfl

-- The items leave the arguments on the output, with the commas between them pending.
structure Gathers (all : List Item) (depth : Nat) (args : List Tree) : Prop where
  room : ∀ s, Inside s → s.pending.length + depth ≤ pendingLimit → ∃ s', s.run all = .ok s' ∧ s'.nested = s.nested ∧
    reduceStacks Operator.flush false s'.pending s'.output =
      .ok (List.replicate (args.length - 1) (.operator .comma) ++ s.pending, args.reverse ++ s.output)
  full : ∀ s, Inside s → pendingLimit < s.pending.length + depth → s.run all = .error .expressionTooComplex

theorem gathers_last (all : List Item) (level depth : Nat) (tree : Tree) (inner : Builds all level depth tree)
    (flushed : level < Operator.flush) : Gathers all depth [tree] := by
  refine ⟨?_, ?_⟩
  · intro s inside room
    obtain ⟨s₁, ran, settles⟩ := inner.room s (inside_ready s level inside flushed) room
    refine ⟨s₁, ran, settles.nested, ?_⟩
    rw [settles.reduces _ _ (Or.inl flushed)]
    exact inside_held s inside _ _ _ rfl
  · intro s inside beyond
    exact inner.full s (inside_ready s level inside flushed) beyond

theorem gathers_more (all rest : List Item) (level depth depth' : Nat) (tree : Tree) (args : List Tree)
    (inner : Builds all level depth tree) (flushed : level < Operator.flush) (others : Gathers rest depth' args)
    (filled : args ≠ []) : Gathers (all ++ .operator .comma :: rest) (max depth (depth' + 1)) (tree :: args) := by
  have weaker : Weaker (Operator.precedence .comma) (Operator.isRightAssociative .comma) level := by
    have limit : Operator.flush < Operator.precedence .comma := by decide
    exact Or.inl (by omega)
  have placed (s : Stacks) (inside : Inside s) :=
    run_operator s .comma all rest level depth tree inner (inside_ready s level inside flushed) (by decide) (by decide)
      weaker (inside_held s inside _ _ _ rfl)
  have next (s : Stacks) (inside : Inside s) (room : s.pending.length + 1 ≤ pendingLimit) :
      Inside ⟨tree :: s.output, .operator .comma :: s.pending, s.nested, false⟩ :=
    ⟨rfl, Or.inl ⟨_, rfl⟩, Nat.succ_le_succ inside.fits, room⟩
  refine ⟨?_, ?_⟩
  · intro s inside room
    obtain ⟨s₁, ran, nested, reduced⟩ := others.room _ (next s inside (by omega)) (by simp only [List.length_cons]; omega)
    rw [placed s inside, if_pos (by omega)]
    refine ⟨s₁, ran, nested, ?_⟩
    rw [reduced]
    cases args with
    | nil => exact absurd rfl filled
    | cons first more =>
        simp only [List.length_cons, Nat.add_sub_cancel, List.replicate_succ', List.reverse_cons, List.append_assoc]
        rfl
  · intro s inside beyond
    rw [placed s inside]
    by_cases room : s.pending.length + max depth 1 ≤ pendingLimit
    · rw [if_pos room]
      exact others.full _ (next s inside (by omega)) (by simp only [List.length_cons]; omega)
    · rw [if_neg room]

theorem head_closes (head : Head) (args height : Nat) (pending : List Pending) (allowed : head.allows args = true) :
    ∃ below, openingEntries head.target? head.group height ++ pending = .group head.group height :: below ∧
      Closes head.group below args (some head.opening) pending := by
  cases head with
  | function f => exact ⟨_, rfl, .call _ _ _ allowed⟩
  | listElement slot bound => exact ⟨_, rfl, .call _ _ _ allowed⟩
  | customListElement name => exact ⟨_, rfl, .call _ _ _ allowed⟩
  | matrixElement slot bound => exact ⟨_, rfl, .call _ _ _ allowed⟩
  | braces => exact ⟨_, rfl, .brace _ _⟩
  | brackets => exact ⟨_, rfl, .bracket _ _⟩

theorem builds_gathered (head : Head) (all : List Item) (depth : Nat) (args : List Tree) (inner : Gathers all depth args)
    (filled : args ≠ []) (allowed : head.allows args.length = true) :
    Builds (.opener head.target? head.group :: (all ++ [.closer head.group false])) 0
      (depth + openingSize head.target?) (head.opening.node args) := by
  have inside (s : Stacks) (ready : Ready s 0)
      (within : (s.opened head.target? head.group).pending.length ≤ pendingLimit) :
      Inside (s.opened head.target? head.group) := by
    obtain ⟨below, shape, _⟩ := head_closes head args.length s.output.length s.pending allowed
    refine ⟨rfl, Or.inr ⟨_, _, below, shape⟩, ?_, within⟩
    rw [opened_length]
    exact Nat.le_add_right_of_le ready.fits
  refine builds_group head.target? head.group all depth _ ?_ ?_
  · intro s ready space
    obtain ⟨s₁, ran, nested, reduced⟩ := inner.room _ (inside s ready (by omega)) space
    obtain ⟨below, shape, closes⟩ := head_closes head args.length s.output.length s.pending allowed
    refine ⟨s₁, _, _, ran, nested, reduced, ?_⟩
    have positive : 0 < args.length := List.length_pos_iff.mpr filled
    have total : args.length - 1 + 1 = args.length := Nat.sub_add_cancel positive
    have count : (args.reverse ++ s.output).length = s.output.length + (args.length - 1 + 1) := by
      rw [total, List.length_append, List.length_reverse, Nat.add_comm]
    have closed := GroupCloses.close (args.length - 1) s.output.length below s.pending (some head.opening) _ count
      (total.symm ▸ closes)
    rw [closedOutput, total, gather_reverse, ← shape] at closed
    exact closed
  · intro s ready within beyond
    exact inner.full _ (inside s ready within) beyond

end Stacks

def enclosedDepth (needed : Bool) (depth : Nat) : Nat := if needed then depth + 1 else depth

-- How many entries a formula has pending at most.
mutual
def Formula.depth : Formula → Nat
  | .operand _ => 0
  | .unary op _ x =>
    if op.isPrefix then enclosedDepth (op.encloses x.level) x.depth + 1
    else max (enclosedDepth (op.encloses x.level) x.depth) 1
  | .binary op _ _ _ lhs rhs =>
    max (enclosedDepth (op.enclosesLeft lhs.level) lhs.depth) (enclosedDepth (op.enclosesRight rhs.level) rhs.depth + 1)
  | .gathered head _ _ args => args.depth + Stacks.openingSize head.target?

def Arguments.depth {count : Nat} : Arguments count → Nat
  | .last x => x.depth
  | .more _ x rest => max x.depth (rest.depth + 1)
end

theorem Formula.level_flushed (f : Formula) : f.level < Operator.flush := by
  cases f with
  | operand x => exact Nat.succ_pos _
  | unary op one x =>
      change op.precedence < Operator.flush
      cases op <;> first | decide | cases one
  | binary op two notStore notComma lhs rhs =>
      change op.precedence < Operator.flush
      cases op <;> first | decide | exact absurd rfl notStore | exact absurd rfl notComma
  | gathered head count allowed args => exact Nat.succ_pos _

theorem Arguments.trees_filled (count : Nat) (args : Arguments count) : args.trees ≠ [] := by
  cases args <;> exact List.cons_ne_nil _ _

theorem Arguments.trees_length (count : Nat) (args : Arguments count) : args.trees.length = count := by
  cases args with
  | last x => rfl
  | more count x rest => exact congrArg Nat.succ (trees_length count rest)

theorem builds_enclosed_if (needed : Bool) (all : List Item) (level depth : Nat) (tree : Tree)
    (inner : Stacks.Builds all level depth tree) (flushed : level < Operator.flush) :
    Stacks.Builds (enclosedItems needed all) (if needed then 0 else level) (enclosedDepth needed depth) tree := by
  cases needed with
  | false => exact inner
  | true => exact Stacks.builds_enclosed all level depth tree inner flushed

theorem encloses_bound (op : Operator) (level : Nat) : (if op.encloses level then 0 else level) ≤ op.precedence := by
  by_cases loose : op.precedence < level
  · simp [Operator.encloses, loose]
  · simp [Operator.encloses, loose]
    omega

theorem precedence_positive (op : Operator) : 0 < op.precedence := by
  cases op <;> decide

theorem encloses_left_weaker (op : Operator) (level : Nat) (two : op.isUnary = false) (notComma : op ≠ .comma) :
    Stacks.Weaker op.precedence op.isRightAssociative (if op.enclosesLeft level then 0 else level) := by
  cases enclosed : op.enclosesLeft level with
  | true => exact Or.inl (precedence_positive op)
  | false =>
      simp only [Operator.enclosesLeft, Bool.or_eq_false_iff, decide_eq_false_iff_not, Bool.and_eq_false_iff,
        beq_eq_false_iff_ne] at enclosed
      rw [if_neg Bool.false_ne_true]
      by_cases same : op.precedence = level
      · have notPower : op ≠ .power := enclosed.2.resolve_left (fun different => different same)
        have left : op.isRightAssociative = false := by
          cases op <;> first | rfl | exact absurd rfl notPower | exact absurd rfl notComma | cases two
        exact Or.inr ⟨same.symm, left⟩
      · exact Or.inl (by omega)

theorem encloses_right_within (op : Operator) (level : Nat) :
    (if op.enclosesRight level then 0 else level) < op.precedence ∨
      ((if op.enclosesRight level then 0 else level) = op.precedence ∧ op = .power) := by
  cases enclosed : op.enclosesRight level with
  | true => exact Or.inl (precedence_positive op)
  | false =>
      simp only [Operator.enclosesRight, Bool.or_eq_false_iff, decide_eq_false_iff_not, Bool.and_eq_false_iff,
        beq_eq_false_iff_ne, bne_eq_false_iff_eq] at enclosed
      rw [if_neg Bool.false_ne_true]
      by_cases same : op.precedence = level
      · exact Or.inr ⟨same.symm, enclosed.2.resolve_left (fun different => different same)⟩
      · exact Or.inl (by omega)

mutual
theorem formula_builds (f : Formula) : Stacks.Builds f.items f.level f.depth f.tree := by
  cases f with
  | operand x => exact Stacks.builds_operand x
  | unary op one x =>
      have inner := builds_enclosed_if (op.encloses x.level) x.items x.level x.depth x.tree (formula_builds x) x.level_flushed
      have bound := encloses_bound op x.level
      unfold Formula.items Formula.depth
      by_cases before : op.isPrefix = true
      · rw [if_pos before, if_pos before]
        have negation : op = .negate := by simpa [Operator.isPrefix] using before
        subst negation
        exact Stacks.builds_negate _ _ _ _ inner bound
      · rw [if_neg before, if_neg before]
        have notNegate : op ≠ .negate := fun same => before (by rw [same]; rfl)
        exact Stacks.builds_after op _ _ _ _ inner one notNegate bound
  | binary op two notStore notComma lhs rhs =>
      have left := builds_enclosed_if (op.enclosesLeft lhs.level) lhs.items lhs.level lhs.depth lhs.tree
        (formula_builds lhs) lhs.level_flushed
      have right := builds_enclosed_if (op.enclosesRight rhs.level) rhs.items rhs.level rhs.depth rhs.tree
        (formula_builds rhs) rhs.level_flushed
      exact Stacks.builds_binary op _ _ _ _ _ _ _ _ left right two notStore notComma
        (encloses_left_weaker op lhs.level two notComma) (encloses_right_within op rhs.level)
  | gathered head count allowed args =>
      exact Stacks.builds_gathered head args.items args.depth args.trees (arguments_gather count args)
        (args.trees_filled count) ((args.trees_length count).symm ▸ allowed)

theorem arguments_gather (count : Nat) (args : Arguments count) : Stacks.Gathers args.items args.depth args.trees := by
  cases args with
  | last x => exact Stacks.gathers_last x.items x.level x.depth x.tree (formula_builds x) x.level_flushed
  | more count x rest =>
      exact Stacks.gathers_more x.items rest.items x.level x.depth rest.depth x.tree rest.trees (formula_builds x)
        x.level_flushed (arguments_gather count rest) (rest.trees_filled count)
end

namespace Expression

theorem empty_ready (level : Nat) : Stacks.empty.Ready level :=
  ⟨rfl, nofun, nofun, Nat.le_refl _, Nat.zero_le _⟩

theorem finish_settled (s : Stacks) (level : Nat) (tree : Tree) (flushed : level < Operator.flush)
    (settles : Stacks.empty.Settles level tree s) : s.finish = .ok tree := by
  have reduced := settles.reduces Operator.flush false (Or.inl flushed)
  have nested : s.nested = 0 := settles.nested
  simp only [Stacks.finish, nested, Stacks.closeOpen, Stacks.flush, Stacks.reduce, reduced, bind, Except.bind]
  rfl

theorem parse_result (stops : Stops) (c : Cursor) : (parse stops c).1 =
    (readFrom stops .empty c).1.mapError (fun e => (Fault.ofCause e).located (readFrom stops .empty c).2.place) := rfl

-- Bytes need not be cut into the items of a formula, as long as their items do the same.
theorem parse_items (f : Formula) (bytes : Bytes) (all : List Item) (cut : items bytes = .ok all)
    (same : Stacks.empty.run all = Stacks.empty.run f.items) :
    (f.depth ≤ Stacks.pendingLimit → (parse lineOnly (.start bytes false)).1 = .ok f.tree) ∧
      (Stacks.pendingLimit < f.depth → ∃ fault, (parse lineOnly (.start bytes false)).1 = .error fault ∧
        fault.cause = .expressionTooComplex) := by
  have start : Stacks.empty.pending.length = 0 := rfl
  rw [parse_result, read_from_items .empty (.start bytes false) all rfl cut, same]
  refine ⟨fun room => ?_, fun beyond => ?_⟩
  · obtain ⟨s, ran, settles⟩ := (formula_builds f).room .empty (empty_ready f.level) (by omega)
    rw [ran]
    change s.finish.mapError _ = _
    rw [finish_settled s f.level f.tree f.level_flushed settles]
    rfl
  · rw [(formula_builds f).full .empty (empty_ready f.level) (by omega)]
    exact ⟨_, rfl, rfl⟩

theorem parse_shallow (f : Formula) (shallow : f.depth ≤ Stacks.pendingLimit) :
    (parse lineOnly (.start f.render false)).1 = .ok f.tree :=
  (parse_items f f.render f.items (render_items f) rfl).1 shallow

theorem digit_read (n : Fin 10) :
    Item.number (Byte.digitZero + UInt8.ofNat n) [] = (.ok (.operand (.number (Float32.ofNat n))), 0) := by
  match n with
  | 0 | 1 | 2 | 3 | 4 | 5 | 6 | 7 | 8 | 9 => rfl

def digitLiteral (n : Fin 10) : Literal where
  first := Byte.digitZero + UInt8.ofNat n
  more := []
  value := .number (Float32.ofNat n)
  starts := (by decide : ∀ n : Fin 10, (Token.ofByte (Byte.digitZero + UInt8.ofNat n)).startsNumber = true) n
  read := digit_read n

theorem parse_render (f : Formula) :
    if f.depth ≤ Stacks.pendingLimit then (parse lineOnly (.start f.render false)).1 = .ok f.tree
    else ∃ fault, (parse lineOnly (.start f.render false)).1 = .error fault ∧
      fault.cause = .expressionTooComplex ∧ fault.cause.kind = .memory := by
  obtain ⟨shallow, deep⟩ := parse_items f f.render f.items (render_items f) rfl
  by_cases room : f.depth ≤ Stacks.pendingLimit
  · rw [if_pos room]
    exact shallow room
  · rw [if_neg room]
    obtain ⟨fault, failed, complex⟩ := deep (Nat.lt_of_not_le room)
    exact ⟨fault, failed, complex, by rw [complex]; rfl⟩

example :
    (Formula.binary .power rfl nofun nofun (.unary .factorial rfl (.operand (.variable 0 (by decide))))
      (.operand (.variable 1 (by decide)))).render = [0x10, 0x41, 0x2D, 0x11, 0xF0, 0x42] := rfl

end Expression

end GraphCalc

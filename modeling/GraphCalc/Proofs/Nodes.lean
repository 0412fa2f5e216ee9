import GraphCalc.Machine
import GraphCalc.Proofs.Draws
import GraphCalc.Proofs.Failures
import GraphCalc.Proofs.WellFormed

/-!
One node of an evaluation at a time. Every node but an equation evaluates some of its children, all of
them or none, and then works on their values alone; so what an evaluation does is said once for a node
and carried through the tree by induction.
-/

set_option autoImplicit false

namespace GraphCalc

namespace Tree

-- The store operator and the functions that can be written and are not evaluated.
def Unimplemented : Tree → Prop
  | .operator .store _ => True
  | .call (.builtin f) _ =>
      f ∈ [.pixelTest, .solve, .sequence, .integral, .derivative, .functionMin, .functionMax]
  | _ => False

-- The slot whose content a node needs; a variable needs none, for it is zero until it is stored.
def reads? : Tree → Option Slot
  | .string slot => some (.string slot)
  | .equation slot => some (.equation slot)
  | .list slot => some (.list slot)
  | .customList name => some (.customList name)
  | .matrix slot => some (.matrix slot)
  | .call (.listElement slot) _ => some (.list slot)
  | .call (.customListElement name) _ => some (.customList name)
  | .call (.matrixElement slot) _ => some (.matrix slot)
  | _ => none

inductive Subtree (part : Tree) : Tree → Prop where
  | root : Subtree part part
  | under (whole child : Tree) (member : child ∈ whole.children) (inside : Subtree part child) : Subtree part whole

theorem child_smaller (tree child : Tree) (member : child ∈ tree.children) : sizeOf child < sizeOf tree := by
  cases tree with
  | operator _ args | call _ args | braces args | brackets args | command _ args =>
      have smaller := List.sizeOf_lt_of_mem member
      simp only [children] at smaller
      simp
      omega
  | _ => cases member

theorem children_induction (P : Tree → Prop) (node : ∀ tree, (∀ child ∈ tree.children, P child) → P tree)
    (tree : Tree) : P tree :=
  node tree fun child member =>
    have := child_smaller tree child member
    children_induction P node child
termination_by sizeOf tree

theorem well_formed_child (tree child : Tree) (wellFormed : tree.WellFormed) (member : child ∈ tree.children) :
    child.WellFormed := by
  cases wellFormed with
  | operator _ _ _ _ children => exact children child member
  | call _ _ _ _ children => exact children child member
  | braces _ _ children => exact children child member
  | brackets _ _ children => exact children child member
  | _ => cases member

theorem well_formed_subtree (part tree : Tree) (wellFormed : tree.WellFormed) (inside : part.Subtree tree) :
    part.WellFormed := by
  induction inside with
  | root => exact wellFormed
  | under whole child member _ ih => exact ih (well_formed_child whole child wellFormed member)

end Tree

namespace Evaluation

-- The children a node evaluates: none where it is refused at sight, or looks at no child.
def operands (store : Store) : Tree → List Tree
  | .operator op args => if op = .store then [] else args
  | .call target args =>
      if target = .builtin .answer ∨ target = .builtin .getKey then []
      else
        match accessed store target with
        | .error _ => []
        | .ok _ => args
  | .command _ _ => []
  | tree => tree.children

def applyCall (env : Surroundings) (target : Target) (vals : List Value) (supply : Supply) : Outcome Value :=
  if target = .builtin .answer then (.ok env.answer, supply)
  else if target = .builtin .getKey then (.ok (.number supply.key.1), supply.key.2)
  else
    match accessed env.store target with
    | .error e => (.error (.ofCause e), supply)
    | .ok container => applyTarget env.mode target container vals supply

-- What a node other than an equation makes of the values of its operands.
def applyNode (env : Surroundings) : Tree → List Value → Supply → Outcome Value
  | .number x, _, supply => (ofCause (Value.ofNumber x), supply)
  | .complex re im, _, supply => (ofCause (Value.ofComplex ⟨re, im⟩), supply)
  | .variable slot, _, supply => (.ok ((env.store.get? (.variable slot)).getD (.number 0)), supply)
  | .string slot, _, supply => (ofCause (defined (env.store.get? (.string slot))), supply)
  | .list slot, _, supply => (ofCause (defined (env.store.get? (.list slot))), supply)
  | .customList name, _, supply => (ofCause (defined (env.store.get? (.customList name))), supply)
  | .matrix slot, _, supply => (ofCause (defined (env.store.get? (.matrix slot))), supply)
  | .operator op _, vals, supply =>
      if op = .store then (.error (.ofCause .notImplemented), supply)
      else (ofCause (applyOperator env.mode op vals), supply)
  | .call target _, vals, supply => applyCall env target vals supply
  | .braces _, vals, supply => (ofCause (listOf vals), supply)
  | .brackets _, vals, supply => (ofCause (matrixOf vals), supply)
  | .text bytes, _, supply => (.ok (.string bytes), supply)
  | .equation _, _, supply | .command _ _, _, supply => (.error (.ofCause .notImplemented), supply)

variable (env : Surroundings) (equation : Bytes → Supply → Outcome Value)

theorem evaluate_with_node (tree : Tree) (supply : Supply) (other : ∀ slot, tree ≠ .equation slot) :
    evaluateWith env equation tree supply =
      andThen (evaluateAllWith env equation (operands env.store tree) supply) (applyNode env tree) := by
  cases tree with
  | equation slot => exact absurd rfl (other slot)
  | operator op args => cases op <;> rfl
  | call target args =>
      cases found : accessed env.store target with
      | error e =>
          cases target with
          | builtin f => cases found
          | listElement slot | customListElement name | matrixElement slot =>
              simp only [evaluateWith, operands, applyNode, applyCall, found, evaluateAllWith, andThen, reduceCtorEq,
                or_self, if_false]
      | ok container =>
          cases target with
          | builtin f => cases f <;> rfl
          | listElement slot | customListElement name | matrixElement slot =>
              simp only [evaluateWith, operands, found, reduceCtorEq, or_self, if_false]
              congr 1
              funext vals supply
              simp only [applyNode, applyCall, found, reduceCtorEq, if_false]
  | _ => rfl

theorem operands_children (store : Store) (tree child : Tree) (member : child ∈ operands store tree) :
    child ∈ tree.children := by
  cases tree with
  | operator op args =>
      by_cases refused : op = .store
      · rw [operands, if_pos refused] at member
        cases member
      · rwa [operands, if_neg refused] at member
  | call target args =>
      by_cases alone : target = .builtin .answer ∨ target = .builtin .getKey
      · rw [operands, if_pos alone] at member
        cases member
      · rw [operands, if_neg alone] at member
        cases found : accessed store target with rw [found] at member
        | error e => cases member
        | ok container => exact member
  | command c args => cases member
  | _ => exact member

section Depth

variable {α β : Type}

theorem and_then_depth (first : Outcome α) (next : α → Supply → Outcome β) (depth : Nat)
    (before : first.2.depth = depth) (after : ∀ x s, s.depth = depth → (next x s).2.depth = depth) :
    (andThen first next).2.depth = depth := by
  obtain ⟨result, s⟩ := first
  cases result with
  | error f => exact before
  | ok x => exact after x s before

theorem random_supply (args : List Value) (s : Supply) : s.Drawn (random args s).2 := by
  unfold random
  cases args with
  | nil => exact s.fraction_drawn
  | cons count rest =>
      dsimp only
      cases count.integer with
      | error e => exact s.drawn_nothing
      | ok n =>
          by_cases outside : n < 1 ∨ 999 < n
          · simp only [if_pos outside]
            exact s.drawn_nothing
          · simp only [if_neg outside]
            exact s.fractions_drawn n.toNat

theorem random_matrix_supply (args : List Value) (s : Supply) : s.Drawn (randomMatrix args s).2 := by
  unfold randomMatrix
  cases extents args with
  | error e => exact s.drawn_nothing
  | ok size =>
      obtain ⟨rows, columns⟩ := size
      exact s.entries_drawn rows columns

theorem apply_target_supply (mode : Mode) (target : Target) (container : Option Value) (args : List Value)
    (s : Supply) : s.Drawn (applyTarget mode target container args s).2 := by
  unfold applyTarget
  split
  · exact random_supply args s
  · exact random_matrix_supply args s
  · exact s.drawn_nothing
  · exact s.drawn_nothing
  · exact s.drawn_nothing
  · exact s.drawn_nothing

theorem apply_node_supply (tree : Tree) (vals : List Value) (s : Supply) :
    (applyNode env tree vals s).2 = s.key.2 ∨ s.Drawn (applyNode env tree vals s).2 := by
  cases tree with
  | operator op args => exact Or.inr (by cases op <;> exact s.drawn_nothing)
  | call target args =>
      rw [applyNode, applyCall]
      split
      · exact Or.inr s.drawn_nothing
      · split
        · exact Or.inl rfl
        · split
          · exact Or.inr s.drawn_nothing
          · exact Or.inr (apply_target_supply _ _ _ _ s)
  | _ => exact Or.inr s.drawn_nothing

theorem apply_node_depth (tree : Tree) (vals : List Value) (s : Supply) :
    (applyNode env tree vals s).2.depth = s.depth := by
  rcases apply_node_supply env tree vals s with same | ⟨g, same⟩
  · rw [same, Supply.key]
    split <;> rfl
  · rw [same]

variable (keeps : ∀ tokens s, (equation tokens s).2.depth = s.depth)

theorem evaluate_all_depth (trees : List Tree) (s : Supply)
    (each : ∀ tree ∈ trees, ∀ s, (evaluateWith env equation tree s).2.depth = s.depth) :
    (evaluateAllWith env equation trees s).2.depth = s.depth := by
  induction trees generalizing s with
  | nil => rfl
  | cons tree rest ih =>
      rw [evaluateAllWith]
      apply and_then_depth
      · exact each tree (by simp) s
      · intro v s₁ same
        apply and_then_depth
        · rw [ih s₁ fun tree member => each tree (by simp [member]), same]
        · exact fun _ _ same => same

include keeps in
theorem evaluate_with_depth (tree : Tree) (s : Supply) :
    (evaluateWith env equation tree s).2.depth = s.depth := by
  induction tree using Tree.children_induction generalizing s with
  | node tree ih =>
      by_cases other : ∃ slot, tree = .equation slot
      · obtain ⟨slot, rfl⟩ := other
        rw [evaluateWith]
        split
        · exact keeps _ s
        · rfl
        · rfl
      · rw [evaluate_with_node env equation tree s fun slot same => other ⟨slot, same⟩]
        apply and_then_depth
        · exact evaluate_all_depth env equation _ s fun child member =>
            ih child (operands_children env.store tree child member)
        · exact fun vals s₁ same => (apply_node_depth env tree vals s₁).trans same

omit equation in
theorem equation_at_depth (levels : Nat) (tokens : Bytes) (s : Supply) :
    (equationAt env levels tokens s).2.depth = s.depth := by
  induction levels generalizing tokens s with
  | zero => rfl
  | succ levels ih =>
      rw [equationAt]
      split
      · rfl
      · split
        · rfl
        · rename_i tree _
          have entered := evaluate_with_depth env (equationAt env levels) ih tree s.enter
          change (evaluateWith env (equationAt env levels) tree s.enter).2.depth - 1 = s.depth
          rw [entered]
          exact Nat.add_sub_cancel s.depth 1

end Depth

section Results

variable {α β : Type}

theorem and_then_ok (first : Outcome α) (next : α → Supply → Outcome β) (y : β)
    (done : (andThen first next).1 = .ok y) : ∃ x s, first = (.ok x, s) ∧ (next x s).1 = .ok y := by
  obtain ⟨result, s⟩ := first
  cases result with
  | error f => cases done
  | ok x => exact ⟨x, s, rfl, done⟩

theorem and_then_error (first : Outcome α) (next : α → Supply → Outcome β) (f : Fault)
    (failed : (andThen first next).1 = .error f) :
    first.1 = .error f ∨ ∃ x s, first = (.ok x, s) ∧ (next x s).1 = .error f := by
  obtain ⟨result, s⟩ := first
  cases result with
  | error g => exact Or.inl (congrArg Except.error (Except.error.inj failed))
  | ok x => exact Or.inr ⟨x, s, rfl, failed⟩

theorem evaluate_all_length (trees : List Tree) (s : Supply) (vals : List Value)
    (done : (evaluateAllWith env equation trees s).1 = .ok vals) : vals.length = trees.length := by
  induction trees generalizing s vals with
  | nil => cases done; rfl
  | cons tree rest ih =>
      rw [evaluateAllWith] at done
      obtain ⟨v, s₁, _, later⟩ := and_then_ok _ _ vals done
      obtain ⟨others, s₂, evaluated, same⟩ := and_then_ok _ _ vals later
      cases same
      simp [ih s₁ others (congrArg Prod.fst evaluated)]

variable (keeps : ∀ tokens s, (equation tokens s).2.depth = s.depth)

include keeps

theorem evaluate_all_ok (trees : List Tree) (s : Supply) (vals : List Value)
    (done : (evaluateAllWith env equation trees s).1 = .ok vals) (tree : Tree) (member : tree ∈ trees) :
    ∃ s₁ v, s₁.depth = s.depth ∧ (evaluateWith env equation tree s₁).1 = .ok v := by
  induction trees generalizing s vals with
  | nil => cases member
  | cons first rest ih =>
      rw [evaluateAllWith] at done
      obtain ⟨v, s₁, evaluated, later⟩ := and_then_ok _ _ vals done
      have depth : s₁.depth = s.depth := by
        rw [← evaluate_with_depth env equation keeps first s, evaluated]
      rcases List.mem_cons.mp member with rfl | among
      · exact ⟨s, v, rfl, congrArg Prod.fst evaluated⟩
      · obtain ⟨others, s₂, evaluatedRest, _⟩ := and_then_ok _ _ vals later
        obtain ⟨s₃, w, same, value⟩ := ih s₁ others (congrArg Prod.fst evaluatedRest) among
        exact ⟨s₃, w, same.trans depth, value⟩

theorem evaluate_all_error (trees : List Tree) (s : Supply) (f : Fault)
    (failed : (evaluateAllWith env equation trees s).1 = .error f) :
    ∃ tree ∈ trees, ∃ s₁, s₁.depth = s.depth ∧ (evaluateWith env equation tree s₁).1 = .error f := by
  induction trees generalizing s with
  | nil => cases failed
  | cons first rest ih =>
      rw [evaluateAllWith] at failed
      rcases and_then_error _ _ f failed with here | ⟨v, s₁, evaluated, later⟩
      · exact ⟨first, by simp, s, rfl, here⟩
      · have depth : s₁.depth = s.depth := by
          rw [← evaluate_with_depth env equation keeps first s, evaluated]
        rcases and_then_error _ _ f later with among | ⟨_, _, _, never⟩
        · obtain ⟨tree, member, s₂, same, found⟩ := ih s₁ among
          exact ⟨tree, by simp [member], s₂, same.trans depth, found⟩
        · cases never

end Results

section Blame

-- What a node itself can fail with, once its operands have values.
inductive Blamed (store : Store) (tree : Tree) : Cause → Prop where
  | values (e : Cause) (ofValues : e.OfValues) : Blamed store tree e
  | unimplemented (node : tree.Unimplemented) : Blamed store tree .notImplemented
  | absent (slot : Slot) (reads : tree.reads? = some slot) (nothing : store.get? slot = none) :
      Blamed store tree .undefined

theorem of_cause_error {α : Type} (result : Except Cause α) (f : Fault) (failed : ofCause result = .error f) :
    ∃ e, result = .error e ∧ f = .ofCause e := by
  cases result with
  | error e => exact ⟨e, rfl, (Except.error.inj failed).symm⟩
  | ok x => cases failed

theorem of_cause_blames {α : Type} (allowed : Cause → Prop) (result : Except Cause α) (f : Fault)
    (fails : FailsOnly allowed result) (failed : ofCause result = .error f) : ∃ e, f = .ofCause e ∧ allowed e := by
  obtain ⟨e, same, rfl⟩ := of_cause_error result f failed
  exact ⟨e, rfl, fails e same⟩

theorem defined_absent (store : Store) (tree : Tree) (slot : Slot) (reads : tree.reads? = some slot) :
    FailsOnly (Blamed store tree) (defined (store.get? slot)) := by
  cases content : store.get? slot with
  | none => simpa [defined] using Blamed.absent slot reads content
  | some v => simp [defined]

theorem accessed_blamed (store : Store) (target : Target) (args : List Tree) :
    FailsOnly (Blamed store (.call target args)) (accessed store target) := by
  cases target with
  | builtin f => simp [accessed]
  | listElement slot => simpa [accessed] using defined_absent store (.call (.listElement slot) args) (.list slot) rfl
  | customListElement name =>
      simpa [accessed] using defined_absent store (.call (.customListElement name) args) (.customList name) rfl
  | matrixElement slot =>
      apply fails_bind
      · exact defined_absent store (.call (.matrixElement slot) args) (.matrix slot) rfl
      · intro v
        cases v with
        | matrix m => simp
        | _ => simpa using Blamed.values .dataType trivial

@[simp]
theorem position_blames (v : Value) : BlamesValues (position v) := by
  apply fails_bind
  · simp
  · intro n
    dsimp only
    split <;> simp

@[simp]
theorem extent_blames (v : Value) : BlamesValues (extent v) := by
  apply fails_bind
  · simp
  · intro n
    dsimp only
    split <;> simp

theorem element_blames (list v : Value) : BlamesValues (element list [v]) := by
  apply fails_bind
  · simp [argument]
  · intro first
    apply fails_bind
    · simp
    · intro i
      cases list with
      | list xs => dsimp only; split <;> simp
      | complexList cs => dsimp only; split <;> simp
      | _ => simp

theorem matrix_element_blames (m : RealMatrix) (v w : Value) : BlamesValues (matrixElement m [v, w]) := by
  change BlamesValues (do
    let row ← position v
    let column ← position w
    return Value.number (← m.get row column))
  simp

theorem extents_blames (v w : Value) : BlamesValues (extents [v, w]) := by
  change BlamesValues (do
    let rows ← extent v
    let columns ← extent w
    return (rows, columns))
  simp

@[simp]
theorem scalar_blames (v : Value) : BlamesValues (scalar v) := by
  cases v <;> simp [scalar]

@[simp]
theorem single_row_blames (v : Value) : BlamesValues (singleRow v) := by
  unfold singleRow
  split <;> simp

theorem list_of_blames (vals : List Value) : BlamesValues (listOf vals) := by
  unfold listOf
  split <;> simp

theorem matrix_of_blames (vals : List Value) : BlamesValues (matrixOf vals) := by
  unfold matrixOf
  split <;> simp

theorem random_blames (args : List Value) (s : Supply) (f : Fault) (failed : (random args s).1 = .error f) :
    ∃ e, f = .ofCause e ∧ e.OfValues := by
  unfold random at failed
  cases args with
  | nil => cases failed
  | cons count rest =>
      dsimp only at failed
      cases found : count.integer with
      | error e =>
          rw [found] at failed
          exact ⟨e, (Except.error.inj failed).symm, count.integer_blames e found⟩
      | ok n =>
          rw [found] at failed
          dsimp only at failed
          split at failed
          · exact ⟨.domain, (Except.error.inj failed).symm, trivial⟩
          · cases failed

theorem random_matrix_blames (v w : Value) (s : Supply) (f : Fault)
    (failed : (randomMatrix [v, w] s).1 = .error f) : ∃ e, f = .ofCause e ∧ e.OfValues := by
  unfold randomMatrix at failed
  cases found : extents [v, w] with
  | error e =>
      rw [found] at failed
      exact ⟨e, (Except.error.inj failed).symm, extents_blames v w e found⟩
  | ok size =>
      rw [found] at failed
      exact of_cause_blames Cause.OfValues _ f (by simp) failed

theorem apply_operator_blames (mode : Mode) (op : Operator) (vals : List Value) (notComma : op ≠ .comma)
    (notStore : op ≠ .store) (count : vals.length = if op.isUnary then 1 else 2) :
    BlamesValues (applyOperator mode op vals) := by
  cases unary : op.isUnary with
  | true =>
      match vals, unary ▸ count with
      | [v], _ => exact Operation.unary_blames op mode v unary
  | false =>
      match vals, unary ▸ count with
      | [l, r], _ => exact Operation.binary_blames op l r unary notStore notComma

theorem apply_access_blames (mode : Mode) (store : Store) (target : Target) (container : Option Value)
    (vals : List Value) (s : Supply) (fault : Fault) (access : ∀ f, target ≠ .builtin f)
    (found : accessed store target = .ok container) (count : target.arity.allows vals.length = true)
    (failed : (applyTarget mode target container vals s).1 = .error fault) :
    ∃ e, fault = .ofCause e ∧ e.OfValues := by
  cases target with
  | builtin f => exact absurd rfl (access f)
  | listElement slot =>
      rw [accessed] at found
      cases content : store.get? (.list slot) with rw [content] at found
      | none => cases found
      | some list =>
          cases found
          match vals, count with
          | [v], _ => exact of_cause_blames _ _ fault (element_blames list v) failed
  | customListElement name =>
      rw [accessed] at found
      cases content : store.get? (.customList name) with rw [content] at found
      | none => cases found
      | some list =>
          cases found
          match vals, count with
          | [v], _ => exact of_cause_blames _ _ fault (element_blames list v) failed
  | matrixElement slot =>
      rw [accessed] at found
      cases content : store.get? (.matrix slot) with rw [content] at found
      | none => cases found
      | some stored =>
          cases stored with
          | matrix m =>
              cases found
              match vals, count with
              | [v, w], _ => exact of_cause_blames _ _ fault (matrix_element_blames m v w) failed
          | _ => cases found

theorem apply_builtin_blamed (mode : Mode) (store : Store) (f : Builtin) (args : List Tree) (vals : List Value)
    (s : Supply) (fault : Fault) (count : f.arity.allows vals.length = true) (notAnswer : f ≠ .answer)
    (notKey : f ≠ .getKey) (failed : (applyTarget mode (.builtin f) none vals s).1 = .error fault) :
    ∃ e, fault = .ofCause e ∧ Blamed store (.call (.builtin f) args) e := by
  have values (blamed : ∃ e, fault = .ofCause e ∧ e.OfValues) :
      ∃ e, fault = .ofCause e ∧ Blamed store (.call (.builtin f) args) e := by
    obtain ⟨e, same, ofValues⟩ := blamed
    exact ⟨e, same, .values e ofValues⟩
  by_cases random : f = .random
  · subst random
    exact values (random_blames vals s fault failed)
  · by_cases randomMatrix : f = .randMatrix
    · subst randomMatrix
      match vals, count with
      | [v, w], _ => exact values (random_matrix_blames v w s fault failed)
    · have applied : ofCause (Function.apply mode f vals) = .error fault := by
        simpa only [applyTarget] using failed
      cases unavailable : Function.isUnavailable f with
      | false => exact values (of_cause_blames _ _ fault (Function.apply_blames mode f vals count unavailable) applied)
      | true =>
          rw [Function.apply_unavailable mode f vals count unavailable] at applied
          refine ⟨.notImplemented, (Except.error.inj applied).symm, .unimplemented ?_⟩
          simpa [Function.isUnavailable, Tree.Unimplemented, notAnswer, notKey, random, randomMatrix] using unavailable

theorem apply_node_blamed (tree : Tree) (wellFormed : tree.WellFormed) (other : ∀ slot, tree ≠ .equation slot)
    (vals : List Value) (count : vals.length = (operands env.store tree).length) (s : Supply) (f : Fault)
    (failed : (applyNode env tree vals s).1 = .error f) :
    ∃ e, f = .ofCause e ∧ Blamed env.store tree e := by
  have values (blamed : ∃ e, f = .ofCause e ∧ e.OfValues) : ∃ e, f = .ofCause e ∧ Blamed env.store tree e := by
    obtain ⟨e, same, ofValues⟩ := blamed
    exact ⟨e, same, .values e ofValues⟩
  cases wellFormed with
  | number x => exact values (of_cause_blames _ _ f (Value.of_number_blames x) failed)
  | complex re im => exact values (of_cause_blames _ _ f (Value.of_complex_blames ⟨re, im⟩) failed)
  | «variable» slot => cases failed
  | string slot => exact of_cause_blames _ _ f (defined_absent env.store (.string slot) (.string slot) rfl) failed
  | equation slot => exact absurd rfl (other slot)
  | list slot => exact of_cause_blames _ _ f (defined_absent env.store (.list slot) (.list slot) rfl) failed
  | customList name =>
      exact of_cause_blames _ _ f (defined_absent env.store (.customList name) (.customList name) rfl) failed
  | matrix slot => exact of_cause_blames _ _ f (defined_absent env.store (.matrix slot) (.matrix slot) rfl) failed
  | operator op args notComma operandCount children =>
      by_cases store : op = .store
      · subst store
        exact ⟨.notImplemented, (Except.error.inj failed).symm, .unimplemented trivial⟩
      · rw [operands, if_neg store] at count
        rw [applyNode, if_neg store] at failed
        exact values (of_cause_blames _ _ f
          (apply_operator_blames env.mode op vals notComma store (count.trans operandCount)) failed)
  | call target args inRange argumentCount children =>
      by_cases answer : target = .builtin .answer
      · subst answer
        cases failed
      · by_cases key : target = .builtin .getKey
        · subst key
          cases failed
        · rw [operands, if_neg (not_or.mpr ⟨answer, key⟩)] at count
          rw [applyNode, applyCall, if_neg answer, if_neg key] at failed
          cases found : accessed env.store target with rw [found] at failed count
          | error e =>
              exact ⟨e, (Except.error.inj failed).symm, accessed_blamed env.store target args e found⟩
          | ok container =>
              rw [← count] at argumentCount
              cases target with
              | builtin called =>
                  cases found
                  exact apply_builtin_blamed env.mode env.store called args vals s f argumentCount
                    (fun same => answer (congrArg Target.builtin same)) (fun same => key (congrArg Target.builtin same)) failed
              | listElement slot | customListElement name | matrixElement slot =>
                  exact values (apply_access_blames env.mode env.store _ container vals s f (by simp) found argumentCount
                    failed)
  | braces args => exact values (of_cause_blames _ _ f (list_of_blames vals) failed)
  | brackets args => exact values (of_cause_blames _ _ f (matrix_of_blames vals) failed)
  | text bytes => cases failed

end Blame

section Sources

theorem equation_subtree (slot : UInt8) (part : Tree) (inside : part.Subtree (.equation slot)) :
    part = .equation slot := by
  cases inside with
  | root => rfl
  | under _ child member _ => cases member

theorem apply_node_strict (tree : Tree) (wellFormed : tree.WellFormed) (vals : List Value) (s : Supply) (v : Value)
    (done : (applyNode env tree vals s).1 = .ok v) : operands env.store tree = tree.children := by
  cases wellFormed with
  | operator op args =>
      by_cases store : op = .store
      · subst store
        cases done
      · rw [operands, if_neg store, Tree.children]
  | call target args _ count =>
      by_cases alone : target = .builtin .answer ∨ target = .builtin .getKey
      · have none : args = [] := by
          rcases alone with rfl | rfl
          · exact List.length_eq_zero_iff.mp (by simpa [Target.arity, Builtin.arity, Arity.exactly, Arity.allows] using count)
          · exact List.length_eq_zero_iff.mp (by simpa [Target.arity, Builtin.arity, Arity.exactly, Arity.allows] using count)
        rw [operands, if_pos alone, Tree.children, none]
      · rw [not_or] at alone
        rw [applyNode, applyCall, if_neg alone.1, if_neg alone.2] at done
        cases found : accessed env.store target with rw [found] at done
        | error e => cases done
        | ok container => simp only [operands, alone, found, or_self, if_false, Tree.children]
  | _ => rfl

variable (keeps : ∀ tokens s, (equation tokens s).2.depth = s.depth)

include keeps

theorem evaluate_with_ok (tree : Tree) (wellFormed : tree.WellFormed) (s : Supply) (v : Value)
    (done : (evaluateWith env equation tree s).1 = .ok v) (slot : UInt8)
    (mentioned : (Tree.equation slot).Subtree tree) :
    ∃ tokens s₁ w, env.store.get? (.equation slot) = some (.string tokens) ∧ s₁.depth = s.depth ∧
      (equation tokens s₁).1 = .ok w := by
  induction tree using Tree.children_induction generalizing s v with
  | node tree ih =>
      by_cases other : ∃ slot, tree = .equation slot
      · obtain ⟨slot', rfl⟩ := other
        cases equation_subtree slot' _ mentioned
        rw [evaluateWith] at done
        split at done
        · rename_i tokens stored
          exact ⟨tokens, s, v, stored, rfl, done⟩
        · cases done
        · cases done
      · rw [evaluate_with_node env equation tree s fun slot same => other ⟨slot, same⟩] at done
        obtain ⟨vals, s₁, evaluated, applied⟩ := and_then_ok _ _ v done
        have all := apply_node_strict env tree wellFormed vals s₁ v applied
        cases mentioned with
        | root => exact absurd ⟨slot, rfl⟩ other
        | under _ child member inside =>
            obtain ⟨s₂, w, depth, value⟩ := evaluate_all_ok env equation keeps _ s vals
              (congrArg Prod.fst evaluated) child (all ▸ member)
            obtain ⟨tokens, s₃, x, stored, same, found⟩ := ih child member
              (Tree.well_formed_child tree child wellFormed member) s₂ w value inside
            exact ⟨tokens, s₃, x, stored, same.trans depth, found⟩

theorem evaluate_with_error (tree : Tree) (wellFormed : tree.WellFormed) (s : Supply) (f : Fault)
    (failed : (evaluateWith env equation tree s).1 = .error f) :
    ∃ node, node.Subtree tree ∧ ((∃ e, f = .ofCause e ∧ Blamed env.store node e) ∨
      ∃ slot tokens s₁, node = .equation slot ∧ env.store.get? (.equation slot) = some (.string tokens) ∧
        s₁.depth = s.depth ∧ (equation tokens s₁).1 = .error f) := by
  induction tree using Tree.children_induction generalizing s with
  | node tree ih =>
      by_cases other : ∃ slot, tree = .equation slot
      · obtain ⟨slot, rfl⟩ := other
        refine ⟨_, .root, ?_⟩
        rw [evaluateWith] at failed
        split at failed
        · rename_i tokens stored
          exact Or.inr ⟨slot, tokens, s, rfl, stored, rfl, failed⟩
        · exact Or.inl ⟨.dataType, (Except.error.inj failed).symm, .values _ trivial⟩
        · rename_i nothing
          exact Or.inl ⟨.undefined, (Except.error.inj failed).symm, .absent (.equation slot) rfl nothing⟩
      · have notEquation (slot : UInt8) : tree ≠ .equation slot := fun same => other ⟨slot, same⟩
        rw [evaluate_with_node env equation tree s notEquation] at failed
        rcases and_then_error _ _ f failed with below | ⟨vals, s₁, evaluated, here⟩
        · obtain ⟨child, operand, s₁, depth, found⟩ := evaluate_all_error env equation keeps _ s f below
          have member := operands_children env.store tree child operand
          obtain ⟨node, inside, source⟩ := ih child member (Tree.well_formed_child tree child wellFormed member) s₁ found
          refine ⟨node, .under tree child member inside, ?_⟩
          rw [← depth]
          exact source
        · have count := evaluate_all_length env equation _ s vals (congrArg Prod.fst evaluated)
          exact ⟨tree, .root, Or.inl (apply_node_blamed env tree wellFormed notEquation vals count s₁ f here)⟩

end Sources

end Evaluation

end GraphCalc

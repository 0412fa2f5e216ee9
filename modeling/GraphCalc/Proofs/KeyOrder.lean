import GraphCalc.Proofs.Arguments
import GraphCalc.Proofs.Finiteness

set_option autoImplicit false

namespace GraphCalc

namespace Tree

def asksKey : Tree → Bool
  | .call target _ => target = .builtin .getKey
  | _ => false

def keyCount (tree : Tree) : Nat := tree.leaves.countP asksKey

def keyCountMore (trees : List Tree) : Nat := (leavesMore trees).countP asksKey

-- The tree with the keys written in, zero once there are no more.
mutual
def withKeys (keys : List Float32) : Tree → Tree
  | .operator op args => .operator op (withKeysMore keys args)
  | .call target args =>
      if target = .builtin .getKey then .number (keys.headD 0) else .call target (withKeysMore keys args)
  | .braces args => .braces (withKeysMore keys args)
  | .brackets args => .brackets (withKeysMore keys args)
  | tree => tree

def withKeysMore (keys : List Float32) : List Tree → List Tree
  | [] => []
  | tree :: rest => withKeys keys tree :: withKeysMore (keys.drop tree.keyCount) rest
end

def leavesWithKeys : List Float32 → List Tree → List Tree
  | _, [] => []
  | keys, leaf :: rest =>
    if leaf.asksKey then .number (keys.headD 0) :: leavesWithKeys keys.tail rest else leaf :: leavesWithKeys keys rest

theorem asks_key_iff (tree : Tree) : tree.asksKey = true ↔ ∃ args, tree = .call (.builtin .getKey) args := by
  cases tree <;> simp [asksKey]

theorem asks_key_leaf (tree : Tree) (wellFormed : tree.WellFormed) (key : tree.asksKey = true) :
    tree = .call (.builtin .getKey) [] := by
  obtain ⟨args, rfl⟩ := tree.asks_key_iff.mp key
  cases wellFormed with
  | call _ _ _ count =>
      have none : args.length = 0 := by simpa [Target.arity, Builtin.arity, Arity.exactly, Arity.allows] using count
      rw [List.length_eq_zero_iff.mp none]

theorem well_formed_expression (tree : Tree) (wellFormed : tree.WellFormed) : tree.isCommand = false := by
  cases wellFormed <;> rfl

theorem inner_leaves (tree : Tree) (expression : tree.isCommand = false) (inner : tree.children ≠ []) :
    tree.leaves = leavesMore tree.children := by
  cases tree with
  | operator _ args | call _ args | braces args | brackets args =>
      cases args with
      | nil => exact absurd rfl inner
      | cons first more => rfl
  | command => cases expression
  | _ => exact absurd rfl inner

theorem key_count_cons (tree : Tree) (rest : List Tree) :
    keyCountMore (tree :: rest) = tree.keyCount + keyCountMore rest :=
  List.countP_append

theorem key_count_children (tree : Tree) (expression : tree.isCommand = false) (other : tree.asksKey = false) :
    tree.keyCount = keyCountMore tree.children := by
  by_cases inner : tree.children = []
  · rw [keyCount, tree.leaf_leaves inner, inner]
    simp [other, keyCountMore, leavesMore]
  · rw [keyCount, keyCountMore, tree.inner_leaves expression inner]

section WithKeys

variable (keys : List Float32) (tree : Tree)

theorem with_keys_children (other : tree.asksKey = false) (expression : tree.isCommand = false) :
    (tree.withKeys keys).children = withKeysMore keys tree.children := by
  cases tree with
  | call target args =>
      have notKey : target ≠ .builtin .getKey := by simpa [asksKey] using other
      rw [withKeys, if_neg notKey, children, children]
  | command => cases expression
  | _ => rfl

theorem with_keys_expression (expression : tree.isCommand = false) : (tree.withKeys keys).isCommand = false := by
  cases tree with
  | call target args =>
      rw [withKeys]
      split <;> rfl
  | command => cases expression
  | _ => rfl

theorem with_keys_leaf (other : tree.asksKey = false) (leaf : tree.children = []) : tree.withKeys keys = tree := by
  cases tree with
  | operator _ args | braces args | brackets args =>
      cases (leaf : args = [])
      rfl
  | call target args =>
      have notKey : target ≠ .builtin .getKey := by simpa [asksKey] using other
      cases (leaf : args = [])
      rw [withKeys, if_neg notKey, withKeysMore]
  | _ => rfl

theorem with_keys_equation (other : ∀ slot, tree ≠ .equation slot) (slot : UInt8) : tree.withKeys keys ≠ .equation slot := by
  cases tree with
  | equation slot => exact absurd rfl (other slot)
  | call target args =>
      rw [withKeys]
      split <;> simp
  | _ => simp [withKeys]

omit tree in
theorem leaves_with_keys_append (front back : List Tree) :
    leavesWithKeys keys (front ++ back) =
      leavesWithKeys keys front ++ leavesWithKeys (keys.drop (front.countP asksKey)) back := by
  induction front generalizing keys with
  | nil => rfl
  | cons leaf front ih =>
      rw [List.cons_append, leavesWithKeys, leavesWithKeys]
      cases key : leaf.asksKey with
      | true => simp [key, ih, List.drop_tail]
      | false => simp [key, ih]

omit tree in
theorem with_keys_more_leaves (trees : List Tree)
    (each : ∀ tree ∈ trees, ∀ keys, (tree.withKeys keys).leaves = leavesWithKeys keys tree.leaves) :
    leavesMore (withKeysMore keys trees) = leavesWithKeys keys (leavesMore trees) := by
  induction trees generalizing keys with
  | nil => rfl
  | cons tree rest ih =>
      rw [withKeysMore, leavesMore, leavesMore, leaves_with_keys_append, each tree (by simp),
        ih _ fun tree member => each tree (by simp [member])]
      rfl

theorem with_keys_leaves (wellFormed : tree.WellFormed) : (tree.withKeys keys).leaves = leavesWithKeys keys tree.leaves := by
  induction tree using children_induction generalizing keys with
  | node tree ih =>
      have expression := tree.well_formed_expression wellFormed
      cases key : tree.asksKey with
      | true =>
          rw [tree.asks_key_leaf wellFormed key]
          rfl
      | false =>
          by_cases inner : tree.children = []
          · rw [tree.with_keys_leaf keys key inner, tree.leaf_leaves inner]
            simp [leavesWithKeys, key]
          · have replaced := with_keys_more_leaves keys tree.children fun child member keys =>
              ih child member keys (tree.well_formed_child child wellFormed member)
            have filled : (tree.withKeys keys).children ≠ [] := by
              rw [tree.with_keys_children keys key expression]
              cases found : tree.children with
              | nil => exact absurd found inner
              | cons first more => simp [withKeysMore]
            rw [inner_leaves _ (tree.with_keys_expression keys expression) filled, tree.inner_leaves expression inner,
              tree.with_keys_children keys key expression, replaced]

end WithKeys

end Tree

theorem Supply.key_head (s : Supply) : s.key = (s.keys.headD 0, { s with keys := s.keys.drop 1 }) := by
  obtain ⟨keys, generator, depth⟩ := s
  cases keys <;> rfl

namespace Evaluation

open GraphCalc.Tree

-- With other keys waiting, the second evaluation comes to the same end; the first has read `count` keys by then.
structure Foretold {α : Type} (keys waiting : List Float32) (count : Nat) (asked told : Outcome α) : Prop where
  result : told.1 = asked.1
  supply : told.2 = { asked.2 with keys := waiting }
  taken : ∀ x, asked.1 = .ok x → asked.2.keys = keys.drop count

section Foretold

variable {α β : Type} (keys waiting : List Float32)

theorem foretold_then (a b : Nat) (asked told : Outcome α) (next next' : α → Supply → Outcome β)
    (first : Foretold keys waiting a asked told)
    (later : ∀ x s, s.keys = keys.drop a → Foretold s.keys waiting b (next x s) (next' x { s with keys := waiting })) :
    Foretold keys waiting (a + b) (andThen asked next) (andThen told next') := by
  obtain ⟨result, s⟩ := asked
  obtain ⟨result', s'⟩ := told
  obtain ⟨same, supply, taken⟩ := first
  cases (same : result' = result)
  cases (supply : s' = _)
  cases result with
  | error f => exact ⟨rfl, rfl, fun _ done => by cases done⟩
  | ok x =>
      have here : s.keys = keys.drop a := taken x rfl
      have rest := later x s here
      refine ⟨rest.result, rest.supply, fun y done => ?_⟩
      have left := rest.taken y done
      rw [here, List.drop_drop] at left
      exact left

variable (env : Surroundings)

theorem random_waiting (vals : List Value) (s : Supply) :
    random vals { s with keys := waiting } = ((random vals s).1, { (random vals s).2 with keys := waiting }) := by
  unfold random
  split
  · rfl
  · split
    · rfl
    · rename_i n _
      by_cases outside : n < 1 ∨ 999 < n
      · simp only [if_pos outside]
      · simp only [if_neg outside]
        rfl

theorem random_matrix_waiting (vals : List Value) (s : Supply) :
    randomMatrix vals { s with keys := waiting } =
      ((randomMatrix vals s).1, { (randomMatrix vals s).2 with keys := waiting }) := by
  unfold randomMatrix
  split <;> rfl

theorem apply_target_foretold (mode : Mode) (target : Target) (container : Option Value) (vals : List Value) (s : Supply) :
    Foretold s.keys waiting 0 (applyTarget mode target container vals s)
      (applyTarget mode target container vals { s with keys := waiting }) := by
  have same : applyTarget mode target container vals { s with keys := waiting } =
      ((applyTarget mode target container vals s).1,
        { (applyTarget mode target container vals s).2 with keys := waiting }) := by
    unfold applyTarget
    split
    · exact random_waiting waiting vals s
    · exact random_matrix_waiting waiting vals s
    · rfl
    · rfl
    · rfl
    · rfl
  obtain ⟨k, drawn⟩ := apply_target_supply mode target container vals s
  refine ⟨by rw [same], by rw [same], fun _ _ => ?_⟩
  rw [drawn, List.drop_zero]

theorem apply_node_foretold (tree : Tree) (other : tree.asksKey = false) (vals : List Value) (s : Supply) :
    Foretold s.keys waiting 0 (applyNode env tree vals s)
      (applyNode env (tree.withKeys keys) vals { s with keys := waiting }) := by
  cases tree with
  | operator op args =>
      rw [withKeys, applyNode, applyNode]
      split <;> exact ⟨rfl, rfl, fun _ _ => rfl⟩
  | call target args =>
      have notKey : target ≠ .builtin .getKey := by simpa [asksKey] using other
      rw [withKeys, if_neg notKey, applyNode, applyNode, applyCall, applyCall, if_neg notKey, if_neg notKey]
      by_cases answer : target = .builtin .answer
      · rw [if_pos answer, if_pos answer]
        exact ⟨rfl, rfl, fun _ _ => rfl⟩
      · rw [if_neg answer, if_neg answer]
        cases accessed env.store target with
        | error e => exact ⟨rfl, rfl, fun _ _ => rfl⟩
        | ok container => exact apply_target_foretold waiting env.mode target container vals s
  | _ => exact ⟨rfl, rfl, fun _ _ => rfl⟩

theorem with_keys_operands (store : Store) (tree : Tree) (other : tree.asksKey = false) :
    operands store (tree.withKeys keys) = withKeysMore keys (operands store tree) := by
  cases tree with
  | operator op args =>
      rw [withKeys, operands, operands]
      split <;> simp [withKeysMore]
  | call target args =>
      have notKey : target ≠ .builtin .getKey := by simpa [asksKey] using other
      rw [withKeys, if_neg notKey, operands, operands]
      split
      · simp [withKeysMore]
      · cases accessed store target <;> simp [withKeysMore]
  | _ => simp [withKeys, operands, withKeysMore, children]

variable (equation : Bytes → Supply → Outcome Value)

theorem evaluate_all_foretold (trees : List Tree) (s : Supply) (finite : s.KeysFinite)
    (each : ∀ tree ∈ trees, ∀ s : Supply, s.KeysFinite → Foretold s.keys waiting tree.keyCount
      (evaluateWith env equation tree s) (evaluateWith env equation (tree.withKeys s.keys) { s with keys := waiting })) :
    Foretold s.keys waiting (keyCountMore trees) (evaluateAllWith env equation trees s)
      (evaluateAllWith env equation (withKeysMore s.keys trees) { s with keys := waiting }) := by
  induction trees generalizing s with
  | nil => exact ⟨rfl, rfl, fun _ _ => rfl⟩
  | cons tree rest ih =>
      rw [withKeysMore, evaluateAllWith, evaluateAllWith, key_count_cons]
      refine foretold_then _ _ _ _ _ _ _ _ (each tree (by simp) s finite) fun v s₁ left => ?_
      have finiteLeft : s₁.KeysFinite := fun k member => finite k (List.mem_of_mem_drop (left ▸ member))
      rw [← left]
      exact foretold_then _ _ _ 0 _ _ _ _ (ih s₁ finiteLeft fun tree member => each tree (by simp [member]))
        fun vals s₂ _ => ⟨rfl, rfl, fun _ _ => rfl⟩

theorem key_foretold (s : Supply) (finite : s.KeysFinite) :
    Foretold s.keys waiting 1 (evaluateWith env equation (.call (.builtin .getKey) []) s)
      (evaluateWith env equation (.number (s.keys.headD 0)) { s with keys := waiting }) := by
  have ordinary := (s.key_finite finite).1
  rw [s.key_head] at ordinary
  have written : ofCause (Value.ofNumber (s.keys.headD 0)) = .ok (.number (s.keys.headD 0)) := by
    rw [Value.ofNumber, guard_passes _ ordinary]
    rfl
  rw [evaluateWith, evaluateWith, written, s.key_head]
  exact ⟨rfl, rfl, fun _ _ => rfl⟩

theorem evaluate_foretold (tree : Tree) (wellFormed : tree.WellFormed) (alone : ∀ slot, ¬ tree.Mentions slot) (s : Supply)
    (finite : s.KeysFinite) :
    Foretold s.keys waiting tree.keyCount (evaluateWith env equation tree s)
      (evaluateWith env equation (tree.withKeys s.keys) { s with keys := waiting }) := by
  induction tree using children_induction generalizing s with
  | node tree ih =>
      cases key : tree.asksKey with
      | true =>
          rw [tree.asks_key_leaf wellFormed key]
          exact key_foretold waiting env equation s finite
      | false =>
          have other (slot : UInt8) : tree ≠ .equation slot := by
            rintro rfl
            exact alone slot .root
          rw [evaluate_with_node env equation tree s other,
            evaluate_with_node env equation _ _ (tree.with_keys_equation s.keys other),
            with_keys_operands s.keys env.store tree key]
          have operandsTold := evaluate_all_foretold waiting env equation (operands env.store tree) s finite
            fun child member s₁ finiteLeft =>
              have among := operands_children env.store tree child member
              ih child among (tree.well_formed_child child wellFormed among)
                (fun slot inside => alone slot (.under tree child among inside)) s₁ finiteLeft
          have told := foretold_then _ _ _ 0 _ _ _ _ operandsTold fun vals s₁ _ =>
            apply_node_foretold s.keys waiting env tree key vals s₁
          refine ⟨told.result, told.supply, fun v done => ?_⟩
          obtain ⟨vals, s₁, _, applied⟩ := and_then_ok _ _ v done
          rw [told.taken v done, apply_node_strict env tree wellFormed vals s₁ v applied,
            tree.key_count_children (tree.well_formed_expression wellFormed) key, Nat.add_zero]

end Foretold

end Evaluation

namespace Machine

open Expression

theorem keys_read_in_source_order (stops : Stops) (c : Cursor) (tree : Tree) (parsed : (parse stops c).1 = .ok tree)
    (alone : ∀ slot, ¬ tree.Mentions slot) (m : Machine) (finite : m.supply.KeysFinite) (waiting : List Float32) :
    let typed := tree.withKeys m.supply.keys
    let asked := m.evaluate tree
    let told := { m with supply := { m.supply with keys := waiting } }.evaluate typed
    told = (asked.1, { asked.2 with supply := { asked.2.supply with keys := waiting } }) ∧
      (∀ v, asked.1 = .ok v → asked.2.supply.keys = m.supply.keys.drop tree.keyCount) ∧
      typed.leaves = Tree.leavesWithKeys m.supply.keys tree.leaves ∧
      (stops = lineOnly → ∃ all, source c.rest = .ok all ∧ tree.leaves = all.filterMap Item.operand?) := by
  have wellFormed := parsed_well_formed stops c tree parsed
  have told := Evaluation.evaluate_foretold waiting m.surroundings
    (Evaluation.equationAt m.surroundings Evaluation.equationDepth) tree wellFormed alone m.supply finite
  refine ⟨Prod.ext told.result ?_, told.taken, tree.with_keys_leaves m.supply.keys wellFormed, ?_⟩
  · exact congrArg (fun supply => ({ m with supply := supply } : Machine)) told.supply
  · rintro rfl
    exact parse_leaves c tree parsed

-- The key read first is taken away from, the one read second is taken away.
theorem difference_of_keys :
    let tree : Tree := .operator .subtract [.call (.builtin .getKey) [], .call (.builtin .getKey) []]
    let m := { Machine.initial with supply := ⟨[45, 21, 34], .congruential 1, 0⟩ }
    (parse lineOnly (.start [Byte.getKey, 0x71, Byte.getKey] false)).1 = .ok tree ∧ (∀ slot, ¬ tree.Mentions slot) ∧
      m.supply.KeysFinite ∧
      (m.evaluate tree).1 = ({ m with supply := ⟨[], .congruential 1, 0⟩ }.evaluate (.operator .subtract [.number 45, .number 21])).1 ∧
      ∀ v, (m.evaluate tree).1 = .ok v → (m.evaluate tree).2.supply.keys = [34] := by
  intro tree m
  have parsed : (parse lineOnly (.start [Byte.getKey, 0x71, Byte.getKey] false)).1 = .ok tree :=
    (parse_ok _ _ _).mpr (by cbv)
  have alone (slot : UInt8) : ¬ tree.Mentions slot := by
    intro mentioned
    unfold tree at mentioned
    cases mentioned with
    | under _ child member inside =>
        have asks : child = .call (.builtin .getKey) [] := by simpa [Tree.children] using member
        rw [asks] at inside
        cases inside with
        | under _ child member _ => cases member
  have finite : m.supply.KeysFinite := by
    change ∀ k ∈ [45, 21, 34], Float32.isFinite k = true
    simp only [List.forall_mem_cons, List.not_mem_nil, false_implies, implies_true, and_true]
    decide +kernel
  obtain ⟨same, taken, _⟩ := keys_read_in_source_order _ _ tree parsed alone m finite []
  exact ⟨parsed, alone, finite, (congrArg Prod.fst same).symm, taken⟩

end Machine

end GraphCalc

import GraphCalc.Proofs.Equations

set_option autoImplicit false

namespace GraphCalc

namespace Store

theorem opened_before (store : Store) (start next tree : Tree) (slot : UInt8) (path : List UInt8)
    (mentioned : start.Mentions slot) (reads : store.EquationReads slot next) (opened : store.Opened next path tree) :
    store.Opened start (path ++ [slot]) tree := by
  induction opened with
  | top => exact .inner [] start next slot .top mentioned reads
  | inner path tree inner innerSlot _ inside innerReads ih => exact .inner _ tree inner innerSlot ih inside innerReads

end Store

namespace Evaluation

theorem of_cause_ok {α : Type} (result : Except Cause α) (x : α) (done : ofCause result = .ok x) : result = .ok x := by
  cases result with
  | error e => cases done
  | ok y => exact congrArg Except.ok (Except.ok.inj done)

-- As `Yields`, for a result that comes with what is left of the supply.
def Gives (P : Value → Prop) (outcome : Outcome Value) : Prop := ∀ v, outcome.1 = .ok v → P v

@[simp]
theorem gives_ok (P : Value → Prop) (v : Value) (s : Supply) : Gives P (.ok v, s) ↔ P v := by
  constructor
  · exact fun gives => gives v rfl
  · intro holds w same
    cases same
    exact holds

@[simp]
theorem gives_error (P : Value → Prop) (f : Fault) (s : Supply) : Gives P (.error f, s) := by
  intro v same
  cases same

@[simp]
theorem gives_of_cause (P : Value → Prop) (result : Except Cause Value) (s : Supply) :
    Gives P (ofCause result, s) ↔ Yields P result := by
  constructor
  · intro gives v done
    exact gives v (by rw [done]; rfl)
  · exact fun yields v done => yields v (of_cause_ok result v done)

variable (env : Surroundings) (equation : Bytes → Supply → Outcome Value)
variable (P : Value → Prop) (Kept : Supply → Prop)

-- All operands of the node have values in `P`, and the node makes one of them that is not.
def Spoils (node : Tree) : Prop :=
  ∃ before vals after v, (∀ slot, node ≠ .equation slot) ∧ Kept after ∧
    evaluateAllWith env equation (operands env.store node) before = (.ok vals, after) ∧ (∀ w ∈ vals, P w) ∧
    (applyNode env node vals after).1 = .ok v ∧ ¬ P v

variable (keptNode : ∀ tree vals s, Kept s → Kept (applyNode env tree vals s).2)
variable (keptEquation : ∀ tokens s, Kept s → Kept (equation tokens s).2)

theorem and_then_kept {α β : Type} (first : Outcome α) (next : α → Supply → Outcome β) (before : Kept first.2)
    (after : ∀ x s, Kept s → Kept (next x s).2) : Kept (andThen first next).2 := by
  obtain ⟨result, s⟩ := first
  cases result with
  | error f => exact before
  | ok x => exact after x s before

theorem evaluate_all_kept (trees : List Tree) (s : Supply) (kept : Kept s)
    (each : ∀ tree ∈ trees, ∀ s, Kept s → Kept (evaluateWith env equation tree s).2) :
    Kept (evaluateAllWith env equation trees s).2 := by
  induction trees generalizing s with
  | nil => exact kept
  | cons tree rest ih =>
      rw [evaluateAllWith]
      refine and_then_kept Kept _ _ (each tree (by simp) s kept) fun v s₁ kept => ?_
      exact and_then_kept Kept _ _ (ih s₁ kept fun tree member => each tree (by simp [member])) fun _ _ kept => kept

include keptNode keptEquation

theorem evaluate_with_kept (tree : Tree) (s : Supply) (kept : Kept s) : Kept (evaluateWith env equation tree s).2 := by
  induction tree using Tree.children_induction generalizing s with
  | node tree ih =>
      by_cases other : ∃ slot, tree = .equation slot
      · obtain ⟨slot, rfl⟩ := other
        rw [evaluateWith]
        split
        · exact keptEquation _ s kept
        · exact kept
        · exact kept
      · rw [evaluate_with_node env equation tree s fun slot same => other ⟨slot, same⟩]
        refine and_then_kept Kept _ _ ?_ fun vals s₁ kept => keptNode tree vals s₁ kept
        exact evaluate_all_kept env equation Kept _ s kept fun child member =>
          ih child (operands_children env.store tree child member)

theorem evaluate_all_lost (trees : List Tree) (s : Supply) (kept : Kept s) (vals : List Value)
    (done : (evaluateAllWith env equation trees s).1 = .ok vals) :
    (∀ w ∈ vals, P w) ∨
      ∃ tree ∈ trees, ∃ s₁ v, Kept s₁ ∧ (evaluateWith env equation tree s₁).1 = .ok v ∧ ¬ P v := by
  induction trees generalizing s vals with
  | nil => cases done; simp
  | cons tree rest ih =>
      rw [evaluateAllWith] at done
      obtain ⟨v, s₁, evaluated, later⟩ := and_then_ok _ _ vals done
      obtain ⟨others, s₂, evaluatedRest, same⟩ := and_then_ok _ _ vals later
      cases same
      by_cases holds : P v
      · have keptNext := evaluate_with_kept env equation Kept keptNode keptEquation tree s kept
        rw [evaluated] at keptNext
        rcases ih s₁ keptNext others (congrArg Prod.fst evaluatedRest) with all | ⟨child, member, lost⟩
        · exact Or.inl (by simpa [holds] using all)
        · exact Or.inr ⟨child, by simp [member], lost⟩
      · exact Or.inr ⟨tree, by simp, s, v, kept, congrArg Prod.fst evaluated, holds⟩

theorem evaluate_with_lost (tree : Tree) (s : Supply) (kept : Kept s) (v : Value)
    (done : (evaluateWith env equation tree s).1 = .ok v) (lost : ¬ P v) :
    ∃ node, node.Subtree tree ∧ (Spoils env equation P Kept node ∨
      ∃ slot tokens s₁ w, node = .equation slot ∧ env.store.get? (.equation slot) = some (.string tokens) ∧
        Kept s₁ ∧ (equation tokens s₁).1 = .ok w ∧ ¬ P w) := by
  induction tree using Tree.children_induction generalizing s v with
  | node tree ih =>
      by_cases other : ∃ slot, tree = .equation slot
      · obtain ⟨slot, rfl⟩ := other
        rw [evaluateWith] at done
        split at done
        · rename_i tokens stored
          exact ⟨_, .root, Or.inr ⟨slot, tokens, s, v, rfl, stored, kept, done, lost⟩⟩
        · cases done
        · cases done
      · have notEquation (slot : UInt8) : tree ≠ .equation slot := fun same => other ⟨slot, same⟩
        rw [evaluate_with_node env equation tree s notEquation] at done
        obtain ⟨vals, s₁, evaluated, applied⟩ := and_then_ok _ _ v done
        rcases evaluate_all_lost env equation P Kept keptNode keptEquation _ s kept vals
          (congrArg Prod.fst evaluated) with all | ⟨child, operand, s₂, w, keptChild, value, lostChild⟩
        · have keptAfter := evaluate_all_kept env equation Kept (operands env.store tree) s kept fun child _ =>
            evaluate_with_kept env equation Kept keptNode keptEquation child
          rw [evaluated] at keptAfter
          exact ⟨tree, .root, Or.inl ⟨s, vals, s₁, v, notEquation, keptAfter, evaluated, all, applied, lost⟩⟩
        · have member := operands_children env.store tree child operand
          obtain ⟨node, inside, source⟩ := ih child member s₂ keptChild w value lostChild
          exact ⟨node, .under tree child member inside, source⟩

omit equation keptEquation

variable (keptDepth : ∀ s, Kept s → Kept s.enter ∧ Kept s.leave)

include keptDepth

theorem equation_at_kept (levels : Nat) (tokens : Bytes) (s : Supply) (kept : Kept s) :
    Kept (equationAt env levels tokens s).2 := by
  induction levels generalizing tokens s with
  | zero => exact kept
  | succ levels ih =>
      rw [equationAt]
      split
      · exact kept
      · split
        · exact kept
        · rename_i tree _
          have inner := evaluate_with_kept env (equationAt env levels) Kept keptNode ih tree s.enter (keptDepth s kept).1
          exact (keptDepth _ inner).2

-- A tree, or an equation opened from it, has a node where the property was lost.
def Origin (start : Tree) : Prop :=
  ∃ path tree node levels, env.store.Opened start path tree ∧ node.Subtree tree ∧
    Spoils env (equationAt env levels) P Kept node

theorem evaluate_at_lost (levels : Nat) (tree : Tree) (s : Supply) (kept : Kept s) (v : Value)
    (done : (evaluateWith env (equationAt env levels) tree s).1 = .ok v) (lost : ¬ P v) : Origin env P Kept tree := by
  have keptEquation := equation_at_kept env Kept keptNode keptDepth
  induction levels generalizing tree s v with
  | zero =>
      obtain ⟨node, inside, spoils | ⟨_, _, _, _, _, _, _, never, _⟩⟩ :=
        evaluate_with_lost env _ P Kept keptNode (keptEquation 0) tree s kept v done lost
      · exact ⟨[], tree, node, 0, .top, inside, spoils⟩
      · cases never
  | succ levels ih =>
      obtain ⟨node, inside, spoils | ⟨slot, tokens, s₁, w, rfl, stored, keptInner, value, lostInner⟩⟩ :=
        evaluate_with_lost env _ P Kept keptNode (keptEquation (levels + 1)) tree s kept v done lost
      · exact ⟨[], tree, node, levels + 1, .top, inside, spoils⟩
      · rw [equationAt] at value
        split at value
        · cases value
        · split at value
          · cases value
          · rename_i next parsed
            obtain ⟨path, last, node, rest, opened, below, spoils⟩ :=
              ih next s₁.enter (keptDepth s₁ keptInner).1 w value lostInner
            exact ⟨path ++ [slot], last, node, rest,
              env.store.opened_before tree next last slot path inside ⟨tokens, stored, parsed⟩ opened, below, spoils⟩

end Evaluation

end GraphCalc

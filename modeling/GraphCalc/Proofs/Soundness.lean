import GraphCalc.Proofs.Nodes
import GraphCalc.Session

set_option autoImplicit false

namespace GraphCalc

def Slot.isEquation : Slot → Bool
  | .equation _ => true
  | _ => false

namespace Evaluation

theorem blamed_kind (store : Store) (node : Tree) (e : Cause) (blamed : Blamed store node e) :
    e.kind ≠ .malformed ∧ e.kind ≠ .memory ∧ e.kind ≠ .interrupted ∧
      (e.kind = .notImplemented → node.Unimplemented) ∧
        (e.kind = .undefined → ∃ slot, node.reads? = some slot ∧ store.get? slot = none) := by
  cases blamed with
  | values e ofValues => cases e <;> simp_all [Cause.kind]
  | unimplemented node => simp [Cause.kind, node]
  | absent slot reads nothing => exact ⟨by simp [Cause.kind], by simp [Cause.kind], by simp [Cause.kind],
      by simp [Cause.kind], fun _ => ⟨slot, reads, nothing⟩⟩

end Evaluation

namespace Machine

theorem parsed_tree_fails_soundly (stops : Expression.Stops) (c : Cursor) (tree : Tree)
    (parsed : (Expression.parse stops c).1 = .ok tree) (m : Machine)
    (noEquations : ∀ slot, m.store.get? (.equation slot) = none) (f : Fault)
    (failed : (m.evaluate tree).1 = .error f) :
    f.cause ≠ .missingArgument ∧ f.cause.kind ≠ .malformed ∧ f.cause.kind ≠ .memory ∧
      f.cause.kind ≠ .interrupted ∧
      (f.cause.kind = .notImplemented → ∃ node : Tree, node.Subtree tree ∧ node.Unimplemented) ∧
      (f.cause.kind = .undefined →
        ∃ (node : Tree) (slot : Slot), node.Subtree tree ∧ node.reads? = some slot ∧ m.store.get? slot = none) := by
  have wellFormed := Expression.parsed_well_formed stops c tree parsed
  obtain ⟨node, inside, ⟨e, rfl, blamed⟩ | ⟨slot, tokens, _, _, stored, _, _⟩⟩ :=
    Evaluation.evaluate_with_error m.surroundings _
      (Evaluation.equation_at_depth m.surroundings Evaluation.equationDepth) tree wellFormed m.supply f failed
  · obtain ⟨formed, room, running, implemented, stored⟩ := Evaluation.blamed_kind m.store node e blamed
    refine ⟨?_, formed, room, running, fun kind => ⟨node, inside, implemented kind⟩, fun kind => ?_⟩
    · intro same
      exact formed (congrArg Cause.kind same)
    · obtain ⟨slot, reads, nothing⟩ := stored kind
      exact ⟨node, slot, inside, reads, nothing⟩
  · have nothing := noEquations slot
    change m.store.get? (.equation slot) = _ at stored
    rw [nothing] at stored
    cases stored

-- The greatest of `A` and an element of the first list, which is not there.
theorem missing_list_fails_soundly :
    let tree : Tree := .call (.builtin .maximum) [.variable 0, .call (.listElement 0) [.variable 1]]
    (Expression.parse ⟨false, false⟩ (.start [0x19, 0x41, 0x2B, 0x5D, 0x00, 0x10, 0x42, 0x11, 0x11] false)).1 = .ok tree ∧
      (∀ slot, initial.store.get? (.equation slot) = none) ∧
      (initial.evaluate tree).1 = .error (.ofCause .undefined) ∧
      ∃ (node : Tree) (slot : Slot), node.Subtree tree ∧ node.reads? = some slot ∧ initial.store.get? slot = none := by
  intro tree
  have parsed : (Expression.parse ⟨false, false⟩ (.start [0x19, 0x41, 0x2B, 0x5D, 0x00, 0x10, 0x42, 0x11, 0x11] false)).1 =
      .ok tree := (Expression.parse_ok _ _ _).mpr (by cbv)
  have failed : (initial.evaluate tree).1 = .error (.ofCause .undefined) := rfl
  exact ⟨parsed, fun _ => rfl, failed,
    (parsed_tree_fails_soundly _ _ tree parsed initial (fun _ => rfl) _ failed).2.2.2.2.2 rfl⟩

-- An equation that was never stored is as undefined as a list, and no list, string or matrix is at fault.
theorem absent_equation_undefined :
    (Expression.parse ⟨false, false⟩ (.start [0x5E, 0x10] false)).1 = .ok (.equation 0) ∧
      (∀ slot, initial.store.get? (.equation slot) = none) ∧
      (initial.evaluate (.equation 0)).1 = .error (.ofCause .undefined) ∧
      ¬ ∃ (node : Tree) (slot : Slot), node.Subtree (.equation 0) ∧ node.reads? = some slot ∧ slot.isEquation = false ∧
        initial.store.get? slot = none := by
  refine ⟨(Expression.parse_ok _ _ _).mpr (by cbv), fun _ => rfl, rfl, ?_⟩
  rintro ⟨node, slot, inside, reads, other, _⟩
  cases Evaluation.equation_subtree 0 node inside
  cases reads
  cases other

end Machine

end GraphCalc

import GraphCalc.Proofs.Equations

set_option autoImplicit false

namespace GraphCalc

def Builtin.readsAngle (f : Builtin) : Bool :=
  [.sin, .cos, .tan, .arcsin, .arccos, .arctan, .polarAngle, .cartesianX, .cartesianY].contains f

def Operator.readsAngle (op : Operator) : Bool := [.degrees, .radians].contains op

def Tree.readsAngle : Tree → Bool
  | .operator op _ => op.readsAngle
  | .call (.builtin f) _ => f.readsAngle
  | _ => false

-- Somewhere in the tree, or in an equation that is opened from it.
def Store.ReadsAngle (store : Store) (start : Tree) : Prop :=
  ∃ path tree, ∃ node : Tree, store.Opened start path tree ∧ node.Subtree tree ∧ node.readsAngle = true

section Angles

variable (mode mode' : Mode)

theorem Mode.to_radians_angle (same : mode.angle = mode'.angle) : mode.toRadians = mode'.toRadians := by
  funext x
  rw [toRadians, toRadians, same]

theorem Mode.of_radians_angle (same : mode.angle = mode'.angle) : mode.ofRadians = mode'.ofRadians := by
  funext x
  rw [ofRadians, ofRadians, same]

theorem Function.apply_one_angle (f : Builtin) (agree : f.readsAngle = true → mode.angle = mode'.angle) (v : Value) :
    applyOne mode f v = applyOne mode' f v := by
  cases f with
  | sin | cos => rw [applyOne, applyOne, mode.to_radians_angle mode' (agree rfl)]
  | tan =>
      have same : tangent mode = tangent mode' := by
        funext x
        rw [tangent, tangent, mode.to_radians_angle mode' (agree rfl)]
      rw [applyOne, applyOne, same]
  | arcsin | arccos | arctan => rw [applyOne, applyOne, mode.of_radians_angle mode' (agree rfl)]
  | _ => rfl

theorem Function.apply_two_angle (f : Builtin) (agree : f.readsAngle = true → mode.angle = mode'.angle) (v w : Value) :
    applyTwo mode f v w = applyTwo mode' f v w := by
  cases f with
  | polarAngle => rw [applyTwo, applyTwo, mode.of_radians_angle mode' (agree rfl)]
  | cartesianX | cartesianY => rw [applyTwo, applyTwo, mode.to_radians_angle mode' (agree rfl)]
  | _ => rfl

theorem Function.apply_angle (f : Builtin) (agree : f.readsAngle = true → mode.angle = mode'.angle) (args : List Value) :
    apply mode f args = apply mode' f args := by
  unfold apply
  split
  · split
    · rfl
    · rfl
    · rfl
    · exact apply_one_angle mode mode' _ agree _
    · exact apply_two_angle mode mode' _ agree _ _
    · rfl
  · rfl

theorem Operation.unary_angle (op : Operator) (agree : op.readsAngle = true → mode.angle = mode'.angle) (v : Value) :
    unary op mode v = unary op mode' v := by
  cases op with
  | degrees => simp only [unary, ofDegrees, agree rfl]
  | radians => simp only [unary, ofRadians, agree rfl]
  | _ => rfl

end Angles

namespace Evaluation

section Nodes

variable (mode mode' : Mode)

theorem apply_operator_angle (op : Operator) (agree : op.readsAngle = true → mode.angle = mode'.angle)
    (vals : List Value) : applyOperator mode op vals = applyOperator mode' op vals := by
  unfold applyOperator
  split
  · exact Operation.unary_angle mode mode' op agree _
  · rfl
  · rfl

theorem apply_target_angle (target : Target) (args : List Tree) (container : Option Value) (vals : List Value) (s : Supply)
    (agree : (Tree.call target args).readsAngle = true → mode.angle = mode'.angle) :
    applyTarget mode target container vals s = applyTarget mode' target container vals s := by
  unfold applyTarget
  split
  · rfl
  · rfl
  · rw [Function.apply_angle mode mode' _ agree]
  · rfl
  · rfl
  · rfl

theorem apply_node_angle (store : Store) (answer : Value) (tree : Tree)
    (agree : tree.readsAngle = true → mode.angle = mode'.angle) (vals : List Value) (s : Supply) :
    applyNode ⟨store, mode, answer⟩ tree vals s = applyNode ⟨store, mode', answer⟩ tree vals s := by
  cases tree with
  | operator op args => rw [applyNode, applyNode, apply_operator_angle mode mode' op agree]
  | call target args =>
      have same (container : Option Value) := apply_target_angle mode mode' target args container vals s agree
      simp only [applyNode, applyCall, same]
  | _ => rfl

end Nodes

theorem evaluate_all_same (env env' : Surroundings) (equation equation' : Bytes → Supply → Outcome Value)
    (trees : List Tree)
    (each : ∀ tree ∈ trees, ∀ s, evaluateWith env equation tree s = evaluateWith env' equation' tree s) (s : Supply) :
    evaluateAllWith env equation trees s = evaluateAllWith env' equation' trees s := by
  induction trees generalizing s with
  | nil => rfl
  | cons tree rest ih =>
      have later := ih fun tree member => each tree (by simp [member])
      rw [evaluateAllWith, evaluateAllWith, each tree (by simp)]
      simp only [later]

variable (store : Store) (answer : Value) (mode mode' : Mode)

theorem evaluate_with_angle (equation equation' : Bytes → Supply → Outcome Value) (tree : Tree)
    (agree : ∀ node : Tree, node.Subtree tree → node.readsAngle = true → mode.angle = mode'.angle)
    (opened : ∀ slot tokens, tree.Mentions slot → store.get? (.equation slot) = some (.string tokens) →
      ∀ s, equation tokens s = equation' tokens s) (s : Supply) :
    evaluateWith ⟨store, mode, answer⟩ equation tree s = evaluateWith ⟨store, mode', answer⟩ equation' tree s := by
  induction tree using Tree.children_induction generalizing s with
  | node tree ih =>
      by_cases isEquation : ∃ slot, tree = .equation slot
      · obtain ⟨slot, rfl⟩ := isEquation
        rw [evaluateWith, evaluateWith]
        dsimp only
        split
        · rename_i tokens stored
          exact opened slot tokens .root stored s
        · rfl
        · rfl
      · have other (slot : UInt8) : tree ≠ .equation slot := fun same => isEquation ⟨slot, same⟩
        have children := evaluate_all_same ⟨store, mode, answer⟩ ⟨store, mode', answer⟩ equation equation'
          (operands store tree) (fun child member =>
            have among := operands_children store tree child member
            ih child among (fun node inside => agree node (.under tree child among inside))
              fun slot tokens inside => opened slot tokens (.under tree child among inside)) s
        have applied := funext fun vals => funext fun s =>
          apply_node_angle mode mode' store answer tree (agree tree .root) vals s
        rw [evaluate_with_node _ _ _ _ other, evaluate_with_node _ _ _ _ other, applied, children]

-- By induction on the levels left: an equation that is opened mentions none but those that are reached as well.
theorem evaluate_at_angle (start : Tree) (agree : store.ReadsAngle start → mode.angle = mode'.angle) (levels : Nat)
    (path : List UInt8) (tree : Tree) (reached : store.Opened start path tree) (s : Supply) :
    evaluateWith ⟨store, mode, answer⟩ (equationAt ⟨store, mode, answer⟩ levels) tree s =
      evaluateWith ⟨store, mode', answer⟩ (equationAt ⟨store, mode', answer⟩ levels) tree s := by
  induction levels generalizing path tree s with
  | zero =>
      exact evaluate_with_angle store answer mode mode' _ _ tree
        (fun node inside reads => agree ⟨path, tree, node, reached, inside, reads⟩) (fun _ _ _ _ _ => rfl) s
  | succ levels ih =>
      apply evaluate_with_angle store answer mode mode' _ _ tree fun node inside reads =>
        agree ⟨path, tree, node, reached, inside, reads⟩
      intro slot tokens mentioned stored s
      rw [equationAt, equationAt]
      cases parsed : (Expression.parse ⟨false, false⟩ (.start tokens false)).1 with
      | error f => rfl
      | ok next =>
          have inner := ih (slot :: path) next (.inner path tree next slot reached mentioned ⟨tokens, stored, parsed⟩)
          simp only [inside, inner]

end Evaluation

namespace Machine

theorem evaluate_angle (m : Machine) (mode : Mode) (tree : Tree)
    (agree : m.store.ReadsAngle tree → mode.angle = m.mode.angle) :
    { m with mode := mode }.evaluate tree = ((m.evaluate tree).1, { (m.evaluate tree).2 with mode := mode }) := by
  have same : Evaluation.evaluate ⟨m.store, mode, m.answer⟩ tree m.supply =
      Evaluation.evaluate m.surroundings tree m.supply :=
    Evaluation.evaluate_at_angle m.store m.answer mode m.mode tree agree Evaluation.equationDepth [] tree .top m.supply
  have result := congrArg Prod.fst same
  have supply := congrArg Prod.snd same
  exact Prod.ext result (congrArg (fun supply => ({ m with mode := mode, supply := supply } : Machine)) supply)

theorem display_modes_keep_values (m : Machine) (mode : Mode) (tree : Tree) :
    let shown := { m with mode := mode }.evaluate tree
    let same := ((m.evaluate tree).1, { (m.evaluate tree).2 with mode := mode })
    (mode.angle = m.mode.angle → shown = same) ∧ (¬ m.store.ReadsAngle tree → shown = same) :=
  ⟨fun angles => m.evaluate_angle mode tree fun _ => angles,
    fun never => m.evaluate_angle mode tree fun reads => absurd reads never⟩

-- A sine, which reads an angle, and an equation that reads none.
theorem sine_and_equation_keep_values :
    let m := { Machine.initial with store := ⟨[(.equation 0, .string [0x41])]⟩ }
    ¬ m.store.ReadsAngle (.equation 0) ∧
      ({ m with mode := ⟨.radian, .engineering, .fixed 3⟩ }.evaluate (.call (.builtin .sin) [.variable 0])).1 =
        (m.evaluate (.call (.builtin .sin) [.variable 0])).1 ∧
      ({ m with mode := ⟨.degree, .scientific, .fixed 2⟩ }.evaluate (.equation 0)).1 = (m.evaluate (.equation 0)).1 := by
  intro m
  have letter : (Expression.parse ⟨false, false⟩ (.start [0x41] false)).1 = .ok (.variable 0) :=
    (Expression.parse_ok _ _ _).mpr (by cbv)
  have reached (path : List UInt8) (tree : Tree) (opened : m.store.Opened (.equation 0) path tree) :
      tree = .equation 0 ∨ tree = .variable 0 := by
    induction opened with
    | top => exact Or.inl rfl
    | inner path tree next slot _ mentioned reads ih =>
        right
        rcases ih with rfl | rfl
        · cases Evaluation.equation_subtree 0 _ mentioned
          obtain ⟨tokens, stored, parsed⟩ := reads
          cases stored
          exact Except.ok.inj (parsed.symm.trans letter)
        · cases mentioned with
          | under _ child member _ => cases member
  have never : ¬ m.store.ReadsAngle (.equation 0) := by
    rintro ⟨path, tree, node, opened, inside, reads⟩
    rcases reached path tree opened with rfl | rfl
    · cases Evaluation.equation_subtree 0 _ inside
      cases reads
    · cases inside with
      | root => cases reads
      | under _ child member _ => cases member
  have sine := (display_modes_keep_values m ⟨.radian, .engineering, .fixed 3⟩ (.call (.builtin .sin) [.variable 0])).1 rfl
  have equation := (display_modes_keep_values m ⟨.degree, .scientific, .fixed 2⟩ (.equation 0)).2 never
  exact ⟨never, by rw [sine], by rw [equation]⟩

end Machine

end GraphCalc

import GraphCalc.Proofs.Effects
import GraphCalc.Proofs.Lines
import GraphCalc.Proofs.Memory
import GraphCalc.Proofs.Shape
import GraphCalc.Proofs.Yields

set_option autoImplicit false

namespace GraphCalc

namespace Store

def Shaped (s : Store) : Prop := ∀ slot v, s.get? slot = some v → v.Shaped

theorem empty_shaped : empty.Shaped := by
  intro slot v stored
  cases stored

theorem check_shaped (s : Store) (slot : Slot) (v : Value) (matrix : ∀ m, v = .matrix m → m.Rectangular) :
    Yields (fun _ => v.Shaped) (s.check slot v) := by
  cases v with
  | number x | complex c | string bytes => exact fun _ _ => trivial
  | matrix m => exact fun _ _ => matrix m rfl
  | list xs =>
      cases slot with
      | list i | customList name =>
          refine yields_next _ _ fun _ => ?_
          cases xs <;> simp [checkList]
      | _ => exact yields_next _ _ fun _ => yields_error _
  | complexList cs =>
      cases slot with
      | list i | customList name =>
          refine yields_next _ _ fun _ => ?_
          cases cs <;> simp [checkList]
      | _ => exact yields_next _ _ fun _ => yields_error _

theorem put_shaped (s : Store) (slot : Slot) (v : Value) (shaped : s.Shaped) (legal : v.Shaped) :
    (s.put slot v).Shaped := by
  intro other w stored
  rw [get_put] at stored
  by_cases same : other = slot
  · rw [if_pos same] at stored
    cases stored
    exact legal
  · rw [if_neg same] at stored
    exact shaped other w stored

theorem set_shaped (s : Store) (slot : Slot) (v : Value) (shaped : s.Shaped)
    (matrix : ∀ m, v = .matrix m → m.Rectangular) : Yields Shaped (s.set slot v) := by
  rw [set_checked, yields_map]
  exact fun done checked => s.put_shaped slot v shaped (s.check_shaped slot v matrix done checked)

end Store

namespace Evaluation

theorem list_of_shaped (vals : List Value) (filled : vals ≠ []) : Yields Value.Shaped (listOf vals) := by
  unfold listOf
  split
  · refine yields_bind _ _ _ (yields_mapM vals _ fun _ _ => yields_true _) fun cs count => ?_
    rw [yields_pure]
    exact List.ne_nil_of_length_pos (count.1 ▸ List.length_pos_iff.mpr filled)
  · refine yields_bind _ _ _ (yields_mapM vals _ fun _ _ => yields_true _) fun xs count => ?_
    rw [yields_pure]
    exact List.ne_nil_of_length_pos (count.1 ▸ List.length_pos_iff.mpr filled)

theorem matrix_of_shaped (vals : List Value) : Yields Value.Shaped (matrixOf vals) := by
  have made (rows : List (List Float32)) : Yields Value.Shaped (do return Value.matrix (← RealMatrix.ofRows rows)) :=
    yields_bind _ _ _ (RealMatrix.of_rows_rectangular rows) fun m rectangular => (yields_pure _).mpr rectangular
  unfold matrixOf
  split
  · exact yields_next _ _ fun row => yields_next _ _ made
  · exact yields_next _ _ made

theorem apply_operator_shaped (mode : Mode) (op : Operator) (vals : List Value) (shaped : ∀ v ∈ vals, v.Shaped) :
    Yields Value.Shaped (applyOperator mode op vals) := by
  unfold applyOperator
  split
  · rename_i v
    exact Operation.unary_shaped op mode v (shaped v (by simp))
  · rename_i l r
    exact Operation.binary_shaped l r (shaped l (by simp)) (shaped r (by simp)) op
  · simp

theorem element_shaped (list : Value) (args : List Value) : Yields Value.Shaped (element list args) := by
  refine yields_next _ _ fun first => yields_next _ _ fun i => ?_
  cases list with
  | list xs => dsimp only; split <;> simp
  | complexList cs => dsimp only; split <;> simp
  | _ => simp

theorem matrix_element_shaped (m : RealMatrix) (args : List Value) : Yields Value.Shaped (matrixElement m args) := by
  refine yields_next _ _ fun first => yields_next _ _ fun row => yields_next _ _ fun second => ?_
  exact yields_next _ _ fun column => yields_next _ _ fun x => by simp

theorem random_shaped (args : List Value) (s : Supply) : Gives Value.Shaped (random args s) := by
  cases args with
  | nil => exact (gives_ok _ _ _).mpr trivial
  | cons count rest =>
      rw [random]
      cases count.integer with
      | error e => exact gives_error _ _ _
      | ok n =>
          dsimp only
          by_cases outside : n < 1 ∨ 999 < n
          · rw [if_pos outside]
            exact gives_error _ _ _
          · rw [if_neg outside]
            refine (gives_ok _ _ _).mpr (List.ne_nil_of_length_pos ?_)
            rw [Supply.fractions, Generator.many_length]
            omega

theorem random_matrix_shaped (args : List Value) (s : Supply) : Gives Value.Shaped (randomMatrix args s) := by
  rw [randomMatrix]
  cases extents args with
  | error e => exact gives_error _ _ _
  | ok size =>
      dsimp only
      rw [gives_of_cause, yields_map]
      exact RealMatrix.of_rows_rectangular _

theorem apply_target_shaped (mode : Mode) (target : Target) (container : Option Value) (args : List Value)
    (s : Supply) (shaped : ∀ v ∈ args, v.Shaped) : Gives Value.Shaped (applyTarget mode target container args s) := by
  unfold applyTarget
  split
  · exact random_shaped args s
  · exact random_matrix_shaped args s
  · exact (gives_of_cause _ _ _).mpr (Function.apply_shaped mode _ args shaped)
  · exact (gives_of_cause _ _ _).mpr (matrix_element_shaped _ args)
  · exact (gives_of_cause _ _ _).mpr (element_shaped _ args)
  · exact gives_error _ _ _

theorem defined_shaped (store : Store) (slot : Slot) (stored : store.Shaped) :
    Yields Value.Shaped (defined (store.get? slot)) := by
  cases content : store.get? slot with
  | none => exact yields_error _
  | some v => exact (yields_ok _).mpr (stored slot v content)

variable (env : Surroundings) (stored : env.store.Shaped) (answered : env.answer.Shaped)

include answered

theorem apply_call_shaped (target : Target) (vals : List Value) (s : Supply) (shaped : ∀ v ∈ vals, v.Shaped) :
    Gives Value.Shaped (applyCall env target vals s) := by
  rw [applyCall]
  by_cases answer : target = .builtin .answer
  · rw [if_pos answer]
    exact (gives_ok _ _ _).mpr answered
  · rw [if_neg answer]
    by_cases key : target = .builtin .getKey
    · rw [if_pos key]
      exact (gives_ok _ _ _).mpr trivial
    · rw [if_neg key]
      cases accessed env.store target with
      | error e => exact gives_error _ _ _
      | ok container => exact apply_target_shaped _ _ _ _ _ shaped

include stored

-- `counted` is what keeps the list between two braces from being empty.
theorem apply_node_shaped (tree : Tree) (vals : List Value) (s : Supply) (wellFormed : tree.WellFormed)
    (counted : vals.length = (operands env.store tree).length) (shaped : ∀ v ∈ vals, v.Shaped) :
    Gives Value.Shaped (applyNode env tree vals s) := by
  cases wellFormed with
  | number x => exact (gives_of_cause _ _ _).mpr (Value.of_number_shaped x)
  | complex re im => exact (gives_of_cause _ _ _).mpr (Value.of_complex_shaped _)
  | «variable» slot =>
      refine (gives_ok _ _ _).mpr ?_
      cases content : env.store.get? (.variable slot) with
      | none => trivial
      | some v => exact stored (.variable slot) v content
  | string slot => exact (gives_of_cause _ _ _).mpr (defined_shaped env.store _ stored)
  | list slot => exact (gives_of_cause _ _ _).mpr (defined_shaped env.store _ stored)
  | customList name => exact (gives_of_cause _ _ _).mpr (defined_shaped env.store _ stored)
  | matrix slot => exact (gives_of_cause _ _ _).mpr (defined_shaped env.store _ stored)
  | equation slot => exact gives_error _ _ _
  | operator op args =>
      rw [applyNode]
      by_cases refused : op = .store
      · rw [if_pos refused]
        exact gives_error _ _ _
      · rw [if_neg refused]
        exact (gives_of_cause _ _ _).mpr (apply_operator_shaped env.mode op vals shaped)
  | call target args => exact apply_call_shaped env answered target vals s shaped
  | braces args filled =>
      refine (gives_of_cause _ _ _).mpr (list_of_shaped vals (List.ne_nil_of_length_pos ?_))
      rw [counted]
      exact List.length_pos_iff.mpr filled
  | brackets args => exact (gives_of_cause _ _ _).mpr (matrix_of_shaped vals)
  | text bytes => exact (gives_ok _ _ _).mpr trivial

theorem evaluate_shaped (tree : Tree) (s : Supply) (wellFormed : tree.WellFormed) :
    Gives Value.Shaped (evaluate env tree s) := by
  intro v done
  by_contra lost
  obtain ⟨path, inner, node, levels, opened, inside, spoils⟩ :=
    evaluate_at_lost env Value.Shaped (fun _ => True) (fun _ _ _ _ => trivial) (fun _ _ => ⟨trivial, trivial⟩)
      equationDepth tree s trivial v done lost
  obtain ⟨before, vals, after, w, _, _, evaluated, shaped, applied, notShaped⟩ := spoils
  have legal := Tree.well_formed_subtree node inner (env.store.opened_well_formed tree inner path wellFormed opened) inside
  have counted := evaluate_all_length env _ _ before vals (congrArg Prod.fst evaluated)
  exact notShaped (apply_node_shaped env stored answered node vals after legal counted shaped w applied)

end Evaluation

namespace Statement

def Legal (statement : Tree) : Prop :=
  statement.WellFormed ∨ ∃ command args, statement = .command command args ∧ ∀ arg ∈ args, arg.WellFormed

theorem read_arguments_well_formed (paren : Bool) (c c' : Cursor) (args : List Tree)
    (read : readArguments paren c = (.ok args, c')) : ∀ arg ∈ args, arg.WellFormed := by
  fun_induction readArguments paren c generalizing args c' with
  | case1 => cases read
  | case2 c tree c₁ parsed comma result c₂ more ih =>
      cases result with
      | error f => cases read
      | ok rest =>
          cases read
          exact List.forall_mem_cons.mpr ⟨Expression.parsed_well_formed _ c tree (congrArg Prod.fst parsed), ih _ rest more⟩
  | case3 => cases read
  | case4 c tree c₁ parsed =>
      cases read
      exact List.forall_mem_singleton.mpr (Expression.parsed_well_formed _ c tree (congrArg Prod.fst parsed))

theorem read_shape_well_formed (shape : Shape) (c c' : Cursor) (args : List Tree)
    (read : readShape shape c = (.ok args, c')) : ∀ arg ∈ args, arg.WellFormed := by
  by_cases ended : endOfLine c.peek = true
  · cases shape with
    | standalone =>
        simp only [readShape, if_pos ended] at read
        cases read
        simp
    | args | paren =>
        simp only [readShape, if_pos ended] at read
        cases read
  · cases shape with
    | standalone =>
        simp only [readShape, if_neg ended] at read
        cases read
    | args | paren =>
        simp only [readShape, if_neg ended] at read
        exact read_arguments_well_formed _ c c' args read

theorem read_one_legal (b : UInt8) (c c' : Cursor) (tree : Tree) (read : readOne b c = (.ok tree, c')) : Legal tree := by
  unfold readOne at read
  split at read
  · rename_i command _
    cases shape : readShape command.shape c.next with
    | mk result c₁ =>
        rw [shape] at read
        cases result with
        | error f => cases read
        | ok args =>
            cases read
            exact Or.inr ⟨command, args, rfl, read_shape_well_formed _ _ _ args shape⟩
  · exact Or.inl (Expression.parsed_well_formed _ c tree (congrArg Prod.fst read))

theorem read_all_legal (stops : Stops) (c c' : Cursor) (statements : List Tree)
    (read : readAll stops c = (.ok statements, c')) : ∀ statement ∈ statements, Legal statement := by
  fun_induction readAll stops c generalizing statements c' with
  | case1 => cases read
  | case2 => cases read; simp
  | case3 c _ b rest _ _ ih => exact ih c' statements read
  | case4 => cases read; simp
  | case5 => cases read
  | case6 c _ b rest _ _ _ tree c₁ one result c₂ more ih =>
      cases result with
      | error f => cases read
      | ok others =>
          cases read
          exact List.forall_mem_cons.mpr ⟨read_one_legal b c c₁ tree one, ih _ others more⟩

theorem parse_program_legal (bytes : Bytes) (interrupted : Bool) (statements : List Tree)
    (parsed : parseProgram bytes interrupted = .ok statements) : ∀ statement ∈ statements, Legal statement := by
  unfold parseProgram parse at parsed
  cases read : readAll ⟨false, false⟩ (.start bytes interrupted) with
  | mk result c' =>
      rw [read] at parsed
      cases result with
      | error f => cases parsed
      | ok all =>
          cases parsed
          exact read_all_legal _ _ c' statements read

end Statement

namespace Machine

-- The store and the answer have legal shapes; nothing else in a machine is a value.
structure Shaped (m : Machine) : Prop where
  stored : m.store.Shaped
  answered : m.answer.Shaped

theorem fresh_shaped (g : Generator) : (fresh g).Shaped := ⟨Store.empty_shaped, trivial⟩

theorem evaluate_shaped (m : Machine) (tree : Tree) (v : Value) (shaped : m.Shaped) (wellFormed : tree.WellFormed)
    (done : (m.evaluate tree).1 = .ok v) : v.Shaped :=
  Evaluation.evaluate_shaped m.surroundings shaped.stored shaped.answered tree m.supply wellFormed v done

theorem run_one_effect (m : Machine) (statement : Tree) :
    (m.runOne statement).2.store = m.store ∧
      ((m.runOne statement).2.answer = m.answer ∧ (∀ v, (m.runOne statement).1 ≠ .continued (some v)) ∨
        ∃ v, statement.isCommand = false ∧ (m.evaluate statement).1 = .ok v ∧
          (m.runOne statement).1 = .continued (some v) ∧ (m.runOne statement).2.answer = v) := by
  have ran := m.run_one_ran statement
  generalize m.runOne statement = result at ran ⊢
  cases ran with
  | interrupted => exact ⟨rfl, Or.inl ⟨rfl, nofun⟩⟩
  | refused command args _ _ _ performed | ended command args _ _ performed | performed command args _ _ performed =>
      have kept := m.perform_lasting command args
      rw [performed] at kept
      exact ⟨congrArg (·.1) kept, Or.inl ⟨congrArg (·.2.1) kept, nofun⟩⟩
  | failed _ _ _ _ _ evaluated =>
      have kept : (m.evaluate statement).2.store = m.store ∧ (m.evaluate statement).2.answer = m.answer := ⟨rfl, rfl⟩
      rw [evaluated] at kept
      exact ⟨kept.1, Or.inl ⟨kept.2, nofun⟩⟩
  | evaluated _ v _ _ expression evaluated =>
      have kept : (m.evaluate statement).2.store = m.store := rfl
      rw [evaluated] at kept
      exact ⟨kept, Or.inr ⟨v, expression, congrArg Prod.fst evaluated, rfl, rfl⟩⟩

theorem run_one_shaped (m : Machine) (statement : Tree) (shaped : m.Shaped) (legal : Statement.Legal statement) :
    (m.runOne statement).2.Shaped ∧ ∀ v, (m.runOne statement).1 = .continued (some v) → v.Shaped := by
  obtain ⟨store, ⟨answer, noValue⟩ | ⟨v, expression, value, step, answer⟩⟩ := m.run_one_effect statement
  · refine ⟨⟨store ▸ shaped.stored, answer ▸ shaped.answered⟩, ?_⟩
    exact fun v step => absurd step (noValue v)
  · have valueShaped : v.Shaped := by
      rcases legal with wellFormed | ⟨command, args, rfl, _⟩
      · exact m.evaluate_shaped statement v shaped wellFormed value
      · cases expression
    refine ⟨⟨store ▸ shaped.stored, answer ▸ valueShaped⟩, ?_⟩
    intro w same
    cases step.symm.trans same
    exact valueShaped

theorem run_from_shaped (m : Machine) (last : Option Value) (statements : List Tree) (shaped : m.Shaped)
    (lastShaped : ∀ v, last = some v → v.Shaped) (legal : ∀ statement ∈ statements, Statement.Legal statement) :
    (m.runFrom last statements).2.Shaped ∧ ∀ v, (m.runFrom last statements).1 = .ok (some v) → v.Shaped := by
  have kept (v : Value) (same : Except.ok (ε := Fault) last = .ok (some v)) : v.Shaped :=
    lastShaped v (Except.ok.inj same)
  induction statements generalizing m last with
  | nil => exact ⟨shaped, kept⟩
  | cons statement rest ih =>
      obtain ⟨first, others⟩ := List.forall_mem_cons.mp legal
      have one := m.run_one_shaped statement shaped first
      rw [runFrom]
      cases ran : m.runOne statement with
      | mk step m₁ =>
          rw [ran] at one
          cases step with
          | failed f =>
              refine ⟨one.1, ?_⟩
              intro v same
              cases same
          | stopped => exact ⟨one.1, kept⟩
          | continued value =>
              have found (v : Value) (same : (value <|> last) = some v) : v.Shaped := by
                cases value with
                | none => exact lastShaped v same
                | some w =>
                    cases same
                    exact one.2 v rfl
              exact ih m₁ _ one.1 found others fun v same => found v (Except.ok.inj same)

-- What is done to a machine from outside. A matrix is checked when it is made. Keys, random numbers and
-- an expression evaluated by itself only change the supply, and a program that runs can be interrupted
-- before any of its statements: `count` of them are run.
inductive Action where
  | store (slot : Slot) (v : Value)
  | clear
  | resupply (supply : Supply)
  | changeMode (mode : Mode)
  | interrupt (request : Bool)
  | run (bytes : Bytes) (count : Nat)

def vetted : Value → Except Cause Value
  | .matrix m => (RealMatrix.ofRows m.rows).map .matrix
  | v => .ok v

-- Whatever fails leaves the machine as it was, a failing program as it left it.
def act (m : Machine) : Action → Machine
  | .store slot v =>
      match vetted v >>= m.store.set slot with
      | .ok store => { m with store := store }
      | .error _ => m
  | .clear => { m with store := .empty }
  | .resupply supply => { m with supply := supply }
  | .changeMode mode => { m with mode := mode }
  | .interrupt request => { m with interrupted := request }
  | .run bytes count =>
      match Statement.parseProgram bytes false with
      | .ok statements => (m.run (statements.take count)).2
      | .error _ => m

def after (m : Machine) (actions : List Action) : Machine := actions.foldl act m

theorem vetted_rectangular (v : Value) : Yields (fun w => ∀ m, w = .matrix m → m.Rectangular) (vetted v) := by
  cases v with
  | matrix m =>
      rw [vetted, yields_map]
      intro made done other same
      cases same
      exact RealMatrix.of_rows_rectangular m.rows made done
  | _ => simp [vetted]

theorem act_shaped (m : Machine) (action : Action) (shaped : m.Shaped) : (m.act action).Shaped := by
  cases action with
  | store slot v =>
      have stored := yields_bind _ _ (m.store.set slot) (vetted_rectangular v) fun w =>
        m.store.set_shaped slot w shaped.stored
      rw [act]
      split
      · rename_i store done
        exact ⟨stored store done, shaped.answered⟩
      · exact shaped
  | clear => exact ⟨Store.empty_shaped, shaped.answered⟩
  | resupply supply => exact ⟨shaped.stored, shaped.answered⟩
  | changeMode mode => exact ⟨shaped.stored, shaped.answered⟩
  | interrupt request => exact ⟨shaped.stored, shaped.answered⟩
  | run bytes count =>
      rw [act]
      split
      · rename_i statements parsed
        refine (m.run_from_shaped none _ shaped nofun fun statement member => ?_).1
        exact Statement.parse_program_legal bytes false statements parsed statement (List.mem_of_mem_take member)
      · exact shaped

theorem after_shaped (m : Machine) (actions : List Action) (shaped : m.Shaped) : (m.after actions).Shaped := by
  induction actions generalizing m with
  | nil => exact shaped
  | cons action rest ih => exact ih (m.act action) (m.act_shaped action shaped)

theorem session_values_shaped (g : Generator) (actions : List Action) :
    ((fresh g).after actions).answer.Shaped ∧ ((fresh g).after actions).store.Shaped ∧
      (∀ stops c tree supply v, (Expression.parse stops c).1 = .ok tree →
        ({ (fresh g).after actions with supply := supply }.evaluate tree).1 = .ok v → v.Shaped) ∧
      (∀ bytes interrupted statements v, Statement.parseProgram bytes interrupted = .ok statements →
        (((fresh g).after actions).run statements).1 = .ok (some v) → v.Shaped) := by
  have shaped : ((fresh g).after actions).Shaped := (fresh g).after_shaped actions (fresh_shaped g)
  refine ⟨shaped.answered, shaped.stored, ?_, ?_⟩
  · intro stops c tree supply v parsed done
    refine evaluate_shaped _ tree v ?_ (Expression.parsed_well_formed stops c tree parsed) done
    exact ⟨shaped.stored, shaped.answered⟩
  · intro bytes interrupted statements v parsed done
    exact (run_from_shaped _ none statements shaped nofun
      (Statement.parse_program_legal bytes interrupted statements parsed)).2 v done

-- An empty list and a matrix with rows of two widths are refused; a list of two entries is stored and
-- becomes the answer of the program that names it.
theorem stored_list_session_shaped :
    let m := initial.after [.store (.list 0) (.list []), .store (.matrix 0) (.matrix ⟨[[0], []]⟩),
      .store (.list 0) (.list [0, 0]), .run [0x5D, 0x00] 1]
    m.store.get? (.matrix 0) = none ∧ m.answer = .list [0, 0] ∧ m.answer.Shaped ∧
      Statement.parseProgram [0x5D, 0x00] false = .ok [.list 0] ∧
      (m.run [.list 0]).1 = .ok (some (.list [0, 0])) ∧ (Value.list [0, 0]).Shaped := by
  intro m
  have parsed : Statement.parseProgram [0x5D, 0x00] false = .ok [.list 0] := by
    refine Statement.parse_program_single _ _ rfl _ ⟨[0x00, 0x5D], [], true, false⟩ ?_ rfl
    exact Expression.parse_of_read ⟨false, false⟩ _ _ _ (by cbv)
  have reached : m = { initial with store := ⟨[(.list 0, .list [0, 0])]⟩, answer := .list [0, 0] } := by
    simp only [m, after, List.foldl, act, parsed]
    rfl
  have ran : (m.run [.list 0]).1 = .ok (some (.list [0, 0])) := by
    rw [reached]
    rfl
  have shaped := session_values_shaped (.congruential 1) [.store (.list 0) (.list []), .store (.matrix 0) (.matrix ⟨[[0], []]⟩),
    .store (.list 0) (.list [0, 0]), .run [0x5D, 0x00] 1]
  refine ⟨?_, ?_, shaped.1, parsed, ran, shaped.2.2.2 _ _ _ _ parsed ran⟩
  · rw [reached]
    rfl
  · rw [reached]

end Machine

end GraphCalc

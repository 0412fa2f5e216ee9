import Mathlib.Data.List.Nodup
import Mathlib.Data.List.Perm.Subperm
import Mathlib.Logic.Relation
import GraphCalc.Proofs.Nodes
import GraphCalc.Session

set_option autoImplicit false

namespace GraphCalc

-- Reading has causes of its own for every failure.
abbrev ReadsFlat {α : Type} (result : Except Cause α) : Prop := FailsOnly (· ≠ .equationTooDeep) result

namespace Item

@[simp]
theorem slot_flat (count : UInt8) (rest : Bytes) : ReadsFlat (slot count rest) := by
  unfold slot
  split
  · simp
  · split <;> simp

@[simp]
theorem equation_slot_flat (rest : Bytes) : ReadsFlat (equationSlot rest) := by
  unfold equationSlot
  split
  · simp
  · repeat (split; simp)
    simp

theorem scan_flat (n : Numeral) (rest : Bytes) : ReadsFlat (n.scan rest).1 := by
  fun_induction Numeral.scan n rest <;> simp_all

@[simp]
theorem finite_value_flat (n : Numeral) : ReadsFlat n.finiteValue := by
  unfold Numeral.finiteValue
  split
  · split <;> simp
  · simp

theorem number_flat (b : UInt8) (rest : Bytes) : ReadsFlat (number b rest).1 := by
  have scanned := scan_flat .empty (b :: rest)
  unfold number
  dsimp only
  split
  · rename_i found
    rw [found] at scanned
    simpa using scanned
  · simp

theorem reference_flat (tree : Tree) (target : Target) (used : Nat) (rest : Bytes) :
    ReadsFlat (reference tree target used rest).1 := by
  unfold reference
  split <;> simp

theorem read_flat (b : UInt8) (rest : Bytes) : ReadsFlat (Item.read b rest).1 := by
  unfold Item.read
  cases Token.ofByte b with
  | digit _ | decimalPoint | exponent => exact number_flat b rest
  | list =>
      have slotted := slot_flat 6 rest
      dsimp only
      cases found : slot 6 rest with rw [found] at slotted
      | error e => simpa using slotted
      | ok i => exact reference_flat _ _ _ rest
  | matrix =>
      have slotted := slot_flat 10 rest
      dsimp only
      cases found : slot 10 rest with rw [found] at slotted
      | error e => simpa using slotted
      | ok i => exact reference_flat _ _ _ rest
  | customList =>
      dsimp only
      cases nameChars 5 true rest with
      | nil => simp
      | cons first more => exact reference_flat _ _ _ rest
  | random => exact reference_flat _ _ _ rest
  | _ => simp

end Item

namespace Stacks

@[simp]
theorem push_output_flat (s : Stacks) (tree : Tree) : ReadsFlat (s.pushOutput tree) := by
  unfold pushOutput
  split <;> simp

@[simp]
theorem push_pending_flat (s : Stacks) (p : Pending) : ReadsFlat (s.pushPending p) := by
  unfold pushPending
  split <;> simp

theorem apply_operator_flat (op : Operator) (output : List Tree) : ReadsFlat (applyOperator op output) := by
  unfold applyOperator
  split
  · split <;> simp
  · split <;> simp

@[simp]
theorem reduce_flat (s : Stacks) (strength : Nat) (right : Bool) : ReadsFlat (s.reduce strength right) := by
  have reduced (pending : List Pending) (output : List Tree) :
      ReadsFlat (reduceStacks strength right pending output) := by
    fun_induction reduceStacks strength right pending output with
    | case1 => simp
    | case2 _ _ _ _ _ _ ih => exact ih
    | case3 op pending output _ e failed =>
        have applied := apply_operator_flat op output
        rw [failed] at applied
        simpa using applied
    | case4 => simp
  simpa [reduce] using reduced s.pending s.output

@[simp]
theorem place_operator_flat (s : Stacks) (op : Operator) : ReadsFlat (s.placeOperator op) := by
  unfold placeOperator
  by_cases second : op = .store ∧ s.storePending = true
  · rw [if_pos second]
    simp
  · rw [if_neg second]
    simp

@[simp]
theorem multiply_flat (s : Stacks) : ReadsFlat s.multiply := by
  unfold multiply
  split <;> simp

@[simp]
theorem take_operator_flat (s : Stacks) (written : Operator) : ReadsFlat (s.takeOperator written) := by
  unfold takeOperator
  generalize (if written = .subtract ∧ s.needMultiply = false then Operator.negate else written) = op
  dsimp only
  split <;> simp

theorem take_opener_flat (s : Stacks) (target : Option Target) (group : Group) :
    ReadsFlat (s.takeOpener target group) := by
  apply fails_bind
  · simp
  · intro s₁
    cases target <;> simp

theorem collect_flat (group : Group) (pending : List Pending) (args : Nat) : ReadsFlat (collect group pending args) := by
  fun_induction collect group pending args <;> simp_all

@[simp]
theorem close_group_flat (s : Stacks) (group : Group) : ReadsFlat (s.closeGroup group) := by
  apply fails_bind
  · exact collect_flat group s.pending 1
  · rintro ⟨args, height, pending⟩
    dsimp only
    split
    · simp
    · split
      · simp
      · simp
      · split <;> simp
      · split <;> simp

@[simp]
theorem take_closer_flat (s : Stacks) (group : Group) : ReadsFlat (s.takeCloser group) := by
  apply fails_bind
  · simp [flush]
  · intro s₁
    dsimp only
    split <;> simp

theorem accept_flat (s : Stacks) (item : Item) : ReadsFlat (s.accept item) := by
  cases item with
  | operand tree => simp [accept, takeOperand]
  | text bytes closed => simp [accept, takeText]
  | operator op => simp [accept]
  | opener target group => exact take_opener_flat s target group
  | closer group rowFollows => cases rowFollows <;> simp [accept]

theorem close_open_flat (n : Nat) (s : Stacks) : ReadsFlat (closeOpen n s) := by
  induction n generalizing s with
  | zero => simp [closeOpen, flush]
  | succ n ih =>
      apply fails_bind
      · simp [flush]
      · intro s₁
        split
        · apply fails_bind
          · simp
          · exact ih
        · simp
        · simp

theorem finish_flat (s : Stacks) : ReadsFlat s.finish := by
  apply fails_bind
  · exact close_open_flat s.nested s
  · intro s₁
    split <;> simp

end Stacks

namespace Expression

theorem step_flat (s : Stacks) (b : UInt8) (c : Cursor) : ReadsFlat (step s b c).1 := by
  have read := Item.read_flat b c.rest
  unfold step
  cases found : Item.read b c.rest with
  | mk result used =>
      rw [found] at read
      cases result with
      | error e => simpa using read
      | ok item =>
          have accepted := s.accept_flat item
          dsimp only
          cases taken : s.accept item with rw [taken] at accepted
          | error e => simpa using accepted
          | ok s' => simp

theorem read_from_flat (stops : Stops) (s : Stacks) (c : Cursor) : ReadsFlat (readFrom stops s c).1 := by
  fun_induction readFrom stops s c with
  | case1 => simp
  | case2 s => exact s.finish_flat
  | case3 s => exact s.finish_flat
  | case4 s c _ b rest _ _ e c' taken =>
      have stepped := step_flat s b c.next
      rw [taken] at stepped
      simpa using stepped
  | case5 _ _ _ _ _ _ _ _ _ _ ih => exact ih

theorem parse_flat (stops : Stops) (c : Cursor) (f : Fault) (failed : (parse stops c).1 = .error f) :
    f.cause ≠ .equationTooDeep := by
  have flat := read_from_flat stops .empty c
  unfold parse at failed
  dsimp only at failed
  cases read : (readFrom stops .empty c).1 with rw [read] at failed flat
  | error e =>
      cases failed
      exact flat e rfl
  | ok tree => cases failed

end Expression

def Tree.Mentions (tree : Tree) (slot : UInt8) : Prop := (Tree.equation slot).Subtree tree

namespace Store

def EquationReads (store : Store) (slot : UInt8) (tree : Tree) : Prop :=
  ∃ tokens, store.get? (.equation slot) = some (.string tokens) ∧
    (Expression.parse ⟨false, false⟩ (.start tokens false)).1 = .ok tree

def Refers (store : Store) (i j : UInt8) : Prop := ∃ tree, store.EquationReads i tree ∧ tree.Mentions j

-- Lies on a cycle of references, or leads to one.
def ReachesCycle (store : Store) (i : UInt8) : Prop :=
  ∃ j, Relation.ReflTransGen store.Refers i j ∧ Relation.TransGen store.Refers j j

theorem reads_well_formed (store : Store) (slot : UInt8) (tree : Tree) (reads : store.EquationReads slot tree) :
    tree.WellFormed := by
  obtain ⟨tokens, _, parsed⟩ := reads
  exact Expression.parsed_well_formed _ _ tree parsed

theorem reaches_cycle_step (store : Store) (i : UInt8) (cyclic : store.ReachesCycle i) :
    ∃ j, store.Refers i j ∧ store.ReachesCycle j := by
  obtain ⟨k, path, cycle⟩ := cyclic
  rcases Relation.ReflTransGen.cases_head path with rfl | ⟨j, first, later⟩
  · obtain ⟨j, first, back⟩ := Relation.TransGen.head'_iff.mp cycle
    exact ⟨j, first, i, back, cycle⟩
  · exact ⟨j, first, k, later, cycle⟩

-- The equations open at some moment of an evaluation of `start`, the innermost first, and the tree
-- that is being evaluated then.
inductive Opened (store : Store) (start : Tree) : List UInt8 → Tree → Prop where
  | top : Opened store start [] start
  | inner (path : List UInt8) (tree next : Tree) (slot : UInt8) (outer : Opened store start path tree)
      (mentioned : tree.Mentions slot) (reads : store.EquationReads slot next) : Opened store start (slot :: path) next

theorem opened_well_formed (store : Store) (start tree : Tree) (path : List UInt8) (wellFormed : start.WellFormed)
    (opened : store.Opened start path tree) : tree.WellFormed := by
  cases opened with
  | top => exact wellFormed
  | inner _ _ _ slot _ _ reads => exact store.reads_well_formed slot tree reads

theorem opened_refers (store : Store) (start tree : Tree) (path : List UInt8) (slot : UInt8)
    (opened : store.Opened start path tree) (mentioned : tree.Mentions slot) :
    (∀ i ∈ path, Relation.TransGen store.Refers i slot) ∧
      ∃ first, start.Mentions first ∧ Relation.ReflTransGen store.Refers first slot := by
  induction opened generalizing slot with
  | top => exact ⟨by simp, slot, mentioned, .refl⟩
  | inner path tree next opening outer inside reads ih =>
      obtain ⟨before, first, started, leads⟩ := ih opening inside
      have refers : store.Refers opening slot := ⟨next, reads, mentioned⟩
      refine ⟨?_, first, started, leads.tail refers⟩
      intro i member
      rcases List.mem_cons.mp member with rfl | among
      · exact .single refers
      · exact .tail (before i among) refers

theorem opened_distinct (store : Store) (start tree : Tree) (path : List UInt8)
    (acyclic : ∀ slot, start.Mentions slot → ¬ store.ReachesCycle slot) (opened : store.Opened start path tree) :
    path.Nodup := by
  induction opened with
  | top => exact List.nodup_nil
  | inner path tree next slot outer mentioned reads ih =>
      refine List.nodup_cons.mpr ⟨fun again => ?_, ih⟩
      obtain ⟨before, first, started, leads⟩ := store.opened_refers start tree path slot outer mentioned
      exact acyclic first started ⟨slot, leads, before slot again⟩

theorem opened_bound (store : Store) (start tree : Tree) (path : List UInt8) (wellFormed : start.WellFormed)
    (opened : store.Opened start path tree) : ∀ slot ∈ path, slot < equationCount := by
  induction opened with
  | top => simp
  | inner path tree next slot outer mentioned reads ih =>
      intro i member
      rcases List.mem_cons.mp member with rfl | among
      · cases Tree.well_formed_subtree _ tree (store.opened_well_formed start tree path wellFormed outer) mentioned with
        | equation slot bound => exact bound
      · exact ih i among

theorem opened_length (store : Store) (start tree : Tree) (path : List UInt8) (wellFormed : start.WellFormed)
    (acyclic : ∀ slot, start.Mentions slot → ¬ store.ReachesCycle slot) (opened : store.Opened start path tree) :
    path.length < Evaluation.equationDepth := by
  have distinct := store.opened_distinct start tree path acyclic opened
  have bounded := store.opened_bound start tree path wellFormed opened
  have slots : path.map UInt8.toNat ⊆ List.range equationCount.toNat := by
    intro n member
    obtain ⟨slot, among, rfl⟩ := List.mem_map.mp member
    exact List.mem_range.mpr (UInt8.lt_iff_toNat_lt.mp (bounded slot among))
  have length := (List.subperm_of_subset (distinct.map fun a b same => UInt8.toNat_inj.mp same) slots).length_le
  rw [List.length_map, List.length_range] at length
  exact Nat.lt_of_le_of_lt length (by decide)

end Store

namespace Evaluation

variable (env : Surroundings)

theorem blamed_flat (store : Store) (node : Tree) (e : Cause) (blamed : Blamed store node e) : e ≠ .equationTooDeep := by
  rintro rfl
  cases blamed with
  | values _ ofValues => exact ofValues

section Levels

variable (equation other : Bytes → Supply → Outcome Value)
variable (keeps : ∀ tokens s, (equation tokens s).2.depth = s.depth)

include keeps

theorem evaluate_all_congr (trees : List Tree) (s : Supply)
    (children : ∀ tree ∈ trees, ∀ s₁, s₁.depth = s.depth → evaluateWith env equation tree s₁ = evaluateWith env other tree s₁) :
    evaluateAllWith env equation trees s = evaluateAllWith env other trees s := by
  induction trees generalizing s with
  | nil => rfl
  | cons tree rest ih =>
      rw [evaluateAllWith, evaluateAllWith, ← children tree (by simp) s rfl]
      have depth := evaluate_with_depth env equation keeps tree s
      cases first : evaluateWith env equation tree s with
      | mk result s₁ =>
          rw [first] at depth
          cases result with
          | error f => rfl
          | ok v =>
              have later := ih s₁ fun child member s₂ same => children child (by simp [member]) s₂ (same.trans depth)
              simp only [andThen, later]

theorem evaluate_with_congr (tree : Tree) (s : Supply)
    (agree : ∀ tokens s₁, s₁.depth = s.depth → equation tokens s₁ = other tokens s₁) :
    evaluateWith env equation tree s = evaluateWith env other tree s := by
  induction tree using Tree.children_induction generalizing s with
  | node tree ih =>
      by_cases isEquation : ∃ slot, tree = .equation slot
      · obtain ⟨slot, rfl⟩ := isEquation
        rw [evaluateWith, evaluateWith]
        split
        · exact agree _ s rfl
        · rfl
        · rfl
      · have notEquation (slot : UInt8) : tree ≠ .equation slot := fun same => isEquation ⟨slot, same⟩
        rw [evaluate_with_node env equation tree s notEquation, evaluate_with_node env other tree s notEquation,
          evaluate_all_congr env equation other keeps _ s]
        intro child member s₁ same
        exact ih child (operands_children env.store tree child member) s₁ fun tokens s₂ again =>
          agree tokens s₂ (again.trans same)

end Levels

-- The guard stops the recursion before the levels run out.
theorem equation_at_settled (levels others : Nat) (tokens : Bytes) (s : Supply)
    (enough : equationDepth ≤ levels + s.depth) (othersEnough : equationDepth ≤ others + s.depth) :
    equationAt env levels tokens s = equationAt env others tokens s := by
  induction levels generalizing others tokens s with
  | zero =>
      cases others with
      | zero => rfl
      | succ others =>
          rw [Nat.zero_add] at enough
          rw [equationAt, equationAt, if_pos enough]
  | succ levels ih =>
      cases others with
      | zero =>
          rw [Nat.zero_add] at othersEnough
          rw [equationAt, equationAt, if_pos othersEnough]
      | succ others =>
          have entered (tree : Tree) : evaluateWith env (equationAt env levels) tree s.enter =
              evaluateWith env (equationAt env others) tree s.enter := by
            apply evaluate_with_congr env _ _ (equation_at_depth env levels)
            intro inner s₁ depth
            have below : s₁.depth = s.depth + 1 := depth
            exact ih others inner s₁ (by omega) (by omega)
          simp only [equationAt, inside, entered]

theorem opened_flat (start tree : Tree) (path : List UInt8) (wellFormed : start.WellFormed)
    (acyclic : ∀ slot, start.Mentions slot → ¬ env.store.ReachesCycle slot) (opened : env.store.Opened start path tree)
    (levels : Nat) (enough : equationDepth ≤ levels + path.length) (s : Supply) (depth : s.depth = path.length)
    (f : Fault) (failed : (evaluateWith env (equationAt env levels) tree s).1 = .error f) :
    f.cause ≠ .equationTooDeep := by
  induction levels generalizing tree path s with
  | zero =>
      have short := env.store.opened_length start tree path wellFormed acyclic opened
      omega
  | succ levels ih =>
      have short := env.store.opened_length start tree path wellFormed acyclic opened
      obtain ⟨node, mentioned, ⟨e, rfl, blamed⟩ | ⟨slot, tokens, s₁, rfl, stored, same, inner⟩⟩ :=
        evaluate_with_error env _ (equation_at_depth env (levels + 1)) tree
          (env.store.opened_well_formed start tree path wellFormed opened) s f failed
      · exact blamed_flat env.store node e blamed
      · rw [equationAt, if_neg (by omega)] at inner
        cases parsed : (Expression.parse ⟨false, false⟩ (.start tokens false)).1 with rw [parsed] at inner
        | error g =>
            cases inner
            exact Expression.parse_flat _ _ _ parsed
        | ok next =>
            have deeper := Store.Opened.inner path tree next slot opened mentioned ⟨tokens, stored, parsed⟩
            exact ih next (slot :: path) deeper (by simp; omega) s₁.enter (by simp [Supply.enter, same, depth]) inner

theorem cyclic_no_value (slot : UInt8) (cyclic : env.store.ReachesCycle slot) (tokens : Bytes)
    (stored : env.store.get? (.equation slot) = some (.string tokens)) (levels : Nat) (s : Supply) (v : Value) :
    (equationAt env levels tokens s).1 ≠ .ok v := by
  induction levels generalizing slot tokens s v with
  | zero =>
      intro done
      cases done
  | succ levels ih =>
      intro done
      obtain ⟨next, ⟨tree, ⟨same, stored', parsed⟩, mentioned⟩, cyclicNext⟩ := env.store.reaches_cycle_step slot cyclic
      have wellFormed := env.store.reads_well_formed slot tree ⟨same, stored', parsed⟩
      cases stored.symm.trans stored'
      rw [equationAt] at done
      split at done
      · cases done
      · rw [parsed] at done
        obtain ⟨inner, s₁, w, storedNext, _, value⟩ := evaluate_with_ok env _ (equation_at_depth env levels) tree wellFormed
          s.enter v done next mentioned
        exact ih next cyclicNext inner storedNext s₁ w value

end Evaluation

namespace Machine

theorem equation_recursion_sound (stops : Expression.Stops) (c : Cursor) (tree : Tree)
    (parsed : (Expression.parse stops c).1 = .ok tree) (m : Machine) (outside : m.supply.depth = 0) :
    (∀ levels, Evaluation.equationDepth ≤ levels →
        Evaluation.evaluateWith m.surroundings (Evaluation.equationAt m.surroundings levels) tree m.supply =
          Evaluation.evaluate m.surroundings tree m.supply) ∧
      (m.evaluate tree).2.supply.depth = m.supply.depth ∧
      ((∀ slot, tree.Mentions slot → ¬ m.store.ReachesCycle slot) →
        ∀ f, (m.evaluate tree).1 = .error f → f.cause ≠ .equationTooDeep) ∧
      ∀ slot, tree.Mentions slot → m.store.ReachesCycle slot → ∀ v, (m.evaluate tree).1 ≠ .ok v := by
  have wellFormed := Expression.parsed_well_formed stops c tree parsed
  have keeps := Evaluation.equation_at_depth m.surroundings
  refine ⟨fun levels enough => ?_, ?_, fun acyclic f failed => ?_, fun slot mentioned cyclic v done => ?_⟩
  · apply Evaluation.evaluate_with_congr m.surroundings _ _ (keeps levels)
    intro tokens s _
    exact Evaluation.equation_at_settled m.surroundings levels _ tokens s (by omega) (by omega)
  · exact Evaluation.evaluate_with_depth m.surroundings _ (keeps _) tree m.supply
  · exact Evaluation.opened_flat m.surroundings tree tree [] wellFormed acyclic .top _ (Nat.le_refl _) m.supply outside f
      failed
  · obtain ⟨tokens, s, w, stored, _, value⟩ := Evaluation.evaluate_with_ok m.surroundings _ (keeps _) tree wellFormed
      m.supply v done slot mentioned
    exact Evaluation.cyclic_no_value m.surroundings slot cyclic tokens stored _ s w value

-- The first two equations refer to each other, the third to the fourth.
theorem loop_beside_chain :
    let m := { Machine.initial with store := ⟨[(.equation 0, .string [0x5E, 0x11]), (.equation 1, .string [0x5E, 0x10]),
      (.equation 2, .string [0x5E, 0x13]), (.equation 3, .string [0x41])]⟩ }
    m.supply.depth = 0 ∧ m.store.ReachesCycle 0 ∧ ¬ m.store.ReachesCycle 2 ∧
      (∀ v, (m.evaluate (.equation 0)).1 ≠ .ok v) ∧
      ∀ f, (m.evaluate (.equation 2)).1 = .error f → f.cause ≠ .equationTooDeep := by
  intro m
  have read (slot byte : UInt8) (step : (Expression.readFrom ⟨false, false⟩ .empty (.start [0x5E, byte] false)).1 =
      .ok (.equation slot)) : (Expression.parse ⟨false, false⟩ (.start [0x5E, byte] false)).1 = .ok (.equation slot) :=
    (Expression.parse_ok _ _ _).mpr step
  have first := read 0 0x10 (by cbv)
  have second := read 1 0x11 (by cbv)
  have third := read 2 0x12 (by cbv)
  have fourth := read 3 0x13 (by cbv)
  have letter : (Expression.parse ⟨false, false⟩ (.start [0x41] false)).1 = .ok (.variable 0) :=
    (Expression.parse_ok _ _ _).mpr (by cbv)
  have loop : m.store.ReachesCycle 0 :=
    ⟨0, .refl, .tail (.single ⟨.equation 1, ⟨_, rfl, second⟩, .root⟩) ⟨.equation 0, ⟨_, rfl, first⟩, .root⟩⟩
  have chain : ¬ m.store.ReachesCycle 2 := by
    intro cyclic
    obtain ⟨next, ⟨tree, ⟨tokens, stored, parsed⟩, mentioned⟩, cyclicNext⟩ := m.store.reaches_cycle_step 2 cyclic
    cases stored
    cases fourth.symm.trans parsed
    cases Evaluation.equation_subtree 3 _ mentioned
    obtain ⟨_, ⟨tree, ⟨tokens, stored, parsed⟩, mentioned⟩, _⟩ := m.store.reaches_cycle_step 3 cyclicNext
    cases stored
    cases letter.symm.trans parsed
    cases mentioned with
    | under _ child member _ => cases member
  refine ⟨rfl, loop, chain, ?_, ?_⟩
  · exact (equation_recursion_sound _ _ _ first m rfl).2.2.2 0 .root loop
  · apply (equation_recursion_sound _ _ _ third m rfl).2.2.1
    intro slot mentioned
    cases Evaluation.equation_subtree 2 _ mentioned
    exact chain

end Machine

end GraphCalc

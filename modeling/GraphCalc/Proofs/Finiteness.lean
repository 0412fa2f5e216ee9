import GraphCalc.Session
import GraphCalc.Proofs.FiniteFunctions
import GraphCalc.Proofs.Yields

set_option autoImplicit false

namespace GraphCalc

def Store.Finite (s : Store) : Prop := ∀ slot v, s.get? slot = some v → v.Finite

theorem Store.entries_finite (s : Store) (each : ∀ entry ∈ s.entries, entry.2.Finite) : s.Finite := by
  intro slot v stored
  obtain ⟨entry, found, rfl⟩ := Option.map_eq_some_iff.mp stored
  exact each entry (List.mem_of_find?_eq_some found)

theorem Store.opened_alone (store : Store) (start tree : Tree) (path : List UInt8)
    (closed : ∀ slot, ¬ start.Mentions slot) (opened : store.Opened start path tree) : tree = start := by
  induction opened with
  | top => rfl
  | inner path tree next slot outer mentioned reads ih =>
      rw [ih] at mentioned
      exact absurd mentioned (closed slot)

def Supply.KeysFinite (s : Supply) : Prop := ∀ k ∈ s.keys, k.isFinite = true

theorem Supply.key_finite (s : Supply) (finite : s.KeysFinite) : s.key.1.isFinite = true ∧ s.key.2.KeysFinite := by
  unfold Supply.key
  split
  · rename_i k keys waiting
    refine ⟨finite k (by simp [waiting]), fun other member => finite other ?_⟩
    rw [waiting]
    exact List.mem_cons_of_mem k member
  · exact ⟨zero_finite, finite⟩

theorem Supply.key_generator (s : Supply) : s.key.2.generator = s.generator := by
  unfold Supply.key
  split <;> rfl

structure Supply.Finite (s : Supply) : Prop where
  keys : s.KeysFinite
  generator : s.generator.Sound

namespace Generator

theorem fraction_finite (g : Generator) (sound : g.Sound) : g.fraction.1.isFinite = true := sound.fraction []

theorem entry_finite (g : Generator) (sound : g.Sound) : g.entry.1.isFinite = true :=
  Rounding.small_integer_finite _ (sound.integer []).1 (sound.integer []).2

theorem congruential_sound (seed : Nat) : (congruential seed).Sound := by
  apply sound_of_states
  · exact fun n => Rounding.count_fraction_finite _
  · intro n
    change -9 ≤ Int.ofNat ((n >>> 32) % 19) - 9 ∧ Int.ofNat ((n >>> 32) % 19) - 9 ≤ 9
    rw [Int.ofNat_eq_natCast]
    omega

end Generator

namespace Evaluation

theorem scalar_finite (v : Value) (finite : v.Finite) : Yields Complex.Finite (scalar v) := by
  cases v with
  | number x => exact (yields_ok _).mpr (Complex.of_real_finite x finite)
  | complex c => exact (yields_ok _).mpr finite
  | _ => exact yields_error _

theorem as_number_finite (v : Value) (finite : v.Finite) : Yields (·.isFinite = true) v.asNumber := by
  cases v with
  | number x => exact (yields_ok _).mpr finite
  | _ => exact yields_error _

theorem single_row_finite (v : Value) (finite : v.Finite) :
    Yields (fun row => ∀ x ∈ row, x.isFinite = true) (singleRow v) := by
  unfold singleRow
  split
  · exact (yields_ok _).mpr (finite _ (by simp))
  · simp

theorem list_of_finite (vals : List Value) (finite : ∀ v ∈ vals, v.Finite) : Yields Value.Finite (listOf vals) := by
  unfold listOf
  split
  · exact yields_bind _ _ _ (yields_mapM vals _ fun v member => scalar_finite v (finite v member)) fun cs all =>
      (yields_pure _).mpr all.2
  · exact yields_bind _ _ _ (yields_mapM vals _ fun v member => as_number_finite v (finite v member)) fun xs all =>
      (yields_pure _).mpr all.2

theorem matrix_of_finite (vals : List Value) (finite : ∀ v ∈ vals, v.Finite) : Yields Value.Finite (matrixOf vals) := by
  have made (rows : List (List Float32)) (each : ∀ row ∈ rows, ∀ x ∈ row, x.isFinite = true) :
      Yields Value.Finite (do return Value.matrix (← RealMatrix.ofRows rows)) :=
    yields_bind _ _ _ (RealMatrix.of_rows_finite rows each) fun m entries => (yields_pure _).mpr entries
  unfold matrixOf
  split
  · refine yields_bind _ _ _ (yields_mapM vals _ fun v member => as_number_finite v (finite v member)) fun row all => ?_
    exact made [row] (by simpa using all.2)
  · exact yields_bind _ _ _ (yields_mapM vals _ fun v member => single_row_finite v (finite v member)) fun rows all =>
      made rows all.2

theorem apply_operator_finite (mode : Mode) (op : Operator) (vals : List Value) (finite : ∀ v ∈ vals, v.Finite) :
    Yields Value.Finite (applyOperator mode op vals) := by
  unfold applyOperator
  split
  · rename_i v
    exact Operation.unary_finite op mode v (finite v (by simp))
  · rename_i l r
    exact Operation.binary_finite l r (finite l (by simp)) (finite r (by simp)) op
  · simp

theorem element_finite (list : Value) (args : List Value) (finite : list.Finite) :
    Yields Value.Finite (element list args) := by
  refine yields_next _ _ fun first => yields_next _ _ fun i => ?_
  cases list with
  | list xs =>
      dsimp only
      split
      · rename_i x found
        exact (yields_pure _).mpr (finite x (List.mem_of_getElem? found))
      · simp
  | complexList cs =>
      dsimp only
      split
      · rename_i c found
        exact (yields_pure _).mpr (finite c (List.mem_of_getElem? found))
      · simp
  | _ => simp

theorem get_finite (m : RealMatrix) (row column : Nat) (finite : m.Finite) :
    Yields (·.isFinite = true) (m.get row column) := by
  unfold RealMatrix.get
  split
  · split
    · rename_i entries foundRow
      split
      · rename_i x found
        exact (yields_ok _).mpr (finite entries (List.mem_of_getElem? foundRow) x (List.mem_of_getElem? found))
      · simp
    · simp
  · simp

theorem matrix_element_finite (m : RealMatrix) (args : List Value) (finite : m.Finite) :
    Yields Value.Finite (matrixElement m args) := by
  refine yields_next _ _ fun first => yields_next _ _ fun row => yields_next _ _ fun second => ?_
  exact yields_next _ _ fun column => yields_bind _ _ _ (get_finite m row column finite) fun x ordinary =>
    (yields_pure _).mpr ordinary

theorem random_finite (args : List Value) (s : Supply) (sound : s.generator.Sound) :
    Gives Value.Finite (random args s) := by
  cases args with
  | nil => exact (gives_ok _ _ _).mpr (s.generator.fraction_finite sound)
  | cons count rest =>
      rw [random]
      cases count.integer with
      | error e => exact gives_error _ _ _
      | ok n =>
          dsimp only
          by_cases outside : n < 1 ∨ 999 < n
          · rw [if_pos outside]
            exact gives_error _ _ _
          · rw [if_neg outside]
            exact (gives_ok _ _ _).mpr
              (Generator.many_each _ _ Generator.fraction_finite Generator.fraction_drawn _ _ sound)

theorem random_matrix_finite (args : List Value) (s : Supply) (sound : s.generator.Sound) :
    Gives Value.Finite (randomMatrix args s) := by
  rw [randomMatrix]
  cases extents args with
  | error e => exact gives_error _ _ _
  | ok size =>
      dsimp only
      rw [gives_of_cause, yields_map]
      apply RealMatrix.of_rows_finite
      exact Generator.many_each _ (fun row : List Float32 => ∀ x ∈ row, x.isFinite = true)
        (Generator.many_each _ _ Generator.entry_finite Generator.entry_drawn _)
        (Generator.many_after _ Generator.entry_drawn _) _ _ sound

theorem defined_finite (store : Store) (slot : Slot) (stored : store.Finite) :
    Yields Value.Finite (defined (store.get? slot)) := by
  cases content : store.get? slot with
  | none => exact yields_error _
  | some v => exact (yields_ok _).mpr (stored slot v content)

theorem accessed_finite (store : Store) (target : Target) (stored : store.Finite) :
    Yields (fun container => ∀ v, container = some v → v.Finite) (accessed store target) := by
  have whole (slot : Slot) : Yields (fun container => ∀ v, container = some v → v.Finite)
      ((defined (store.get? slot)).map some) := by
    rw [yields_map]
    intro v found w same
    cases same
    exact defined_finite store slot stored v found
  cases target with
  | builtin f => exact (yields_ok _).mpr (by simp)
  | listElement i => exact whole (.list i)
  | customListElement name => exact whole (.customList name)
  | matrixElement i =>
      refine yields_bind _ _ _ (defined_finite store (.matrix i) stored) fun v finite => ?_
      cases v with
      | matrix m =>
          rw [yields_pure]
          intro w same
          cases same
          exact finite
      | _ => exact yields_throw _

theorem apply_target_finite (mode : Mode) (target : Target) (container : Option Value) (args : List Value) (s : Supply)
    (sound : s.generator.Sound) (finite : ∀ v ∈ args, v.Finite) (held : ∀ v, container = some v → v.Finite)
    (library : ∀ f, target = .builtin f → Function.LibraryFinite mode f) (other : target ≠ .builtin .median) :
    Gives Value.Finite (applyTarget mode target container args s) := by
  unfold applyTarget
  split
  · exact random_finite args s sound
  · exact random_matrix_finite args s sound
  · rename_i f _ _
    exact (gives_of_cause _ _ _).mpr (Function.apply_finite mode f args finite (library f rfl) (by simpa using other))
  · rename_i m
    exact (gives_of_cause _ _ _).mpr (matrix_element_finite m args (held _ rfl))
  · exact (gives_of_cause _ _ _).mpr (element_finite _ args (held _ rfl))
  · exact gives_error _ _ _

variable (env : Surroundings) (stored : env.store.Finite) (answered : env.answer.Finite)

include stored answered

theorem apply_call_finite (target : Target) (vals : List Value) (s : Supply) (supplied : s.Finite)
    (finite : ∀ v ∈ vals, v.Finite) (library : ∀ f, target = .builtin f → Function.LibraryFinite env.mode f)
    (other : target ≠ .builtin .median) : Gives Value.Finite (applyCall env target vals s) := by
  rw [applyCall]
  by_cases answer : target = .builtin .answer
  · rw [if_pos answer]
    exact (gives_ok _ _ _).mpr answered
  · rw [if_neg answer]
    by_cases key : target = .builtin .getKey
    · rw [if_pos key]
      exact (gives_ok _ _ _).mpr (s.key_finite supplied.keys).1
    · rw [if_neg key]
      cases found : accessed env.store target with
      | error e => exact gives_error _ _ _
      | ok container =>
          have held := accessed_finite env.store target stored container found
          exact apply_target_finite env.mode target container vals s supplied.generator finite held library other

theorem apply_node_finite (tree : Tree) (vals : List Value) (s : Supply) (supplied : s.Finite)
    (finite : ∀ v ∈ vals, v.Finite)
    (library : ∀ f args, tree = .call (.builtin f) args → Function.LibraryFinite env.mode f)
    (other : ∀ args, tree ≠ .call (.builtin .median) args) : Gives Value.Finite (applyNode env tree vals s) := by
  cases tree with
  | number x => exact (gives_of_cause _ _ _).mpr (Value.of_number_finite x)
  | complex re im => exact (gives_of_cause _ _ _).mpr (Value.of_complex_finite _)
  | «variable» slot =>
      refine (gives_ok _ _ _).mpr ?_
      cases content : env.store.get? (.variable slot) with
      | none => exact zero_finite
      | some v => exact stored (.variable slot) v content
  | string slot | list slot | customList name | matrix slot =>
      exact (gives_of_cause _ _ _).mpr (defined_finite env.store _ stored)
  | operator op args =>
      rw [applyNode]
      by_cases refused : op = .store
      · rw [if_pos refused]
        exact gives_error _ _ _
      · rw [if_neg refused]
        exact (gives_of_cause _ _ _).mpr (apply_operator_finite env.mode op vals finite)
  | call target args =>
      apply apply_call_finite env stored answered target vals s supplied finite
      · intro f same
        exact library f args (by rw [same])
      · intro same
        exact other args (by rw [same])
  | braces args => exact (gives_of_cause _ _ _).mpr (list_of_finite vals finite)
  | brackets args => exact (gives_of_cause _ _ _).mpr (matrix_of_finite vals finite)
  | text bytes => exact (gives_ok _ _ _).mpr trivial
  | equation slot | command c args => exact gives_error _ _ _

omit stored answered

theorem apply_node_supplied (tree : Tree) (vals : List Value) (s : Supply) (supplied : s.Finite) :
    (applyNode env tree vals s).2.Finite := by
  rcases apply_node_supply env tree vals s with same | ⟨draws, same⟩
  · rw [same]
    exact ⟨(s.key_finite supplied.keys).2, s.key_generator.symm ▸ supplied.generator⟩
  · rw [same]
    exact ⟨supplied.keys, s.generator.sound_after draws supplied.generator⟩

theorem median_node_lost (args : List Tree) (vals : List Value) (s : Supply) (w : Value) (finite : ∀ v ∈ vals, v.Finite)
    (applied : (applyNode env (.call (.builtin .median) args) vals s).1 = .ok w) (lost : ¬ w.Finite) :
    ∃ xs rest a b, vals = .list xs :: rest ∧ a ∈ xs ∧ b ∈ xs ∧ (a + b).isFinite = false ∧
      Function.apply env.mode .median vals = .ok (.number ((a + b) / 2)) ∧ ((a + b) / 2).isFinite = false := by
  have found : Function.apply env.mode .median vals = .ok w := of_cause_ok _ w applied
  rcases Function.apply_median env.mode vals finite w found with ordinary | ⟨v, rest, rfl, overflow⟩
  · exact absurd ordinary lost
  · obtain ⟨xs, a, b, rfl, first, second, sum, rfl⟩ := overflow
    exact ⟨xs, rest, a, b, rfl, first, second, sum, found, Bool.eq_false_iff.mpr lost⟩

-- A function is called in the tree, or in an equation opened from it.
def Calls (store : Store) (start : Tree) (f : Builtin) : Prop :=
  ∃ path tree args, store.Opened start path tree ∧ (Tree.call (.builtin f) args).Subtree tree

-- A median of finite values whose two middle values have a sum out of range, so that it is not finite itself.
def MedianLost (start : Tree) : Prop :=
  ∃ path tree args levels before xs rest after a b, env.store.Opened start path tree ∧
    (Tree.call (.builtin .median) args).Subtree tree ∧
    evaluateAllWith env (equationAt env levels) args before = (.ok (.list xs :: rest), after) ∧
    (∀ v ∈ Value.list xs :: rest, v.Finite) ∧ a ∈ xs ∧ b ∈ xs ∧ (a + b).isFinite = false ∧
    Function.apply env.mode .median (.list xs :: rest) = .ok (.number ((a + b) / 2)) ∧
    ((a + b) / 2).isFinite = false

include stored answered

theorem values_finite_but_for_medians (tree : Tree) (s : Supply) (v : Value) (keys : s.KeysFinite)
    (generator : s.generator.Sound) (library : ∀ f, Calls env.store tree f → Function.LibraryFinite env.mode f)
    (done : (evaluate env tree s).1 = .ok v) : v.Finite ∨ MedianLost env tree := by
  by_cases finite : v.Finite
  · exact Or.inl finite
  · right
    obtain ⟨path, inner, node, levels, opened, inside, spoils⟩ :=
      evaluate_at_lost env Value.Finite Supply.Finite (apply_node_supplied env)
        (fun _ supplied => ⟨⟨supplied.keys, supplied.generator⟩, ⟨supplied.keys, supplied.generator⟩⟩)
        equationDepth tree s ⟨keys, generator⟩ v done finite
    obtain ⟨before, vals, after, w, _, supplied, evaluated, operandsFinite, applied, lost⟩ := spoils
    by_cases median : ∃ args, node = .call (.builtin .median) args
    · obtain ⟨args, rfl⟩ := median
      obtain ⟨xs, rest, a, b, rfl, sum⟩ := median_node_lost env args vals after w operandsFinite applied lost
      exact ⟨path, inner, args, levels, before, xs, rest, after, a, b, opened, inside, evaluated, operandsFinite, sum⟩
    · refine absurd ?_ lost
      refine apply_node_finite env stored answered node vals after supplied operandsFinite (fun f args same => ?_)
        (fun args same => median ⟨args, same⟩) w applied
      exact library f ⟨path, inner, args, opened, same ▸ inside⟩

omit stored answered

theorem root_of_largest_finite :
    (evaluate ⟨⟨[(.variable 0, .number (.ofBits 0x7f7fffff))]⟩, .standard, .number 0⟩
        (.call (.builtin .squareRoot) [.variable 0]) ⟨[45], .congruential 1, 0⟩).1 = .ok (.number (.ofBits 0x5f7fffff)) ∧
      ((Value.number (.ofBits 0x5f7fffff)).Finite ∨
        MedianLost ⟨⟨[(.variable 0, .number (.ofBits 0x7f7fffff))]⟩, .standard, .number 0⟩
          (.call (.builtin .squareRoot) [.variable 0])) := by
  have nodes (part : Tree) (inside : part.Subtree (.call (.builtin .squareRoot) [.variable 0])) :
      part = .call (.builtin .squareRoot) [.variable 0] ∨ part = .variable 0 := by
    cases inside with
    | root => exact Or.inl rfl
    | under _ child member inside =>
        cases List.mem_singleton.mp member
        cases inside with
        | root => exact Or.inr rfl
        | under _ child member => cases member
  have value : (evaluate ⟨⟨[(.variable 0, .number (.ofBits 0x7f7fffff))]⟩, .standard, .number 0⟩
      (.call (.builtin .squareRoot) [.variable 0]) ⟨[45], .congruential 1, 0⟩).1 = .ok (.number (.ofBits 0x5f7fffff)) := by
    decide +kernel
  refine ⟨value, values_finite_but_for_medians _ (Store.entries_finite _ ?_) ?_ _ _ _ ?_
    (Generator.congruential_sound 1) ?_ value⟩
  · intro entry member
    cases List.mem_singleton.mp member
    exact (by decide +kernel : (Float32.ofBits 0x7f7fffff).isFinite = true)
  · exact zero_finite
  · intro k member
    cases List.mem_singleton.mp member
    decide +kernel
  · rintro f ⟨path, tree, args, opened, inside⟩
    have closed (slot : UInt8) (mentioned : (Tree.equation slot).Subtree (.call (.builtin .squareRoot) [.variable 0])) :
        False := by
      rcases nodes _ mentioned with same | same <;> cases same
    rw [Store.opened_alone _ _ tree path closed opened] at inside
    rcases nodes _ inside with same | same
    · cases same
      trivial
    · cases same

-- Both values weigh the same, so that half the weight is reached between them.
theorem median_of_large_values : Statistics.median (.list [3e38, 3e38]) none = .ok (.number (1 / 0)) := by
  have weights : Statistics.weighted (.list [3e38, 3e38]) none = .ok ([3e38, 3e38], [1, 1]) := by decide +kernel
  have kept : ([(3e38, 1), (3e38, 1)].filter fun p => Statistics.singles.lt Statistics.singles.zero p.2) =
      ([(3e38, 1), (3e38, 1)] : List (Float32 × Float32)) := by decide +kernel
  have sorted : ([(3e38, 1), (3e38, 1)] : List (Float32 × Float32)).mergeSort (fun a b => totalLe a.1 b.1) =
      [(3e38, 1), (3e38, 1)] := List.mergeSort_of_pairwise (by simp [totalLe])
  have middle : Statistics.medianWith Statistics.singles totalLe (fun a b => (a + b) / 2) [(3e38, 1), (3e38, 1)] =
      some (1 / 0) := by
    rw [Statistics.medianWith, kept, sorted]
    decide +kernel
  exact Statistics.median_found _ none _ _ _ weights middle

theorem median_of_large_values_infinite :
    (evaluate ⟨.empty, .standard, .number 0⟩
        (.call (.builtin .median) [.braces [.number 3e38, .number 3e38]]) (.fresh (.congruential 1))).1 = .ok (.number (1 / 0)) ∧
      ¬ (Value.number (1 / 0)).Finite := by
  have values : (evaluateAllWith ⟨.empty, .standard, .number 0⟩ (equationAt ⟨.empty, .standard, .number 0⟩ equationDepth)
      [.braces [.number 3e38, .number 3e38]] (.fresh (.congruential 1))).1 = .ok [.list [3e38, 3e38]] := by decide +kernel
  refine ⟨?_, ?_⟩
  · rw [evaluate, evaluate_with_node _ _ _ _ (by simp)]
    change (andThen (evaluateAllWith _ _ [.braces [.number 3e38, .number 3e38]] (.fresh (.congruential 1))) _).1 = _
    generalize evaluateAllWith _ _ _ _ = outcome at values ⊢
    obtain ⟨result, after⟩ := outcome
    cases values
    change ofCause (Statistics.median (.list [3e38, 3e38]) none) = _
    rw [median_of_large_values]
    rfl
  · intro finite
    exact absurd finite (by decide +kernel : ¬ (1 / 0 : Float32).isFinite = true)

end Evaluation

end GraphCalc

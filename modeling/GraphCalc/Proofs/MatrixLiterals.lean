import GraphCalc.Proofs.FiniteValues
import GraphCalc.Proofs.Nodes
import GraphCalc.Proofs.Precedence
import GraphCalc.Session

set_option autoImplicit false

namespace GraphCalc

structure RealLiteral where
  literal : Literal
  value : Float32
  real : literal.value = .number value

namespace RealLiteral

def bytes (x : RealLiteral) : Bytes := x.literal.first :: x.literal.more

def formula (x : RealLiteral) : Formula := .operand (.literal x.literal)

theorem finite (x : RealLiteral) : x.value.isFinite = true := by
  obtain ⟨n, imaginary, y, valued, _, same, _⟩ := Item.number_ok _ _ _ _ x.literal.read
  have read : x.literal.value = if imaginary then .complex 0 y else .number y := Item.operand.inj same
  rw [x.real] at read
  cases imaginary with
  | true => cases read
  | false =>
      cases read
      exact Item.finite_value_finite n _ valued

end RealLiteral

structure LiteralRow where
  first : RealLiteral
  more : List RealLiteral

namespace LiteralRow

def numbers (row : LiteralRow) : List RealLiteral := row.first :: row.more

def values (row : LiteralRow) : List Float32 := row.numbers.map RealLiteral.value

def inner (row : LiteralRow) : Bytes := List.intercalate [Byte.comma] (row.numbers.map RealLiteral.bytes)

def bytes (row : LiteralRow) : Bytes := Byte.openBracket :: (row.inner ++ [Byte.closeBracket])

def tree (row : LiteralRow) : Tree := .brackets (row.values.map .number)

theorem values_filled (row : LiteralRow) : row.values ≠ [] := List.cons_ne_nil _ _

end LiteralRow

-- For each row but the first, whether a comma stands before it.
structure MatrixLiteral where
  first : LiteralRow
  more : List (Bool × LiteralRow)

namespace MatrixLiteral

def rows (m : MatrixLiteral) : List LiteralRow := m.first :: m.more.map Prod.snd

theorem rows_filled (m : MatrixLiteral) : m.rows ≠ [] := List.cons_ne_nil _ _

def separator (comma : Bool) : Bytes := if comma then [Byte.comma] else []

def inner (m : MatrixLiteral) : Bytes := m.first.bytes ++ m.more.flatMap fun next => separator next.1 ++ next.2.bytes

def bytes (m : MatrixLiteral) : Bytes := Byte.openBracket :: (m.inner ++ [Byte.closeBracket])

def tree (m : MatrixLiteral) : Tree := .brackets (m.rows.map LiteralRow.tree)

-- A row waits behind its own bracket and the outer one, the commas in it and one for each row before it.
def Fits (m : MatrixLiteral) : Prop :=
  ∀ i row, m.rows[i]? = some row → i + 1 + row.values.length ≤ Stacks.pendingLimit

end MatrixLiteral

section Formulas

def Arguments.ofList (f : Formula) : (others : List Formula) → Arguments (others.length + 1)
  | [] => .last f
  | next :: others => .more (others.length + 1) f (ofList next others)

theorem of_list_trees (f : Formula) (more : List Formula) :
    (Arguments.ofList f more).trees = (f :: more).map Formula.tree := by
  induction more generalizing f with
  | nil => simp [Arguments.ofList, Arguments.trees]
  | cons next more ih => simp [Arguments.ofList, Arguments.trees, ih]

theorem of_list_render (f : Formula) (more : List Formula) :
    (Arguments.ofList f more).render = List.intercalate [Byte.comma] ((f :: more).map Formula.render) := by
  induction more generalizing f with
  | nil => simp [Arguments.ofList, Arguments.render]
  | cons next more ih => simp [Arguments.ofList, Arguments.render, ih, List.intercalate_cons_cons]

theorem of_list_depth (f : Formula) (more : List Formula) (n : Nat) :
    (Arguments.ofList f more).depth ≤ n ↔ ∀ i g, (f :: more)[i]? = some g → i + g.depth ≤ n := by
  induction more generalizing f n with
  | nil =>
      rw [Arguments.ofList, Arguments.depth]
      refine ⟨?_, fun each => by simpa using each 0 f rfl⟩
      intro bound i g found
      cases i with
      | zero =>
          cases found
          rwa [Nat.zero_add]
      | succ i => simp at found
  | cons next more ih =>
      rw [Arguments.ofList, Arguments.depth, Nat.max_le]
      refine ⟨?_, fun each => ⟨by simpa using each 0 f rfl, ?_⟩⟩
      · rintro ⟨here, later⟩ i g found
        cases i with
        | zero =>
            cases found
            rwa [Nat.zero_add]
        | succ i =>
            have bound := (ih next (n - 1)).mp (by omega) i g found
            omega
      · have positive : 1 ≤ n := by
          have second := each 1 next rfl
          omega
        have rest := (ih next (n - 1)).mpr fun i g found => by
          have bound := each (i + 1) g found
          omega
        omega

def Formula.bracketed (f : Formula) (others : List Formula) : Formula :=
  .gathered .brackets (others.length + 1) rfl (Arguments.ofList f others)

theorem bracketed_tree (f : Formula) (others : List Formula) :
    (Formula.bracketed f others).tree = .brackets ((f :: others).map Formula.tree) :=
  congrArg Tree.brackets (of_list_trees f others)

theorem bracketed_depth (f : Formula) (others : List Formula) :
    (Formula.bracketed f others).depth = (Arguments.ofList f others).depth + 1 := rfl

def LiteralRow.formula (row : LiteralRow) : Formula :=
  Formula.bracketed row.first.formula (row.more.map RealLiteral.formula)

def MatrixLiteral.formula (m : MatrixLiteral) : Formula :=
  Formula.bracketed m.first.formula (m.more.map fun next => next.2.formula)

theorem LiteralRow.formula_inner (row : LiteralRow) :
    (Arguments.ofList row.first.formula (row.more.map RealLiteral.formula)).render = row.inner := by
  rw [of_list_render, LiteralRow.inner, LiteralRow.numbers, List.map_cons, List.map_map]
  rfl

theorem LiteralRow.formula_tree (row : LiteralRow) : row.formula.tree = row.tree := by
  have leaf (x : RealLiteral) : x.formula.tree = .number x.value := x.real
  rw [LiteralRow.formula, bracketed_tree]
  simp [leaf, LiteralRow.tree, LiteralRow.values, LiteralRow.numbers]

theorem LiteralRow.formula_depth (row : LiteralRow) : row.formula.depth = row.values.length := by
  have size : row.values.length = row.more.length + 1 := by simp [LiteralRow.values, LiteralRow.numbers]
  have leaf (g : Formula) (member : g ∈ row.first.formula :: row.more.map RealLiteral.formula) : g.depth = 0 := by
    obtain ⟨x, _, rfl⟩ : ∃ x ∈ row.numbers, x.formula = g := List.mem_map.mp member
    rfl
  have bound (n : Nat) : (Arguments.ofList row.first.formula (row.more.map RealLiteral.formula)).depth ≤ n ↔
      row.more.length ≤ n := by
    rw [of_list_depth]
    refine ⟨fun each => ?_, fun enough i g found => ?_⟩
    · have inside : row.more.length < (row.first.formula :: row.more.map RealLiteral.formula).length := by simp
      have last := each row.more.length _ (List.getElem?_eq_getElem inside)
      omega
    · have inside := (List.getElem?_eq_some_iff.mp found).1
      rw [leaf g (List.mem_of_getElem? found)]
      simp only [List.length_cons, List.length_map] at inside
      omega
  have depth := Nat.le_antisymm ((bound _).mpr (Nat.le_refl _)) ((bound _).mp (Nat.le_refl _))
  rw [LiteralRow.formula, bracketed_depth, depth, size]

theorem MatrixLiteral.formula_tree (m : MatrixLiteral) : m.formula.tree = m.tree := by
  rw [MatrixLiteral.formula, bracketed_tree]
  simp [LiteralRow.formula_tree, MatrixLiteral.tree, MatrixLiteral.rows]

theorem MatrixLiteral.fits_depth (m : MatrixLiteral) : m.Fits ↔ m.formula.depth ≤ Stacks.pendingLimit := by
  have rows : m.first.formula :: m.more.map (fun next => next.2.formula) = m.rows.map LiteralRow.formula := by
    simp [MatrixLiteral.rows, Function.comp_def]
  have bound := of_list_depth m.first.formula (m.more.map fun next => next.2.formula) (Stacks.pendingLimit - 1)
  rw [rows] at bound
  have positive : 1 ≤ Stacks.pendingLimit := by decide
  rw [MatrixLiteral.formula, bracketed_depth, ← Nat.le_sub_iff_add_le positive, bound]
  simp only [MatrixLiteral.Fits, List.getElem?_map, Option.map_eq_some_iff]
  refine ⟨?_, fun each i row found => ?_⟩
  · rintro each i _ ⟨row, found, rfl⟩
    have room := each i row found
    rw [row.formula_depth]
    omega
  · have room := each i _ ⟨row, found, rfl⟩
    rw [row.formula_depth] at room
    omega

end Formulas

section Reading

def ReadsAs (bytes : Bytes) (all : List Item) : Prop :=
  ∀ tail, Separated tail → ∃ cut, Expression.items (bytes ++ tail) = (Expression.items tail).map (cut ++ ·) ∧
    ∀ s, Stacks.run s cut = s.run all

theorem cuts_reads (bytes : Bytes) (all : List Item) (cuts : Cuts bytes all) : ReadsAs bytes all :=
  fun tail separated => ⟨all, cuts tail separated, fun _ => rfl⟩

theorem reads_lead (first : UInt8) (bytes : Bytes) (item : Item) (all : List Item) (inLine : Byte.endsLine first = false)
    (read : ∀ rest, Item.read first rest = (.ok item, 0)) (later : ReadsAs bytes all) :
    ReadsAs (first :: bytes) (item :: all) := by
  intro tail separated
  obtain ⟨cut, items, same⟩ := later tail separated
  refine ⟨item :: cut, ?_, fun s => ?_⟩
  · rw [List.cons_append, Expression.items_cons first _ item 0 inLine (read _), List.drop_zero, items]
    cases Expression.items tail <;> rfl
  · rw [Stacks.run, Stacks.run]
    cases s.accept item with
    | error e => rfl
    | ok s₁ => exact same s₁

theorem reads_append (bytes bytes' : Bytes) (all all' : List Item) (left : ReadsAs bytes all) (right : ReadsAs bytes' all')
    (starts : ∀ tail, Separated tail → Separated (bytes' ++ tail)) : ReadsAs (bytes ++ bytes') (all ++ all') := by
  intro tail separated
  obtain ⟨front, frontItems, frontSame⟩ := left _ (starts tail separated)
  obtain ⟨back, backItems, backSame⟩ := right tail separated
  refine ⟨front ++ back, ?_, fun s => ?_⟩
  · rw [List.append_assoc, frontItems, backItems]
    cases Expression.items tail with
    | error e => rfl
    | ok later => simp [Except.map]
  · rw [Stacks.run_append, Stacks.run_append, frontSame]
    cases s.run all with
    | error e => rfl
    | ok s₁ => exact backSame s₁

theorem reads_next_row (bytes : Bytes) (all : List Item) (later : ReadsAs (Byte.openBracket :: bytes) all) :
    ReadsAs (Byte.closeBracket :: Byte.openBracket :: bytes) (.closer .bracket false :: .operator .comma :: all) := by
  intro tail separated
  obtain ⟨cut, items, same⟩ := later tail separated
  refine ⟨.closer .bracket true :: cut, ?_, fun s => ?_⟩
  · rw [List.cons_append, Expression.items_cons _ _ (.closer .bracket true) 0 rfl rfl, List.drop_zero, items]
    cases Expression.items tail <;> rfl
  · change s.run ([.closer .bracket true] ++ cut) = s.run ((Item.closer .bracket true).parts ++ all)
    rw [Stacks.run_append, Stacks.run_append, Stacks.run_single, Stacks.run_closer_parts]
    cases s.accept (.closer .bracket true) with
    | error e => rfl
    | ok s₁ => exact same s₁

theorem LiteralRow.inner_cuts (row : LiteralRow) :
    Cuts row.inner (Arguments.ofList row.first.formula (row.more.map RealLiteral.formula)).items := by
  rw [← row.formula_inner]
  exact arguments_cut _ _

theorem LiteralRow.bytes_cut (row : LiteralRow) : Cuts row.bytes row.formula.items := by
  have rendered : row.formula.render = row.bytes :=
    congrArg (fun inner => Byte.openBracket :: (inner ++ [Byte.closeBracket])) row.formula_inner
  rw [← rendered]
  exact formula_cuts row.formula

theorem rows_read (first : LiteralRow) (more : List (Bool × LiteralRow)) :
    ReadsAs (MatrixLiteral.inner ⟨first, more⟩)
      (Arguments.ofList first.formula (more.map fun next => next.2.formula)).items := by
  induction more generalizing first with
  | nil =>
      have alone : MatrixLiteral.inner ⟨first, []⟩ = first.bytes := by simp [MatrixLiteral.inner]
      rw [alone]
      exact cuts_reads _ _ first.bytes_cut
  | cons next more ih =>
      obtain ⟨comma, row⟩ := next
      have later := ih row
      have shape : MatrixLiteral.inner ⟨first, (comma, row) :: more⟩ =
          first.bytes ++ (MatrixLiteral.separator comma ++ MatrixLiteral.inner ⟨row, more⟩) := by
        simp [MatrixLiteral.inner]
      rw [shape, List.map_cons, Arguments.ofList, Arguments.items]
      cases comma with
      | true =>
          exact reads_append _ _ _ _ (cuts_reads _ _ first.bytes_cut)
            (reads_lead Byte.comma _ (.operator .comma) _ rfl (fun _ => rfl) later)
            fun tail _ => operator_separated .comma _ (by decide)
      | false =>
          obtain ⟨opened, starts⟩ : ∃ bytes, MatrixLiteral.inner ⟨row, more⟩ = Byte.openBracket :: bytes := ⟨_, rfl⟩
          rw [starts] at later
          have closed := reads_append _ _ _ _ (cuts_reads _ _ first.inner_cuts) (reads_next_row _ _ later)
            fun tail _ => closer_separated .bracket _
          have whole := reads_lead Byte.openBracket _ (.opener none .bracket) _ rfl (fun _ => rfl) closed
          have items : first.formula.items = .opener none .bracket ::
              ((Arguments.ofList first.first.formula (first.more.map RealLiteral.formula)).items ++
                [.closer .bracket false]) := rfl
          rw [starts, items]
          simpa [LiteralRow.bytes, MatrixLiteral.separator] using whole

theorem MatrixLiteral.bytes_read (m : MatrixLiteral) : ReadsAs m.bytes m.formula.items :=
  reads_lead Byte.openBracket _ (.opener none .bracket) _ rfl (fun _ => rfl)
    (reads_append _ _ _ _ (rows_read m.first m.more) (cuts_reads _ _ (cuts_closer .bracket))
      fun tail _ => closer_separated .bracket tail)

theorem MatrixLiteral.items_run (m : MatrixLiteral) :
    ∃ cut, Expression.items m.bytes = .ok cut ∧ Stacks.empty.run cut = Stacks.empty.run m.formula.items := by
  obtain ⟨cut, items, same⟩ := m.bytes_read [] (by simp [Separated])
  rw [List.append_nil, Expression.items] at items
  exact ⟨cut, by simpa [Except.map] using items, same _⟩

end Reading

section Values

theorem RealMatrix.of_rows_same (rows : List (List Float32)) (c : Nat) (filled : rows ≠ []) (positive : 0 < c)
    (same : ∀ row ∈ rows, row.length = c) : ofRows rows = .ok ⟨rows⟩ := by
  cases rows with
  | nil => exact absurd rfl filled
  | cons first rest =>
      have width : first.length = c := same first (by simp)
      have others : rest.all (·.length == first.length) = true := by
        rw [List.all_eq_true]
        intro row member
        rw [width, same row (by simp [member]), beq_self_eq_true]
      rw [ofRows, if_pos ⟨List.ne_nil_of_length_pos (width ▸ positive), others⟩]

theorem RealMatrix.of_rows_different (rows : List (List Float32)) (row row' : List Float32) (member : row ∈ rows)
    (member' : row' ∈ rows) (different : row.length ≠ row'.length) : ofRows rows = .error .invalidDim := by
  cases rows with
  | nil => cases member
  | cons first rest =>
      rw [ofRows, if_neg]
      rintro ⟨_, others⟩
      have width (row : List Float32) (member : row ∈ first :: rest) : row.length = first.length := by
        rcases List.mem_cons.mp member with rfl | among
        · rfl
        · exact beq_iff_eq.mp (List.all_eq_true.mp others row among)
      exact different ((width row member).trans (width row' member').symm)

namespace Evaluation

theorem matrix_of_numbers (xs : List Float32) (filled : xs ≠ []) :
    matrixOf (xs.map .number) = .ok (.matrix ⟨[xs]⟩) := by
  have numbers := mapM_wrapped Value.number Value.asNumber (fun _ => rfl) xs
  have all : (xs.map Value.number).all isNumber = true := by simp [isNumber]
  rw [matrixOf, if_pos all, numbers]
  change (do return Value.matrix (← RealMatrix.ofRows [xs])) = _
  rw [RealMatrix.of_rows_same [xs] xs.length (by simp) (List.length_pos_iff.mpr filled) (by simp)]
  rfl

theorem matrix_of_rows (rows : List (List Float32)) (filled : rows ≠ []) :
    matrixOf (rows.map fun row => .matrix ⟨[row]⟩) = (RealMatrix.ofRows rows).map .matrix := by
  have single := mapM_wrapped (fun row => Value.matrix ⟨[row]⟩) singleRow (fun _ => rfl) rows
  have mixed : ¬ (rows.map fun row => Value.matrix ⟨[row]⟩).all isNumber = true := by
    cases rows with
    | nil => exact absurd rfl filled
    | cons first rest => simp [isNumber]
  rw [matrixOf, if_neg mixed, single]
  change (do return Value.matrix (← RealMatrix.ofRows rows)) = _
  cases RealMatrix.ofRows rows <;> rfl

variable (env : Surroundings) (equation : Bytes → Supply → Outcome Value)

theorem evaluate_all_values {α : Type} (tree : α → Tree) (value : α → Value) (xs : List α)
    (each : ∀ x s, evaluateWith env equation (tree x) s = (.ok (value x), s)) (s : Supply) :
    evaluateAllWith env equation (xs.map tree) s = (.ok (xs.map value), s) := by
  induction xs with
  | nil => rfl
  | cons x xs ih =>
      rw [List.map_cons, evaluateAllWith, each x s]
      simp only [andThen, ih]
      rfl

theorem evaluate_row (row : LiteralRow) (s : Supply) :
    evaluateWith env equation row.tree s = (.ok (.matrix ⟨[row.values]⟩), s) := by
  have number (x : RealLiteral) (s : Supply) :
      evaluateWith env equation (.number x.value) s = (.ok (.number x.value), s) := by
    rw [evaluateWith, Value.ofNumber, guard_passes x.value x.finite]
    rfl
  have numbers := evaluate_all_values env equation (fun x : RealLiteral => .number x.value) (fun x => .number x.value)
    row.numbers number s
  have made := matrix_of_numbers row.values row.values_filled
  rw [LiteralRow.tree, evaluateWith, LiteralRow.values, List.map_map]
  rw [LiteralRow.values, List.map_map] at made
  change andThen (evaluateAllWith env equation (row.numbers.map fun x => .number x.value) s) _ = _
  rw [numbers]
  exact congrArg (fun made => (ofCause made, s)) made

theorem evaluate_matrix (m : MatrixLiteral) (s : Supply) :
    evaluateWith env equation m.tree s =
      (ofCause ((RealMatrix.ofRows (m.rows.map LiteralRow.values)).map .matrix), s) := by
  have rows := evaluate_all_values env equation LiteralRow.tree (fun row => .matrix ⟨[row.values]⟩) m.rows
    (evaluate_row env equation) s
  have made := matrix_of_rows (m.rows.map LiteralRow.values) (mt List.map_eq_nil_iff.mp m.rows_filled)
  rw [List.map_map] at made
  rw [MatrixLiteral.tree, evaluateWith, rows]
  exact congrArg (fun made => (ofCause made, s)) made

end Evaluation

end Values

namespace MatrixLiteral

theorem fits_rectangular (m : MatrixLiteral) (c : Nat) (same : ∀ row ∈ m.rows, row.values.length = c) :
    m.Fits ↔ m.rows.length + c ≤ Stacks.pendingLimit := by
  have filled := List.length_pos_iff.mpr m.rows_filled
  refine ⟨fun fits => ?_, fun enough i row found => ?_⟩
  · have inside : m.rows.length - 1 < m.rows.length := by omega
    have last := fits _ _ (List.getElem?_eq_getElem inside)
    rw [same _ (List.getElem_mem inside)] at last
    omega
  · have inside := (List.getElem?_eq_some_iff.mp found).1
    rw [same row (List.mem_of_getElem? found)]
    omega

theorem literal_denotes_rows (literal : MatrixLiteral) :
    (literal.Fits → (Expression.parse Expression.lineOnly (.start literal.bytes false)).1 = .ok literal.tree) ∧
      (¬ literal.Fits → ∃ fault, (Expression.parse Expression.lineOnly (.start literal.bytes false)).1 = .error fault ∧
        fault.cause = .expressionTooComplex ∧ fault.cause.kind = .memory) ∧
      (∀ c, (∀ row ∈ literal.rows, row.values.length = c) →
        (literal.Fits ↔ literal.rows.length + c ≤ Stacks.pendingLimit) ∧
          ∀ m : Machine, m.evaluate literal.tree = (.ok (.matrix ⟨literal.rows.map LiteralRow.values⟩), m)) ∧
      ∀ row ∈ literal.rows, ∀ row' ∈ literal.rows, row.values.length ≠ row'.values.length →
        ∀ m : Machine, m.evaluate literal.tree = (.error (.ofCause .invalidDim), m) := by
  have evaluated (m : Machine) : m.evaluate literal.tree =
      (Evaluation.ofCause ((RealMatrix.ofRows (literal.rows.map LiteralRow.values)).map .matrix), m) := by
    rw [Machine.evaluate, Evaluation.evaluate, Evaluation.evaluate_matrix]
  obtain ⟨cut, items, same⟩ := literal.items_run
  obtain ⟨room, full⟩ := Expression.parse_items literal.formula literal.bytes cut items same
  rw [literal.formula_tree] at room
  refine ⟨fun fits => room (literal.fits_depth.mp fits), fun crowded => ?_,
    fun c same => ⟨literal.fits_rectangular c same, ?_⟩, ?_⟩
  · obtain ⟨fault, failed, cause⟩ := full (Nat.lt_of_not_le fun fits => crowded (literal.fits_depth.mpr fits))
    exact ⟨fault, failed, cause, by rw [cause]; rfl⟩
  · intro m
    have positive : 0 < c := by
      rw [← same literal.first (by simp [rows])]
      exact List.length_pos_iff.mpr literal.first.values_filled
    rw [evaluated m, RealMatrix.of_rows_same _ c (mt List.map_eq_nil_iff.mp literal.rows_filled) positive
      (by simpa using same)]
    rfl
  · intro row member row' member' different m
    rw [evaluated m, RealMatrix.of_rows_different _ row.values row'.values (List.mem_map_of_mem member)
      (List.mem_map_of_mem member') different]
    rfl

-- Two rows back to back and a third after a comma; then two rows of which the second is longer.
theorem digit_rows_denote :
    let digit (n : Fin 10) : RealLiteral := ⟨Expression.digitLiteral n, Float32.ofNat n, rfl⟩
    let row (a b : Fin 10) : LiteralRow := ⟨digit a, [digit b]⟩
    let three : MatrixLiteral := ⟨row 1 2, [(false, row 3 4), (true, row 5 6)]⟩
    let uneven : MatrixLiteral := ⟨⟨digit 1, []⟩, [(false, row 2 3)]⟩
    three.bytes =
        [0x06, 0x06, 0x31, 0x2B, 0x32, 0x07, 0x06, 0x33, 0x2B, 0x34, 0x07, 0x2B, 0x06, 0x35, 0x2B, 0x36, 0x07, 0x07] ∧
      (Expression.parse Expression.lineOnly (.start three.bytes false)).1 = .ok three.tree ∧
      (Machine.initial.evaluate three.tree).1 = .ok (.matrix ⟨[[1, 2], [3, 4], [5, 6]]⟩) ∧
      (Machine.initial.evaluate uneven.tree).1 = .error (.ofCause .invalidDim) := by
  intro digit row three uneven
  have same : ∀ row ∈ three.rows, row.values.length = 2 := by
    simp [three, row, rows, LiteralRow.values, LiteralRow.numbers]
  obtain ⟨parsed, _, shape, _⟩ := literal_denotes_rows three
  obtain ⟨fits, evaluated⟩ := shape 2 same
  have refused := (literal_denotes_rows uneven).2.2.2 ⟨digit 1, []⟩ (by simp [uneven, rows]) (row 2 3)
    (by simp [uneven, rows]) (by simp [row, LiteralRow.values, LiteralRow.numbers]) Machine.initial
  refine ⟨by decide, parsed (fits.mpr (by decide)), ?_, by rw [refused]⟩
  rw [evaluated Machine.initial]
  rfl

end MatrixLiteral

end GraphCalc

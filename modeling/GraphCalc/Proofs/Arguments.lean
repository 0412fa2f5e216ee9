import GraphCalc.Proofs.Brackets
import GraphCalc.Proofs.StackOutline

set_option autoImplicit false

namespace GraphCalc

-- A node made of an opening bracket: what it is, the count of its arguments, the operands of each.
structure Gathered where
  opening : Opening
  count : Nat
  operands : List (List Tree)

namespace Tree

mutual
def leaves : Tree → List Tree
  | .operator _ (first :: more) => leaves first ++ leavesMore more
  | .call _ (first :: more) => leaves first ++ leavesMore more
  | .braces (first :: more) => leaves first ++ leavesMore more
  | .brackets (first :: more) => leaves first ++ leavesMore more
  | leaf => [leaf]

def leavesMore : List Tree → List Tree
  | [] => []
  | t :: rest => leaves t ++ leavesMore rest
end

def gathered (opening : Opening) (args : List Tree) : Gathered := ⟨opening, args.length, args.map leaves⟩

-- The nodes that have arguments, each before those inside it.
mutual
def gatherings : Tree → List Gathered
  | .operator _ args => gatheringsMore args
  | .call target (first :: more) => gathered (.call target) (first :: more) :: (gatherings first ++ gatheringsMore more)
  | .braces (first :: more) => gathered .braces (first :: more) :: (gatherings first ++ gatheringsMore more)
  | .brackets (first :: more) => gathered .brackets (first :: more) :: (gatherings first ++ gatheringsMore more)
  | _ => []

def gatheringsMore : List Tree → List Gathered
  | [] => []
  | t :: rest => gatherings t ++ gatheringsMore rest
end

end Tree

def Item.operand? : Item → Option Tree
  | .operand tree => some tree
  | .text bytes _ => some (.text bytes)
  | _ => none

def addFirst (operands : List Tree) : List (List Tree) → List (List Tree)
  | [] => []
  | first :: more => (operands ++ first) :: more

-- From inside a bracket, with `depth` others open in it: the commas of that bracket alone.
def commas : Nat → List Item → Nat
  | _, [] => 0
  | depth, item :: rest =>
    match item with
    | .opener _ _ => commas (depth + 1) rest
    | .closer _ _ => if depth = 0 then 0 else commas (depth - 1) rest
    | .operator op => if op = .comma ∧ depth = 0 then commas 0 rest + 1 else commas depth rest
    | .operand _ | .text _ _ => commas depth rest

def arguments : Nat → List Item → List (List Tree)
  | _, [] => [[]]
  | depth, item :: rest =>
    match item with
    | .opener _ _ => arguments (depth + 1) rest
    | .closer _ _ => if depth = 0 then [[]] else arguments (depth - 1) rest
    | .operator op => if op = .comma ∧ depth = 0 then [] :: arguments 0 rest else arguments depth rest
    | .operand tree => addFirst [tree] (arguments depth rest)
    | .text bytes _ => addFirst [.text bytes] (arguments depth rest)

def sourceGatherings : List Item → List Gathered
  | [] => []
  | .opener target group :: rest =>
    match Opening.ofItem? target group with
    | some opening => ⟨opening, 1 + commas 0 rest, arguments 0 rest⟩ :: sourceGatherings rest
    | none => sourceGatherings rest
  | _ :: rest => sourceGatherings rest

theorem add_first_length (operands : List Tree) (segments : List (List Tree)) :
    (addFirst operands segments).length = segments.length := by
  cases segments <;> rfl

theorem add_first_nothing (segments : List (List Tree)) : addFirst [] segments = segments := by
  cases segments <;> rfl

theorem add_first_twice (a b : List Tree) (segments : List (List Tree)) :
    addFirst a (addFirst b segments) = addFirst (a ++ b) segments := by
  cases segments with
  | nil => rfl
  | cons first more => simp [addFirst]

theorem arguments_length (depth : Nat) (all : List Item) : (arguments depth all).length = 1 + commas depth all := by
  induction all generalizing depth with
  | nil => rfl
  | cons item rest ih =>
      cases item with
      | operand tree => rw [arguments, commas, add_first_length, ih]
      | text bytes closed => rw [arguments, commas, add_first_length, ih]
      | operator op =>
          by_cases here : op = .comma ∧ depth = 0
          · simp only [arguments, commas, if_pos here, List.length_cons, ih]
            omega
          · simp only [arguments, commas, if_neg here, ih]
      | opener target group => exact ih (depth + 1)
      | closer group rowFollows =>
          by_cases here : depth = 0
          · simp [arguments, commas, here]
          · simp only [arguments, commas, if_neg here, ih]

namespace Mark

def operand? : Mark → Option Tree
  | .operand tree => some tree
  | _ => none

def isShape : Mark → Bool
  | .operand _ | .enter _ | .separator | .leave => true
  | .operator _ | .plain => false

def arguments : Nat → List Mark → List (List Tree)
  | _, [] => [[]]
  | depth, mark :: rest =>
    match mark with
    | .enter _ => arguments (depth + 1) rest
    | .leave => if depth = 0 then [[]] else arguments (depth - 1) rest
    | .separator => if depth = 0 then [] :: arguments 0 rest else arguments depth rest
    | .operand tree => addFirst [tree] (arguments depth rest)
    | .operator _ | .plain => arguments depth rest

def gatherings : List Mark → List Gathered
  | [] => []
  | mark :: rest =>
    match mark with
    | .enter opening => ⟨opening, (arguments 0 rest).length, arguments 0 rest⟩ :: gatherings rest
    | .operand _ | .operator _ | .separator | .leave | .plain => gatherings rest

theorem arguments_shape (depth : Nat) (marks : List Mark) :
    arguments depth (marks.filter isShape) = arguments depth marks := by
  induction marks generalizing depth with
  | nil => rfl
  | cons mark rest ih =>
      cases mark with
      | operator op => exact ih depth
      | plain => exact ih depth
      | operand tree => exact congrArg (addFirst [tree]) (ih depth)
      | enter opening => exact ih (depth + 1)
      | separator => rw [List.filter_cons_of_pos rfl, arguments, arguments, ih, ih]
      | leave => rw [List.filter_cons_of_pos rfl, arguments, arguments, ih]

theorem gatherings_shape (marks : List Mark) : gatherings (marks.filter isShape) = gatherings marks := by
  induction marks with
  | nil => rfl
  | cons mark rest ih =>
      cases mark with
      | enter opening => rw [List.filter_cons_of_pos rfl, gatherings, gatherings, ih, arguments_shape]
      | operator _ | plain | operand _ | separator | leave => exact ih

theorem operands_shape (marks : List Mark) : (marks.filter isShape).filterMap operand? = marks.filterMap operand? := by
  induction marks with
  | nil => rfl
  | cons mark rest ih =>
      cases mark with
      | operand tree => exact congrArg (List.cons tree) ih
      | operator _ | plain | enter _ | separator | leave => exact ih

end Mark

namespace Tree

theorem leaf_leaves (tree : Tree) (leaf : tree.children = []) : tree.leaves = [tree] := by
  cases tree with
  | operator op args => cases (leaf : args = []); rfl
  | call target args => cases (leaf : args = []); rfl
  | braces args => cases (leaf : args = []); rfl
  | brackets args => cases (leaf : args = []); rfl
  | _ => rfl

theorem leaf_gatherings (tree : Tree) (leaf : tree.children = []) : tree.gatherings = [] := by
  cases tree with
  | operator op args => cases (leaf : args = []); rfl
  | call target args => cases (leaf : args = []); rfl
  | braces args => cases (leaf : args = []); rfl
  | brackets args => cases (leaf : args = []); rfl
  | _ => rfl

theorem node_leaves (opening : Opening) (first : Tree) (more : List Tree) :
    (opening.node (first :: more)).leaves = first.leaves ++ leavesMore more := by
  cases opening <;> rfl

theorem node_gatherings (opening : Opening) (first : Tree) (more : List Tree) :
    (opening.node (first :: more)).gatherings =
      gathered opening (first :: more) :: (first.gatherings ++ gatheringsMore more) := by
  cases opening <;> rfl

theorem unary_leaves (op : Operator) (x : Tree) : (Tree.operator op [x]).leaves = x.leaves := by
  simp [leaves, leavesMore]

theorem binary_leaves (op : Operator) (lhs rhs : Tree) :
    (Tree.operator op [lhs, rhs]).leaves = lhs.leaves ++ rhs.leaves := by
  simp [leaves, leavesMore]

-- What the outline of a tree, with anything after it, says about operands and arguments.
structure Outlined (tree : Tree) : Prop where
  operands : tree.outline.filterMap Mark.operand? = tree.leaves
  arguments : ∀ depth rest,
    Mark.arguments depth (tree.outline ++ rest) = addFirst tree.leaves (Mark.arguments depth rest)
  gatherings : ∀ rest, Mark.gatherings (tree.outline ++ rest) = tree.gatherings ++ Mark.gatherings rest

theorem outlined_operands (more : List Tree) (each : ∀ t ∈ more, Outlined t) :
    (outlineMore more).filterMap Mark.operand? = leavesMore more := by
  induction more with
  | nil => rfl
  | cons t more ih =>
      rw [outlineMore, List.filterMap_cons_none rfl, List.filterMap_append, (each t (by simp)).operands,
        ih (fun u member => each u (by simp [member])), leavesMore]

theorem outlined_gatherings (more : List Tree) (each : ∀ t ∈ more, Outlined t) (rest : List Mark) :
    Mark.gatherings (outlineMore more ++ rest) = gatheringsMore more ++ Mark.gatherings rest := by
  induction more with
  | nil => rfl
  | cons t more ih =>
      rw [outlineMore, List.cons_append, Mark.gatherings, List.append_assoc, (each t (by simp)).gatherings,
        ih (fun u member => each u (by simp [member])), gatheringsMore, List.append_assoc]

theorem outlined_inside (more : List Tree) (each : ∀ t ∈ more, Outlined t) (depth : Nat) (rest : List Mark) :
    Mark.arguments (depth + 1) (outlineMore more ++ rest) =
      addFirst (leavesMore more) (Mark.arguments (depth + 1) rest) := by
  induction more with
  | nil => exact (add_first_nothing _).symm
  | cons t more ih =>
      rw [outlineMore, List.cons_append, Mark.arguments, if_neg (Nat.succ_ne_zero depth), List.append_assoc,
        (each t (by simp)).arguments, ih (fun u member => each u (by simp [member])), add_first_twice, leavesMore]

theorem outlined_apart (more : List Tree) (each : ∀ t ∈ more, Outlined t) (rest : List Mark) :
    Mark.arguments 0 (outlineMore more ++ .leave :: rest) = [] :: more.map leaves := by
  induction more with
  | nil => rfl
  | cons t more ih =>
      rw [outlineMore, List.cons_append, Mark.arguments, if_pos rfl, List.append_assoc, (each t (by simp)).arguments,
        ih (fun u member => each u (by simp [member]))]
      simp [addFirst]

theorem leaf_outlined (tree : Tree) (wellFormed : tree.WellFormed) (leaf : tree.children = []) : Outlined tree := by
  have outline := leaf_outline tree wellFormed leaf
  have leaves := leaf_leaves tree leaf
  refine ⟨?_, ?_, ?_⟩
  · rw [outline, leaves]
    rfl
  · intro depth rest
    rw [outline, leaves]
    rfl
  · intro rest
    rw [outline, leaf_gatherings tree leaf]
    rfl

theorem unary_outlined (op : Operator) (x : Tree) (inner : Outlined x) : Outlined (.operator op [x]) := by
  have gathered : (Tree.operator op [x]).gatherings = x.gatherings := by simp [gatherings, gatheringsMore]
  cases before : op.isPrefix with
  | true =>
      have shape : (Tree.operator op [x]).outline = .operator op :: x.outline := by rw [outline, if_pos before]
      refine ⟨?_, ?_, ?_⟩
      · rw [shape, unary_leaves, List.filterMap_cons_none rfl, inner.operands]
      · intro depth rest
        rw [shape, unary_leaves, List.cons_append, Mark.arguments, inner.arguments]
      · intro rest
        rw [shape, gathered, List.cons_append, Mark.gatherings, inner.gatherings]
  | false =>
      have shape : (Tree.operator op [x]).outline = x.outline ++ [.operator op] := by
        rw [outline, if_neg (by simp [before])]
      refine ⟨?_, ?_, ?_⟩
      · rw [shape, unary_leaves, List.filterMap_append, inner.operands, List.filterMap_cons_none rfl, List.filterMap_nil,
          List.append_nil]
      · intro depth rest
        rw [shape, unary_leaves, List.append_assoc, inner.arguments, List.singleton_append, Mark.arguments]
      · intro rest
        rw [shape, gathered, List.append_assoc, inner.gatherings, List.singleton_append, Mark.gatherings]

theorem binary_outlined (op : Operator) (lhs rhs : Tree) (left : Outlined lhs) (right : Outlined rhs) :
    Outlined (.operator op [lhs, rhs]) := by
  refine ⟨?_, ?_, ?_⟩
  · rw [binary_leaves, outline, List.filterMap_append, left.operands, List.filterMap_cons_none rfl, right.operands]
  · intro depth rest
    rw [binary_leaves, outline, List.append_assoc, left.arguments, List.cons_append, Mark.arguments, right.arguments,
      add_first_twice]
  · intro rest
    rw [outline, List.append_assoc, left.gatherings, List.cons_append, Mark.gatherings, right.gatherings]
    simp [gatherings, gatheringsMore]

theorem node_outlined (opening : Opening) (first : Tree) (more : List Tree) (head : Outlined first)
    (each : ∀ t ∈ more, Outlined t) : Outlined (opening.node (first :: more)) := by
  refine ⟨?_, ?_, ?_⟩
  · rw [outline_node, node_leaves, List.filterMap_cons_none rfl, List.filterMap_append, List.filterMap_append,
      head.operands, outlined_operands more each, List.filterMap_cons_none rfl, List.filterMap_nil, List.append_nil]
  · intro depth rest
    rw [outline_node, List.cons_append, List.append_assoc, List.append_assoc, Mark.arguments, head.arguments,
      outlined_inside more each, add_first_twice, node_leaves]
    rfl
  · intro rest
    have closed : Mark.arguments 0 (first.outline ++ (outlineMore more ++ .leave :: rest)) = (first :: more).map leaves := by
      rw [head.arguments, outlined_apart more each]
      simp [addFirst]
    rw [outline_node, node_gatherings, List.cons_append, List.append_assoc, List.append_assoc, List.singleton_append,
      Mark.gatherings, closed, head.gatherings, outlined_gatherings more each, Mark.gatherings, List.length_map,
      List.cons_append, List.append_assoc]
    rfl

theorem outline_outlined (tree : Tree) (wellFormed : tree.WellFormed) : Outlined tree :=
  well_formed_induction Outlined leaf_outlined unary_outlined binary_outlined node_outlined tree wellFormed

end Tree

theorem implied_arguments (product : Bool) (depth : Nat) (mark : Mark) (rest : List Mark) :
    Mark.arguments depth (implied product ++ [mark] ++ rest) = Mark.arguments depth (mark :: rest) := by
  cases product <;> rfl

def gatheringDepth : List (Option Opening) → Nat
  | [] => 0
  | none :: rest => gatheringDepth rest
  | some _ :: rest => gatheringDepth rest + 1

theorem left_arguments (inner outside : List (Option Opening)) (opening : Opening) :
    Mark.arguments (gatheringDepth inner) ((inner ++ some opening :: outside).map leaveMark) = [[]] := by
  induction inner with
  | nil => rfl
  | cons bracket inner ih =>
      cases bracket with
      | none => exact ih
      | some o => exact ih

theorem source_arguments (ended : Bool) (inner outside : List (Option Opening)) (opening : Opening) (all : List Item) :
    Mark.arguments (gatheringDepth inner) (sourceOutline ended (inner ++ some opening :: outside) all) =
      arguments inner.length all := by
  induction all generalizing ended inner with
  | nil => exact left_arguments inner outside opening
  | cons item rest ih =>
      rw [sourceOutline, Item.outline, implied_arguments]
      cases item with
      | operand tree => exact congrArg (addFirst [tree]) (ih true inner)
      | text bytes closed => exact congrArg (addFirst [.text bytes]) (ih true inner)
      | operator op =>
          by_cases comma : op = .comma
          · subst comma
            cases inner with
            | nil => exact congrArg (List.cons []) (ih false [])
            | cons bracket inner =>
                cases bracket with
                | none => exact ih false (none :: inner)
                | some o => exact ih false (some o :: inner)
          · simp only [Item.mark, arguments, comma, false_and, if_false]
            exact ih _ inner
      | opener target group =>
          have later := ih false (Opening.ofItem? target group :: inner)
          simp only [Item.mark, Item.around, Item.endsOperand]
          cases found : Opening.ofItem? target group with rw [found] at later
          | none => exact later
          | some o => exact later
      | closer group rowFollows =>
          cases inner with
          | nil => rfl
          | cons bracket inner =>
              have later := ih true inner
              cases bracket with
              | none => exact later
              | some o => exact later

theorem left_gatherings (around : List (Option Opening)) : Mark.gatherings (around.map leaveMark) = [] := by
  induction around with
  | nil => rfl
  | cons bracket outside ih => cases bracket <;> exact ih

theorem source_gatherings (ended : Bool) (around : List (Option Opening)) (all : List Item) :
    Mark.gatherings (sourceOutline ended around all) = sourceGatherings all := by
  induction all generalizing ended around with
  | nil => exact left_gatherings around
  | cons item rest ih =>
      have implied (product : Bool) (mark : Mark) (rest : List Mark) :
          Mark.gatherings (implied product ++ [mark] ++ rest) = Mark.gatherings (mark :: rest) := by
        cases product <;> rfl
      rw [sourceOutline, Item.outline, implied]
      cases item with
      | operand tree => exact ih _ _
      | text bytes closed => exact ih _ _
      | operator op =>
          by_cases comma : op = .comma
          · rw [Item.mark, if_pos comma]
            rcases separator_mark_cases around with same | same <;> rw [same] <;> exact ih _ _
          · rw [Item.mark, if_neg comma]
            exact ih _ _
      | opener target group =>
          simp only [Item.mark, Item.around, Item.endsOperand, sourceGatherings]
          cases Opening.ofItem? target group with
          | none => exact ih _ _
          | some opening =>
              have inside := source_arguments false [] around opening rest
              simp only [gatheringDepth, List.nil_append, List.length_nil] at inside
              simp only [enterMark, Mark.gatherings]
              rw [inside, arguments_length, ih]
      | closer group rowFollows =>
          rw [Item.mark]
          rcases leave_mark_cases around.head?.join with same | same <;> rw [same] <;> exact ih _ _

theorem item_mark_operand (ended : Bool) (around : List (Option Opening)) (item : Item) :
    (item.mark ended around).operand? = item.operand? := by
  cases item with
  | operand tree => rfl
  | text bytes closed => rfl
  | operator op =>
      by_cases comma : op = .comma
      · rw [Item.mark, if_pos comma]
        rcases separator_mark_cases around with same | same <;> rw [same] <;> rfl
      · rw [Item.mark, if_neg comma]
        rfl
  | opener target group => cases target <;> cases group <;> rfl
  | closer group rowFollows =>
      rw [Item.mark]
      rcases leave_mark_cases around.head?.join with same | same <;> rw [same] <;> rfl

theorem source_operands (ended : Bool) (around : List (Option Opening)) (all : List Item) :
    (sourceOutline ended around all).filterMap Mark.operand? = all.filterMap Item.operand? := by
  have product (needed : Bool) : (implied needed).filterMap Mark.operand? = [] := by cases needed <;> rfl
  induction all generalizing ended around with
  | nil =>
      rw [sourceOutline, List.filterMap_nil, List.filterMap_eq_nil_iff]
      intro mark member
      obtain ⟨bracket, _, rfl⟩ := List.mem_map.mp member
      cases bracket <;> rfl
  | cons item rest ih =>
      rw [sourceOutline, Item.outline, List.append_assoc, List.filterMap_append, product, List.nil_append,
        List.singleton_append, List.filterMap_cons, List.filterMap_cons, item_mark_operand, ih]

namespace Expression

theorem parse_leaves (c : Cursor) (tree : Tree) (parsed : (parse lineOnly c).1 = .ok tree) :
    ∃ all, source c.rest = .ok all ∧ tree.leaves = all.filterMap Item.operand? := by
  obtain ⟨all, s, cut, _, _, _, late⟩ := parse_outline c tree parsed
  have wellFormed := parsed_well_formed lineOnly c tree parsed
  have shape := late_filter Mark.isShape false 0 _ _ rfl rfl late
  refine ⟨all, cut, ?_⟩
  rw [← (tree.outline_outlined wellFormed).operands, ← Mark.operands_shape, shape, Mark.operands_shape, source_operands]

theorem parse_gathers_arguments (c : Cursor) (tree : Tree) (parsed : (parse lineOnly c).1 = .ok tree) :
    ∃ all, source c.rest = .ok all ∧ tree.leaves = all.filterMap Item.operand? ∧
      tree.gatherings = sourceGatherings all ∧
        ∃ left, unclosed [] all = some left ∧ ∀ group ∈ left, group = .paren := by
  obtain ⟨all, s, cut, ran, finished, _, late⟩ := parse_outline c tree parsed
  obtain ⟨_, cut', leaves⟩ := parse_leaves c tree parsed
  cases cut.symm.trans cut'
  refine ⟨all, cut, leaves, ?_, _, Stacks.run_groups .empty s all (source_single c.rest all cut) ran,
    Stacks.finishes_groups _ _ tree finished⟩
  have whole := (tree.outline_outlined (parsed_well_formed lineOnly c tree parsed)).gatherings []
  have shape := late_filter Mark.isShape false 0 _ _ rfl rfl late
  rw [List.append_nil, Mark.gatherings, List.append_nil] at whole
  rw [← whole, ← Mark.gatherings_shape, shape, Mark.gatherings_shape, source_gatherings]

-- The greatest of `A` and a matrix of two rows, the parenthesis left open.
theorem call_of_rows_gathers_arguments :
    (parse lineOnly (.start [0x19, 0x41, 0x2B, 0x06, 0x06, 0x42, 0x07, 0x06, 0x43, 0x07, 0x07] false)).1 =
        .ok (.call (.builtin .maximum) [.variable 0, .brackets [.brackets [.variable 1], .brackets [.variable 2]]]) ∧
      ∃ all, source [0x19, 0x41, 0x2B, 0x06, 0x06, 0x42, 0x07, 0x06, 0x43, 0x07, 0x07] = .ok all ∧
        [.variable 0, .variable 1, .variable 2] = all.filterMap Item.operand? ∧
          [⟨.call (.builtin .maximum), 2, [[.variable 0], [.variable 1, .variable 2]]⟩,
            ⟨.brackets, 2, [[.variable 1], [.variable 2]]⟩, ⟨.brackets, 1, [[.variable 1]]⟩,
            ⟨.brackets, 1, [[.variable 2]]⟩] = sourceGatherings all ∧
            ∃ left, unclosed [] all = some left ∧ ∀ group ∈ left, group = .paren := by
  have parsed : (parse lineOnly (.start [0x19, 0x41, 0x2B, 0x06, 0x06, 0x42, 0x07, 0x06, 0x43, 0x07, 0x07] false)).1 =
      .ok (.call (.builtin .maximum) [.variable 0, .brackets [.brackets [.variable 1], .brackets [.variable 2]]]) :=
    (parse_ok _ _ _).mpr (by cbv)
  exact ⟨parsed, parse_gathers_arguments _ _ parsed⟩

end Expression

end GraphCalc

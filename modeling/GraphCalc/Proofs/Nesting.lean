import GraphCalc.Proofs.Brackets
import GraphCalc.Proofs.WellFormed

set_option autoImplicit false

namespace GraphCalc.Stacks

-- What the items of an expression do to the pending entries and to the count. A comma is never applied.
inductive Shifts : List Pending → Nat → List Pending → Nat → Prop where
  | same (pending : List Pending) (nested : Nat) : Shifts pending nested pending nested
  | andThen (pending pending₁ pending₂ : List Pending) (nested nested₁ nested₂ : Nat)
      (first : Shifts pending nested pending₁ nested₁) (second : Shifts pending₁ nested₁ pending₂ nested₂) :
      Shifts pending nested pending₂ nested₂
  | applied (op : Operator) (pending : List Pending) (nested : Nat) (other : op ≠ .comma) :
      Shifts (.operator op :: pending) nested pending nested
  | placed (op : Operator) (pending : List Pending) (nested : Nat) :
      Shifts pending nested (.operator op :: pending) nested
  | opened (target : Option Target) (group : Group) (height : Nat) (pending : List Pending) (nested : Nat) :
      Shifts pending nested (openingEntries target group height ++ pending) (nested + 1)
  | closed (group : Group) (pending pending' : List Pending) (output output' : List Tree) (nested : Nat)
      (closes : GroupCloses group pending output pending' output') : Shifts pending nested pending' (nested - 1)

theorem reduce_stacks_shifts (strength : Nat) (right : Bool) (pending pending' : List Pending) (output output' : List Tree)
    (nested : Nat) (spared : waits .comma strength right = true)
    (reduced : reduceStacks strength right pending output = .ok (pending', output')) :
    Shifts pending nested pending' nested := by
  fun_induction reduceStacks strength right pending output with
  | case1 => cases reduced; exact .same _ _
  | case2 op pending output applies output₁ applied ih =>
      have other : op ≠ .comma := by
        rintro rfl
        exact applies spared
      exact .andThen _ _ _ _ _ _ (.applied op pending nested other) (ih reduced)
  | case3 => cases reduced
  | case4 => cases reduced; exact .same _ _

theorem place_operator_shifts (s s' : Stacks) (op : Operator) (placed : s.placeOperator op = .ok s') :
    Shifts s.pending s.nested s'.pending s'.nested := by
  obtain ⟨pending, output, reduced, rfl⟩ := place_operator_ok s s' op placed
  have before := reduce_stacks_shifts _ _ _ _ _ _ s.nested (placing_spares_comma op) reduced
  exact .andThen _ _ _ _ _ _ before (.placed op pending s.nested)

theorem multiply_shifts (s s' : Stacks) (multiplied : s.multiply = .ok s') :
    Shifts s.pending s.nested s'.pending s'.nested := by
  rcases multiply_ok s s' multiplied with ⟨_, rfl⟩ | ⟨_, placed⟩
  · exact .same _ _
  · exact place_operator_shifts s s' .multiply placed

theorem take_operator_shifts (s s' : Stacks) (written : Operator) (taken : s.takeOperator written = .ok s') :
    Shifts s.pending s.nested s'.pending s'.nested := by
  rcases take_operator_ok s s' written taken with ⟨_, s₁, multiplied, rfl⟩ | ⟨_, placed⟩
  · exact .andThen _ _ _ _ _ _ (multiply_shifts s s₁ multiplied) (.placed .negate s₁.pending s₁.nested)
  · exact place_operator_shifts s s' _ placed

theorem take_closer_shifts (s s' : Stacks) (group : Group) (taken : s.takeCloser group = .ok s') :
    Shifts s.pending s.nested s'.pending s'.nested := by
  obtain ⟨pending, output, pending', output', reduced, closes, rfl⟩ := take_closer_ok s s' group taken
  have before := reduce_stacks_shifts _ _ _ _ _ _ s.nested (by rfl) reduced
  exact .andThen _ _ _ _ _ _ before (.closed group _ _ _ _ s.nested closes)

theorem accept_shifts (s s' : Stacks) (item : Item) (accepted : s.accept item = .ok s') :
    Shifts s.pending s.nested s'.pending s'.nested := by
  cases item with
  | operand tree =>
      obtain ⟨s₁, multiplied, rfl⟩ := take_operand_ok s s' tree accepted
      exact multiply_shifts s s₁ multiplied
  | text bytes closed =>
      obtain ⟨s₁, multiplied, rfl⟩ := take_text_ok s s' bytes closed accepted
      exact multiply_shifts s s₁ multiplied
  | operator op => exact take_operator_shifts s s' op accepted
  | opener target group =>
      obtain ⟨s₁, multiplied, rfl⟩ := take_opener_ok s s' target group accepted
      exact .andThen _ _ _ _ _ _ (multiply_shifts s s₁ multiplied) (.opened target group _ s₁.pending s₁.nested)
  | closer group rowFollows =>
      obtain ⟨s₁, closed, separated⟩ := bind_ok accepted
      have before := take_closer_shifts s s₁ group closed
      cases rowFollows with
      | false =>
          cases Except.ok.inj separated
          exact before
      | true => exact .andThen _ _ _ _ _ _ before (take_operator_shifts s₁ s' .comma separated)

theorem run_shifts (s s' : Stacks) (all : List Item) (ran : s.run all = .ok s') :
    Shifts s.pending s.nested s'.pending s'.nested := by
  induction all generalizing s with
  | nil =>
      cases Except.ok.inj ran
      exact .same _ _
  | cons item rest ih =>
      obtain ⟨s₁, accepted, restRan⟩ := bind_ok ran
      exact .andThen _ _ _ _ _ _ (accept_shifts s s₁ item accepted) (ih s₁ restRan)

def Counted (pending : List Pending) (nested : Nat) : Prop := nested = (openGroups pending).length

theorem counted_outside (pending : List Pending) (nested : Nat) (counted : Counted pending nested) (outside : nested = 0) :
    openGroups pending = [] := List.eq_nil_of_length_eq_zero (counted.symm.trans outside)

theorem shifts_counted (pending pending' : List Pending) (nested nested' : Nat)
    (shifts : Shifts pending nested pending' nested') (counted : Counted pending nested) : Counted pending' nested' := by
  induction shifts with
  | same => exact counted
  | andThen _ _ _ _ _ _ _ _ first second => exact second (first counted)
  | applied op pending nested => exact counted
  | placed op pending nested => exact counted
  | opened target group height pending nested =>
      rw [Counted, open_groups_opening, List.length_cons, counted]
  | closed group pending pending' output output' nested closes =>
      rw [Counted, group_closes_groups _ _ _ _ _ closes, List.length_cons] at counted
      rw [Counted, counted, Nat.add_sub_cancel]

theorem accept_unclosed (s s' : Stacks) (item : Item) (accepted : s.accept item = .ok s') (rest : List Item) :
    unclosed (openGroups s.pending) (item :: rest) = unclosed (openGroups s'.pending) rest := by
  cases item with
  | text bytes closed =>
      obtain ⟨s₁, multiplied, rfl⟩ := take_text_ok s s' bytes closed accepted
      rw [unclosed, multiply_groups s s₁ multiplied] <;> simp
  | closer group rowFollows =>
      cases rowFollows with
      | false => exact accept_groups s s' (.closer group false) rfl accepted rest
      | true =>
          obtain ⟨s₁, closed, separated⟩ := bind_ok accepted
          have first : s.accept (.closer group false) = .ok s₁ := by
            rw [accept, closed]
            rfl
          have second := accept_groups s₁ s' (.operator .comma) trivial separated rest
          rw [unclosed] at second
          · rw [← second, ← accept_groups s s₁ (.closer group false) rfl first rest]
            cases openGroups s.pending <;> rfl
          all_goals simp
  | operand tree => exact accept_groups s s' (.operand tree) trivial accepted rest
  | operator op => exact accept_groups s s' (.operator op) trivial accepted rest
  | opener target group => exact accept_groups s s' (.opener target group) trivial accepted rest

theorem run_unclosed (s s' : Stacks) (all : List Item) (ran : s.run all = .ok s') :
    unclosed (openGroups s.pending) all = some (openGroups s'.pending) := by
  induction all generalizing s with
  | nil =>
      cases Except.ok.inj ran
      exact unclosed.eq_1 _
  | cons item rest ih =>
      obtain ⟨s₁, accepted, restRan⟩ := bind_ok ran
      rw [accept_unclosed s s₁ item accepted]
      exact ih s₁ restRan

def StrayComma : List Pending → Prop
  | [] => False
  | entry :: below => (entry = .operator .comma ∧ openGroups below = []) ∨ StrayComma below

theorem stray_opening (target : Option Target) (group : Group) (height : Nat) (pending : List Pending)
    (stray : StrayComma pending) : StrayComma (openingEntries target group height ++ pending) := by
  cases target with
  | none => exact Or.inr stray
  | some t => exact Or.inr (Or.inr stray)

theorem stray_below (commas : Nat) (group : Group) (height : Nat) (below : List Pending)
    (stray : StrayComma (List.replicate commas (.operator .comma) ++ .group group height :: below)) : StrayComma below := by
  induction commas with
  | zero =>
      rcases stray with ⟨same, _⟩ | stray
      · cases same
      · exact stray
  | succ n ih =>
      rw [List.replicate_succ, List.cons_append] at stray
      rcases stray with ⟨_, outside⟩ | stray
      · rw [open_groups_commas, open_groups_group] at outside
        cases outside
      · exact ih stray

theorem group_closes_stray (group : Group) (pending pending' : List Pending) (output output' : List Tree)
    (closed : GroupCloses group pending output pending' output') (stray : StrayComma pending) : StrayComma pending' := by
  obtain ⟨commas, height, below, _, opening, _, _, closes⟩ := closed
  have outside := stray_below commas group height below stray
  cases closes with
  | brace => exact outside
  | bracket => exact outside
  | plain => exact outside
  | call target =>
      rcases outside with ⟨same, _⟩ | outside
      · cases same
      · exact outside

theorem shifts_stray (pending pending' : List Pending) (nested nested' : Nat)
    (shifts : Shifts pending nested pending' nested') (stray : StrayComma pending) : StrayComma pending' := by
  induction shifts with
  | same => exact stray
  | andThen _ _ _ _ _ _ _ _ first second => exact second (first stray)
  | applied op pending nested other =>
      rcases stray with ⟨same, _⟩ | stray
      · cases same
        exact absurd rfl other
      · exact stray
  | placed op pending nested => exact Or.inr stray
  | opened target group height pending nested => exact stray_opening target group height pending stray
  | closed group pending pending' output output' nested closes => exact group_closes_stray _ _ _ _ _ closes stray

theorem finishes_not_stray (pending : List Pending) (output : List Tree) (tree : Tree)
    (finished : Finishes pending output tree) : ¬ StrayComma pending := by
  have flushed (pending pending' : List Pending) (output output' : List Tree)
      (reduced : reduceStacks Operator.flush false pending output = .ok (pending', output')) (stray : StrayComma pending) :
      StrayComma pending' := shifts_stray _ _ 0 0 (reduce_stacks_shifts _ _ _ _ _ _ 0 (by rfl) reduced) stray
  induction finished with
  | done pending output tree reduced => exact flushed _ _ _ _ reduced
  | close pending pending₁ pending₂ output output₁ output₂ tree reduced closes rest ih =>
      exact fun stray => ih (group_closes_stray _ _ _ _ _ closes (flushed _ _ _ _ reduced stray))

theorem comma_outside (s s' : Stacks) (counted : Counted s.pending s.nested) (outside : s.nested = 0)
    (accepted : s.accept (.operator .comma) = .ok s') : StrayComma s'.pending := by
  have none := counted_outside s.pending s.nested counted outside
  rcases take_operator_ok s s' .comma accepted with ⟨negation, _⟩ | ⟨_, placed⟩
  · cases negation
  · obtain ⟨pending, output, reduced, rfl⟩ := place_operator_ok s s' _ placed
    exact Or.inl ⟨rfl, (reduce_stacks_groups _ _ _ _ _ _ reduced).trans none⟩

theorem closer_outside (s s' : Stacks) (group : Group) (rowFollows : Bool) (counted : Counted s.pending s.nested)
    (outside : s.nested = 0) : s.accept (.closer group rowFollows) ≠ .ok s' := by
  intro accepted
  have none := counted_outside s.pending s.nested counted outside
  obtain ⟨s₁, closed, _⟩ := bind_ok accepted
  obtain ⟨pending, output, pending', output', reduced, closes, _⟩ := take_closer_ok s s₁ group closed
  rw [← reduce_stacks_groups _ _ _ _ _ _ reduced, group_closes_groups _ _ _ _ _ closes] at none
  cases none

theorem innermost_open (s : Stacks) : s.innermost? = (openGroups s.pending).head? := by
  obtain ⟨output, pending, nested, need⟩ := s
  induction pending with
  | nil => rfl
  | cons entry below ih =>
      cases entry with
      | group g height => rfl
      | operator op => exact ih
      | call target => exact ih

theorem finishes_close_open (s : Stacks) (tree : Tree) (counted : Counted s.pending s.nested)
    (finished : Finishes s.pending s.output tree) :
    ∃ s', closeOpen s.nested s = .ok s' ∧ s'.pending = [] ∧ s'.output = [tree] := by
  obtain ⟨output, pending, nested, need⟩ := s
  dsimp only at counted finished ⊢
  induction finished generalizing nested need with
  | done pending output tree reduced =>
      have groups := reduce_stacks_groups _ _ _ _ _ _ reduced
      rw [Counted, ← groups] at counted
      cases counted
      refine ⟨⟨[tree], [], 0, need⟩, ?_, rfl, rfl⟩
      change (reduceStacks Operator.flush false pending output).map _ = _
      rw [reduced]
      rfl
  | close pending pending₁ pending₂ output output₁ output₂ tree reduced closes rest ih =>
      have groups := group_closes_groups _ _ _ _ _ closes
      rw [Counted, ← reduce_stacks_groups _ _ _ _ _ _ reduced, groups, List.length_cons] at counted
      subst counted
      obtain ⟨s', closed, result⟩ := ih (openGroups pending₂).length need rfl
      refine ⟨s', ?_, result⟩
      have flushed : (⟨output, pending, (openGroups pending₂).length + 1, need⟩ : Stacks).flush =
          .ok ⟨output₁, pending₁, (openGroups pending₂).length + 1, need⟩ := by
        rw [flush, reduce, reduced]
        rfl
      have innermost := innermost_open ⟨output₁, pending₁, (openGroups pending₂).length + 1, need⟩
      rw [groups, List.head?_cons] at innermost
      have grouped :=
        close_group_closes ⟨output₁, pending₁, (openGroups pending₂).length, need⟩ .paren pending₂ output₂ closes
      simp only [closeOpen, flushed, bind, Except.bind, innermost, Nat.add_sub_cancel, grouped]
      exact closed

theorem finishes_finish (s : Stacks) (tree : Tree) (counted : Counted s.pending s.nested)
    (finished : Finishes s.pending s.output tree) : s.finish = .ok tree := by
  obtain ⟨s', closed, empty, single⟩ := finishes_close_open s tree counted finished
  simp only [finish, closed, bind, Except.bind, empty, single]
  rfl

end GraphCalc.Stacks

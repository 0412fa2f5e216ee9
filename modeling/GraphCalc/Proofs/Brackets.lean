import GraphCalc.Proofs.Items

set_option autoImplicit false

namespace GraphCalc

-- The groups open after some items, from the inside out. A closing bracket must be of the kind of the
-- innermost one.
def unclosed : List Group → List Item → Option (List Group)
  | groups, [] => some groups
  | groups, .opener _ group :: rest => unclosed (group :: groups) rest
  | [], .closer _ _ :: _ => none
  | innermost :: groups, .closer group _ :: rest => if innermost = group then unclosed groups rest else none
  | groups, _ :: rest => unclosed groups rest

def Pending.group? : Pending → Option Group
  | .group kind _ => some kind
  | _ => none

namespace Stacks

def openGroups (pending : List Pending) : List Group := pending.filterMap Pending.group?

theorem open_groups_operator (op : Operator) (pending : List Pending) :
    openGroups (.operator op :: pending) = openGroups pending := rfl

theorem open_groups_call (target : Target) (pending : List Pending) :
    openGroups (.call target :: pending) = openGroups pending := rfl

theorem open_groups_group (group : Group) (height : Nat) (pending : List Pending) :
    openGroups (.group group height :: pending) = group :: openGroups pending := rfl

theorem open_groups_commas (commas : Nat) (pending : List Pending) :
    openGroups (List.replicate commas (.operator .comma) ++ pending) = openGroups pending := by
  induction commas with
  | zero => rfl
  | succ n ih => rw [List.replicate_succ, List.cons_append, open_groups_operator, ih]

theorem open_groups_opening (target : Option Target) (group : Group) (height : Nat) (pending : List Pending) :
    openGroups (openingEntries target group height ++ pending) = group :: openGroups pending := by
  cases target <;> rfl

theorem reduce_stacks_groups (strength : Nat) (right : Bool) (pending pending' : List Pending)
    (output output' : List Tree) (reduced : reduceStacks strength right pending output = .ok (pending', output')) :
    openGroups pending' = openGroups pending := by
  fun_induction reduceStacks strength right pending output with
  | case1 => cases reduced; rfl
  | case2 op pending output _ output₁ applied ih => rw [ih reduced, open_groups_operator]
  | case3 => cases reduced
  | case4 => cases reduced; rfl

theorem place_operator_groups (s s' : Stacks) (op : Operator) (placed : s.placeOperator op = .ok s') :
    openGroups s'.pending = openGroups s.pending := by
  obtain ⟨pending, output, reduced, rfl⟩ := place_operator_ok s s' op placed
  rw [← reduce_stacks_groups _ _ _ _ _ _ reduced]
  exact open_groups_operator op pending

theorem multiply_groups (s s' : Stacks) (multiplied : s.multiply = .ok s') :
    openGroups s'.pending = openGroups s.pending := by
  rcases multiply_ok s s' multiplied with ⟨_, rfl⟩ | ⟨_, placed⟩
  · rfl
  · exact place_operator_groups s s' .multiply placed

theorem group_closes_groups (group : Group) (pending pending' : List Pending) (output output' : List Tree)
    (closed : GroupCloses group pending output pending' output') :
    openGroups pending = group :: openGroups pending' := by
  obtain ⟨commas, height, below, _, opening, _, _, closes⟩ := closed
  rw [open_groups_commas, open_groups_group]
  cases closes with
  | brace => rfl
  | bracket => rfl
  | call target => rw [open_groups_call]
  | plain => rfl

theorem accept_groups (s s' : Stacks) (item : Item) (single : item.Single) (accepted : s.accept item = .ok s')
    (rest : List Item) : unclosed (openGroups s.pending) (item :: rest) = unclosed (openGroups s'.pending) rest := by
  cases item with
  | operand tree =>
      obtain ⟨s₁, multiplied, rfl⟩ := take_operand_ok s s' tree accepted
      rw [unclosed, multiply_groups s s₁ multiplied] <;> exact nofun
  | text bytes closed =>
      obtain ⟨s₁, multiplied, rfl⟩ := take_text_ok s s' bytes closed accepted
      rw [unclosed, multiply_groups s s₁ multiplied] <;> exact nofun
  | operator op =>
      have same : openGroups s'.pending = openGroups s.pending := by
        rcases take_operator_ok s s' op accepted with ⟨_, s₁, multiplied, rfl⟩ | ⟨_, placed⟩
        · exact multiply_groups s s₁ multiplied
        · exact place_operator_groups s s' _ placed
      rw [unclosed, same] <;> exact nofun
  | opener target group =>
      obtain ⟨s₁, multiplied, rfl⟩ := take_opener_ok s s' target group accepted
      rw [unclosed, open_groups_opening, multiply_groups s s₁ multiplied]
  | closer group rowFollows =>
      cases single
      obtain ⟨s₁, closed, unchanged⟩ := bind_ok accepted
      cases Except.ok.inj unchanged
      obtain ⟨pending, output, pending', output', reduced, closes, rfl⟩ := take_closer_ok s s' group closed
      rw [← reduce_stacks_groups _ _ _ _ _ _ reduced, group_closes_groups _ _ _ _ _ closes, unclosed, if_pos rfl]

theorem finishes_groups (pending : List Pending) (output : List Tree) (tree : Tree)
    (finished : Finishes pending output tree) : ∀ group ∈ openGroups pending, group = .paren := by
  induction finished with
  | done pending output tree reduced =>
      rw [← reduce_stacks_groups _ _ _ _ _ _ reduced]
      exact nofun
  | close pending pending₁ pending₂ output output₁ output₂ tree reduced closes rest ih =>
      rw [← reduce_stacks_groups _ _ _ _ _ _ reduced, group_closes_groups _ _ _ _ _ closes]
      intro group member
      rcases List.mem_cons.mp member with innermost | outside
      · exact innermost
      · exact ih group outside

theorem run_groups (s s' : Stacks) (all : List Item) (single : ∀ item ∈ all, item.Single) (ran : s.run all = .ok s') :
    unclosed (openGroups s.pending) all = some (openGroups s'.pending) := by
  induction all generalizing s with
  | nil =>
      cases Except.ok.inj ran
      exact unclosed.eq_1 _
  | cons item rest ih =>
      obtain ⟨s₁, accepted, restRan⟩ := bind_ok ran
      rw [accept_groups s s₁ item (single item (by simp)) accepted]
      exact ih s₁ (fun later member => single later (by simp [member])) restRan

end Stacks

end GraphCalc

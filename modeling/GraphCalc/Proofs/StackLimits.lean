import GraphCalc.Proofs.Balance
import GraphCalc.Proofs.Moves
import GraphCalc.Proofs.Nesting

set_option autoImplicit false

namespace GraphCalc

abbrev Roomy {α : Type} (result : Except Cause α) : Prop := FailsOnly (· ≠ .expressionTooLarge) result

namespace Stacks

-- A call is pending right below the parenthesis that opens its arguments.
inductive CallsOpened : List Pending → Prop where
  | none : CallsOpened []
  | operator (op : Operator) (below : List Pending) (opened : CallsOpened below) : CallsOpened (.operator op :: below)
  | group (group : Group) (height : Nat) (below : List Pending) (opened : CallsOpened below) :
      CallsOpened (.group group height :: below)
  | call (target : Target) (height : Nat) (below : List Pending) (opened : CallsOpened below) :
      CallsOpened (.group .paren height :: .call target :: below)

theorem calls_opened_split (pending : List Pending) (opened : CallsOpened pending) (above : List Pending)
    (target : Target) (below : List Pending) (split : pending = above ++ .call target :: below) :
    ∃ more height, above = more ++ [.group .paren height] := by
  induction opened generalizing above with
  | none => cases above <;> cases split
  | operator op below' _ ih =>
      cases above with
      | nil => cases split
      | cons entry rest =>
          cases split
          obtain ⟨more, height, rfl⟩ := ih rest rfl
          exact ⟨.operator op :: more, height, rfl⟩
  | group group height below' _ ih =>
      cases above with
      | nil => cases split
      | cons entry rest =>
          cases split
          obtain ⟨more, height', rfl⟩ := ih rest rfl
          exact ⟨.group group height :: more, height', rfl⟩
  | call called height below' _ ih =>
      cases above with
      | nil => cases split
      | cons entry rest =>
          cases rest with
          | nil =>
              cases split
              exact ⟨[], height, rfl⟩
          | cons second rest =>
              cases split
              obtain ⟨more, height', rfl⟩ := ih rest rfl
              exact ⟨.group .paren height :: .call called :: more, height', rfl⟩

theorem reduce_stacks_opened (strength : Nat) (right : Bool) (pending pending' : List Pending)
    (output output' : List Tree) (reduced : reduceStacks strength right pending output = .ok (pending', output'))
    (opened : CallsOpened pending) : CallsOpened pending' := by
  fun_induction reduceStacks strength right pending output with
  | case1 => cases reduced; exact opened
  | case2 op pending output _ output₁ applied ih =>
      cases opened with
      | operator _ _ below => exact ih reduced below
  | case3 => cases reduced
  | case4 => cases reduced; exact opened

theorem opened_below_commas (commas : Nat) (pending : List Pending)
    (opened : CallsOpened (List.replicate commas (.operator .comma) ++ pending)) : CallsOpened pending := by
  induction commas with
  | zero => exact opened
  | succ n ih =>
      rw [List.replicate_succ, List.cons_append] at opened
      cases opened with
      | operator _ _ below => exact ih below

theorem group_closes_opened (group : Group) (pending pending' : List Pending) (output output' : List Tree)
    (closed : GroupCloses group pending output pending' output') (opened : CallsOpened pending) : CallsOpened pending' := by
  obtain ⟨commas, height, below, _, opening, _, _, closes⟩ := closed
  have inside := opened_below_commas commas _ opened
  cases closes with
  | brace =>
      cases inside with
      | group _ _ _ outside => exact outside
  | bracket =>
      cases inside with
      | group _ _ _ outside => exact outside
  | call target =>
      cases inside with
      | group _ _ _ outside => cases outside
      | call _ _ _ outside => exact outside
  | plain _ alone =>
      cases inside with
      | group _ _ _ outside => exact outside
      | call target _ _ _ => exact absurd rfl (alone target)

theorem group_closes_shorter (group : Group) (pending pending' : List Pending) (output output' : List Tree)
    (closed : GroupCloses group pending output pending' output') : pending'.length ≤ pending.length := by
  obtain ⟨commas, height, below, _, opening, _, _, closes⟩ := closed
  have size : below.length ≤ (List.replicate commas (Pending.operator .comma) ++ .group group height :: below).length := by
    simp only [List.length_append, List.length_cons]
    omega
  cases closes with
  | brace => exact size
  | bracket => exact size
  | plain => exact size
  | call target => exact Nat.le_trans (Nat.le_succ _) size

-- The pending entries: calls below their parentheses, and not more of them than there may be.
structure Tidy (s : Stacks) : Prop where
  opened : CallsOpened s.pending
  limited : s.pending.length ≤ pendingLimit

theorem push_pending_limited (s s' : Stacks) (p : Pending) (pushed : s.pushPending p = .ok s') :
    s'.pending.length ≤ pendingLimit := by
  by_cases room : s.pending.length < pendingLimit
  · cases push_pending_ok s s' p pushed
    exact room
  · rw [pushPending, if_neg room] at pushed
    cases pushed

theorem reduced_tidy (s : Stacks) (strength : Nat) (right : Bool) (pending : List Pending) (output : List Tree) (tidy : s.Tidy)
    (reduced : reduceStacks strength right s.pending s.output = .ok (pending, output)) (nested : Nat) (need : Bool) :
    (⟨output, pending, nested, need⟩ : Stacks).Tidy :=
  ⟨reduce_stacks_opened _ _ _ _ _ _ reduced tidy.opened,
    Nat.le_trans (reduce_stacks_suffix _ _ _ _ _ _ reduced).length_le tidy.limited⟩

theorem group_closes_tidy (group : Group) (pending pending' : List Pending) (output output' : List Tree) (nested : Nat)
    (need : Bool) (tidy : (⟨output, pending, nested, need⟩ : Stacks).Tidy)
    (closed : GroupCloses group pending output pending' output') (nested' : Nat) (need' : Bool) :
    (⟨output', pending', nested', need'⟩ : Stacks).Tidy :=
  ⟨group_closes_opened _ _ _ _ _ closed tidy.opened, Nat.le_trans (group_closes_shorter _ _ _ _ _ closed) tidy.limited⟩

theorem place_operator_tidy (s s' : Stacks) (op : Operator) (tidy : s.Tidy) (placed : s.placeOperator op = .ok s') :
    s'.Tidy := by
  by_cases second : op = .store ∧ s.storePending = true
  · rw [place_operator_eq, if_pos second] at placed
    cases placed
  · rw [place_operator_eq, if_neg second] at placed
    split at placed
    · cases placed
    · rename_i pending output reduced
      by_cases room : pending.length < pendingLimit
      · rw [if_pos room] at placed
        cases placed
        exact ⟨.operator op pending (reduce_stacks_opened _ _ _ _ _ _ reduced tidy.opened), room⟩
      · rw [if_neg room] at placed
        cases placed

theorem multiply_tidy (s s' : Stacks) (tidy : s.Tidy) (multiplied : s.multiply = .ok s') : s'.Tidy := by
  rcases multiply_ok s s' multiplied with ⟨_, rfl⟩ | ⟨_, placed⟩
  · exact tidy
  · exact place_operator_tidy s s' .multiply tidy placed

theorem take_operator_tidy (s s' : Stacks) (written : Operator) (tidy : s.Tidy) (taken : s.takeOperator written = .ok s') :
    s'.Tidy := by
  unfold takeOperator at taken
  generalize (if written = .subtract ∧ s.needMultiply = false then Operator.negate else written) = op at taken
  dsimp only at taken
  by_cases negation : op.isPrefix = true
  · rw [if_pos negation] at taken
    obtain ⟨s₁, multiplied, taken⟩ := bind_ok taken
    obtain ⟨s₂, pushed, taken⟩ := bind_ok taken
    have limited := push_pending_limited s₁ s₂ _ pushed
    cases push_pending_ok s₁ s₂ _ pushed
    cases Except.ok.inj taken
    exact ⟨.operator op _ (multiply_tidy s s₁ tidy multiplied).opened, limited⟩
  · rw [if_neg negation] at taken
    exact place_operator_tidy s s' op tidy taken

theorem take_opener_limited (s s' : Stacks) (target : Option Target) (group : Group)
    (taken : s.takeOpener target group = .ok s') : s'.pending.length ≤ pendingLimit := by
  obtain ⟨s₁, _, taken⟩ := bind_ok taken
  cases target <;> obtain ⟨s₂, _, taken⟩ := bind_ok taken <;> obtain ⟨s₃, pushed, taken⟩ := bind_ok taken
  all_goals
    cases Except.ok.inj taken
    exact push_pending_limited s₂ s₃ _ pushed

theorem take_opener_tidy (s s' : Stacks) (target : Option Target) (group : Group) (tidy : s.Tidy)
    (sound : (Item.opener target group).Sound) (taken : s.takeOpener target group = .ok s') : s'.Tidy := by
  refine ⟨?_, take_opener_limited s s' target group taken⟩
  obtain ⟨s₁, multiplied, rfl⟩ := take_opener_ok s s' target group taken
  have before := (multiply_tidy s s₁ tidy multiplied).opened
  cases target with
  | none => exact .group group _ _ before
  | some t =>
      obtain ⟨_, rfl⟩ := sound t rfl
      exact .call t _ _ before

theorem take_closer_tidy (s s' : Stacks) (group : Group) (tidy : s.Tidy) (taken : s.takeCloser group = .ok s') :
    s'.Tidy := by
  obtain ⟨pending, output, pending', output', reduced, closes, rfl⟩ := take_closer_ok s s' group taken
  have before := reduced_tidy s _ _ pending output tidy reduced s.nested s.needMultiply
  exact group_closes_tidy _ _ _ _ _ _ _ before closes _ _

theorem accept_tidy (s s' : Stacks) (item : Item) (sound : item.Sound) (tidy : s.Tidy) (accepted : s.accept item = .ok s') :
    s'.Tidy := by
  cases item with
  | operand tree =>
      obtain ⟨s₁, multiplied, rfl⟩ := take_operand_ok s s' tree accepted
      have before := multiply_tidy s s₁ tidy multiplied
      exact ⟨before.opened, before.limited⟩
  | text bytes closed =>
      obtain ⟨s₁, multiplied, rfl⟩ := take_text_ok s s' bytes closed accepted
      have before := multiply_tidy s s₁ tidy multiplied
      exact ⟨before.opened, before.limited⟩
  | operator op => exact take_operator_tidy s s' op tidy accepted
  | opener target group => exact take_opener_tidy s s' target group tidy sound accepted
  | closer group rowFollows =>
      obtain ⟨s₁, closed, separated⟩ := bind_ok accepted
      have before := take_closer_tidy s s₁ group tidy closed
      cases rowFollows with
      | false =>
          cases Except.ok.inj separated
          exact before
      | true => exact take_operator_tidy s₁ s' .comma before separated

def Level (s : Stacks) : Prop := s.output.length ≤ weight s.pending + s.needMultiply.toNat

theorem level_short (s : Stacks) (level : s.Level) : ∃ missing, Short missing s :=
  ⟨_, Nat.add_sub_of_le level⟩

theorem short_level (s : Stacks) (missing : Nat) (short : Short missing s) : s.Level :=
  Nat.le_of_add_right_le (Nat.le_of_eq short)

theorem multiply_level (s s' : Stacks) (level : s.Level) (multiplied : s.multiply = .ok s') :
    s'.output.length ≤ weight s'.pending := by
  obtain ⟨missing, short⟩ := level_short s level
  obtain ⟨after, waiting⟩ := multiply_short s s' missing short multiplied
  have bound := short_level s' missing after
  rwa [Level, waiting] at bound

theorem take_operator_level (s s' : Stacks) (written : Operator) (level : s.Level)
    (taken : s.takeOperator written = .ok s') : s'.Level := by
  obtain ⟨missing, short⟩ := level_short s level
  exact short_level s' _ (take_operator_short s s' written missing short taken).1

theorem take_closer_level (s s' : Stacks) (group : Group) (level : s.Level) (taken : s.takeCloser group = .ok s') :
    s'.Level := by
  obtain ⟨missing, short⟩ := level_short s level
  exact short_level s' _ (take_closer_short s s' group missing short taken).1

-- A string that its quote does not close counts as an operand, though nothing is multiplied with it.
theorem accept_level (s s' : Stacks) (item : Item) (level : s.Level) (accepted : s.accept item = .ok s') :
    s'.Level ∨ ((∃ bytes, item = .text bytes false) ∧ (s'.withNeed true).Level) := by
  cases item with
  | operand tree =>
      obtain ⟨s₁, multiplied, rfl⟩ := take_operand_ok s s' tree accepted
      exact Or.inl (Nat.succ_le_succ (multiply_level s s₁ level multiplied))
  | text bytes closed =>
      obtain ⟨s₁, multiplied, rfl⟩ := take_text_ok s s' bytes closed accepted
      have operand := Nat.succ_le_succ (multiply_level s s₁ level multiplied)
      cases closed with
      | true => exact Or.inl operand
      | false => exact Or.inr ⟨⟨bytes, rfl⟩, operand⟩
  | operator op => exact Or.inl (take_operator_level s s' op level accepted)
  | opener target group =>
      obtain ⟨s₁, multiplied, rfl⟩ := take_opener_ok s s' target group accepted
      have before := multiply_level s s₁ level multiplied
      rw [← weight_opening target group s₁.output.length] at before
      exact Or.inl before
  | closer group rowFollows =>
      obtain ⟨s₁, closed, separated⟩ := bind_ok accepted
      have before := take_closer_level s s₁ group level closed
      cases rowFollows with
      | false =>
          cases Except.ok.inj separated
          exact Or.inl before
      | true => exact Or.inl (take_operator_level s₁ s' .comma before separated)

theorem push_output_roomy (s : Stacks) (tree : Tree) (tidy : s.Tidy) (level : s.output.length ≤ weight s.pending) :
    Roomy (s.pushOutput tree) := by
  have binary : weight s.pending ≤ s.pending.length := List.countP_le_length
  have room : s.output.length < outputLimit :=
    Nat.lt_of_le_of_lt (Nat.le_trans level (Nat.le_trans binary tidy.limited)) (by decide)
  rw [push_output_room s tree room]
  exact fails_ok _

theorem push_pending_roomy (s : Stacks) (p : Pending) : Roomy (s.pushPending p) := by
  rw [pushPending]
  split
  · exact fails_ok _
  · exact (fails_error _).mpr (by decide)

theorem apply_operator_roomy (op : Operator) (output : List Tree) : Roomy (applyOperator op output) := by
  unfold applyOperator
  split <;> split <;> first | exact fails_ok _ | exact (fails_error _).mpr (by decide)

theorem reduce_stacks_roomy (strength : Nat) (right : Bool) (pending : List Pending) (output : List Tree) :
    Roomy (reduceStacks strength right pending output) := by
  fun_induction reduceStacks strength right pending output with
  | case1 => exact fails_ok _
  | case2 op pending output _ output₁ _ ih => exact ih
  | case3 op pending output _ e failed => exact (fails_error _).mpr (apply_operator_roomy op output e failed)
  | case4 => exact fails_ok _

theorem reduce_roomy (s : Stacks) (strength : Nat) (right : Bool) : Roomy (s.reduce strength right) :=
  (fails_map _ _).mpr (reduce_stacks_roomy strength right s.pending s.output)

theorem place_operator_roomy (s : Stacks) (op : Operator) : Roomy (s.placeOperator op) := by
  unfold placeOperator
  by_cases second : op = .store ∧ s.storePending = true
  · rw [if_pos second]
    exact (fails_error _).mpr (by decide)
  · rw [if_neg second]
    refine fails_next _ _ (reduce_roomy s _ _) fun s₁ _ => ?_
    exact fails_next _ _ (push_pending_roomy s₁ _) fun s₂ _ => fails_ok _

theorem multiply_roomy (s : Stacks) : Roomy s.multiply := by
  unfold multiply
  split
  · exact place_operator_roomy s .multiply
  · exact fails_ok _

theorem take_operator_roomy (s : Stacks) (written : Operator) : Roomy (s.takeOperator written) := by
  unfold takeOperator
  generalize (if written = .subtract ∧ s.needMultiply = false then Operator.negate else written) = op
  dsimp only
  split
  · refine fails_next _ _ (multiply_roomy s) fun s₁ _ => ?_
    exact fails_next _ _ (push_pending_roomy s₁ _) fun s₂ _ => fails_ok _
  · exact place_operator_roomy s op

theorem collect_roomy (group : Group) (pending : List Pending) (args : Nat) : Roomy (collect group pending args) := by
  fun_induction collect group pending args with
  | case1 pending args ih => exact ih
  | case2 => exact fails_ok _
  | case3 => exact (fails_error _).mpr (by simp)
  | case4 => exact (fails_error _).mpr (by simp)

theorem close_group_roomy (s : Stacks) (group : Group) : Roomy (s.closeGroup group) := by
  refine fails_next _ _ (collect_roomy group s.pending 1) fun found _ => ?_
  obtain ⟨args, height, pending⟩ := found
  dsimp only
  split
  · exact (fails_error _).mpr (by decide)
  · split
    · exact fails_ok _
    · exact fails_ok _
    · split
      · exact fails_ok _
      · exact (fails_error _).mpr (by decide)
    · split
      · exact fails_ok _
      · exact (fails_error _).mpr (by decide)

theorem take_closer_roomy (s : Stacks) (group : Group) : Roomy (s.takeCloser group) := by
  refine fails_next _ _ (reduce_roomy s _ _) fun s₁ _ => ?_
  dsimp only
  split
  · exact (fails_error _).mpr (by simp)
  · exact fails_next _ _ (close_group_roomy _ group) fun s₂ _ => fails_ok _

theorem take_opener_roomy (s : Stacks) (target : Option Target) (group : Group) : Roomy (s.takeOpener target group) := by
  refine fails_next _ _ (multiply_roomy s) fun s₁ _ => ?_
  cases target with
  | none =>
      refine fails_next _ _ (fails_ok s₁) fun s₂ _ => ?_
      exact fails_next _ _ (push_pending_roomy s₂ _) fun s₃ _ => fails_ok _
  | some t =>
      refine fails_next _ _ (push_pending_roomy s₁ _) fun s₂ _ => ?_
      exact fails_next _ _ (push_pending_roomy s₂ _) fun s₃ _ => fails_ok _

theorem accept_roomy (s : Stacks) (item : Item) (tidy : s.Tidy) (level : s.Level) : Roomy (s.accept item) := by
  have output (tree : Tree) (s₁ : Stacks) (multiplied : s.multiply = .ok s₁) : Roomy (s₁.pushOutput tree) :=
    push_output_roomy s₁ tree (multiply_tidy s s₁ tidy multiplied) (multiply_level s s₁ level multiplied)
  cases item with
  | operand tree =>
      refine fails_next _ _ (multiply_roomy s) fun s₁ multiplied => ?_
      exact fails_next _ _ (output tree s₁ multiplied) fun s₂ _ => fails_ok _
  | text bytes closed =>
      refine fails_next _ _ (multiply_roomy s) fun s₁ multiplied => ?_
      exact fails_next _ _ (output (.text bytes) s₁ multiplied) fun s₂ _ => fails_ok _
  | operator op => exact take_operator_roomy s op
  | opener target group => exact take_opener_roomy s target group
  | closer group rowFollows =>
      refine fails_next _ _ (take_closer_roomy s group) fun s₁ _ => ?_
      cases rowFollows with
      | false => exact fails_ok _
      | true => exact take_operator_roomy s₁ .comma

theorem close_open_roomy (n : Nat) (s : Stacks) : Roomy (closeOpen n s) := by
  induction n generalizing s with
  | zero => exact reduce_roomy s _ _
  | succ n ih =>
      refine fails_next _ _ (reduce_roomy s _ _) fun s₁ _ => ?_
      split
      · exact fails_next _ _ (close_group_roomy _ .paren) fun s₂ _ => ih s₂
      · exact (fails_error _).mpr (by simp)
      · exact fails_ok _

theorem finish_roomy (s : Stacks) : Roomy s.finish := by
  refine fails_next _ _ (close_open_roomy s.nested s) fun s₁ _ => ?_
  split
  · exact fails_ok _
  · exact (fails_error _).mpr (by decide)

-- Every tree on the output but one is the operand of a pending operator, and the brackets are counted.
structure InBalance (s : Stacks) : Prop where
  output : s.output.length ≤ s.pending.countP Pending.isBinary + 1
  height : s.output.length ≤ 101
  nested : s.nested = s.pending.countP (·.group?.isSome)
  calls : ∀ above target below, s.pending = above ++ .call target :: below →
    ∃ more height, above = more ++ [.group .paren height]

structure Settled (s : Stacks) : Prop where
  output : s.output.length ≤ weight s.pending + 1
  counted : Counted s.pending s.nested
  tidy : s.Tidy

theorem settled_in_balance (s : Stacks) (settled : s.Settled) : s.InBalance := by
  have binary : weight s.pending ≤ 100 := Nat.le_trans List.countP_le_length settled.tidy.limited
  refine ⟨settled.output, Nat.le_trans settled.output (Nat.succ_le_succ binary), ?_,
    calls_opened_split s.pending settled.tidy.opened⟩
  rw [settled.counted, openGroups, List.length_filterMap_eq_countP]

theorem flush_settled (s s' : Stacks) (settled : s.Settled) (flushed : s.flush = .ok s') : s'.Settled := by
  obtain ⟨pending, output, reduced, rfl⟩ := reduce_ok _ _ _ _ flushed
  have balance := reduce_stacks_balance _ _ _ _ _ _ reduced
  have level := settled.output
  refine ⟨?_, ?_, reduced_tidy s _ _ pending output settled.tidy reduced _ _⟩
  · dsimp only
    omega
  · exact shifts_counted _ _ _ _ (reduce_stacks_shifts _ _ _ _ _ _ s.nested rfl reduced) settled.counted

theorem counted_innermost (s : Stacks) (counted : Counted s.pending s.nested) (group : Group)
    (innermost : s.innermost? = some group) : 0 < s.nested := by
  rw [innermost_open] at innermost
  obtain ⟨outer, groups⟩ := List.head?_eq_some_iff.mp innermost
  rw [counted, groups, List.length_cons]
  exact Nat.succ_pos _

-- The rounds in which the parentheses left open at the end are closed.
inductive Closing (s : Stacks) : Stacks → Prop where
  | start : Closing s s
  | round (s₁ s₂ s₃ : Stacks) (before : Closing s s₁) (flushed : s₁.flush = .ok s₂)
      (innermost : s₂.innermost? = some .paren)
      (closed : ({ s₂ with nested := s₂.nested - 1 } : Stacks).closeGroup .paren = .ok s₃) : Closing s s₃

theorem closing_settled (s s' : Stacks) (closing : s.Closing s') (settled : s.Settled) : s'.Settled := by
  induction closing with
  | start => exact settled
  | round s₁ s₂ s₃ _ flushed _ closed ih =>
      have before := flush_settled s₁ s₂ ih flushed
      obtain ⟨pending, output, closes, rfl⟩ := close_group_ok _ _ _ closed
      have balance := group_closes_balance _ _ _ _ _ closes
      have level := before.output
      refine ⟨?_, ?_, group_closes_tidy _ _ _ _ _ _ _ before.tidy closes _ _⟩
      · dsimp only at balance ⊢
        omega
      · exact shifts_counted _ _ _ _ (.closed .paren s₂.pending pending s₂.output output s₂.nested closes) before.counted

theorem round_finish (s s₁ s₂ : Stacks) (settled : s.Settled) (flushed : s.flush = .ok s₁)
    (innermost : s₁.innermost? = some .paren)
    (closed : ({ s₁ with nested := s₁.nested - 1 } : Stacks).closeGroup .paren = .ok s₂) : s.finish = s₂.finish := by
  have positive := counted_innermost s₁ (flush_settled s s₁ settled flushed).counted .paren innermost
  have same : s₁.nested = s.nested := by
    obtain ⟨pending, output, _, rfl⟩ := reduce_ok _ _ _ _ flushed
    rfl
  have fewer : s.nested = s₂.nested + 1 := by
    obtain ⟨pending, output, _, rfl⟩ := close_group_ok _ _ _ closed
    exact (Nat.sub_add_cancel positive).symm ▸ same.symm
  have round : closeOpen s.nested s = closeOpen s₂.nested s₂ := by
    rw [fewer]
    simp only [closeOpen, flushed, bind, Except.bind, innermost, closed]
  unfold finish
  rw [round]

theorem closing_finish (s s' : Stacks) (closing : s.Closing s') (settled : s.Settled) : s.finish = s'.finish := by
  induction closing with
  | start => rfl
  | round s₁ s₂ s₃ before flushed innermost closed ih =>
      exact ih.trans (round_finish s₁ s₂ s₃ (closing_settled s s₁ before settled) flushed innermost closed)

end Stacks

namespace Item

theorem slot_roomy (count : UInt8) (rest : Bytes) : Roomy (slot count rest) := by
  unfold slot
  split
  · exact (fails_error _).mpr (by decide)
  · split
    · exact fails_ok _
    · exact (fails_error _).mpr (by decide)

theorem equation_slot_roomy (rest : Bytes) : Roomy (equationSlot rest) := by
  unfold equationSlot
  split
  · exact (fails_error _).mpr (by decide)
  · repeat' split
    all_goals first | exact fails_ok _ | exact (fails_error _).mpr (by decide)

theorem scan_roomy (n : Numeral) (bytes : Bytes) : Roomy (n.scan bytes).1 := by
  induction bytes generalizing n with
  | nil => exact fails_ok _
  | cons b rest ih =>
      unfold Numeral.scan
      split
      · exact ih _
      · exact fails_ok _
      · exact fails_ok _
      · exact (fails_error _).mpr (by decide)

theorem finite_value_roomy (n : Numeral) : Roomy n.finiteValue := by
  unfold Numeral.finiteValue
  repeat' split
  all_goals first | exact fails_ok _ | exact (fails_error _).mpr (by decide)

theorem number_roomy (b : UInt8) (rest : Bytes) : Roomy (number b rest).1 := by
  unfold number
  dsimp only
  split
  · rename_i e failed
    exact (fails_error _).mpr (scan_roomy Numeral.empty (b :: rest) e failed)
  · exact (fails_map _ _).mpr (finite_value_roomy _)

theorem reference_roomy (tree : Tree) (target : Target) (used : Nat) (rest : Bytes) :
    Roomy (reference tree target used rest).1 := by
  unfold reference
  split <;> exact fails_ok _

theorem read_roomy (b : UInt8) (rest : Bytes) : Roomy (read b rest).1 := by
  unfold read
  cases Token.ofByte b with
  | digit _ => exact number_roomy b rest
  | decimalPoint | exponent => exact number_roomy b rest
  | list =>
      dsimp only
      cases found : slot 6 rest with
      | ok i => exact reference_roomy _ _ _ _
      | error e => exact (fails_error _).mpr (slot_roomy 6 rest e found)
  | matrix =>
      dsimp only
      cases found : slot 10 rest with
      | ok i => exact reference_roomy _ _ _ _
      | error e => exact (fails_error _).mpr (slot_roomy 10 rest e found)
  | string => exact (fails_map _ _).mpr (slot_roomy 10 rest)
  | equation => exact (fails_map _ _).mpr (equation_slot_roomy rest)
  | customList =>
      dsimp only
      split
      · exact (fails_error _).mpr (by decide)
      · exact reference_roomy _ _ _ _
  | random => exact reference_roomy _ _ _ _
  | command _ | unknown _ => exact (fails_error _).mpr (by decide)
  | colon | newline | elseWord | endWord => exact (fails_error _).mpr (by decide)
  | _ => exact fails_ok _

end Item

theorem Cursor.rest_next (c : Cursor) (b : UInt8) (rest : Bytes) (more : c.rest = b :: rest) : c.rest = b :: c.next.rest := by
  rw [next_rest, more, List.tail_cons]

namespace Expression

inductive Between (stops : Stops) (c : Cursor) : Stacks → Cursor → Prop where
  | start : Between stops c .empty c
  | token (s s' : Stacks) (c₁ c₂ : Cursor) (b : UInt8) (rest : Bytes) (before : Between stops c s c₁)
      (running : c₁.interrupted = false) (more : c₁.rest = b :: rest)
      (inside : (Byte.endsLine b || stops.endAt s b) = false) (taken : step s b c₁.next = (.ok s', c₂)) :
      Between stops c s' c₂

theorem between_reading (stops : Stops) (c c' : Cursor) (s : Stacks) (between : Between stops c s c') :
    readFrom stops .empty c = readFrom stops s c' := by
  induction between with
  | start => rfl
  | token s s' c₁ c₂ b rest _ running more inside taken ih =>
      rw [ih, read_from_cons stops s c₁ running b rest more, inside, if_neg Bool.false_ne_true, taken, onward]

-- What every token keeps. After a string that its quote does not close only a store arrow can follow in the line.
structure Kept (s : Stacks) (rest : Bytes) : Prop where
  level : s.Level ∨ ((s.withNeed true).Level ∧ ∀ b ∈ rest.head?, b = Byte.newline ∨ b = Byte.store)
  counted : Stacks.Counted s.pending s.nested
  tidy : s.Tidy

theorem empty_kept (rest : Bytes) : Kept .empty rest :=
  ⟨Or.inl (Nat.le_refl 0), rfl, ⟨.none, Nat.zero_le _⟩⟩

theorem kept_settled (s : Stacks) (rest : Bytes) (kept : Kept s rest) : s.Settled := by
  refine ⟨?_, kept.counted, kept.tidy⟩
  rcases kept.level with level | ⟨level, _⟩
  · exact Nat.le_trans level (Nat.add_le_add_left (Bool.toNat_le _) _)
  · exact level

theorem kept_reading (s : Stacks) (b : UInt8) (rest : Bytes) (kept : Kept s (b :: rest)) (inLine : Byte.endsLine b = false)
    (item : Item) (used : Nat) (read : Item.read b rest = (.ok item, used)) :
    s.Level ∨ (item = .operator .store ∧ (s.withNeed true).Level) := by
  rcases kept.level with level | ⟨level, next⟩
  · exact Or.inl level
  · rcases next b rfl with rfl | rfl
    · cases inLine
    · cases read
      exact Or.inr ⟨rfl, level⟩

theorem step_kept (s s' : Stacks) (b : UInt8) (c c' : Cursor) (kept : Kept s (b :: c.rest))
    (inLine : Byte.endsLine b = false) (taken : step s b c = (.ok s', c')) : Kept s' c'.rest := by
  obtain ⟨item, used, read, accepted, rfl⟩ := step_ok s s' b c c' taken
  have sound := Item.read_sound b c.rest used item read
  rw [Cursor.advance_rest]
  refine ⟨?_, Stacks.shifts_counted _ _ _ _ (Stacks.accept_shifts s s' item accepted) kept.counted,
    Stacks.accept_tidy s s' item sound kept.tidy accepted⟩
  rcases kept_reading s b c.rest kept inLine item used read with level | ⟨rfl, level⟩
  · rcases Stacks.accept_level s s' item level accepted with after | ⟨⟨bytes, rfl⟩, after⟩
    · exact Or.inl after
    · refine Or.inr ⟨after, ?_⟩
      have ending := Item.text_bytes_rest c.rest bytes used (Item.read_text b c.rest bytes false used read)
      intro d next
      rcases ending with none | newline | store
      · rw [none] at next
        cases next
      · exact Or.inl (Option.some.inj (next.symm.trans newline))
      · exact Or.inr (Option.some.inj (next.symm.trans store))
  · rw [← Stacks.store_ignores_need s true] at accepted
    rcases Stacks.accept_level _ s' _ level accepted with after | ⟨⟨bytes, same⟩, _⟩
    · exact Or.inl after
    · cases same

theorem between_kept (stops : Stops) (c c' : Cursor) (s : Stacks) (between : Between stops c s c') : Kept s c'.rest := by
  induction between with
  | start => exact empty_kept c.rest
  | token s s' c₁ c₂ b rest _ _ more inside taken ih =>
      rw [c₁.rest_next b rest more] at ih
      exact step_kept s s' b c₁.next c₂ ih (Bool.or_eq_false_iff.mp inside).1 taken

theorem step_roomy (s : Stacks) (b : UInt8) (c : Cursor) (kept : Kept s (b :: c.rest)) (inLine : Byte.endsLine b = false) :
    Roomy (step s b c).1 := by
  cases read : Item.read b c.rest with
  | mk result used =>
      cases result with
      | error e =>
          have roomy := Item.read_roomy b c.rest
          rw [read] at roomy
          rw [step, read]
          exact (fails_error _).mpr (roomy e rfl)
      | ok item =>
          rw [(step_item s b c item used read).1]
          rcases kept_reading s b c.rest kept inLine item used read with level | ⟨rfl, _⟩
          · exact Stacks.accept_roomy s item kept.tidy level
          · exact Stacks.take_operator_roomy s .store

theorem read_from_roomy (stops : Stops) (s : Stacks) (c : Cursor) (kept : Kept s c.rest) : Roomy (readFrom stops s c).1 := by
  fun_induction readFrom stops s c with
  | case1 => exact (fails_error _).mpr (by decide)
  | case2 s c => exact Stacks.finish_roomy s
  | case3 s c => exact Stacks.finish_roomy s
  | case4 s c _ b rest more inside e c' taken =>
      rw [c.rest_next b rest more] at kept
      have roomy := step_roomy s b c.next kept (Bool.or_eq_false_iff.mp (by simpa using inside)).1
      rw [taken] at roomy
      exact (fails_error _).mpr (roomy e rfl)
  | case5 s c _ b rest more inside s' c' taken ih =>
      rw [c.rest_next b rest more] at kept
      exact ih (step_kept s s' b c.next c' kept (Bool.or_eq_false_iff.mp (by simpa using inside)).1 taken)

theorem parse_roomy (stops : Stops) (c : Cursor) (f : Fault) (failed : (parse stops c).1 = .error f) :
    f.cause ≠ .expressionTooLarge := by
  have roomy := read_from_roomy stops .empty c (empty_kept c.rest)
  unfold parse at failed
  cases read : readFrom stops .empty c with
  | mk result c' =>
      rw [read] at failed roomy
      cases result with
      | ok tree => cases failed
      | error e =>
          cases failed
          exact roomy e rfl

theorem stacks_in_balance (stops : Stops) (c : Cursor) :
    (∀ s c', Between stops c s c' →
      readFrom stops .empty c = readFrom stops s c' ∧ s.InBalance ∧
        ∀ s', s.Closing s' → s.finish = s'.finish ∧ s'.InBalance ∧
          ∀ s'' group, s'.flush = .ok s'' → s''.innermost? = some group → 0 < s''.nested) ∧
      ∀ f, (parse stops c).1 = .error f → f.cause ≠ .expressionTooLarge := by
  refine ⟨?_, parse_roomy stops c⟩
  intro s c' between
  have kept := between_kept stops c c' s between
  have settled := kept_settled s c'.rest kept
  refine ⟨between_reading stops c c' s between, s.settled_in_balance settled, ?_⟩
  intro s' closing
  have later := s.closing_settled s' closing settled
  refine ⟨s.closing_finish s' closing settled, s'.settled_in_balance later, ?_⟩
  intro s'' group flushed innermost
  exact s''.counted_innermost (s'.flush_settled s'' later flushed).counted group innermost

-- Before a store arrow that an open string runs into, with the output as high as it can be.
theorem open_string_in_balance :
    let pending : List Pending := [.operator .comma, .group .paren 0, .call (.builtin .maximum)]
    let s : Stacks := ⟨[.text [0x42], .variable 0], pending, 1, false⟩
    Between lineOnly (.start [0x19, 0x41, 0x2B, 0x2A, 0x42, 0x04, 0x43] false) s
        ⟨[0x42, 0x2A, 0x2B, 0x41, 0x19], [0x04, 0x43], false, false⟩ ∧
      s.output.length = s.pending.countP Pending.isBinary + 1 ∧ s.InBalance := by
  intro pending s
  have between : Between lineOnly (.start [0x19, 0x41, 0x2B, 0x2A, 0x42, 0x04, 0x43] false) s
      ⟨[0x42, 0x2A, 0x2B, 0x41, 0x19], [0x04, 0x43], false, false⟩ := by
    refine .token ⟨[.variable 0], pending, 1, false⟩ s ⟨[0x2B, 0x41, 0x19], [0x2A, 0x42, 0x04, 0x43], false, false⟩ _ 0x2A _
      ?_ rfl rfl rfl rfl
    refine .token ⟨[.variable 0], pending.tail, 1, true⟩ _ ⟨[0x41, 0x19], [0x2B, 0x2A, 0x42, 0x04, 0x43], false, false⟩ _
      0x2B _ ?_ rfl rfl rfl rfl
    refine .token ⟨[], pending.tail, 1, false⟩ _ ⟨[0x19], [0x41, 0x2B, 0x2A, 0x42, 0x04, 0x43], false, false⟩ _ 0x41 _
      ?_ rfl rfl rfl rfl
    exact .token .empty _ _ _ 0x19 _ .start rfl rfl rfl rfl
  exact ⟨between, rfl, ((stacks_in_balance lineOnly _).1 s _ between).2.1⟩

end Expression

end GraphCalc

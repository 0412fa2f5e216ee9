import GraphCalc.Proofs.Effects
import GraphCalc.Proofs.Yields
import GraphCalc.Session

set_option autoImplicit false

namespace GraphCalc

-- The oldest keys have been read and random numbers have been drawn.
structure Supply.Spent (s s' : Supply) : Prop where
  keys : s'.keys <:+ s.keys
  generator : ∃ draws, s'.generator = s.generator.after draws

namespace Supply

variable (s s' s'' : Supply)

theorem spent_nothing : s.Spent s := ⟨List.suffix_refl _, [], rfl⟩

theorem spent_key (spent : s.Spent s') : s.Spent s'.key.2 := by
  unfold key
  cases waiting : s'.keys with
  | nil => exact spent
  | cons k keys =>
      have before := spent.keys
      rw [waiting] at before
      exact ⟨(List.suffix_cons k keys).trans before, spent.generator⟩

theorem spent_drawn (spent : s.Spent s') (drawn : s'.Drawn s'') : s.Spent s'' := by
  obtain ⟨later, rfl⟩ := drawn
  obtain ⟨draws, before⟩ := spent.generator
  refine ⟨spent.keys, draws ++ later, ?_⟩
  rw [Generator.after_append, ← before]

end Supply

namespace Evaluation

variable (env : Surroundings) (s : Supply)

theorem apply_node_spent (tree : Tree) (vals : List Value) (s' : Supply) (spent : s.Spent s') :
    s.Spent (applyNode env tree vals s').2 := by
  rcases apply_node_supply env tree vals s' with key | drawn
  · rw [key]
    exact s.spent_key s' spent
  · exact s.spent_drawn s' _ spent drawn

theorem equation_at_spent (levels : Nat) (tokens : Bytes) (s' : Supply) (spent : s.Spent s') :
    s.Spent (equationAt env levels tokens s').2 :=
  equation_at_kept env s.Spent (apply_node_spent env s)
    (fun _ spent => ⟨⟨spent.keys, spent.generator⟩, ⟨spent.keys, spent.generator⟩⟩) levels tokens s' spent

theorem evaluate_spent (tree : Tree) (s' : Supply) (spent : s.Spent s') : s.Spent (evaluate env tree s').2 :=
  evaluate_with_kept env _ s.Spent (apply_node_spent env s) (equation_at_spent env s equationDepth) tree s' spent

theorem evaluate_all_spent (trees : List Tree) (s' : Supply) (spent : s.Spent s') :
    s.Spent (evaluateAll env trees s').2 :=
  evaluate_all_kept env _ s.Spent trees s' spent fun tree _ => evaluate_spent env s tree

theorem evaluate_depth (tree : Tree) : (evaluate env tree s).2.depth = s.depth :=
  evaluate_with_depth env _ (equation_at_depth env equationDepth) tree s

theorem evaluate_all_outside (trees : List Tree) : (evaluateAll env trees s).2.depth = s.depth :=
  evaluate_all_depth env _ trees s fun tree _ s => evaluate_depth env s tree

end Evaluation

namespace Machine

-- The machine is as before, but for keys and random numbers that were used up.
def Untouched (m m' : Machine) : Prop :=
  m' = { m with supply := m'.supply } ∧ m.supply.Spent m'.supply ∧ m'.supply.depth = m.supply.depth

theorem untouched_itself (m : Machine) : m.Untouched m := ⟨rfl, m.supply.spent_nothing, rfl⟩

theorem evaluate_untouched (m : Machine) (tree : Tree) : m.Untouched (m.evaluate tree).2 :=
  ⟨rfl, Evaluation.evaluate_spent m.surroundings _ tree _ m.supply.spent_nothing,
    Evaluation.evaluate_depth m.surroundings m.supply tree⟩

theorem evaluate_all_untouched (m : Machine) (trees : List Tree) : m.Untouched (m.evaluateAll trees).2 :=
  ⟨rfl, Evaluation.evaluate_all_spent m.surroundings _ trees _ m.supply.spent_nothing,
    Evaluation.evaluate_all_outside m.surroundings m.supply trees⟩

-- The values of the arguments before the failing one were displayed, each on a line of its own.
def StopsShort (m : Machine) (args : List Tree) (f : Fault) (m' : Machine) : Prop :=
  ∃ shown failing rest vals s, args = shown ++ failing :: rest ∧
    Evaluation.evaluateAll m.surroundings shown m.supply = (.ok vals, s) ∧
    Evaluation.evaluate m.surroundings failing s = (.error f, m'.supply) ∧
    m' = { m with
      supply := m'.supply
      screen := vals.foldl (fun screen v => screen.display (lineText m.mode v)) m.screen }

theorem display_all_failed (m m' : Machine) (args : List Tree) (f : Fault)
    (failed : m.displayAll args = (.error f, m')) : m.StopsShort args f m' := by
  obtain ⟨s, left, ⟨done, _⟩ | ⟨g, before, failing, rest, s', fault, split, values, failure⟩⟩ := m.display_all_outcome args
  · rw [failed] at done
    cases done
  · rw [failed] at left fault
    cases fault
    cases left
    exact ⟨before, failing, rest, _, s', split, values, failure, rfl⟩

theorem stops_short_spent (m m' : Machine) (args : List Tree) (f : Fault) (short : m.StopsShort args f m') :
    m.supply.Spent m'.supply ∧ m'.supply.depth = m.supply.depth := by
  obtain ⟨shown, failing, _, vals, s, _, values, failure, _⟩ := short
  have spent := Evaluation.evaluate_all_spent m.surroundings m.supply shown m.supply m.supply.spent_nothing
  have depth := Evaluation.evaluate_all_outside m.surroundings m.supply shown
  rw [values] at spent depth
  have spentLast := Evaluation.evaluate_spent m.surroundings m.supply failing s spent
  have depthLast := Evaluation.evaluate_depth m.surroundings s failing
  rw [failure] at spentLast depthLast
  exact ⟨spentLast, depthLast.trans depth⟩

theorem after_failed (flow : Flow) (result : Except Fault Unit × Machine) (f : Fault) (m' : Machine)
    (failed : flow.after result = (.error f, m')) : result = (.error f, m') := by
  obtain ⟨outcome, m₁⟩ := result
  cases outcome with
  | error g =>
      cases failed
      rfl
  | ok _ => cases failed

theorem perform_failed (m m' : Machine) (command : Command) (args : List Tree) (f : Fault)
    (failed : m.perform command args = (.error f, m')) :
    (command ≠ .display → m.Untouched m') ∧ (command = .display → m.StopsShort args f m') := by
  cases command with
  | display => exact ⟨fun other => absurd rfl other, fun _ => m.display_all_failed m' args f (after_failed _ _ f m' failed)⟩
  | output =>
      have refused := after_failed _ _ f m' failed
      refine ⟨fun _ => ?_, by simp⟩
      obtain ⟨_, g, left | left⟩ | ⟨_, _, _, _, _, _, _, left⟩ := m.output_at_outcome args
      · cases refused.symm.trans left
        exact m.untouched_itself
      · cases refused.symm.trans left
        exact m.evaluate_all_untouched args
      · cases refused.symm.trans left
  | fix =>
      have refused := after_failed _ _ f m' failed
      refine ⟨fun _ => ?_, by simp⟩
      obtain ⟨g, left⟩ | ⟨tree, _, ⟨g, left⟩ | ⟨_, _, _, _, left⟩⟩ := m.fix_decimals_outcome args
      · cases refused.symm.trans left
        exact m.untouched_itself
      · cases refused.symm.trans left
        exact m.evaluate_untouched tree
      · cases refused.symm.trans left
  | clearHome | radian | degree | normal | scientific | engineering | floating | stop | returns => cases failed
  | _ =>
      cases failed
      exact ⟨fun _ => m.untouched_itself, by simp⟩

theorem run_single_failed (m m' : Machine) (statement : Tree) (f : Fault)
    (failed : m.run [statement] = (.error f, m')) : m.runOne statement = (.failed f, m') := by
  rw [run, runFrom] at failed
  cases ran : m.runOne statement with
  | mk step m₁ =>
      rw [ran] at failed
      cases step with
      | failed g =>
          cases failed
          rfl
      | stopped => cases failed
      | continued value => cases failed

theorem failed_statement_leaves (m m' : Machine) (statement : Tree) (f : Fault)
    (failed : m.run [statement] = (.error f, m')) :
    ((∀ args, statement ≠ .command .display args) → m.Untouched m') ∧
      ∀ args, statement = .command .display args →
        (m.interrupted = true ∧ f = .ofCause .interrupted ∧ m' = m) ∨
          m.StopsShort args f m' ∧ m.supply.Spent m'.supply ∧ m'.supply.depth = m.supply.depth := by
  have ran := m.run_one_ran statement
  rw [m.run_single_failed m' statement f failed] at ran
  cases ran with
  | interrupted _ asked => exact ⟨fun _ => m.untouched_itself, fun _ _ => Or.inl ⟨asked, rfl, rfl⟩⟩
  | refused command args _ _ _ performed =>
      obtain ⟨others, display⟩ := m.perform_failed m' command args f performed
      refine ⟨fun other => others fun same => other args (by rw [same]), ?_⟩
      rintro args ⟨⟩
      have short := display rfl
      exact Or.inr ⟨short, m.stops_short_spent m' args f short⟩
  | failed _ _ _ _ expression evaluated =>
      have evaluation := m.evaluate_untouched statement
      rw [evaluated] at evaluation
      refine ⟨fun _ => evaluation, ?_⟩
      rintro args rfl
      cases expression

-- The first argument is displayed before the second one, which is not stored, fails; and a key that was read
-- is gone although the sum has no value.
theorem value_shown_before_failure :
    (initial.run [.command .display [.variable 0, .string 0]]).1 = .error (.ofCause .undefined) ∧
      initial.StopsShort [.variable 0, .string 0] (.ofCause .undefined)
        (initial.run [.command .display [.variable 0, .string 0]]).2 ∧
      ({ initial with supply := ⟨[45], .congruential 1, 0⟩ }.run
        [.operator .add [.call (.builtin .getKey) [], .string 0]]).1 = .error (.ofCause .undefined) ∧
      Untouched { initial with supply := ⟨[45], .congruential 1, 0⟩ } ({ initial with supply := ⟨[45], .congruential 1, 0⟩ }.run
        [.operator .add [.call (.builtin .getKey) [], .string 0]]).2 := by
  have display : (initial.run [.command .display [.variable 0, .string 0]]).1 = .error (.ofCause .undefined) := rfl
  have sum : ({ initial with supply := ⟨[45], .congruential 1, 0⟩ }.run
      [.operator .add [.call (.builtin .getKey) [], .string 0]]).1 = .error (.ofCause .undefined) := rfl
  refine ⟨display, ?_, sum, ?_⟩
  · rcases (failed_statement_leaves initial _ _ _ (Prod.ext display rfl)).2 _ rfl with ⟨interrupted, _⟩ | ⟨short, _⟩
    · cases interrupted
    · exact short
  · exact (failed_statement_leaves _ _ _ _ (Prod.ext sum rfl)).1 (by simp)

-- A request to stop is looked at before the arguments are, none of which fails.
theorem interrupted_display_evaluates_nothing :
    { initial with interrupted := true }.run [.command .display [.variable 0]] =
        (.error (.ofCause .interrupted), { initial with interrupted := true }) ∧
      (({ initial with interrupted := true } : Machine).evaluate (.variable 0)).1 = .ok (.number 0) ∧
      ¬ StopsShort { initial with interrupted := true } [.variable 0] (.ofCause .interrupted)
        { initial with interrupted := true } := by
  refine ⟨rfl, rfl, ?_⟩
  rintro ⟨shown, failing, rest, vals, s, split, _, failure, _⟩
  cases shown with
  | nil =>
      cases split
      cases failure
  | cons first more => simp at split

end Machine

end GraphCalc

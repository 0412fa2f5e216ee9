import GraphCalc.Machine
import GraphCalc.Proofs.Results

set_option autoImplicit false

namespace GraphCalc

namespace Evaluation

-- The values of the trees up to the first that has none.
def leadingValues (env : Surroundings) : List Tree → Supply → List Value
  | [], _ => []
  | tree :: rest, s =>
    match evaluate env tree s with
    | (.error _, _) => []
    | (.ok v, s) => v :: leadingValues env rest s

theorem evaluate_all_cons (env : Surroundings) (tree : Tree) (rest : List Tree) (s s₁ s₂ : Supply) (v : Value)
    (vals : List Value) (first : evaluate env tree s = (.ok v, s₁)) (others : evaluateAll env rest s₁ = (.ok vals, s₂)) :
    evaluateAll env (tree :: rest) s = (.ok (v :: vals), s₂) := by
  change andThen (evaluate env tree s) _ = _
  rw [first]
  change andThen (evaluateAll env rest s₁) _ = _
  rw [others]
  rfl

end Evaluation

namespace Machine

def writeAt (m : Machine) (row column : Nat) (text : String) : Machine :=
  { m with screen := m.screen.output row column text }

def showing (m : Machine) (vals : List Value) (s : Supply) : Machine :=
  { m with
    supply := s
    screen := vals.foldl (fun screen v => screen.display (lineText m.mode v)) m.screen }

def shown (m : Machine) (args : List Tree) : List Value := Evaluation.leadingValues m.surroundings args m.supply

theorem display_all_outcome (m : Machine) (args : List Tree) :
    ∃ s, (m.displayAll args).2 = m.showing (m.shown args) s ∧
      ((m.displayAll args).1 = .ok () ∧ Evaluation.evaluateAll m.surroundings args m.supply = (.ok (m.shown args), s) ∨
        ∃ f before failing rest s', (m.displayAll args).1 = .error f ∧ args = before ++ failing :: rest ∧
          Evaluation.evaluateAll m.surroundings before m.supply = (.ok (m.shown args), s') ∧
          Evaluation.evaluate m.surroundings failing s' = (.error f, s)) := by
  induction args generalizing m with
  | nil => exact ⟨m.supply, rfl, Or.inl ⟨rfl, rfl⟩⟩
  | cons tree rest ih =>
      rw [displayAll, evaluate, shown, Evaluation.leadingValues]
      cases evaluated : Evaluation.evaluate m.surroundings tree m.supply with
      | mk result s =>
          cases result with
          | error f => exact ⟨s, rfl, Or.inr ⟨f, [], tree, rest, m.supply, rfl, rfl, rfl, evaluated⟩⟩
          | ok v =>
              -- What is on the screen makes no difference to the arguments that follow.
              obtain ⟨s', left, ⟨done, all⟩ | ⟨f, before, failing, later, s'', failed, rfl, values, failure⟩⟩ :=
                ih { m with supply := s, screen := m.screen.display (lineText m.mode v) }
              · exact ⟨s', left, Or.inl ⟨done, Evaluation.evaluate_all_cons _ _ _ _ _ _ _ _ evaluated all⟩⟩
              · exact ⟨s', left, Or.inr ⟨f, tree :: before, failing, later, s'', failed, rfl,
                  Evaluation.evaluate_all_cons _ _ _ _ _ _ _ _ evaluated values, failure⟩⟩

def placement (m : Machine) (args : List Tree) : Option (Nat × Nat × Value) :=
  if args.length = 3 then (m.evaluateAll args).1.toOption.bind fun vals => (outputArguments vals).toOption else none

theorem output_arguments_range (vals : List Value) (row column : Nat) (v : Value)
    (done : outputArguments vals = .ok (row, column, v)) : (1 ≤ row ∧ row ≤ 8) ∧ 1 ≤ column ∧ column ≤ 16 := by
  obtain ⟨first, _, done⟩ := bind_ok done
  obtain ⟨r, _, done⟩ := bind_ok done
  obtain ⟨second, _, done⟩ := bind_ok done
  obtain ⟨c, _, done⟩ := bind_ok done
  by_cases outside : r < 1 ∨ Screen.rows < r ∨ c < 1 ∨ Screen.columns < c
  · rw [if_pos outside] at done
    cases done
  · rw [if_neg outside] at done
    obtain ⟨_, _, done⟩ := bind_ok done
    cases done
    unfold Screen.rows Screen.columns at outside
    omega

theorem output_at_outcome (m : Machine) (args : List Tree) :
    (m.placement args = none ∧
        ∃ f, m.outputAt args = (.error f, m) ∨ m.outputAt args = (.error f, (m.evaluateAll args).2)) ∨
      ∃ vals row column v, m.placement args = some (row, column, v) ∧
        m.evaluateAll args = (.ok vals, (m.evaluateAll args).2) ∧ outputArguments vals = .ok (row, column, v) ∧
        m.outputAt args = (.ok (), (m.evaluateAll args).2.writeAt row column (Display.valueText m.mode v)) := by
  rw [outputAt, placement]
  by_cases count : args.length = 3
  · rw [if_pos count, if_pos count]
    have mode : (m.evaluateAll args).2.mode = m.mode := rfl
    cases evaluated : m.evaluateAll args with
    | mk result m₁ =>
        rw [evaluated] at mode
        cases result with
        | error f => exact Or.inl ⟨rfl, f, Or.inr rfl⟩
        | ok vals =>
            dsimp only [Except.toOption, Option.bind_some] at mode ⊢
            cases located : outputArguments vals with
            | error e => exact Or.inl ⟨rfl, _, Or.inr rfl⟩
            | ok place =>
                obtain ⟨row, column, v⟩ := place
                refine Or.inr ⟨vals, row, column, v, rfl, rfl, located, ?_⟩
                rw [← mode]
                rfl
  · rw [if_neg count, if_neg count]
    exact Or.inl ⟨rfl, _, Or.inl rfl⟩

theorem fix_decimals_outcome (m : Machine) (args : List Tree) :
    (∃ f, m.fixDecimals args = (.error f, m)) ∨
      ∃ tree, args = [tree] ∧ ((∃ f, m.fixDecimals args = (.error f, (m.evaluate tree).2)) ∨
        ∃ v n, (m.evaluate tree).1 = .ok v ∧ places v = .ok n ∧ m.fixDecimals args =
          (.ok (), { (m.evaluate tree).2 with mode := { m.mode with decimals := .fixed n } })) := by
  unfold fixDecimals
  split
  · rename_i tree
    have mode : (m.evaluate tree).2.mode = m.mode := rfl
    refine Or.inr ⟨tree, rfl, ?_⟩
    cases evaluated : m.evaluate tree with
    | mk result m₁ =>
        rw [evaluated] at mode
        cases result with
        | error f => exact Or.inl ⟨f, rfl⟩
        | ok v =>
            dsimp only at mode ⊢
            rw [mode]
            cases digits : places v with
            | error e => exact Or.inl ⟨_, rfl⟩
            | ok n => exact Or.inr ⟨v, n, rfl, digits, rfl⟩
  · exact Or.inl ⟨_, rfl⟩

def lasting (m : Machine) : Store × Value × Bool := (m.store, m.answer, m.interrupted)

theorem perform_lasting (m : Machine) (command : Command) (args : List Tree) :
    (m.perform command args).2.lasting = m.lasting := by
  cases command with
  | display =>
      obtain ⟨s, left, _⟩ := m.display_all_outcome args
      change (m.displayAll args).2.lasting = _
      rw [left]
      rfl
  | output =>
      change (m.outputAt args).2.lasting = _
      obtain ⟨_, f, left | left⟩ | ⟨vals, row, column, v, _, _, _, left⟩ := m.output_at_outcome args <;> rw [left] <;> rfl
  | fix =>
      change (m.fixDecimals args).2.lasting = _
      obtain ⟨f, left⟩ | ⟨tree, _, ⟨f, left⟩ | ⟨v, n, _, _, left⟩⟩ := m.fix_decimals_outcome args <;> rw [left] <;> rfl
  | _ => rfl

theorem after_result (flow found : Flow) (result : Except Fault Unit × Machine) (m' : Machine)
    (done : flow.after result = (.ok found, m')) : found = flow := by
  obtain ⟨outcome, m₁⟩ := result
  cases outcome with
  | error f => cases done
  | ok _ =>
      cases done
      rfl

theorem perform_stop (m m' : Machine) (command : Command) (args : List Tree)
    (performed : m.perform command args = (.ok .stop, m')) : (command = .stop ∨ command = .returns) ∧ m' = m := by
  cases command with
  | stop =>
      cases performed
      exact ⟨Or.inl rfl, rfl⟩
  | returns =>
      cases performed
      exact ⟨Or.inr rfl, rfl⟩
  | display | output | fix => cases after_result _ _ _ _ performed
  | _ => cases performed

-- A statement run, by its kind and by what comes of it.
inductive Ran (m : Machine) : Tree → Step × Machine → Prop where
  | interrupted (statement : Tree) (asked : m.interrupted = true) : Ran m statement (.failed (.ofCause .interrupted), m)
  | refused (command : Command) (args : List Tree) (f : Fault) (m' : Machine) (running : m.interrupted = false)
      (performed : m.perform command args = (.error f, m')) : Ran m (.command command args) (.failed f, m')
  | ended (command : Command) (args : List Tree) (m' : Machine) (running : m.interrupted = false)
      (performed : m.perform command args = (.ok .stop, m')) : Ran m (.command command args) (.stopped, m')
  | performed (command : Command) (args : List Tree) (m' : Machine) (running : m.interrupted = false)
      (performed : m.perform command args = (.ok .next, m')) : Ran m (.command command args) (.continued none, m')
  | failed (tree : Tree) (f : Fault) (m' : Machine) (running : m.interrupted = false) (expression : tree.isCommand = false)
      (evaluated : m.evaluate tree = (.error f, m')) : Ran m tree (.failed f, m')
  | evaluated (tree : Tree) (v : Value) (m' : Machine) (running : m.interrupted = false)
      (expression : tree.isCommand = false) (evaluated : m.evaluate tree = (.ok v, m')) :
      Ran m tree (.continued (some v), { m' with answer := v })

theorem run_one_ran (m : Machine) (statement : Tree) : m.Ran statement (m.runOne statement) := by
  unfold runOne
  by_cases interrupted : m.interrupted = true
  · rw [if_pos interrupted]
    exact .interrupted statement interrupted
  · have running := Bool.eq_false_iff.mpr interrupted
    rw [if_neg interrupted]
    cases statement with
    | command command args =>
        dsimp only
        cases performed : m.perform command args with
        | mk result m₁ =>
            cases result with
            | error f => exact .refused command args f m₁ running performed
            | ok flow =>
                cases flow with
                | stop => exact .ended command args m₁ running performed
                | next => exact .performed command args m₁ running performed
    | _ =>
        dsimp only
        cases evaluated : m.evaluate _ with
        | mk result m₁ =>
            cases result with
            | error f => exact .failed _ f m₁ running rfl evaluated
            | ok v => exact .evaluated _ v m₁ running rfl evaluated

theorem ran_runs (m : Machine) (statement : Tree) (result : Step × Machine) (ran : m.Ran statement result) :
    m.runOne statement = result := by
  unfold runOne
  cases ran with
  | interrupted _ asked => rw [if_pos asked]
  | refused _ _ _ _ running performed | ended _ _ _ running performed | performed _ _ _ running performed =>
      rw [running, if_neg Bool.false_ne_true]
      dsimp only
      rw [performed]
  | failed _ _ _ running kind evaluated | evaluated _ _ _ running kind evaluated =>
      rw [running, if_neg Bool.false_ne_true]
      cases statement with
      | command _ _ => cases kind
      | _ =>
          dsimp only
          rw [evaluated]

theorem run_one_interrupted (m : Machine) (statement : Tree) : (m.runOne statement).2.interrupted = m.interrupted := by
  have ran := m.run_one_ran statement
  generalize m.runOne statement = result at ran ⊢
  cases ran with
  | interrupted => rfl
  | refused command args f m' _ performed | ended command args m' _ performed | performed command args m' _ performed =>
      have kept := congrArg (·.2.2) (m.perform_lasting command args)
      rwa [performed] at kept
  | failed _ f m' _ _ evaluated | evaluated _ v m' _ _ evaluated =>
      have kept : (m.evaluate statement).2.interrupted = m.interrupted := rfl
      rwa [evaluated] at kept

end Machine

end GraphCalc

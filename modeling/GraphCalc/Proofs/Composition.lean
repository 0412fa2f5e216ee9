import GraphCalc.Proofs.Effects
import GraphCalc.Session

set_option autoImplicit false

namespace GraphCalc

def Tree.endsProgram : Tree → Bool
  | .command .stop _ | .command .returns _ => true
  | _ => false

namespace Machine

-- Statements run to their end, with the values of the expressions among them. A command has no value.
inductive Completes : Machine → List Tree → List Value → Machine → Prop where
  | nothing (m : Machine) : Completes m [] [] m
  | expression (m m₁ m' : Machine) (tree : Tree) (v : Value) (rest : List Tree) (vals : List Value)
      (running : m.interrupted = false) (kind : tree.isCommand = false) (evaluated : m.evaluate tree = (.ok v, m₁))
      (later : Completes { m₁ with answer := v } rest vals m') : Completes m (tree :: rest) (v :: vals) m'
  | command (m m₁ m' : Machine) (command : Command) (args rest : List Tree) (vals : List Value)
      (running : m.interrupted = false) (performed : m.perform command args = (.ok .next, m₁))
      (later : Completes m₁ rest vals m') : Completes m (.command command args :: rest) vals m'

-- The statements before a `Stop` or a `Return` are run, and then it is.
def Halts (m : Machine) (p : List Tree) (vals : List Value) (m' : Machine) : Prop :=
  ∃ before statement rest, p = before ++ statement :: rest ∧ m.Completes before vals m' ∧ m'.interrupted = false ∧
    statement.endsProgram = true

-- The statements before one that fails are run, and then it leaves `m'`.
def Breaks (m : Machine) (p : List Tree) (vals : List Value) (f : Fault) (m' : Machine) : Prop :=
  ∃ before statement rest m₁, p = before ++ statement :: rest ∧ m.Completes before vals m₁ ∧
    m₁.Ran statement (.failed f, m')

def Finishes (m : Machine) (p : List Tree) (vals : List Value) (m' : Machine) : Prop :=
  m.Completes p vals m' ∨ m.Halts p vals m'

def EndsEarly (m : Machine) (p : List Tree) : Prop :=
  (∃ f, (m.run p).1 = .error f) ∨ ∃ vals m', m.Halts p vals m'

theorem end_halts (m : Machine) (statement : Tree) (running : m.interrupted = false)
    (ends : statement.endsProgram = true) : m.runOne statement = (.stopped, m) := by
  unfold Tree.endsProgram at ends
  split at ends
  · exact m.ran_runs _ _ (.ended .stop _ m running rfl)
  · exact m.ran_runs _ _ (.ended .returns _ m running rfl)
  · cases ends

theorem completes_run (m m' : Machine) (p : List Tree) (vals : List Value) (completes : m.Completes p vals m')
    (last : Option Value) (q : List Tree) : m.runFrom last (p ++ q) = m'.runFrom (vals.getLast?.or last) q := by
  induction completes generalizing last with
  | nothing => rfl
  | expression m m₁ m' tree v rest vals running kind evaluated _ ih =>
      rw [List.cons_append, runFrom, m.ran_runs _ _ (.evaluated tree v m₁ running kind evaluated)]
      dsimp only
      rw [ih, List.getLast?_cons]
      cases vals.getLast? <;> rfl
  | command m m₁ m' command args rest vals running performed _ ih =>
      rw [List.cons_append, runFrom, m.ran_runs _ _ (.performed command args m₁ running performed)]
      exact ih last

theorem halts_run (m m' : Machine) (p : List Tree) (vals : List Value) (halts : m.Halts p vals m')
    (last : Option Value) (q : List Tree) : m.runFrom last (p ++ q) = (.ok (vals.getLast?.or last), m') := by
  obtain ⟨before, statement, rest, rfl, completes, running, ends⟩ := halts
  rw [List.append_assoc, m.completes_run m' before vals completes, List.cons_append, runFrom,
    m'.end_halts statement running ends]

theorem breaks_run (m m' : Machine) (p : List Tree) (vals : List Value) (f : Fault) (breaks : m.Breaks p vals f m')
    (last : Option Value) (q : List Tree) : m.runFrom last (p ++ q) = (.error f, m') := by
  obtain ⟨before, statement, rest, m₁, rfl, completes, failed⟩ := breaks
  rw [List.append_assoc, m.completes_run m₁ before vals completes, List.cons_append, runFrom,
    m₁.ran_runs statement _ failed]

theorem finishes_run (m m' : Machine) (p : List Tree) (vals : List Value) (finishes : m.Finishes p vals m')
    (last : Option Value) : m.runFrom last p = (.ok (vals.getLast?.or last), m') := by
  rw [← List.append_nil p]
  rcases finishes with completes | halts
  · rw [m.completes_run m' p vals completes, runFrom]
  · exact m.halts_run m' p vals halts last []

theorem finishes_result (m m' : Machine) (p : List Tree) (vals : List Value) (finishes : m.Finishes p vals m') :
    m.run p = (.ok vals.getLast?, m') := by
  rw [run, m.finishes_run m' p vals finishes, Option.or_none]

theorem breaks_alone (m m' : Machine) (p : List Tree) (vals : List Value) (f : Fault) (breaks : m.Breaks p vals f m')
    (last : Option Value) : m.runFrom last p = (.error f, m') := by
  have whole := m.breaks_run m' p vals f breaks last []
  rwa [List.append_nil] at whole

theorem completes_answer (m m' : Machine) (p : List Tree) (vals : List Value) (completes : m.Completes p vals m') :
    m'.answer = vals.getLast?.getD m.answer := by
  induction completes with
  | nothing => rfl
  | expression m m₁ m' tree v rest vals _ _ _ _ ih => rw [ih, List.getLast?_cons, Option.getD_some]
  | command m m₁ m' command args rest vals _ performed _ ih =>
      have kept : (m.perform command args).2.answer = m.answer := congrArg (·.2.1) (m.perform_lasting command args)
      rw [performed] at kept
      rw [ih, kept]

theorem finishes_answer (m m' : Machine) (p : List Tree) (vals : List Value) (finishes : m.Finishes p vals m') :
    m'.answer = vals.getLast?.getD m.answer := by
  rcases finishes with completes | ⟨before, _, _, _, completes, _⟩
  · exact m.completes_answer m' p vals completes
  · exact m.completes_answer m' before vals completes

theorem failed_answer (m m' : Machine) (statement : Tree) (f : Fault) (failed : m.Ran statement (.failed f, m')) :
    m'.answer = m.answer := by
  cases failed with
  | interrupted => rfl
  | refused command args _ _ _ performed =>
      have kept : (m.perform command args).2.answer = m.answer := congrArg (·.2.1) (m.perform_lasting command args)
      rwa [performed] at kept
  | failed _ _ _ _ _ evaluated =>
      have kept : (m.evaluate statement).2.answer = m.answer := rfl
      rwa [evaluated] at kept

theorem breaks_answer (m m' : Machine) (p : List Tree) (vals : List Value) (f : Fault) (breaks : m.Breaks p vals f m') :
    m'.answer = vals.getLast?.getD m.answer := by
  obtain ⟨before, statement, _, m₁, _, completes, failed⟩ := breaks
  rw [m₁.failed_answer m' statement f failed, m.completes_answer m₁ before vals completes]

def Reaches (m : Machine) (p : List Tree) : Prop :=
  (∃ vals m', m.Finishes p vals m') ∨ ∃ vals f m', m.Breaks p vals f m'

theorem reaches_failed (m m' : Machine) (statement : Tree) (rest : List Tree) (f : Fault)
    (failed : m.Ran statement (.failed f, m')) : m.Reaches (statement :: rest) :=
  Or.inr ⟨[], f, m', [], statement, rest, m, rfl, .nothing m, failed⟩

theorem reaches_next (m m₁ : Machine) (statement : Tree) (rest : List Tree) (value : Option Value)
    (extend : ∀ p vals m', m₁.Completes p vals m' → m.Completes (statement :: p) (value.toList ++ vals) m')
    (later : m₁.Reaches rest) : m.Reaches (statement :: rest) := by
  obtain ⟨vals, m', completes | ⟨before, stop, after, rfl, completes, ends⟩⟩ |
    ⟨vals, f, m', before, failing, after, m₂, rfl, completes, failed⟩ := later
  · exact Or.inl ⟨_, m', Or.inl (extend rest vals m' completes)⟩
  · exact Or.inl ⟨_, m', Or.inr ⟨statement :: before, stop, after, rfl, extend before vals m' completes, ends⟩⟩
  · exact Or.inr ⟨_, f, m', statement :: before, failing, after, m₂, rfl, extend before vals m₂ completes, failed⟩

theorem run_reaches (m : Machine) (p : List Tree) : m.Reaches p := by
  induction p generalizing m with
  | nil => exact Or.inl ⟨[], m, Or.inl (.nothing m)⟩
  | cons statement rest ih =>
      have ran := m.run_one_ran statement
      generalize m.runOne statement = result at ran
      cases ran with
      | interrupted _ asked => exact m.reaches_failed m _ rest _ (.interrupted _ asked)
      | refused command args f m' running performed =>
          exact m.reaches_failed m' _ rest f (.refused command args f m' running performed)
      | failed _ f m' running kind evaluated =>
          exact m.reaches_failed m' _ rest f (.failed statement f m' running kind evaluated)
      | ended command args m' running performed =>
          obtain ⟨which, rfl⟩ := m.perform_stop m' command args performed
          refine Or.inl ⟨[], m', Or.inr ⟨[], _, rest, rfl, .nothing m', running, ?_⟩⟩
          rcases which with rfl | rfl <;> rfl
      | performed command args m₁ running performed =>
          exact m.reaches_next m₁ _ rest none
            (fun p vals m' => .command m m₁ m' command args p vals running performed) (ih m₁)
      | evaluated _ v m₁ running kind evaluated =>
          exact m.reaches_next _ _ rest (some v)
            (fun p vals m' => .expression m m₁ m' statement v p vals running kind evaluated) (ih _)

theorem ends_early_cuts (m : Machine) (p q : List Tree) (early : m.EndsEarly p) :
    m.run (p ++ q) = m.run p ∧
      ((∃ vals f m', m.Breaks p vals f m' ∧ m.run p = (.error f, m') ∧ m'.answer = vals.getLast?.getD m.answer) ∨
        ∃ vals m', m.Halts p vals m' ∧ m.run p = (.ok vals.getLast?, m') ∧ m'.answer = vals.getLast?.getD m.answer) := by
  rcases early with ⟨f, failed⟩ | ⟨vals, m', halts⟩
  · obtain ⟨vals, m', finishes⟩ | ⟨vals, g, m', breaks⟩ := m.run_reaches p
    · rw [m.finishes_result m' p vals finishes] at failed
      cases failed
    · have alone : m.run p = (.error g, m') := m.breaks_alone m' p vals g breaks none
      refine ⟨(m.breaks_run m' p vals g breaks none q).trans alone.symm, Or.inl ⟨vals, g, m', breaks, alone, ?_⟩⟩
      exact m.breaks_answer m' p vals g breaks
  · have alone := m.finishes_result m' p vals (Or.inr halts)
    refine ⟨?_, Or.inr ⟨vals, m', halts, alone, m.finishes_answer m' p vals (Or.inr halts)⟩⟩
    rw [alone, run, m.halts_run m' p vals halts none q, Option.or_none]

theorem completes_otherwise (m : Machine) (p : List Tree) (through : ¬ m.EndsEarly p) : ∃ vals m', m.Completes p vals m' := by
  obtain ⟨vals, m', completes | halts⟩ | ⟨vals, f, m', breaks⟩ := m.run_reaches p
  · exact ⟨vals, m', completes⟩
  · exact absurd (Or.inr ⟨vals, m', halts⟩) through
  · have alone := m.breaks_alone m' p vals f breaks none
    exact absurd (Or.inl ⟨f, congrArg Prod.fst alone⟩) through

theorem run_one_after_other (m : Machine) (p q : List Tree) :
    (m.EndsEarly p → m.run (p ++ q) = m.run p ∧
        ((∃ vals f m', m.Breaks p vals f m' ∧ m.run p = (.error f, m') ∧ m'.answer = vals.getLast?.getD m.answer) ∨
          ∃ vals m', m.Halts p vals m' ∧ m.run p = (.ok vals.getLast?, m') ∧
            m'.answer = vals.getLast?.getD m.answer)) ∧
      (¬ m.EndsEarly p → ∃ vals m', m.Completes p vals m' ∧ m.run p = (.ok vals.getLast?, m') ∧
        m'.answer = vals.getLast?.getD m.answer ∧ (m.run (p ++ q)).2 = (m'.run q).2 ∧
        (∀ f, (m'.run q).1 = .error f → (m.run (p ++ q)).1 = .error f) ∧
        (∀ later, (m'.run q).1 = .ok later → ∃ vals', m'.Finishes q vals' (m'.run q).2 ∧ later = vals'.getLast? ∧
          (m'.run q).2.answer = vals'.getLast?.getD m'.answer ∧
          (m.run (p ++ q)).1 = .ok (vals'.getLast?.or vals.getLast?))) := by
  refine ⟨m.ends_early_cuts p q, ?_⟩
  intro through
  obtain ⟨vals, m', completes⟩ := m.completes_otherwise p through
  have ran := m.finishes_result m' p vals (Or.inl completes)
  have both : m.run (p ++ q) = m'.runFrom vals.getLast? q := by
    rw [run, m.completes_run m' p vals completes, Option.or_none]
  refine ⟨vals, m', completes, ran, m.completes_answer m' p vals completes, ?_⟩
  rw [both]
  obtain ⟨vals', m'', finishes⟩ | ⟨vals', f, m'', breaks⟩ := m'.run_reaches q
  · rw [m'.finishes_result m'' q vals' finishes, m'.finishes_run m'' q vals' finishes]
    refine ⟨rfl, ?_, ?_⟩
    · intro f failed
      cases failed
    · intro later done
      cases done
      exact ⟨vals', finishes, rfl, m'.finishes_answer m'' q vals' finishes, rfl⟩
  · rw [run, m'.breaks_alone m'' q vals' f breaks none, m'.breaks_alone m'' q vals' f breaks]
    refine ⟨rfl, fun g failed => failed, ?_⟩
    intro later done
    cases done

-- The end of a program cuts off what follows; a command, which has no value, keeps the one before it.
theorem value_kept_past_command :
    initial.EndsEarly [.command .stop []] ∧
      initial.run ([.command .stop []] ++ [.text [0x41]]) = initial.run [.command .stop []] ∧
      ¬ initial.EndsEarly [.text [0x41]] ∧
      (initial.run ([.text [0x41]] ++ [.command .clearHome []])).1 = .ok (some (.string [0x41])) ∧
      (initial.run ([.text [0x41]] ++ [.command .clearHome []])).2.answer = .string [0x41] := by
  have early : initial.EndsEarly [.command .stop []] :=
    Or.inr ⟨[], initial, [], .command .stop [], [], rfl, .nothing initial, rfl, rfl⟩
  have through : ¬ initial.EndsEarly [.text [0x41]] := by
    rintro (⟨f, failed⟩ | ⟨vals, m', before, statement, rest, split, _, _, ends⟩)
    · cases failed
    · cases before with
      | nil =>
          cases split
          cases ends
      | cons first more => simp at split
  obtain ⟨vals, m', _, ran, _, state, _, later⟩ :=
    (run_one_after_other initial [.text [0x41]] [.command .clearHome []]).2 through
  have value : vals.getLast? = some (.string [0x41]) := (Except.ok.inj (congrArg Prod.fst ran)).symm
  have left : m' = (initial.run [.text [0x41]]).2 := congrArg Prod.snd ran.symm
  have nothing : (m'.run [.command .clearHome []]).1 = .ok none := by
    rw [left]
    rfl
  obtain ⟨vals', _, valueless, answer', result⟩ := later none nothing
  rw [← valueless] at result answer'
  rw [value] at result
  refine ⟨early, ((run_one_after_other initial _ _).1 early).1, through, result, ?_⟩
  rw [state, answer', left]
  rfl

end Machine

end GraphCalc

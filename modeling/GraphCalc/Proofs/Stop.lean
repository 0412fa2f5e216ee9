import GraphCalc.Proofs.Effects
import GraphCalc.Proofs.Lines

set_option autoImplicit false

namespace GraphCalc

namespace Machine

-- No statement fails or ends the program.
def runsThrough (m : Machine) : List Tree → Bool
  | [] => true
  | statement :: rest =>
    match m.runOne statement with
    | (.continued _, m) => m.runsThrough rest
    | _ => false

theorem run_from_through (m : Machine) (last : Option Value) (p : List Tree) (through : m.runsThrough p = true) :
    ∃ value m', m'.interrupted = m.interrupted ∧ m.runFrom last p = (.ok value, m') ∧
      ∀ rest, m.runFrom last (p ++ rest) = m'.runFrom value rest := by
  induction p generalizing m last with
  | nil => exact ⟨last, m, rfl, rfl, fun _ => rfl⟩
  | cons statement p ih =>
      have kept := m.run_one_interrupted statement
      rw [runsThrough] at through
      cases ran : m.runOne statement with
      | mk step m₁ =>
          rw [ran] at through kept
          cases step with
          | failed f => cases through
          | stopped => cases through
          | continued value =>
              obtain ⟨final, m', same, all, more⟩ := ih m₁ (value <|> last) through
              refine ⟨final, m', same.trans kept, ?_, fun rest => ?_⟩
              · rw [runFrom, ran]
                exact all
              · rw [List.cons_append, runFrom, ran]
                exact more rest

theorem run_from_stop (m : Machine) (last : Option Value) (rest : List Tree) (running : m.interrupted = false) :
    m.runFrom last (.command .stop [] :: rest) = (.ok last, m) := by
  rw [runFrom, runOne, if_neg (by simp [running])]
  rfl

end Machine

theorem stop_and_letter_read :
    Reading.start.read? 'S' ['t', 'o', 'p'] = some ([0xD9], 3) ∧ Reading.start.read? 'A' [] = some ([0x41], 0) := by
  decide +kernel

theorem program_of_stop : programOf "Stop" false = .ok [.command .stop []] := by
  have tokens : tokenize "Stop" = .ok [0xD9] := by
    change tokenizeFrom .start ['S', 't', 'o', 'p'] = _
    rw [tokenize_from_cons _ _ _ _ _ stop_and_letter_read.1]
    change Except.map _ (tokenizeFrom _ []) = _
    rw [tokenizeFrom]
    rfl
  unfold programOf
  rw [tokens]
  exact Statement.parse_program_single _ _ rfl _ ⟨[0xD9], [], false, false⟩ rfl rfl

theorem program_of_letter : programOf "A" false = .ok [.variable 0] := by
  have tokens : tokenize "A" = .ok [0x41] := by
    change tokenizeFrom .start ['A'] = _
    rw [tokenize_from_cons _ _ _ _ _ stop_and_letter_read.2, List.drop_nil, tokenizeFrom]
    rfl
  unfold programOf
  rw [tokens]
  refine Statement.parse_program_single _ _ rfl _ ⟨[0x41], [], true, false⟩ ?_ rfl
  exact Expression.parse_of_read ⟨false, false⟩ _ _ _ (by cbv)

def stopBetween (a b : String) : String := a ++ "\nStop\n" ++ b

theorem program_of_stop_between (a b : String) (p : List Tree) (first : programOf a false = .ok p) :
    programOf (stopBetween a b) false =
      ((programOf b false).map (p ++ .command .stop [] :: ·)).mapError (·.below (a.toList.count '\n' + 2)) := by
  have line : "\nStop\n" = "\n" ++ ("Stop" ++ "\n") := by decide
  have text : stopBetween a b = a ++ "\n" ++ ("Stop" ++ "\n" ++ b) := by
    rw [stopBetween, line]
    simp only [String.append_assoc]
  have single : "Stop".toList.count '\n' = 0 := by decide
  rw [text, program_of_lines a _ p first, program_of_lines "Stop" b _ program_of_stop, single]
  cases programOf b false with
  | ok q => rfl
  | error f =>
      change Except.error ((f.below 1).below (a.toList.count '\n' + 1)) = .error (f.below (a.toList.count '\n' + 2))
      rw [f.below_below, Nat.add_comm 1]

namespace Machine

theorem execute_stop_between (m : Machine) (a b : String) (p statements : List Tree) (first : programOf a false = .ok p)
    (whole : programOf (stopBetween a b) false = .ok statements)
    (through : { m with interrupted := false }.runsThrough p = true) :
    ∃ value m', { m with interrupted := false }.run p = (.ok value, m') ∧
      m.execute (stopBetween a b) =
        (m'.screen.lines ++ resultLines m'.mode (.ok (if statements.getLast?.all Tree.isCommand then none else value)),
          { m' with screen := m'.screen.takeLines.2 }) := by
  obtain ⟨q, rfl⟩ : ∃ q, statements = p ++ .command .stop [] :: q := by
    rw [program_of_stop_between a b p first] at whole
    cases rest : programOf b false with rw [rest] at whole
    | error f => cases whole
    | ok q => exact ⟨q, (Except.ok.inj whole).symm⟩
  obtain ⟨value, m', running, all, more⟩ := run_from_through { m with interrupted := false } none p through
  have ran : { m with interrupted := false }.run (p ++ Tree.command .stop [] :: q) = (.ok value, m') :=
    (more _).trans (run_from_stop m' value q running)
  refine ⟨value, m', all, ?_⟩
  unfold execute runText
  dsimp only
  rw [whole]
  dsimp only
  rw [ran]
  rfl

theorem later_code_shows_iff (m : Machine) (a b c : String) (p withB withC : List Tree) (first : programOf a false = .ok p)
    (parsedB : programOf (stopBetween a b) false = .ok withB) (parsedC : programOf (stopBetween a c) false = .ok withC)
    (through : { m with interrupted := false }.runsThrough p = true) :
    (m.execute (stopBetween a b)).2 = (m.execute (stopBetween a c)).2 ∧
      ((m.execute (stopBetween a b)).1 = (m.execute (stopBetween a c)).1 ↔
        ({ m with interrupted := false }.run p).1 = .ok none ∨
          withB.getLast?.all Tree.isCommand = withC.getLast?.all Tree.isCommand) := by
  obtain ⟨value, m', ran, executedB⟩ := execute_stop_between m a b p withB first parsedB through
  obtain ⟨value', m'', ran', executedC⟩ := execute_stop_between m a c p withC first parsedC through
  cases ran.symm.trans ran'
  rw [executedB, executedC, ran]
  refine ⟨rfl, ?_⟩
  dsimp only
  rw [List.append_cancel_left_eq]
  cases value with
  | none => simp
  | some v =>
      generalize withB.getLast?.all Tree.isCommand = commandB
      generalize withC.getLast?.all Tree.isCommand = commandC
      cases commandB <;> cases commandC <;> simp [resultLines]

theorem stop_after_stop_hidden :
    (initial.execute (stopBetween "A" "")).2 = (initial.execute (stopBetween "A" "Stop")).2 ∧
      (initial.execute (stopBetween "A" "")).1 = (initial.execute (stopBetween "A" "Stop")).1 := by
  have nothing : programOf "" false = .ok [] := by
    have tokens : tokenize "" = .ok [] := by
      change tokenizeFrom .start [] = _
      rw [tokenizeFrom]
    unfold programOf
    rw [tokens]
    change (Statement.parse ⟨false, false⟩ (.start [] false)).1 = _
    unfold Statement.parse
    rw [Statement.read_all_last _ _ rfl rfl]
    rfl
  have parsedB := program_of_stop_between "A" "" _ program_of_letter
  have parsedC := program_of_stop_between "A" "Stop" _ program_of_letter
  rw [nothing] at parsedB
  rw [program_of_stop] at parsedC
  obtain ⟨machines, lines⟩ := later_code_shows_iff initial "A" "" "Stop" _ _ _ program_of_letter parsedB parsedC rfl
  exact ⟨machines, lines.mpr (Or.inr rfl)⟩

-- The value of the first line is printed because the text ends in an expression, which is not run.
theorem value_shows_after_stop :
    initial.runsThrough [.variable 0] = true ∧
      (initial.execute (stopBetween "A" "A")).2 = (initial.execute (stopBetween "A" "Stop")).2 ∧
      (initial.execute (stopBetween "A" "A")).1 ≠ (initial.execute (stopBetween "A" "Stop")).1 := by
  have parsedB := program_of_stop_between "A" "A" _ program_of_letter
  have parsedC := program_of_stop_between "A" "Stop" _ program_of_letter
  rw [program_of_letter] at parsedB
  rw [program_of_stop] at parsedC
  obtain ⟨value, m', ran, executedB⟩ := execute_stop_between initial "A" "A" _ _ program_of_letter parsedB rfl
  obtain ⟨value', m'', ran', executedC⟩ := execute_stop_between initial "A" "Stop" _ _ program_of_letter parsedC rfl
  cases ran.symm.trans ran'
  refine ⟨rfl, by rw [executedB, executedC], ?_⟩
  rw [executedB, executedC]
  cases ran
  intro same
  cases List.append_cancel_left same

end Machine

end GraphCalc

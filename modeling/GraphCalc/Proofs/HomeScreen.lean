import Mathlib.Data.List.Induction
import GraphCalc.Proofs.Cells
import GraphCalc.Proofs.Effects
import GraphCalc.Session

set_option autoImplicit false

namespace GraphCalc

namespace Screen

theorem blank_proper : blank.Proper := ⟨by simp [blank, blanks], Nat.zero_le _⟩

def fetched (s : Screen) : Call → List String
  | .take => s.takeLines.1
  | _ => []

def taken (s : Screen) : List Call → List String
  | [] => []
  | call :: rest => s.fetched call ++ (s.act call).taken rest

theorem fetched_or_recorded (s : Screen) (call : Call) :
    s.fetched call ++ (s.act call).lines = s.lines ++ call.text?.toList := by
  cases call with
  | display text => rfl
  | output row column text => exact (List.append_nil s.lines).symm
  | clear => exact (List.append_nil s.lines).symm
  | take => rfl

theorem taken_and_recorded (s : Screen) (calls : List Call) :
    s.taken calls ++ (s.after calls).lines = s.lines ++ calls.filterMap Call.text? := by
  induction calls generalizing s with
  | nil => exact (List.append_nil s.lines).symm
  | cons call rest ih =>
      have texts : (call :: rest).filterMap Call.text? = call.text?.toList ++ rest.filterMap Call.text? := by
        cases call <;> rfl
      have later : s.after (call :: rest) = (s.act call).after rest := rfl
      rw [taken, later, texts, List.append_assoc, ih (s.act call), ← List.append_assoc, fetched_or_recorded, List.append_assoc]

-- The screen shows these lines from the top and nothing below them.
structure Shows (s : Screen) (shown : List String) : Prop where
  proper : s.Proper
  few : shown.length ≤ rows
  cursor : s.cursor = shown.length
  grid : grid s.cells = shown.map (rowOf ·.toList) ++ List.replicate (rows - shown.length) (blanks columns)

theorem clear_shows (s : Screen) : s.clear.Shows [] :=
  ⟨⟨by simp [clear, blanks], Nat.zero_le _⟩, Nat.zero_le _, rfl, grid_blank⟩

theorem display_shows (s : Screen) (shown : List String) (text : String) (shows : s.Shows shown) :
    (s.display text).Shows ((shown ++ [text]).drop (shown.length + 1 - rows)) := by
  obtain ⟨readyProper, room⟩ := s.ready_proper shows.proper
  have written := grid_overwrite s.ready.cells readyProper.size s.ready.cursor (rowOf text.toList) room (row_of_length _)
  have few := shows.few
  by_cases full : shown.length = rows
  · have last : s.ready = s.scroll := if_pos (shows.cursor.trans full)
    rw [last] at written
    cases shown with
    | nil => cases full
    | cons first others =>
        have one : (first :: others).length + 1 - rows = 1 := by omega
        have size := List.length_cons.symm.trans full
        rw [one, List.cons_append, List.drop_one, List.tail_cons, display_ready, last]
        refine ⟨⟨?_, ?_⟩, ?_, ?_, ?_⟩
        · rw [overwrite_length, ← last]
          exact readyProper.size
        · rw [← last]
          exact room
        · rw [List.length_append]
          exact few
        · rw [scroll, shows.cursor, List.length_append]
          rfl
        · rw [written, scroll, grid_scroll _ shows.proper.size, shows.grid, shows.cursor, full]
          have none : rows - (others ++ [text]).length = 0 := by simp [size]
          have place : rows - 1 = (others.map (rowOf ·.toList)).length := by simp [← size]
          rw [none, Nat.sub_self, List.replicate_zero, List.append_nil, List.append_nil, List.map_cons, List.tail_cons, place,
            List.set_append_right _ _ (Nat.le_refl _), Nat.sub_self, List.map_append]
          rfl
  · have same : s.ready = s := if_neg (fun last => full (shows.cursor.symm.trans last))
    have all : shown.length + 1 - rows = 0 := by omega
    rw [same] at room written
    rw [all, List.drop_zero, display_ready, same]
    refine ⟨⟨?_, room⟩, ?_, ?_, ?_⟩
    · rw [overwrite_length]
      exact shows.proper.size
    · rw [List.length_append]
      exact Nat.lt_of_le_of_ne few full
    · rw [List.length_append, ← shows.cursor]
      rfl
    · have below : rows - shown.length = rows - (shown.length + 1) + 1 := by omega
      rw [written, shows.grid, shows.cursor, below, List.replicate_succ, List.set_append_right _ _ (by simp), List.length_append]
      simp

theorem displays_show (s : Screen) (texts : List String) :
    (s.clear.after (texts.map .display)).Shows (texts.drop (texts.length - rows)) := by
  induction texts using List.reverseRecOn with
  | nil => exact s.clear_shows
  | append_singleton init text ih =>
      have next := display_shows _ _ text ih
      have seen : (init.drop (init.length - rows) ++ [text]).drop ((init.drop (init.length - rows)).length + 1 - rows) =
          (init ++ [text]).drop ((init ++ [text]).length - rows) := by
        rw [← List.drop_append_of_le_length (Nat.sub_le _ _), List.drop_drop, List.length_drop, List.length_append,
          List.length_singleton]
        congr 1
        omega
      rw [seen] at next
      rw [List.map_append, after_append]
      exact next

theorem shown_row (s : Screen) (shown : List String) (shows : s.Shows shown) (i : Nat) (inRows : 1 ≤ i ∧ i ≤ rows) :
    s.row i = (shown[i - 1]?).elim (String.ofList (blanks columns)) fun text => String.ofList (rowOf text.toList) := by
  have line := grid_row s.cells (i - 1)
  rw [if_pos (by omega), shows.grid] at line
  rw [row, if_pos inRows]
  by_cases seen : i - 1 < shown.length
  · rw [List.getElem?_append_left (by simpa using seen), List.getElem?_map, List.getElem?_eq_getElem seen, Option.map_some] at line
    rw [← Option.some.inj line, List.getElem?_eq_getElem seen, Option.elim_some]
  · rw [List.getElem?_append_right (by simpa using seen), List.getElem?_replicate_of_lt] at line
    · rw [← Option.some.inj line, List.getElem?_eq_none (by omega), Option.elim_none]
    · simp only [List.length_map]
      omega

end Screen

namespace Machine

open Screen (Call)

-- What a statement does to the screen, call by call.
def statementCalls (m : Machine) : Tree → List Call
  | .command .display args => (m.shown args).map fun v => .display (lineText m.mode v)
  | .command .output args =>
      (m.placement args).toList.map fun place => .output place.1 place.2.1 (Display.valueText m.mode place.2.2)
  | .command .clearHome _ => [.clear]
  | _ => []

-- What a program does to the screen, up to the statement at which it ends.
def calls (m : Machine) : List Tree → List Call
  | [] => []
  | statement :: rest =>
    if m.interrupted then []
    else
      m.statementCalls statement ++
        match m.runOne statement with
        | (.continued _, m) => m.calls rest
        | _ => []

theorem placement_range (m : Machine) (args : List Tree) (row column : Nat) (v : Value)
    (placed : m.placement args = some (row, column, v)) : (1 ≤ row ∧ row ≤ 8) ∧ 1 ≤ column ∧ column ≤ 16 := by
  obtain ⟨nowhere, _⟩ | ⟨vals, _, _, _, place, _, located, _⟩ := m.output_at_outcome args
  · cases placed.symm.trans nowhere
  · cases placed.symm.trans place
    exact output_arguments_range vals row column v located

theorem expression_calls (m : Machine) (statement : Tree) (expression : statement.isCommand = false) :
    m.statementCalls statement = [] := by
  cases statement with
  | command command args => cases expression
  | _ => rfl

theorem statement_calls_in_range (m : Machine) (statement : Tree) :
    ∀ call ∈ m.statementCalls statement, call.InRange ∧ call ≠ .take := by
  intro call member
  cases statement with
  | command command args =>
      cases command with
      | display =>
          obtain ⟨v, _, rfl⟩ := List.mem_map.mp member
          exact ⟨trivial, Call.noConfusion⟩
      | output =>
          obtain ⟨⟨row, column, v⟩, place, rfl⟩ := List.mem_map.mp member
          exact ⟨m.placement_range args row column v (Option.mem_toList.mp place), Call.noConfusion⟩
      | clearHome =>
          cases List.mem_singleton.mp member
          exact ⟨trivial, Call.noConfusion⟩
      | _ => cases member
  | _ => cases member

theorem perform_screen (m : Machine) (command : Command) (args : List Tree) :
    (m.perform command args).2.screen = m.screen.after (m.statementCalls (.command command args)) := by
  cases command with
  | display =>
      obtain ⟨s, left, _⟩ := m.display_all_outcome args
      change (m.displayAll args).2.screen = _
      rw [left, statementCalls, Screen.after, List.foldl_map]
      rfl
  | output =>
      change (m.outputAt args).2.screen = _
      rw [statementCalls]
      obtain ⟨nowhere, f, left | left⟩ | ⟨vals, row, column, v, place, _, _, left⟩ := m.output_at_outcome args
      · rw [nowhere, left]
        rfl
      · rw [nowhere, left]
        rfl
      · rw [place, left]
        rfl
  | fix =>
      change (m.fixDecimals args).2.screen = _
      obtain ⟨f, left⟩ | ⟨tree, _, ⟨f, left⟩ | ⟨v, n, _, _, left⟩⟩ := m.fix_decimals_outcome args <;> rw [left] <;> rfl
  | _ => rfl

theorem run_one_screen (m : Machine) (statement : Tree) (running : m.interrupted = false) :
    (m.runOne statement).2.screen = m.screen.after (m.statementCalls statement) := by
  have ran := m.run_one_ran statement
  generalize m.runOne statement = result at ran ⊢
  cases ran with
  | interrupted _ asked => cases running.symm.trans asked
  | refused command args _ _ _ performed | ended command args _ _ performed | performed command args _ _ performed =>
      have drawn := m.perform_screen command args
      rwa [performed] at drawn
  | failed _ _ _ _ expression evaluated | evaluated _ _ _ _ expression evaluated =>
      have kept : (m.evaluate statement).2.screen = m.screen := rfl
      rw [evaluated] at kept
      rw [m.expression_calls statement expression]
      exact kept

theorem run_from_screen (m : Machine) (last : Option Value) (statements : List Tree) :
    (m.runFrom last statements).2.screen = m.screen.after (m.calls statements) := by
  induction statements generalizing m last with
  | nil => rfl
  | cons statement rest ih =>
      rw [runFrom, calls]
      by_cases interrupted : m.interrupted = true
      · unfold runOne
        rw [if_pos interrupted, if_pos interrupted]
        rfl
      · have drawn := m.run_one_screen statement (Bool.eq_false_iff.mpr interrupted)
        rw [if_neg interrupted, Screen.after_append, ← drawn]
        cases ran : m.runOne statement with
        | mk step m₁ =>
            cases step with
            | failed f => rfl
            | stopped => rfl
            | continued value => exact ih m₁ _

theorem calls_in_range (m : Machine) (statements : List Tree) :
    ∀ call ∈ m.calls statements, call.InRange ∧ call ≠ .take := by
  induction statements generalizing m with
  | nil =>
      intro call member
      cases member
  | cons statement rest ih =>
      intro call member
      rw [calls] at member
      split at member
      · cases member
      · rcases List.mem_append.mp member with first | later
        · exact m.statement_calls_in_range statement call first
        · split at later
          · exact ih _ call later
          · cases later

end Machine

namespace Screen

theorem grid_shape (cells : List Char) (size : cells.length = rows * columns) :
    (grid cells).length = 8 ∧ ∀ row ∈ grid cells, row.length = 16 := by
  refine ⟨grid_length cells, ?_⟩
  intro row member
  obtain ⟨r, inRows, rfl⟩ := List.mem_map.mp member
  have bound := List.mem_range.mp inRows
  unfold rows columns at *
  rw [List.length_take, List.length_drop, size]
  omega

theorem proper_shape (s : Screen) (proper : s.Proper) :
    s.sheet.grid.length = 8 ∧ (∀ row ∈ s.sheet.grid, row.length = 16) ∧ s.cursor ≤ 8 := by
  obtain ⟨height, width⟩ := grid_shape s.cells proper.size
  exact ⟨height, width, proper.inside⟩

theorem home_screen_sound :
    (∀ g : Generator, (Machine.fresh g).screen.Proper) ∧
      (∀ (m : Machine) (statements : List Tree), m.screen.Proper →
        (∀ call ∈ m.calls statements, call.InRange ∧ call ≠ .take) ∧
          (m.run statements).2.screen = m.screen.after (m.calls statements) ∧
          ∀ done, done <+: m.calls statements →
            done.foldlM Sheet.act? m.screen.sheet = some (m.screen.after done).sheet ∧
              (m.screen.after done).sheet.grid.length = 8 ∧
              (∀ row ∈ (m.screen.after done).sheet.grid, row.length = 16) ∧ (m.screen.after done).cursor ≤ 8) ∧
      ∀ calls : List Call, (∀ call ∈ calls, call.InRange) →
        (blank.after calls).sheet.grid.length = 8 ∧ (∀ row ∈ (blank.after calls).sheet.grid, row.length = 16) ∧
          (blank.after calls).cursor ≤ 8 ∧
          calls.foldlM Sheet.act? blank.sheet = some (blank.after calls).sheet ∧
          blank.taken calls ++ (blank.after calls).lines = calls.filterMap Call.text? ∧
          ∀ (texts : List String) (i : Nat), 1 ≤ i → i ≤ 8 →
            (blank.after (calls ++ .clear :: texts.map .display)).row i =
              (texts[(texts.length - 8) + (i - 1)]?).elim (String.ofList (List.replicate 16 ' ')) fun text =>
                String.ofList (text.toList.take 16 ++ List.replicate (16 - text.toList.length) ' ') := by
  refine ⟨fun g => blank_proper, ?_, ?_⟩
  · intro m statements proper
    have inRange := m.calls_in_range statements
    refine ⟨inRange, m.run_from_screen none statements, fun done begun => ⟨?_, ?_⟩⟩
    · exact m.screen.after_sheet done proper fun call member => (inRange call (begun.subset member)).1
    · exact proper_shape _ (m.screen.after_proper done proper)
  · intro calls inRange
    obtain ⟨height, width, cursor⟩ := proper_shape _ (blank.after_proper calls blank_proper)
    refine ⟨height, width, cursor, blank.after_sheet calls blank_proper inRange, blank.taken_and_recorded calls, ?_⟩
    intro texts i first last
    have shown := (blank.after calls).displays_show texts
    have reached : blank.after (calls ++ .clear :: texts.map .display) =
        (blank.after calls).clear.after (texts.map .display) := after_append blank calls _
    rw [reached, shown_row _ _ shown i ⟨first, last⟩, List.getElem?_drop]
    rfl

-- A program that writes at the last cell and then, which is refused, in a ninth row; then two characters from the
-- last cell on, of which one is dropped, and a line that was fetched, before ten lines.
theorem ten_lines_scroll :
    let program : List Tree := [.command .output [.number 8, .number 16, .text [0x41, 0x42]],
      .command .output [.number 9, .number 1, .text [0x43]]]
    let calls := [Call.output 8 16 "XY", .display "OLD", .take]
    let texts := ["0", "1", "2", "3", "4", "5", "6", "7", "8", "LINE OF SEVENTEEN"]
    Machine.initial.calls program = [.output 8 16 "AB"] ∧
      [Call.output 8 16 "AB"].foldlM Sheet.act? Machine.initial.screen.sheet =
        some (Machine.initial.run program).2.screen.sheet ∧
      calls.foldlM Sheet.act? blank.sheet = some (blank.after calls).sheet ∧ (blank.after calls).lines = [] ∧
      (blank.after (calls ++ .clear :: texts.map .display)).row 1 = "2               " ∧
      (blank.after (calls ++ .clear :: texts.map .display)).row 8 = "LINE OF SEVENTEE" := by
  intro program calls texts
  have traced : Machine.initial.calls program = [.output 8 16 "AB"] := by decide +kernel
  obtain ⟨fresh, programs, sequences⟩ := home_screen_sound
  obtain ⟨_, drawn, steps⟩ := programs Machine.initial program (fresh _)
  obtain ⟨written, _⟩ := steps _ (List.prefix_refl _)
  rw [← drawn, traced] at written
  have inRange : ∀ call ∈ calls, call.InRange := by simp [calls, Call.InRange]
  obtain ⟨_, _, _, performed, _, shown⟩ := sequences calls inRange
  refine ⟨traced, written, performed, rfl, ?_, ?_⟩
  · rw [shown texts 1 (by decide) (by decide)]
    decide
  · rw [shown texts 8 (by decide) (by decide)]
    decide

end Screen

end GraphCalc

import GraphCalc.Proofs.LineEnd

set_option autoImplicit false

namespace GraphCalc

namespace Cursor

def after (c : Cursor) (before : Bytes) : Cursor := { c with passed := c.passed ++ Byte.newline :: before }

variable (c : Cursor) (before : Bytes)

theorem after_next : (c.after before).next = c.next.after before := by
  unfold next after
  cases c.rest <;> rfl

theorem after_advance (n : Nat) : (c.after before).advance n = (c.advance n).after before := by
  induction n generalizing c with
  | zero => rfl
  | succ n ih => rw [advance, after_next, ih, advance]

theorem after_current (b : UInt8) (other : b ≠ Byte.newline) : (c.after before).current = some b ↔ c.current = some b := by
  unfold current after
  by_cases ended : c.ended = true
  · simp [ended]
  · cases read : c.passed <;> simp [ended, Ne.symm other]

theorem column_after (bytes : Bytes) :
    (bytes ++ Byte.newline :: before).takeWhile (· != Byte.newline) = bytes.takeWhile (· != Byte.newline) := by
  induction bytes with
  | nil => rfl
  | cons b bytes ih => simp only [List.cons_append, List.takeWhile_cons, ih]

theorem after_place (started : c.Started) :
    (c.after before).place = c.place.below (before.count Byte.newline + 1) := by
  have read : (if c.ended then c.passed ++ Byte.newline :: before else (c.passed ++ Byte.newline :: before).tail) =
      (if c.ended then c.passed else c.passed.tail) ++ Byte.newline :: before := by
    by_cases ended : c.ended = true
    · rw [if_pos ended, if_pos ended]
    · rw [if_neg ended, if_neg ended]
      rcases started with some | past
      · exact List.tail_append_of_ne_nil some
      · exact absurd past ended
  unfold place after
  dsimp only
  rw [read, column_after, List.count_append, List.count_cons_self]
  simp only [Place.below, Place.mk.injEq, and_true]
  omega

end Cursor

theorem located_below (f : Fault) (place : Place) (lines : Nat) :
    (f.below lines).located (place.below lines) = (f.located place).below lines := by
  obtain ⟨cause, found⟩ := f
  cases found <;> rfl

variable (before : Bytes)

namespace Expression

theorem step_after (s : Stacks) (b : UInt8) (c : Cursor) :
    step s b (c.after before) = ((step s b c).1, (step s b c).2.after before) := by
  have same : (c.after before).rest = c.rest := rfl
  unfold step
  rw [same]
  cases Item.read b c.rest with
  | mk result used =>
      cases result with
      | error e => simp only [c.after_advance before]
      | ok item =>
          dsimp only
          cases s.accept item with
          | ok s' => simp only [c.after_advance before]
          | error e =>
              dsimp only
              split
              · rfl
              · rw [c.after_advance before]

theorem read_from_after (stops : Stops) (s : Stacks) (c : Cursor) (running : c.interrupted = false) :
    readFrom stops s (c.after before) = ((readFrom stops s c).1, (readFrom stops s c).2.after before) := by
  fun_induction readFrom stops s c with
  | case1 s c interrupted => rw [running] at interrupted; cases interrupted
  | case2 s c _ none => rw [read_from_last stops s (c.after before) running none, c.after_next]
  | case3 s c _ b rest bytes ends =>
      rw [read_from_cons stops s (c.after before) running b rest bytes, if_pos ends, c.after_next]
  | case4 s c _ b rest bytes inside e c' taken =>
      rw [read_from_cons stops s (c.after before) running b rest bytes, if_neg inside, c.after_next, step_after, taken,
        onward]
  | case5 s c _ b rest bytes inside s' c' taken ih =>
      have ahead := step_reaches s b c.next
      rw [taken] at ahead
      rw [read_from_cons stops s (c.after before) running b rest bytes, if_neg inside, c.after_next, step_after, taken,
        onward]
      exact ih ((Cursor.reaches_interrupted c c' (c.ahead_reaches c' ahead)).trans running)

theorem parse_after (stops : Stops) (c : Cursor) (running : c.interrupted = false) :
    parse stops (c.after before) =
      ((parse stops c).1.mapError (·.below (before.count Byte.newline + 1)), (parse stops c).2.after before) := by
  have started := c.ahead_started _ (read_from_ahead stops .empty c running)
  unfold parse
  rw [read_from_after before stops .empty c running]
  dsimp only
  rw [Cursor.after_place _ before started]
  cases (readFrom stops .empty c).1 <;> rfl

end Expression

namespace Statement

theorem closed_after (paren : Bool) (c : Cursor) :
    (paren = true ∧ (c.after before).current = some Byte.closeParen ∧ endOfLine (c.after before).peek = false) ↔
      (paren = true ∧ c.current = some Byte.closeParen ∧ endOfLine c.peek = false) := by
  rw [c.after_current before _ (by decide)]
  rfl

theorem read_arguments_after (paren : Bool) (c : Cursor) (running : c.interrupted = false) :
    readArguments paren (c.after before) =
      ((readArguments paren c).1.mapError (·.below (before.count Byte.newline + 1)),
        (readArguments paren c).2.after before) := by
  fun_induction readArguments paren c with
  | case1 c f c' parsed =>
      rw [read_arguments_eq, Expression.parse_after before _ c running, parsed]
      rfl
  | case2 c tree c' parsed comma result c'' later ih =>
      have reaches := c.ahead_reaches c' (Expression.parse_ahead _ c c' _ running parsed)
      have others := ih ((Cursor.reaches_interrupted c c' reaches).trans running)
      rw [later] at others
      rw [read_arguments_eq, Expression.parse_after before _ c running, parsed]
      rw [map_error_ok, afterArgument, if_pos ((c'.after_current before _ (by decide)).mpr comma), others]
      cases result <;> rfl
  | case3 c tree c' parsed noComma tooMuch =>
      rw [read_arguments_eq, Expression.parse_after before _ c running, parsed]
      rw [map_error_ok, afterArgument, if_neg (mt (c'.after_current before _ (by decide)).mp noComma), if_pos ((closed_after before paren c').mpr tooMuch)]
      rfl
  | case4 c tree c' parsed noComma enough =>
      rw [read_arguments_eq, Expression.parse_after before _ c running, parsed]
      rw [map_error_ok, afterArgument, if_neg (mt (c'.after_current before _ (by decide)).mp noComma), if_neg (mt (closed_after before paren c').mp enough)]
      rfl

theorem read_shape_after (shape : Shape) (c : Cursor) (running : c.interrupted = false) :
    readShape shape (c.after before) =
      ((readShape shape c).1.mapError (·.below (before.count Byte.newline + 1)), (readShape shape c).2.after before) := by
  have arguments (paren : Bool) := read_arguments_after before paren c running
  have same : (c.after before).peek = c.peek := rfl
  cases shape with
  | standalone =>
      rw [readShape, readShape, same]
      split <;> rfl
  | args | paren =>
      rw [readShape, readShape, same]
      split
      · rfl
      · exact arguments _

theorem read_one_after (b : UInt8) (c : Cursor) (running : c.interrupted = false) :
    readOne b (c.after before) =
      ((readOne b c).1.mapError (·.below (before.count Byte.newline + 1)), (readOne b c).2.after before) := by
  unfold readOne
  split
  · rename_i command _
    rw [c.after_next, read_shape_after before _ c.next (c.next_interrupted.trans running)]
    dsimp only
    cases (readShape command.shape c.next).1 <;> rfl
  · exact Expression.parse_after before _ c running

theorem read_all_after (stops : Stops) (c : Cursor) (running : c.interrupted = false) :
    readAll stops (c.after before) =
      ((readAll stops c).1.mapError (·.below (before.count Byte.newline + 1)), (readAll stops c).2.after before) := by
  fun_induction readAll stops c with
  | case1 c interrupted => rw [running] at interrupted; cases interrupted
  | case2 c _ none =>
      rw [read_all_last stops (c.after before) running none, c.after_next]
      rfl
  | case3 c _ b rest bytes ends ih =>
      rw [read_all_cons stops (c.after before) running b rest bytes, if_pos ends, c.after_next]
      exact ih (c.next_interrupted.trans running)
  | case4 c _ b rest bytes inLine stopped =>
      rw [read_all_cons stops (c.after before) running b rest bytes, if_neg inLine, if_pos stopped]
      rfl
  | case5 c _ b rest bytes inLine goes f c' read =>
      rw [read_all_cons stops (c.after before) running b rest bytes, if_neg inLine, if_neg goes,
        read_one_after before b c running, read]
      rfl
  | case6 c _ b rest bytes inLine goes tree c' read result c'' later ih =>
      have ahead := read_one_ahead b c running
      rw [read] at ahead
      have others := ih ((Cursor.reaches_interrupted c c' (c.ahead_reaches c' ahead)).trans running)
      rw [later] at others
      rw [read_all_cons stops (c.after before) running b rest bytes, if_neg inLine, if_neg goes,
        read_one_after before b c running, read, map_error_ok, onward, others]
      cases result <;> rfl

theorem parse_after (stops : Stops) (c : Cursor) (running : c.interrupted = false) :
    parse stops (c.after before) =
      ((parse stops c).1.mapError (·.below (before.count Byte.newline + 1)), (parse stops c).2.after before) := by
  unfold parse
  rw [read_all_after before stops c running]
  cases read : readAll stops c with
  | mk result d =>
      cases result with
      | ok p => rfl
      | error f =>
          have ahead := read_all_failed_ahead stops c running f (by rw [read])
          rw [read] at ahead
          dsimp only
          rw [d.after_place before (c.ahead_started d ahead), map_error_error, map_error_error, located_below]
          rfl

theorem parse_program_end (x : Bytes) (p : List Tree) (parsed : parseProgram x false = .ok p) :
    ∃ c, readAll ⟨false, false⟩ (.start x false) = (.ok p, c) ∧ c.ended = true ∧ c.interrupted = false ∧
      c.passed = x.reverse := by
  unfold parseProgram parse at parsed
  cases read : readAll ⟨false, false⟩ (.start x false) with
  | mk result c =>
      rw [read] at parsed
      cases result with
      | error f => cases parsed
      | ok q =>
          cases parsed
          have ended := read_all_ended _ c p read
          have reaches := read_all_reaches ⟨false, false⟩ (.start x false)
          rw [read] at reaches
          have bytes := Cursor.reaches_bytes _ c reaches
          have proper := Cursor.reaches_proper _ c reaches (Cursor.start_proper x false)
          rw [proper ended, List.append_nil] at bytes
          refine ⟨c, rfl, ended, Cursor.reaches_interrupted _ c reaches, ?_⟩
          rw [← List.reverse_reverse c.passed, bytes]
          rfl

theorem parse_program_lines (x y : Bytes) (p : List Tree) (whole : Whole x) (parsed : parseProgram x false = .ok p) :
    parseProgram (x ++ Byte.newline :: y) false =
      ((parseProgram y false).map (p ++ ·)).mapError (·.below (x.count Byte.newline + 1)) := by
  obtain ⟨c, read, ended, running, passed⟩ := parse_program_end x p parsed
  have continued := read_all_continued ⟨false, false⟩ (.start x false) c p y (Cursor.start_proper x false) whole read ended
  have others : c.continued y = (Cursor.start y false).after x.reverse := by
    rw [Cursor.continued, if_pos ended, passed, running]
    rfl
  have below := parse_after x.reverse ⟨false, false⟩ (.start y false) rfl
  rw [List.count_reverse] at below
  rw [others] at continued
  change (parse ⟨false, false⟩ ((Cursor.start x false).continued y)).1 = _
  have joined : (parse ⟨false, false⟩ ((Cursor.start x false).continued y)).1 =
      (parse ⟨false, false⟩ ((Cursor.start y false).after x.reverse)).1.map (p ++ ·) := by
    unfold parse
    rw [continued]
    dsimp only
    cases (readAll ⟨false, false⟩ ((Cursor.start y false).after x.reverse)).1 <;> rfl
  rw [joined, below, parseProgram]
  cases (parse ⟨false, false⟩ (.start y false)).1 <;> rfl

end Statement

theorem program_of_lines (a b : String) (p : List Tree) (first : programOf a false = .ok p) :
    programOf (a ++ "\n" ++ b) false =
      ((programOf b false).map (p ++ ·)).mapError (·.below (a.toList.count '\n' + 1)) := by
  unfold programOf at first ⊢
  rw [tokenize_lines]
  cases read : tokenize a with rw [read] at first
  | error f => cases first
  | ok x =>
      obtain ⟨whole, newlines⟩ := tokenize_from_ok .start a.toList x read
      cases tokenize b with
      | error f => rfl
      | ok y =>
          have parsed := Statement.parse_program_lines x y p whole first
          rw [newlines] at parsed
          exact parsed

theorem tokenize_from_placed (r : Reading) (cs : List Char) (f : Fault) (failed : tokenizeFrom r cs = .error f) :
    ∃ place, f.place = some place := by
  fun_induction tokenizeFrom r cs with
  | case1 => cases failed
  | case2 r => cases failed; exact ⟨r.place, rfl⟩
  | case3 r c cs bytes used found ih =>
      cases rest : tokenizeFrom (r.after c bytes used) (cs.drop used) with rw [rest] at failed
      | ok y => cases failed
      | error g =>
          cases failed
          exact ih rest

theorem parse_program_placed (bytes : Bytes) (interrupted : Bool) (f : Fault)
    (failed : Statement.parseProgram bytes interrupted = .error f) : ∃ place, f.place = some place := by
  unfold Statement.parseProgram Statement.parse at failed
  cases read : Statement.readAll ⟨false, false⟩ (.start bytes interrupted) with
  | mk result c =>
      rw [read] at failed
      cases result with
      | ok p => cases failed
      | error g =>
          cases failed
          obtain ⟨cause, found⟩ := g
          cases found with
          | none => exact ⟨c.place, rfl⟩
          | some place => exact ⟨place, rfl⟩

theorem program_of_placed (text : String) (interrupted : Bool) (f : Fault)
    (failed : programOf text interrupted = .error f) : ∃ place, f.place = some place := by
  unfold programOf at failed
  cases read : tokenize text with rw [read] at failed
  | error g =>
      cases failed
      exact tokenize_from_placed .start text.toList f read
  | ok bytes => exact parse_program_placed bytes interrupted f failed

theorem program_lines_independent (a b : String) (p : List Tree) (first : programOf a false = .ok p) :
    (∀ q, programOf b false = .ok q → programOf (a ++ "\n" ++ b) false = .ok (p ++ q)) ∧
      ∀ f, programOf b false = .error f → ∃ place, f.place = some place ∧
        programOf (a ++ "\n" ++ b) false =
          .error ⟨f.cause, some ⟨place.line + 1 + a.toList.count '\n', place.column⟩⟩ := by
  rw [program_of_lines a b p first]
  refine ⟨fun q second => ?_, fun f failed => ?_⟩
  · rw [second]
    rfl
  · obtain ⟨place, found⟩ := program_of_placed b false f failed
    have shifted : f.below (a.toList.count '\n' + 1) =
        ⟨f.cause, some ⟨place.line + 1 + a.toList.count '\n', place.column⟩⟩ := by
      rw [Fault.below, found, Nat.add_comm (a.toList.count '\n'), Option.map_some, Place.below, Nat.add_assoc]
    refine ⟨place, found, ?_⟩
    rw [failed, ← shifted]
    rfl

-- The first line leaves a string open, the second a parenthesis or closes one that is not there.
theorem open_string_line_independent :
    programOf "\"A" false = .ok [.text [0x41]] ∧ programOf "(B" false = .ok [.variable 1] ∧
      programOf ")" false = .error ⟨.unexpectedCloser .paren, some ⟨1, 1⟩⟩ ∧
      programOf ("\"A" ++ "\n" ++ "(B") false = .ok [.text [0x41], .variable 1] ∧
      programOf ("\"A" ++ "\n" ++ ")") false = .error ⟨.unexpectedCloser .paren, some ⟨2, 1⟩⟩ := by
  have reads : Reading.start.read? '"' ['A'] = some ([0x2A], 0) ∧
      (⟨true, some 0x2A, ⟨1, 2⟩⟩ : Reading).read? 'A' [] = some ([0x41], 0) ∧
      Reading.start.read? '(' ['B'] = some ([0x10], 0) ∧
      (⟨false, some 0x10, ⟨1, 2⟩⟩ : Reading).read? 'B' [] = some ([0x42], 0) ∧
      Reading.start.read? ')' [] = some ([0x11], 0) := by
    decide +kernel
  obtain ⟨quote, letter, opener, other, closer⟩ := reads
  have string : tokenize "\"A" = .ok [0x2A, 0x41] := by
    change tokenizeFrom .start ['"', 'A'] = _
    have inside : Reading.start.after '"' [0x2A] 0 = ⟨true, some 0x2A, ⟨1, 2⟩⟩ := by decide
    rw [tokenize_from_cons _ _ _ _ _ quote, inside, List.drop_zero, tokenize_from_cons _ _ _ _ _ letter, List.drop_nil,
      tokenizeFrom]
    rfl
  have group : tokenize "(B" = .ok [0x10, 0x42] := by
    change tokenizeFrom .start ['(', 'B'] = _
    have inside : Reading.start.after '(' [0x10] 0 = ⟨false, some 0x10, ⟨1, 2⟩⟩ := by decide
    rw [tokenize_from_cons _ _ _ _ _ opener, inside, List.drop_zero, tokenize_from_cons _ _ _ _ _ other, List.drop_nil,
      tokenizeFrom]
    rfl
  have stray : tokenize ")" = .ok [0x11] := by
    change tokenizeFrom .start [')'] = _
    rw [tokenize_from_cons _ _ _ _ _ closer, List.drop_nil, tokenizeFrom]
    rfl
  have first : programOf "\"A" false = .ok [.text [0x41]] := by
    unfold programOf
    rw [string]
    refine Statement.parse_program_single _ _ rfl _ ⟨[0x41, 0x2A], [], true, false⟩ ?_ rfl
    exact Expression.parse_of_read ⟨false, false⟩ _ _ _ (by cbv)
  have second : programOf "(B" false = .ok [.variable 1] := by
    unfold programOf
    rw [group]
    refine Statement.parse_program_single _ _ rfl _ ⟨[0x42, 0x10], [], true, false⟩ ?_ rfl
    exact Expression.parse_of_read ⟨false, false⟩ _ _ _ (by cbv)
  have failed : programOf ")" false = .error ⟨.unexpectedCloser .paren, some ⟨1, 1⟩⟩ := by
    have read : Expression.readFrom ⟨false, false⟩ .empty (.start [0x11] false) =
        (.error (.unexpectedCloser .paren), ⟨[0x11], [], false, false⟩) := by cbv
    have parsed : Statement.readOne 0x11 (.start [0x11] false) =
        (.error ⟨.unexpectedCloser .paren, some ⟨1, 1⟩⟩, ⟨[0x11], [], false, false⟩) := by
      change Expression.parse ⟨false, false⟩ (.start [0x11] false) = _
      unfold Expression.parse
      rw [read]
      rfl
    unfold programOf
    rw [stray]
    change (Statement.parse ⟨false, false⟩ (.start [0x11] false)).1 = _
    unfold Statement.parse
    rw [Statement.read_all_cons ⟨false, false⟩ _ rfl 0x11 [] rfl, if_neg (by decide), if_neg (by decide), parsed,
      Statement.onward]
    rfl
  obtain ⟨place, found, combined⟩ := (program_lines_independent _ _ _ first).2 _ failed
  cases found
  exact ⟨first, second, failed, (program_lines_independent _ _ _ first).1 _ second, combined⟩

end GraphCalc

import GraphCalc.Proofs.Lines

set_option autoImplicit false

namespace GraphCalc.Statement

theorem read_one_keyword (c : Cursor) (running : c.interrupted = false) (word : UInt8) (rest : Bytes)
    (more : c.rest = word :: rest) (keyword : word = Byte.endWord ∨ word = Byte.elseWord) :
    readOne word c = (.error ⟨.notImplemented, some c.next.place⟩, c.next) := by
  have item : Item.read word c.next.rest = (.error .notImplemented, 0) := by
    rcases keyword with rfl | rfl <;> rfl
  have inLine : (Byte.endsLine word || (⟨false, false⟩ : Expression.Stops).endAt .empty word) = false := by
    rcases keyword with rfl | rfl <;> rfl
  have expression : readOne word c = Expression.parse ⟨false, false⟩ c := by
    rcases keyword with rfl | rfl <;> rfl
  have step : Expression.step .empty word c.next = (.error .notImplemented, c.next) := by
    rw [Expression.step, item]
    rfl
  rw [expression, Expression.parse, Expression.read_from_cons _ .empty c running word rest more, inLine, step]
  rfl

theorem end_at_keyword (stops : Stops) (b : UInt8) (stopped : stops.endAt b = true) :
    b = Byte.endWord ∨ b = Byte.elseWord := by
  simp only [Stops.endAt, Bool.or_eq_true, Bool.and_eq_true, beq_iff_eq] at stopped
  exact stopped.imp And.right And.right

theorem read_all_stops (stops : Stops) (c c' : Cursor) (p : List Tree) (read : readAll ⟨false, false⟩ c = (.ok p, c')) :
    readAll stops c = (.ok p, c') := by
  fun_induction readAll ⟨false, false⟩ c generalizing p c' with
  | case1 => cases read
  | case2 c flag none =>
      cases read
      exact read_all_last stops c (by simpa using flag) none
  | case3 c flag b rest more ends ih =>
      rw [read_all_cons stops c (by simpa using flag) b rest more, if_pos ends]
      exact ih c' p read
  | case4 c flag b rest more _ stopped => cases stopped
  | case5 => cases read
  | case6 c flag b rest more inLine _ tree c₁ first result c₂ later ih =>
      cases result with
      | error f => cases read
      | ok q =>
          cases read
          have running : c.interrupted = false := by simpa using flag
          have goes : ¬ stops.endAt b = true := by
            intro stopped
            rw [read_one_keyword c running b rest more (end_at_keyword stops b stopped)] at first
            cases first
          rw [read_all_cons stops c running b rest more, if_neg inLine, if_neg goes, first, onward, ih c₂ q later]
          rfl

theorem parse_block (stops : Stops) (x more : Bytes) (p : List Tree) (whole : Whole x)
    (parsed : parseProgram x false = .ok p) :
    readAll stops (.start (x ++ Byte.newline :: more) false) =
      ((readAll stops ⟨(x ++ [Byte.newline]).reverse, more, false, false⟩).1.map (p ++ ·),
        (readAll stops ⟨(x ++ [Byte.newline]).reverse, more, false, false⟩).2) := by
  obtain ⟨c, read, ended, running, passed⟩ := parse_program_end x p parsed
  have continued := read_all_continued stops (.start x false) c p more (Cursor.start_proper x false) whole
    (read_all_stops stops _ c p read) ended
  have after : c.continued more = ⟨(x ++ [Byte.newline]).reverse, more, false, false⟩ := by
    rw [Cursor.continued, if_pos ended, passed, running, List.reverse_append]
    rfl
  rw [after] at continued
  exact continued

theorem parse_to_keyword (stops : Stops) (x more : Bytes) (p : List Tree) (word : UInt8) (whole : Whole x)
    (parsed : parseProgram x false = .ok p) (stopped : stops.endAt word = true) :
    parse stops (.start (x ++ Byte.newline :: word :: more) false) =
      (.ok p, ⟨(x ++ [Byte.newline]).reverse, word :: more, false, false⟩) := by
  have inLine : Byte.endsLine word = false := by
    rcases end_at_keyword stops word stopped with rfl | rfl <;> rfl
  rw [parse, parse_block stops x (word :: more) p whole parsed, read_all_cons stops _ rfl word more rfl,
    if_neg (by simp [inLine]), if_pos stopped]
  simp [Except.map, map_error_ok]

theorem parse_past_keyword (stops : Stops) (x more : Bytes) (p : List Tree) (word : UInt8) (whole : Whole x)
    (parsed : parseProgram x false = .ok p) (keyword : word = Byte.endWord ∨ word = Byte.elseWord)
    (goes : stops.endAt word = false) :
    (parse stops (.start (x ++ Byte.newline :: word :: more) false)).1 =
      .error ⟨.notImplemented, some ⟨x.count Byte.newline + 2, 1⟩⟩ := by
  have inLine : Byte.endsLine word = false := by
    rcases keyword with rfl | rfl <;> rfl
  have place : (⟨(x ++ [Byte.newline]).reverse, word :: more, false, false⟩ : Cursor).next.place =
      ⟨x.count Byte.newline + 2, 1⟩ := by
    simp [Cursor.next, Cursor.place]
  rw [parse, parse_block stops x (word :: more) p whole parsed, read_all_cons stops _ rfl word more rfl,
    if_neg (by simp [inLine]), if_neg (by simp [goes]), read_one_keyword _ rfl word more rfl keyword, onward, place]
  rfl

theorem block_ends_at_keyword (a : String) (x : Bytes) (p : List Tree) (read : tokenize a = .ok x)
    (parsed : parseProgram x false = .ok p) (b : Bytes) (other : Bool) :
    (parse ⟨true, other⟩ (.start (x ++ Byte.newline :: Byte.endWord :: b) false) =
        (.ok p, ⟨(x ++ [Byte.newline]).reverse, Byte.endWord :: b, false, false⟩)) ∧
      (parse ⟨other, true⟩ (.start (x ++ Byte.newline :: Byte.elseWord :: b) false) =
        (.ok p, ⟨(x ++ [Byte.newline]).reverse, Byte.elseWord :: b, false, false⟩)) ∧
      ((parse ⟨false, other⟩ (.start (x ++ Byte.newline :: Byte.endWord :: b) false)).1 =
        .error ⟨.notImplemented, some ⟨x.count Byte.newline + 2, 1⟩⟩) ∧
      (parse ⟨other, false⟩ (.start (x ++ Byte.newline :: Byte.elseWord :: b) false)).1 =
        .error ⟨.notImplemented, some ⟨x.count Byte.newline + 2, 1⟩⟩ := by
  have whole := (tokenize_from_ok .start a.toList x read).1
  refine ⟨?_, ?_, ?_, ?_⟩
  · exact parse_to_keyword ⟨true, other⟩ x b p Byte.endWord whole parsed rfl
  · exact parse_to_keyword ⟨other, true⟩ x b p Byte.elseWord whole parsed (by cases other <;> rfl)
  · exact parse_past_keyword ⟨false, other⟩ x b p Byte.endWord whole parsed (Or.inl rfl) (by cases other <;> rfl)
  · exact parse_past_keyword ⟨other, false⟩ x b p Byte.elseWord whole parsed (Or.inr rfl) (by cases other <;> rfl)

-- The block leaves a string open, and half a token follows the keyword.
theorem open_string_block_ends :
    tokenize "\"A" = .ok [0x2A, 0x41] ∧ parseProgram [0x2A, 0x41] false = .ok [.text [0x41]] ∧
      parse ⟨true, false⟩ (.start [0x2A, 0x41, 0x3F, 0xD4, 0x5D] false) =
        (.ok [.text [0x41]], ⟨[0x3F, 0x41, 0x2A], [0xD4, 0x5D], false, false⟩) ∧
      (parse ⟨false, false⟩ (.start [0x2A, 0x41, 0x3F, 0xD4, 0x5D] false)).1 =
        .error ⟨.notImplemented, some ⟨2, 1⟩⟩ := by
  have reads : Reading.start.read? '"' ['A'] = some ([0x2A], 0) ∧
      (⟨true, some 0x2A, ⟨1, 2⟩⟩ : Reading).read? 'A' [] = some ([0x41], 0) := by
    decide +kernel
  have read : tokenize "\"A" = .ok [0x2A, 0x41] := by
    change tokenizeFrom .start ['"', 'A'] = _
    rw [tokenize_from_cons _ _ _ _ _ reads.1]
    change (tokenizeFrom ⟨true, some 0x2A, ⟨1, 2⟩⟩ ['A']).map _ = _
    rw [tokenize_from_cons _ _ _ _ _ reads.2, List.drop_nil, tokenizeFrom]
    rfl
  have parsed : parseProgram [0x2A, 0x41] false = .ok [.text [0x41]] := by
    refine parse_program_single _ _ rfl _ ⟨[0x41, 0x2A], [], true, false⟩ ?_ rfl
    exact Expression.parse_of_read ⟨false, false⟩ _ _ _ (by cbv)
  obtain ⟨ends, _, fails, _⟩ := block_ends_at_keyword _ _ _ read parsed [0x5D] false
  exact ⟨read, parsed, ends, fails⟩

end GraphCalc.Statement

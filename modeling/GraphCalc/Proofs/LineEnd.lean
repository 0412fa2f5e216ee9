import GraphCalc.Proofs.Boundaries
import GraphCalc.Proofs.Moves
import GraphCalc.Proofs.Tokenize
import GraphCalc.Proofs.WellFormed

set_option autoImplicit false

namespace GraphCalc

theorem newline_bounded (more : Bytes) : Bounded (Byte.newline :: more) := by
  rintro b ⟨⟩
  rfl

namespace Item

theorem text_bytes_newline (more : Bytes) : textBytes (Byte.newline :: more) = ([], false, 0) := by
  cases more <;> rfl

-- A string takes two bytes at a time where the first is half a token: only a whole rest keeps the newline.
theorem text_bytes_of_line (rest more : Bytes) (whole : Whole rest) :
    textBytes (rest ++ Byte.newline :: more) = textBytes rest := by
  fun_induction textBytes rest with
  | case1 => exact text_bytes_newline more
  | case2 => rfl
  | case3 b notQuote ends => rw [List.singleton_append, textBytes, if_neg notQuote, if_pos ends]
  | case4 b notQuote inside =>
      have alone : Byte.isTwoByte b = false := whole b rfl
      rw [List.singleton_append, textBytes, if_neg notQuote, if_neg inside, if_neg (by simp [alone]), text_bytes_newline]
  | case5 => rfl
  | case6 b second rest notQuote ends => rw [List.cons_append, List.cons_append, textBytes, if_neg notQuote, if_pos ends]
  | case7 b second rest notQuote inside pair bytes closed used found ih =>
      rw [List.cons_append, List.cons_append, textBytes, if_neg notQuote, if_neg inside, if_pos pair,
        ih (whole_suffix rest _ ⟨[b, second], rfl⟩ whole), found]
  | case8 b second rest notQuote inside alone bytes closed used found ih =>
      have later := ih (whole_suffix (second :: rest) _ ⟨[b], rfl⟩ whole)
      rw [List.cons_append] at later
      rw [List.cons_append, List.cons_append, textBytes, if_neg notQuote, if_neg inside, if_neg alone, later, found]

theorem indexed_special (b : UInt8) : (Token.special? b).any indexed = true → Byte.isTwoByte b = true :=
  every_byte (fun b => (Token.special? b).any indexed = true → Byte.isTwoByte b = true) (by decide +kernel) b

theorem indexed_two_byte (b : UInt8) (isIndexed : indexed (Token.ofByte b) = true) : Byte.isTwoByte b = true := by
  apply indexed_special
  unfold Token.ofByte at isIndexed
  split at isIndexed
  · rename_i token special
    rw [special]
    exact isIndexed
  · split at isIndexed <;> cases isIndexed

theorem whole_index (b : UInt8) (rest : Bytes) (whole : Whole (b :: rest)) (isIndexed : indexed (Token.ofByte b) = true) :
    rest ≠ [] := by
  rintro rfl
  have alone := whole b rfl
  rw [indexed_two_byte b isIndexed] at alone
  cases alone

theorem read_of_line (b : UInt8) (rest more : Bytes) (whole : Whole (b :: rest)) :
    read b (rest ++ Byte.newline :: more) = read b rest := by
  refine read_bounded b rest _ (newline_bounded more) (whole_index b rest whole) fun _ => ?_
  exact text_bytes_of_line rest more (whole_suffix rest _ ⟨[b], rfl⟩ whole)

end Item

namespace Cursor

-- The cursor over its bytes, a newline and more. Where it has read the end, it has read the newline.
def continued (c : Cursor) (more : Bytes) : Cursor :=
  if c.ended then ⟨Byte.newline :: c.passed, more, false, c.interrupted⟩
  else ⟨c.passed, c.rest ++ Byte.newline :: more, false, c.interrupted⟩

variable (c : Cursor) (more : Bytes)

theorem continued_interrupted : (c.continued more).interrupted = c.interrupted := by
  unfold continued
  split <;> rfl

theorem continued_place : (c.continued more).place = c.place := by
  unfold continued
  by_cases ended : c.ended = true
  · simp [ended, place]
  · simp [ended, place]

theorem continued_current (b : UInt8) (other : b ≠ Byte.newline) :
    (c.continued more).current = some b ↔ c.current = some b := by
  unfold continued
  by_cases ended : c.ended = true
  · simp [ended, current, Ne.symm other]
  · simp [ended, current]

variable (going : c.ended = false)

include going

theorem continued_going : c.continued more = ⟨c.passed, c.rest ++ Byte.newline :: more, false, c.interrupted⟩ := by
  rw [continued, if_neg (by simp [going])]

theorem continued_rest : (c.continued more).rest = c.rest ++ Byte.newline :: more := by
  rw [c.continued_going more going]

theorem continued_cons (b : UInt8) (rest : Bytes) (bytes : c.rest = b :: rest) :
    (c.continued more).rest = b :: (rest ++ Byte.newline :: more) := by
  rw [c.continued_rest more going, bytes, List.cons_append]

theorem continued_end_of_line : endOfLine (c.continued more).peek = endOfLine c.peek := by
  rw [peek, c.continued_rest more going, peek]
  cases c.rest <;> rfl

theorem continued_next : (c.continued more).next = c.next.continued more := by
  rw [c.continued_going more going]
  unfold next
  cases c.rest with
  | nil => rfl
  | cons b rest => simp [continued, going]

theorem continued_advance (n : Nat) (within : n ≤ c.rest.length) :
    (c.continued more).advance n = (c.advance n).continued more := by
  induction n generalizing c with
  | zero => rfl
  | succ n ih =>
      have first : c.next.ended = false := c.advance_going going 1 (Nat.le_trans (by simp) within)
      rw [advance, c.continued_next more going, ih c.next first, advance]
      rw [next_rest, List.length_tail]
      omega

end Cursor

namespace Expression

theorem step_going (s : Stacks) (b : UInt8) (c : Cursor) (going : c.ended = false) (whole : Whole (b :: c.rest)) :
    (step s b c).2.ended = false := by
  rcases step_cursor s b c with stays | moves
  · rw [stays]
    exact going
  · rw [moves]
    exact c.advance_going going _ (Item.read_within b c.rest (Item.whole_index b c.rest whole))

theorem step_continued (s : Stacks) (b : UInt8) (c : Cursor) (more : Bytes) (going : c.ended = false)
    (whole : Whole (b :: c.rest)) :
    step s b (c.continued more) = ((step s b c).1, (step s b c).2.continued more) := by
  have moved := c.continued_advance more going _ (Item.read_within b c.rest (Item.whole_index b c.rest whole))
  unfold step
  rw [c.continued_rest more going, Item.read_of_line b c.rest more whole]
  cases read : Item.read b c.rest with
  | mk result used =>
      rw [read] at moved
      cases result with
      | error e => simp only [moved]
      | ok item =>
          dsimp only
          cases s.accept item with
          | ok s' => simp only [moved]
          | error e =>
              dsimp only at moved ⊢
              split
              · rfl
              · rw [moved]

theorem step_next_continued (s : Stacks) (c : Cursor) (more : Bytes) (going : c.ended = false) (whole : Whole c.rest)
    (b : UInt8) (rest : Bytes) (bytes : c.rest = b :: rest) :
    (step s b c.next).2.ended = false ∧
      step s b (c.continued more).next = ((step s b c.next).1, (step s b c.next).2.continued more) := by
  have first : c.next.ended = false := by simp [Cursor.next, bytes, going]
  have tokens : Whole (b :: c.next.rest) := by rwa [Cursor.next_rest, bytes, List.tail_cons, ← bytes]
  rw [c.continued_next more going]
  exact ⟨step_going s b c.next first tokens, step_continued s b c.next more first tokens⟩

theorem read_from_continued (stops : Stops) (s : Stacks) (c : Cursor) (more : Bytes) (running : c.interrupted = false)
    (going : c.ended = false) (whole : Whole c.rest) :
    readFrom stops s (c.continued more) = ((readFrom stops s c).1, (readFrom stops s c).2.continued more) := by
  have continues := (c.continued_interrupted more).trans running
  fun_induction readFrom stops s c with
  | case1 s c interrupted => rw [running] at interrupted; cases interrupted
  | case2 s c _ none =>
      have newline : (c.continued more).rest = Byte.newline :: more := by
        rw [c.continued_rest more going, none, List.nil_append]
      have ends : (Byte.endsLine Byte.newline || stops.endAt s Byte.newline) = true := rfl
      rw [read_from_cons stops s _ continues _ _ newline, if_pos ends, c.continued_next more going]
  | case3 s c _ b rest bytes ends =>
      rw [read_from_cons stops s _ continues _ _ (c.continued_cons more going b rest bytes), if_pos ends,
        c.continued_next more going]
  | case4 s c _ b rest bytes inside e c' taken =>
      rw [read_from_cons stops s _ continues _ _ (c.continued_cons more going b rest bytes), if_neg inside,
        (step_next_continued s c more going whole b rest bytes).2, taken, onward]
  | case5 s c _ b rest bytes inside s' c' taken ih =>
      obtain ⟨going', stepped⟩ := step_next_continued s c more going whole b rest bytes
      have ahead := step_reaches s b c.next
      rw [taken] at going' ahead
      have reaches := c.ahead_reaches c' ahead
      have running' := (Cursor.reaches_interrupted c c' reaches).trans running
      rw [read_from_cons stops s _ continues _ _ (c.continued_cons more going b rest bytes), if_neg inside, stepped, taken,
        onward]
      exact ih running' going' (whole_suffix _ _ (Cursor.reaches_suffix c c' reaches) whole)
        ((c'.continued_interrupted more).trans running')

theorem parse_continued (stops : Stops) (c : Cursor) (more : Bytes) (running : c.interrupted = false)
    (going : c.ended = false) (whole : Whole c.rest) :
    parse stops (c.continued more) = ((parse stops c).1, (parse stops c).2.continued more) := by
  unfold parse
  rw [read_from_continued stops .empty c more running going whole]
  simp only [Cursor.continued_place]

end Expression

namespace Statement

theorem closed_continued (paren : Bool) (c : Cursor) (more : Bytes) :
    (paren = true ∧ (c.continued more).current = some Byte.closeParen ∧ endOfLine (c.continued more).peek = false) ↔
      (paren = true ∧ c.current = some Byte.closeParen ∧ endOfLine c.peek = false) := by
  refine and_congr_right fun _ => ?_
  rw [c.continued_current more _ (by decide)]
  refine and_congr_right fun closed => ?_
  rw [c.continued_end_of_line more (c.current_going _ closed)]

theorem read_arguments_continued (paren : Bool) (c : Cursor) (more : Bytes) (running : c.interrupted = false)
    (going : c.ended = false) (whole : Whole c.rest) :
    readArguments paren (c.continued more) =
      ((readArguments paren c).1, (readArguments paren c).2.continued more) := by
  fun_induction readArguments paren c with
  | case1 c f c' parsed =>
      rw [read_arguments_eq, Expression.parse_continued _ c more running going whole, parsed, afterArgument]
  | case2 c tree c' parsed comma result c'' later ih =>
      have reaches := c.ahead_reaches c' (Expression.parse_ahead _ c c' _ running parsed)
      have running' := (Cursor.reaches_interrupted c c' reaches).trans running
      have whole' := whole_suffix _ _ (Cursor.reaches_suffix c c' reaches) whole
      rw [read_arguments_eq, Expression.parse_continued _ c more running going whole, parsed, afterArgument,
        if_pos ((c'.continued_current more _ (by decide)).mpr comma), ih running' (c'.current_going _ comma) whole', later]
  | case3 c tree c' parsed noComma tooMuch =>
      rw [read_arguments_eq, Expression.parse_continued _ c more running going whole, parsed, afterArgument,
        if_neg (mt (c'.continued_current more _ (by decide)).mp noComma), if_pos ((closed_continued paren c' more).mpr tooMuch)]
  | case4 c tree c' parsed noComma enough =>
      rw [read_arguments_eq, Expression.parse_continued _ c more running going whole, parsed, afterArgument,
        if_neg (mt (c'.continued_current more _ (by decide)).mp noComma), if_neg (mt (closed_continued paren c' more).mp enough)]

theorem read_shape_continued (shape : Shape) (c : Cursor) (more : Bytes) (running : c.interrupted = false)
    (going : c.ended = false) (whole : Whole c.rest) :
    readShape shape (c.continued more) = ((readShape shape c).1, (readShape shape c).2.continued more) := by
  have arguments (paren : Bool) := read_arguments_continued paren c more running going whole
  cases shape with
  | standalone =>
      rw [readShape, readShape, c.continued_end_of_line more going]
      split <;> rfl
  | args | paren =>
      rw [readShape, readShape, c.continued_end_of_line more going]
      split
      · rfl
      · exact arguments _

theorem read_one_continued (c : Cursor) (more : Bytes) (running : c.interrupted = false) (going : c.ended = false)
    (whole : Whole c.rest) (b : UInt8) (rest : Bytes) (bytes : c.rest = b :: rest) :
    readOne b (c.continued more) = ((readOne b c).1, (readOne b c).2.continued more) := by
  unfold readOne
  split
  · have first : c.next.ended = false := by simp [Cursor.next, bytes, going]
    have tokens : Whole c.next.rest := whole_suffix _ _ (Cursor.reaches_suffix c c.next ⟨1, rfl⟩) whole
    rw [c.continued_next more going,
      read_shape_continued _ c.next more (c.next_interrupted.trans running) first tokens]
  · exact Expression.parse_continued _ c more running going whole

theorem read_all_continued (stops : Stops) (c c' : Cursor) (p : List Tree) (more : Bytes) (proper : c.Proper)
    (whole : Whole c.rest) (read : readAll stops c = (.ok p, c')) (ended : c'.ended = true) :
    readAll stops (c.continued more) =
      ((readAll stops (c'.continued more)).1.map (p ++ ·), (readAll stops (c'.continued more)).2) := by
  fun_induction readAll stops c generalizing p c' with
  | case1 => cases read
  | case2 c flag none =>
      cases read
      have continues : (c.continued more).interrupted = false := (c.continued_interrupted more).trans (by simpa using flag)
      have same : readAll stops (c.continued more) = readAll stops (c.next.continued more) := by
        by_cases past : c.ended = true
        · rw [c.next_past none past]
        · have going : c.ended = false := by simpa using past
          have newline : (c.continued more).rest = Byte.newline :: more := by
            rw [c.continued_rest more going, none, List.nil_append]
          rw [read_all_cons stops _ continues _ _ newline, if_pos (by decide), c.continued_next more going]
      rw [same]
      cases readAll stops (c.next.continued more) with
      | mk result d => cases result <;> rfl
  | case3 c flag b rest bytes ends ih =>
      have going := c.proper_going proper b rest bytes
      have continues : (c.continued more).interrupted = false := (c.continued_interrupted more).trans (by simpa using flag)
      rw [read_all_cons stops _ continues _ _ (c.continued_cons more going b rest bytes), if_pos ends,
        c.continued_next more going]
      exact ih c' p (c.next_proper proper) (whole_suffix _ _ (Cursor.reaches_suffix c c.next ⟨1, rfl⟩) whole) read ended
  | case4 c flag b rest bytes _ _ =>
      cases read
      rw [proper ended] at bytes
      cases bytes
  | case5 => cases read
  | case6 c flag b rest bytes inLine goes tree c₁ first result c₂ later ih =>
      cases result with
      | error f => cases read
      | ok q =>
          cases read
          have going := c.proper_going proper b rest bytes
          have running : c.interrupted = false := by simpa using flag
          have reaches : c.Reaches c₁ := by
            have ahead := read_one_ahead b c running
            rw [first] at ahead
            exact c.ahead_reaches c₁ ahead
          have others := ih c₂ q (Cursor.reaches_proper c c₁ reaches proper)
            (whole_suffix _ _ (Cursor.reaches_suffix c c₁ reaches) whole) later ended
          rw [read_all_cons stops _ ((c.continued_interrupted more).trans running) _ _
            (c.continued_cons more going b rest bytes), if_neg inLine, if_neg goes,
            read_one_continued c more running going whole b rest bytes, first, onward, others]
          cases (readAll stops (c₂.continued more)).1 <;> rfl

theorem read_all_ended (c c' : Cursor) (p : List Tree) (read : readAll ⟨false, false⟩ c = (.ok p, c')) :
    c'.ended = true := by
  fun_induction readAll ⟨false, false⟩ c generalizing p c' with
  | case1 => cases read
  | case2 c _ none =>
      cases read
      unfold Cursor.next
      rw [none]
  | case3 c _ b rest bytes ends ih => exact ih c' p read
  | case4 c _ b rest bytes _ stopped => cases stopped
  | case5 => cases read
  | case6 c _ b rest bytes _ _ tree c₁ first result c₂ later ih =>
      cases result with
      | error f => cases read
      | ok q =>
          cases read
          exact ih c₂ q later

end Statement

end GraphCalc

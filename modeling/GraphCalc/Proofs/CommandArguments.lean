import GraphCalc.Proofs.Spelling

set_option autoImplicit false

namespace GraphCalc

theorem Token.of_command_byte (command : Command) : Token.ofByte command.byte = .command command := by
  cases command <;> decide +kernel

namespace Cursor

variable (c : Cursor)

theorem next_end (last : c.rest = []) : c.next.current = none ∧ c.next.rest = [] := by
  simp [next, current, last]

theorem next_byte (going : c.ended = false) (b : UInt8) (rest : Bytes) (bytes : c.rest = b :: rest) :
    c.next.current = some b ∧ c.next.rest = rest ∧ c.next.ended = false := by
  simp [next, current, bytes, going]

end Cursor

theorem Expression.spans_starts (bytes : Bytes) (tree : Tree) (spans : Spans bytes tree) :
    ∃ b rest, bytes = b :: rest ∧ Byte.endsLine b = false := by
  obtain ⟨all, s, spelled, _⟩ := spans_run bytes tree spans
  cases spelled with
  | nothing =>
      obtain ⟨c, parsed, _⟩ := spans
      obtain ⟨f, failed⟩ := parse_failure lineOnly (.start [] false) (Or.inr rfl)
      rw [parsed] at failed
      cases failed
  | next b rest item used more inLine => exact ⟨b, rest, rfl, inLine⟩

namespace Statement

-- An expression that leaves neither a bracket nor a string open.
structure Argument where
  bytes : Bytes
  tree : Tree
  all : List Item
  spans : Expression.Spans bytes tree
  cut : Expression.items bytes = .ok all
  balanced : unclosed [] all = some []
  closed : TextClosed all

inductive Ends (paren : Bool) : Bytes → Prop where
  | last : Ends paren []
  | comma (rest : Bytes) : Ends paren (Byte.comma :: rest)
  | paren (rest : Bytes) (allowed : paren = true) : Ends paren (Byte.closeParen :: rest)

theorem ends_bounded (paren : Bool) (tail : Bytes) (ends : Ends paren tail) : Bounded tail := by
  cases ends with
  | last => exact nofun
  | comma rest => rintro b ⟨⟩; rfl
  | paren rest => rintro b ⟨⟩; rfl

theorem read_from_ends (paren : Bool) (s : Stacks) (c : Cursor) (running : c.interrupted = false) (outside : s.nested = 0)
    (ends : Ends paren c.rest) : Expression.readFrom ⟨true, paren⟩ s c = (s.finish, c.next) := by
  cases rest : c.rest with
  | nil => exact Expression.read_from_last _ s c running rest
  | cons b more =>
      have stopped : (Expression.Stops.mk true paren).endAt s b = true := by
        rw [rest] at ends
        cases ends with
        | comma => simp [Expression.Stops.endAt, outside]
        | paren _ allowed => simp [Expression.Stops.endAt, outside, allowed]
      rw [Expression.read_from_cons _ s c running b more rest, stopped, Bool.or_true, if_pos rfl]

theorem parse_argument (x : Argument) (paren : Bool) (c : Cursor) (tail : Bytes) (running : c.interrupted = false)
    (follows : c.rest = x.bytes ++ tail) (ends : Ends paren tail) :
    Expression.parse ⟨true, paren⟩ c = (.ok x.tree, (c.advance x.bytes.length).next) := by
  obtain ⟨all, s, spelled, ran, counted, finished⟩ := Expression.spans_run x.bytes x.tree x.spans
  cases (Expression.spells_items x.bytes all spelled).symm.trans x.cut
  have none : some (Stacks.openGroups s.pending) = some [] :=
    (Stacks.run_unclosed .empty s x.all ran).symm.trans x.balanced
  have outside : s.nested = 0 := by rw [counted, Option.some.inj none]; rfl
  have later : (c.advance x.bytes.length).rest = tail := by rw [Cursor.advance_rest, follows, List.drop_left]
  apply Expression.parse_of_read
  rw [Expression.read_from_spelled _ x.bytes tail x.all .empty s c spelled x.closed (ends_bounded paren tail ends) running
      follows rfl ran (Stacks.finishes_not_stray _ _ x.tree finished),
    read_from_ends paren s _ ((c.advance_interrupted _).trans running) outside (by rw [later]; exact ends),
    Stacks.finishes_finish s x.tree counted finished]

def joined (args : List Argument) : Bytes := List.intercalate [Byte.comma] (args.map Argument.bytes)

theorem joined_one (x : Argument) : joined [x] = x.bytes := List.intercalate_singleton

theorem joined_more (x y : Argument) (more : List Argument) :
    joined (x :: y :: more) = x.bytes ++ Byte.comma :: joined (y :: more) := by
  unfold joined
  rw [List.map_cons, List.map_cons, List.intercalate_cons_cons, List.append_assoc]
  rfl

theorem joined_starts (x : Argument) (more : List Argument) : ∃ tail, joined (x :: more) = x.bytes ++ tail := by
  cases more with
  | nil => exact ⟨[], by rw [joined_one, List.append_nil]⟩
  | cons y more => exact ⟨_, joined_more x y more⟩

-- The arguments are closed by a parenthesis, if there may be one, or by nothing.
inductive Closing (paren : Bool) : Bytes → Prop where
  | none : Closing paren []
  | paren (allowed : paren = true) : Closing paren [Byte.closeParen]

theorem closing_ends (paren : Bool) (closing : Bytes) (closes : Closing paren closing) : Ends paren closing := by
  cases closes with
  | none => exact .last
  | paren allowed => exact .paren [] allowed

-- Nothing follows the parenthesis that closes the arguments, so the last argument stands.
theorem after_last_argument (paren : Bool) (tree : Tree) (closing : Bytes) (c : Cursor) (going : c.ended = false)
    (follows : c.rest = closing) (closes : Closing paren closing) :
    afterArgument paren (.ok tree, c.next) = (.ok [tree], c.next) ∧ c.next.rest = [] := by
  rw [afterArgument]
  cases closes with
  | none =>
      obtain ⟨past, rest⟩ := c.next_end follows
      rw [past, if_neg (by simp), if_neg (by simp)]
      exact ⟨rfl, rest⟩
  | paren allowed =>
      obtain ⟨last, rest, _⟩ := c.next_byte going _ _ follows
      rw [last, if_neg (by decide), Cursor.peek, rest, if_neg (by simp [endOfLine])]
      exact ⟨rfl, rfl⟩

theorem read_arguments_joined (paren : Bool) (x : Argument) (more : List Argument) (closing : Bytes) (c : Cursor)
    (running : c.interrupted = false) (going : c.ended = false) (follows : c.rest = joined (x :: more) ++ closing)
    (closes : Closing paren closing) :
    ∃ c', readArguments paren c = (.ok ((x :: more).map Argument.tree), c') ∧ c'.rest = [] := by
  induction more generalizing x c with
  | nil =>
      rw [joined_one] at follows
      have after : (c.advance x.bytes.length).rest = closing := by rw [Cursor.advance_rest, follows, List.drop_left]
      have inside := c.advance_going going x.bytes.length (by rw [follows, List.length_append]; omega)
      obtain ⟨taken, last⟩ := after_last_argument paren x.tree closing _ inside after closes
      refine ⟨_, ?_, last⟩
      rw [read_arguments_eq, parse_argument x paren c closing running follows (closing_ends paren closing closes), taken]
      rfl
  | cons y more ih =>
      rw [joined_more, List.append_assoc, List.cons_append] at follows
      have after : (c.advance x.bytes.length).rest = Byte.comma :: (joined (y :: more) ++ closing) := by
        rw [Cursor.advance_rest, follows, List.drop_left]
      have inside := c.advance_going going x.bytes.length (by rw [follows, List.length_append]; omega)
      obtain ⟨comma, rest, onward⟩ := Cursor.next_byte _ inside _ _ after
      have still : (c.advance x.bytes.length).next.interrupted = false := by
        rw [Cursor.next_interrupted, Cursor.advance_interrupted, running]
      obtain ⟨c', read, last⟩ := ih y _ still onward rest
      refine ⟨c', ?_, last⟩
      rw [read_arguments_eq, parse_argument x paren c _ running follows (.comma _), afterArgument, if_pos comma, read]
      rfl

theorem read_shape_arguments (shape : Shape) (takes : shape ≠ .standalone) (c : Cursor)
    (follows : endOfLine c.peek = false) : readShape shape c = readArguments (shape == .paren) c := by
  cases shape with
  | standalone => exact absurd rfl takes
  | args | paren => rw [readShape, if_neg (by simp [follows])]

theorem command_parsed (command : Command) (x : Argument) (more : List Argument) (closing : Bytes)
    (takes : command.shape ≠ .standalone) (closes : Closing (command.shape == .paren) closing) :
    parseProgram (command.byte :: (joined (x :: more) ++ closing)) false =
      .ok [.command command ((x :: more).map Argument.tree)] := by
  have token := Token.of_command_byte command
  obtain ⟨b, rest, first, inLine⟩ := Expression.spans_starts x.bytes x.tree x.spans
  obtain ⟨tail, starts⟩ := joined_starts x more
  obtain ⟨c, read, last⟩ := read_arguments_joined (command.shape == .paren) x more closing
    (Cursor.start (command.byte :: (joined (x :: more) ++ closing)) false).next rfl rfl rfl closes
  have follows : endOfLine (Cursor.start (command.byte :: (joined (x :: more) ++ closing)) false).next.peek = false := by
    rw [Cursor.peek, Cursor.next_rest, Cursor.start, List.tail_cons, starts, first]
    simp [endOfLine, inLine]
  refine parse_program_single command.byte _ (in_line _ (by simp [token]) (by simp [token])) _ c ?_ last
  unfold readOne
  rw [token]
  dsimp only
  rw [read_shape_arguments command.shape takes _ follows, read]
  rfl

theorem command_takes_arguments (command : Command) (x : Argument) (more : List Argument) :
    (command.shape ≠ .standalone →
        parseProgram (command.byte :: joined (x :: more)) false =
          .ok [.command command ((x :: more).map Argument.tree)]) ∧
      (command.shape = .paren →
        parseProgram (command.byte :: (joined (x :: more) ++ [Byte.closeParen])) false =
          .ok [.command command ((x :: more).map Argument.tree)]) := by
  constructor
  · intro takes
    have parsed := command_parsed command x more [] takes .none
    rwa [List.append_nil] at parsed
  · intro shape
    exact command_parsed command x more [Byte.closeParen] (by rw [shape]; decide) (.paren (by rw [shape]; rfl))

def greatest : Argument where
  bytes := [0x19, 0x41, 0x2B, 0x42, 0x11]
  tree := .call (.builtin .maximum) [.variable 0, .variable 1]
  all := [.opener (some (.builtin .maximum)) .paren, .operand (.variable 0), .operator .comma, .operand (.variable 1),
    .closer .paren false]
  spans := ⟨⟨[0x11, 0x42, 0x2B, 0x41, 0x19], [], true, false⟩, Expression.parse_of_read _ _ _ _ (by cbv), rfl⟩
  cut := by cbv
  balanced := rfl
  closed := by simp [TextClosed]

def quoted : Argument where
  bytes := [0x2A, 0x41, 0x2B, 0x42, 0x2A]
  tree := .text [0x41, 0x2B, 0x42]
  all := [.text [0x41, 0x2B, 0x42] true]
  spans := ⟨⟨[0x2A, 0x42, 0x2B, 0x41, 0x2A], [], true, false⟩, Expression.parse_of_read _ _ _ _ (by cbv), rfl⟩
  cut := by cbv
  balanced := rfl
  closed := by simp [TextClosed]

theorem display_and_output_take_arguments :
    parseProgram [0xDE, 0x19, 0x41, 0x2B, 0x42, 0x11, 0x2B, 0x2A, 0x41, 0x2B, 0x42, 0x2A] false =
        .ok [.command .display [.call (.builtin .maximum) [.variable 0, .variable 1], .text [0x41, 0x2B, 0x42]]] ∧
      parseProgram [0xE0, 0x19, 0x41, 0x2B, 0x42, 0x11, 0x2B, 0x2A, 0x41, 0x2B, 0x42, 0x2A, 0x11] false =
        .ok [.command .output [.call (.builtin .maximum) [.variable 0, .variable 1], .text [0x41, 0x2B, 0x42]]] :=
  ⟨(command_takes_arguments .display greatest [quoted]).1 (by decide),
    (command_takes_arguments .output greatest [quoted]).2 (by decide)⟩

end Statement

end GraphCalc

import GraphCalc.Proofs.Lookahead
import GraphCalc.Proofs.StackLimits

set_option autoImplicit false

namespace GraphCalc

namespace Cursor

-- Position 0 is before the first byte; one more than the length is past the end.
def atPosition (bytes : Bytes) (pos : Nat) : Cursor :=
  ⟨(bytes.take pos).reverse, bytes.drop pos, decide (bytes.length < pos), false⟩

theorem position_proper (bytes : Bytes) (pos : Nat) : (atPosition bytes pos).Proper := by
  intro ended
  exact List.drop_eq_nil_of_le (Nat.le_of_lt (of_decide_eq_true ended))

theorem position_next (bytes : Bytes) (pos : Nat) (within : pos ≤ bytes.length) :
    (atPosition bytes pos).next = atPosition bytes (pos + 1) := by
  unfold atPosition
  rcases Nat.lt_or_eq_of_le within with before | rfl
  · rw [List.drop_eq_getElem_cons before, ← List.take_append_getElem before, List.reverse_append]
    simp [next]
    omega
  · simp [next, List.take_of_length_le]

theorem position_advance (bytes : Bytes) (pos n : Nat) (within : pos ≤ bytes.length + 1) :
    (atPosition bytes pos).advance n = atPosition bytes (min (pos + n) (bytes.length + 1)) := by
  induction n generalizing pos with
  | zero => rw [Nat.add_zero, Nat.min_eq_left within, advance]
  | succ n ih =>
      rw [advance]
      rcases Nat.lt_or_eq_of_le within with inside | rfl
      · rw [position_next bytes pos (Nat.le_of_lt_succ inside), ih (pos + 1) inside, Nat.add_right_comm, Nat.add_assoc]
      · have past : (atPosition bytes (bytes.length + 1)).next = atPosition bytes (bytes.length + 1) :=
          next_past _ (List.drop_eq_nil_of_le (Nat.le_succ _)) (decide_eq_true (Nat.lt_succ_self _))
        rw [past, ih _ (Nat.le_refl _)]
        congr 1
        omega

theorem position_reaches (bytes : Bytes) (pos : Nat) (within : pos ≤ bytes.length + 1) (c : Cursor)
    (reaches : (atPosition bytes pos).Reaches c) :
    ∃ pos', pos ≤ pos' ∧ pos' ≤ bytes.length + 1 ∧ c = atPosition bytes pos' := by
  obtain ⟨n, rfl⟩ := reaches
  exact ⟨_, by omega, Nat.min_le_right _ _, position_advance bytes pos n within⟩

theorem position_ahead (bytes : Bytes) (pos : Nat) (within : pos ≤ bytes.length) (c : Cursor)
    (ahead : (atPosition bytes pos).Ahead c) :
    ∃ pos', pos < pos' ∧ pos' ≤ bytes.length + 1 ∧ c = atPosition bytes pos' := by
  rw [Ahead, position_next bytes pos within] at ahead
  exact position_reaches bytes (pos + 1) (Nat.succ_le_succ within) c ahead

end Cursor

namespace Lookahead

-- The multiplication in front of a string is placed before the string is scanned.
def step (limit : Nat) (s : Stacks) (b : UInt8) (c : Cursor) : Option (Except Cause Stacks × Cursor) :=
  if Token.ofByte b = .quote then
    match s.multiply with
    | .error e => some (.error e, c)
    | .ok s' =>
      (Round.repeated textRound limit ([], c)).map fun (bytes, closed, c') =>
        ((s'.pushOutput (.text bytes)).map (Stacks.withNeed closed), c')
  else
    (read limit b c).map fun
      | (.error e, c') => (.error e, c')
      | (.ok item, c') => (s.accept item, c')

-- The second result may have read the end of the input already.
inductive Follows : Except Cause Stacks × Cursor → Except Cause Stacks × Cursor → Prop where
  | same (result : Except Cause Stacks × Cursor) : Follows result result
  | past (s : Stacks) (c : Cursor) (last : c.rest = []) : Follows (.ok s, c) (.ok s, c.next)

theorem step_item (limit : Nat) (s : Stacks) (b : UInt8) (c : Cursor) (atHand : c.current = some b)
    (enough : c.rest.length < limit) (notText : Token.ofByte b ≠ .quote) :
    step limit s b c = some (Expression.step s b c) := by
  rw [step, if_neg notText, read_ends limit b c atHand enough notText, Option.map_some, Expression.step]
  cases found : Item.read b c.rest with
  | mk result used =>
      cases result with
      | error e => rfl
      | ok item =>
          have other : item.isText = false := by
            cases item with
            | text bytes closed => exact absurd (Item.text_begins b c.rest bytes closed used found) notText
            | _ => rfl
          dsimp only
          cases s.accept item with
          | ok s' => rfl
          | error e => rw [other]; rfl

theorem text_end_follows (s : Stacks) (c : Cursor) :
    Follows (.ok s, c.advance (Item.textBytes c.rest).2.2) (.ok s, textEnd c) := by
  unfold textEnd
  dsimp only
  split
  · rename_i last
    exact .past s _ last.2
  · exact .same _

theorem push_output_error (s : Stacks) (tree : Tree) (e : Cause) (full : s.pushOutput tree = .error e) :
    e = .expressionTooLarge := by
  unfold Stacks.pushOutput at full
  split at full
  · cases full
  · exact (Except.error.inj full).symm

theorem take_text_eq (s : Stacks) (bytes : Bytes) (closed : Bool) : s.takeText bytes closed =
    s.multiply >>= fun s₁ => (s₁.pushOutput (.text bytes)).map (Stacks.withNeed closed) := by
  unfold Stacks.takeText
  cases s.multiply with
  | error e => rfl
  | ok s₁ =>
      change _ = (s₁.pushOutput (.text bytes)).map (Stacks.withNeed closed)
      cases pushed : s₁.pushOutput (.text bytes) <;> simp only [bind, Except.bind, pushed] <;> rfl

-- A string that finds no room would be refused at its quote by one and at its end by the other.
theorem step_text (limit : Nat) (s : Stacks) (b : UInt8) (c : Cursor) (proper : c.Proper) (enough : c.rest.length < limit)
    (token : Token.ofByte b = .quote) (roomy : Roomy (Expression.step s b c).1) :
    ∃ result, step limit s b c = some result ∧ Follows (Expression.step s b c) result := by
  have found : Item.read b c.rest =
      (.ok (.text (Item.textBytes c.rest).1 (Item.textBytes c.rest).2.1), (Item.textBytes c.rest).2.2) := by
    rw [Item.read, token]
  have scanned := Round.repeated_ends textRound _ _ textValue text_round_sound limit ([], c) proper enough
  rw [(Expression.step_item s b c _ _ found).1, Stacks.accept, take_text_eq] at roomy
  rw [Expression.step, found]
  dsimp only
  rw [Stacks.accept, take_text_eq]
  rw [step, if_pos token, scanned]
  cases multiplied : s.multiply with rw [multiplied] at roomy
  | error e => exact ⟨_, rfl, .same _⟩
  | ok s₁ =>
      change Roomy ((s₁.pushOutput _).map _) at roomy
      change ∃ result, some ((s₁.pushOutput (.text (Item.textBytes c.rest).1)).map _, textEnd c) = some result ∧ _
      cases pushed : s₁.pushOutput (.text (Item.textBytes c.rest).1) with
      | error e =>
          rw [pushed] at roomy
          cases push_output_error s₁ _ e pushed
          exact absurd rfl (roomy _ rfl)
      | ok s₂ =>
          refine ⟨_, rfl, ?_⟩
          simp only [bind, Except.bind, pushed]
          exact text_end_follows _ c

theorem step_follows (limit : Nat) (s : Stacks) (b : UInt8) (c : Cursor) (atHand : c.current = some b)
    (enough : c.rest.length < limit) (roomy : Roomy (Expression.step s b c).1) :
    ∃ result, step limit s b c = some result ∧ Follows (Expression.step s b c) result := by
  by_cases token : Token.ofByte b = .quote
  · exact step_text limit s b c (c.going_proper (c.current_going b atHand)) enough token roomy
  · exact ⟨_, step_item limit s b c atHand enough token, .same _⟩

abbrev TokenState := Stacks × Cursor

def afterStep : Except Cause Stacks × Cursor → Round TokenState (Except Cause Tree × Cursor)
  | (.error e, c) => .ends (.error e, c)
  | (.ok s, c) => .goesOn (s, c)

def tokenRound (limit : Nat) (stops : Expression.Stops) : TokenState → Option (Round TokenState (Except Cause Tree × Cursor))
  | (s, c) =>
    if c.interrupted then some (.ends (.error .interrupted, c))
    else
      match c.peek with
      | none => some (.ends (s.finish, c.next))
      | some b =>
        if Byte.endsLine b || stops.endAt s b then some (.ends (s.finish, c.next))
        else (step limit s b c.next).map afterStep

structure Ready (limit : Nat) (c : Cursor) : Prop where
  proper : c.Proper
  enough : c.rest.length < limit

theorem ready_next (limit : Nat) (c : Cursor) (ready : Ready limit c) : Ready limit c.next := by
  refine ⟨c.next_proper ready.proper, Nat.lt_of_le_of_lt ?_ ready.enough⟩
  rw [Cursor.next_rest, List.length_tail]
  omega

structure TokenKept (limit : Nat) (s : TokenState) : Prop extends Ready limit s.2 where
  kept : Expression.Kept s.1 s.2.rest

theorem read_from_past (stops : Expression.Stops) (s : Stacks) (c : Cursor) (running : c.interrupted = false)
    (last : c.rest = []) : Expression.readFrom stops s c.next = Expression.readFrom stops s c := by
  have none : c.next.rest = [] := by rw [Cursor.next_rest, last]; rfl
  rw [Expression.read_from_last stops s c running last,
    Expression.read_from_last stops s c.next (c.next_interrupted.trans running) none, c.next_again last]

theorem step_token_kept (limit : Nat) (s s' : Stacks) (b : UInt8) (c c' : Cursor) (holds : TokenKept limit (s, c))
    (more : c.rest = b :: c.next.rest) (inLine : Byte.endsLine b = false) (taken : Expression.step s b c.next = (.ok s', c')) :
    TokenKept limit (s', c') ∧ c'.rest.length < c.rest.length := by
  obtain ⟨⟨proper, enough⟩, kept⟩ := holds
  have shorter := Expression.step_next_rest s c b _ more
  have reaches := Expression.step_reaches s b c.next
  rw [taken] at shorter reaches
  dsimp only at kept
  rw [more] at kept
  exact ⟨⟨⟨Cursor.reaches_proper _ _ reaches (c.next_proper proper), Nat.lt_trans shorter enough⟩,
    Expression.step_kept s s' b c.next c' kept inLine taken⟩, shorter⟩

theorem token_kept_next (limit : Nat) (s : Stacks) (c : Cursor) (holds : TokenKept limit (s, c)) (last : c.rest = []) :
    TokenKept limit (s, c.next) := by
  have same : c.next.rest = c.rest := by rw [Cursor.next_rest, last]; rfl
  obtain ⟨ready, kept⟩ := holds
  dsimp only at kept
  rw [← same] at kept
  exact ⟨ready_next limit c ready, kept⟩

theorem after_step_sound (limit : Nat) (stops : Expression.Stops) (s : Stacks) (b : UInt8) (c : Cursor)
    (result : Except Cause Stacks × Cursor) (holds : TokenKept limit (s, c)) (running : c.interrupted = false)
    (more : c.rest = b :: c.next.rest) (inLine : Byte.endsLine b = false) (follows : Follows (Expression.step s b c.next) result) :
    afterStep result = .ends (Expression.onward stops (Expression.step s b c.next)) ∨
      ∃ s', afterStep result = .goesOn s' ∧ TokenKept limit s' ∧ s'.2.rest.length < c.rest.length ∧
        Expression.readFrom stops s'.1 s'.2 = Expression.onward stops (Expression.step s b c.next) := by
  have reaches := Expression.step_reaches s b c.next
  generalize taken : Expression.step s b c.next = first at follows reaches ⊢
  cases follows with
  | same =>
      obtain ⟨outcome, c'⟩ := result
      cases outcome with
      | error e => exact Or.inl rfl
      | ok s' =>
          obtain ⟨holds', smaller⟩ := step_token_kept limit s s' b c c' holds more inLine taken
          exact Or.inr ⟨(s', c'), rfl, holds', smaller, rfl⟩
  | past s' c' last =>
      obtain ⟨holds', smaller⟩ := step_token_kept limit s s' b c c' holds more inLine taken
      have running' : c'.interrupted = false :=
        (Cursor.reaches_interrupted _ _ reaches).trans (c.next_interrupted.trans running)
      refine Or.inr ⟨(s', c'.next), rfl, token_kept_next limit s' c' holds' last, ?_, ?_⟩
      · dsimp only
        rwa [Cursor.next_rest, last, List.tail_nil, ← last]
      · exact read_from_past stops s' c' running' last

theorem token_round_sound (limit : Nat) (stops : Expression.Stops) (s : TokenState) (holds : TokenKept limit s) :
    Round.Sound (tokenRound limit stops) (TokenKept limit) (fun s => s.2.rest.length)
      (fun s => Expression.readFrom stops s.1 s.2) s := by
  obtain ⟨s, c⟩ := s
  unfold Round.Sound tokenRound
  dsimp only
  by_cases interrupted : c.interrupted = true
  · left
    rw [if_pos interrupted, Expression.readFrom, if_pos interrupted]
  · rw [if_neg interrupted]
    have running : c.interrupted = false := by simpa using interrupted
    cases next : c.peek with
    | none =>
        left
        rw [Expression.read_from_last stops s c running (c.peek_none next)]
    | some b =>
        have more := c.peek_some b next
        dsimp only
        rw [Expression.read_from_cons stops s c running b _ more]
        by_cases ends : (Byte.endsLine b || stops.endAt s b) = true
        · left
          rw [if_pos ends, if_pos ends]
        · rw [if_neg ends, if_neg ends]
          have inLine : Byte.endsLine b = false := (Bool.or_eq_false_iff.mp (by simpa using ends)).1
          have kept : Expression.Kept s (b :: c.next.rest) := more ▸ holds.kept
          obtain ⟨result, stepped, follows⟩ := step_follows limit s b c.next
            (c.next_current (c.proper_going holds.proper b _ more) b _ more)
            (Nat.lt_trans (c.next_shorter b next) holds.enough) (Expression.step_roomy s b c.next kept inLine)
          rw [stepped, Option.map_some]
          rcases after_step_sound limit stops s b c result holds running more inLine follows with ended | ⟨s', went, after⟩
          · exact Or.inl (congrArg some ended)
          · exact Or.inr ⟨s', congrArg some went, after⟩

def parse (limit : Nat) (stops : Expression.Stops) (c : Cursor) : Option (Except Fault Tree × Cursor) :=
  (Round.repeated (tokenRound limit stops) limit (.empty, c)).map fun (result, c') =>
    (result.mapError fun e => (Fault.ofCause e).located c'.place, c')

theorem parse_ends (limit : Nat) (stops : Expression.Stops) (c : Cursor) (ready : Ready limit c) :
    parse limit stops c = some (Expression.parse stops c) := by
  rw [parse, Round.repeated_ends (tokenRound limit stops) _ _ _ (token_round_sound limit stops) limit (.empty, c)
    ⟨ready, Expression.empty_kept c.rest⟩ ready.enough]
  rfl

abbrev ArgumentState := List Tree × Cursor

def argumentRound (limit : Nat) (paren : Bool) :
    ArgumentState → Option (Round ArgumentState (Except Fault (List Tree) × Cursor))
  | (args, c) =>
    (parse limit ⟨true, paren⟩ c).map fun
      | (.error f, c') => .ends (.error f, c')
      | (.ok tree, c') =>
        if c'.current = some Byte.comma then .goesOn (args ++ [tree], c')
        else if paren ∧ c'.current = some Byte.closeParen ∧ endOfLine c'.peek = false then
          .ends (.error (Fault.ofCause .tokenAfterParen), c')
        else .ends (.ok (args ++ [tree]), c')

def collected (before : List Tree) (result : Except Fault (List Tree) × Cursor) : Except Fault (List Tree) × Cursor :=
  (result.1.map (before ++ ·), result.2)

theorem collected_nil (result : Except Fault (List Tree) × Cursor) : collected [] result = result := by
  obtain ⟨outcome, c⟩ := result
  cases outcome <;> rfl

theorem collected_cons (before : List Tree) (tree : Tree) (result : Except Fault (List Tree) × Cursor) :
    collected (before ++ [tree]) result = collected before (result.1.map (tree :: ·), result.2) := by
  obtain ⟨outcome, c⟩ := result
  cases outcome with
  | error f => rfl
  | ok trees => exact congrArg (fun all => (Except.ok all, c)) (List.append_assoc before [tree] trees)

theorem argument_round_sound (limit : Nat) (paren : Bool) (s : ArgumentState) (ready : Ready limit s.2) :
    Round.Sound (argumentRound limit paren) (fun s => Ready limit s.2) (fun s => s.2.rest.length)
      (fun s => collected s.1 (Statement.readArguments paren s.2)) s := by
  obtain ⟨args, c⟩ := s
  unfold Round.Sound argumentRound
  dsimp only
  rw [parse_ends limit _ c ready, Option.map_some, Statement.read_arguments_eq]
  cases parsed : Expression.parse ⟨true, paren⟩ c with
  | mk outcome c' =>
      cases outcome with
      | error f => exact Or.inl rfl
      | ok tree =>
          dsimp only [Statement.afterArgument]
          by_cases comma : c'.current = some Byte.comma
          · right
            have smaller := Expression.parse_progress _ c c' tree parsed
            have proper := c'.going_proper (c'.current_going _ comma)
            rw [if_pos comma, if_pos comma]
            exact ⟨_, rfl, ⟨proper, Nat.lt_trans smaller ready.enough⟩, smaller, collected_cons args tree _⟩
          · left
            rw [if_neg comma, if_neg comma]
            split <;> rfl

def arguments (limit : Nat) (shape : Shape) (c : Cursor) : Option (Except Fault (List Tree) × Cursor) :=
  match shape with
  | .standalone => some (Statement.readShape .standalone c)
  | .args | .paren =>
    if endOfLine c.peek then some (.error (Fault.ofCause .expectedArgument), c)
    else Round.repeated (argumentRound limit (shape == .paren)) limit ([], c)

theorem arguments_ends (limit : Nat) (shape : Shape) (c : Cursor) (ready : Ready limit c) :
    arguments limit shape c = some (Statement.readShape shape c) := by
  have read (paren : Bool) :
      Round.repeated (argumentRound limit paren) limit ([], c) = some (Statement.readArguments paren c) := by
    rw [Round.repeated_ends _ _ _ _ (argument_round_sound limit paren) limit ([], c) ready ready.enough]
    exact congrArg some (collected_nil _)
  unfold arguments Statement.readShape
  cases shape with
  | standalone => rfl
  | args | paren =>
      dsimp only
      rw [read]
      split <;> rfl

-- The statement whose first byte `b` has been read; an expression begins with it.
def statement (limit : Nat) (b : UInt8) (c : Cursor) : Option (Except Fault Tree × Cursor) :=
  match Token.ofByte b with
  | .command command => (arguments limit command.shape c).map fun (args, c') => (args.map (.command command), c')
  | _ => parse limit ⟨false, false⟩ c.back

theorem statement_ends (limit : Nat) (b : UInt8) (c : Cursor) (ready : Ready limit c) (going : c.ended = false) :
    statement limit b c.next = some (Statement.readOne b c) := by
  unfold statement Statement.readOne
  cases Token.ofByte b with
  | command command =>
      dsimp only
      rw [arguments_ends limit command.shape c.next (ready_next limit c ready), Option.map_some]
  | _ =>
      dsimp only
      rw [c.back_next going, parse_ends limit _ c ready]

abbrev StatementState := List Tree × Cursor

-- The keyword that ends a block is given back.
def statementRound (limit : Nat) (stops : Statement.Stops) :
    StatementState → Option (Round StatementState (Except Fault (List Tree) × Cursor))
  | (trees, c) =>
    if c.interrupted then some (.ends (.error (Fault.ofCause .interrupted), c))
    else
      match c.peek with
      | none => some (.ends (.ok trees, c.next))
      | some b =>
        if Byte.endsLine b then some (.goesOn (trees, c.next))
        else if stops.endAt b then some (.ends (.ok trees, c.next.back))
        else
          (statement limit b c.next).map fun
            | (.error f, c') => .ends (.error f, c')
            | (.ok tree, c') => .goesOn (trees ++ [tree], c')

theorem statement_round_advances (limit : Nat) (stops : Statement.Stops) (trees : List Tree) (c : Cursor)
    (ready : Ready limit c) :
    statementRound limit stops (trees, c) = some (.ends (collected trees (Statement.readAll stops c))) ∨
      ∃ trees' c', statementRound limit stops (trees, c) = some (.goesOn (trees', c')) ∧ c.ended = false ∧ c.Ahead c' ∧
        c'.rest.length < c.rest.length ∧
          collected trees' (Statement.readAll stops c') = collected trees (Statement.readAll stops c) := by
  unfold statementRound
  dsimp only
  by_cases interrupted : c.interrupted = true
  · left
    rw [if_pos interrupted, Statement.readAll, if_pos interrupted]
    rfl
  · rw [if_neg interrupted]
    have running : c.interrupted = false := by simpa using interrupted
    cases next : c.peek with
    | none =>
        left
        rw [Statement.read_all_last stops c running (c.peek_none next), collected]
        simp [Except.map]
    | some b =>
        have more := c.peek_some b next
        have going := c.proper_going ready.proper b _ more
        dsimp only
        rw [Statement.read_all_cons stops c running b _ more]
        by_cases ends : Byte.endsLine b = true
        · right
          rw [if_pos ends, if_pos ends]
          exact ⟨trees, c.next, rfl, going, c.next.reaches_refl, c.next_shorter b next, rfl⟩
        · rw [if_neg ends, if_neg ends]
          by_cases stopped : stops.endAt b = true
          · left
            rw [if_pos stopped, if_pos stopped, c.back_next going, collected]
            simp [Except.map]
          · rw [if_neg stopped, if_neg stopped, statement_ends limit b c ready going, Option.map_some]
            have ahead := Statement.read_one_ahead b c running
            cases one : Statement.readOne b c with rw [one] at ahead
            | mk outcome c' =>
                cases outcome with
                | error f => exact Or.inl rfl
                | ok tree =>
                    have smaller := Statement.read_one_progress b _ c c' tree more one
                    exact Or.inr ⟨_, c', rfl, going, ahead, smaller, collected_cons trees tree _⟩

theorem statement_round_sound (limit : Nat) (stops : Statement.Stops) (s : StatementState) (ready : Ready limit s.2) :
    Round.Sound (statementRound limit stops) (fun s => Ready limit s.2) (fun s => s.2.rest.length)
      (fun s => collected s.1 (Statement.readAll stops s.2)) s := by
  rcases statement_round_advances limit stops s.1 s.2 ready with ended | ⟨trees', c', went, _, ahead, smaller, same⟩
  · exact Or.inl ended
  · have proper := Cursor.reaches_proper _ _ (s.2.ahead_reaches c' ahead) ready.proper
    exact Or.inr ⟨(trees', c'), went, ⟨proper, Nat.lt_trans smaller ready.enough⟩, smaller, same⟩

def parseProgram (limit : Nat) (stops : Statement.Stops) (c : Cursor) : Option (Except Fault (List Tree) × Cursor) :=
  (Round.repeated (statementRound limit stops) limit ([], c)).map fun (result, c') =>
    (result.mapError (·.located c'.place), c')

theorem parse_program_ends (limit : Nat) (stops : Statement.Stops) (c : Cursor) (ready : Ready limit c) :
    parseProgram limit stops c = some (Statement.parse stops c) := by
  rw [parseProgram, Round.repeated_ends _ _ _ _ (statement_round_sound limit stops) limit ([], c) ready ready.enough,
    collected_nil]
  rfl

theorem position_ready (bytes : Bytes) (pos limit : Nat) (enough : bytes.length - pos < limit) :
    Ready limit (.atPosition bytes pos) :=
  ⟨Cursor.position_proper bytes pos, (List.length_drop (i := pos) (l := bytes)).symm ▸ enough⟩

-- Each loop has one round for every byte left and one for the end; more rounds change nothing.
theorem parsers_make_progress (bytes : Bytes) (pos limit : Nat) (enough : bytes.length - pos < limit) :
    (pos ≤ bytes.length → ∀ stops, ∃ result pos', pos < pos' ∧ pos' ≤ bytes.length + 1 ∧
      Expression.parse stops (.atPosition bytes pos) = (result, .atPosition bytes pos') ∧
        parse limit stops (.atPosition bytes pos) = some (result, .atPosition bytes pos')) ∧
    (pos ≤ bytes.length + 1 → ∀ stops,
      (∀ trees, (∃ result, statementRound limit stops (trees, .atPosition bytes pos) = some (.ends result)) ∨
        ∃ trees' pos', pos < pos' ∧ pos' ≤ bytes.length + 1 ∧
          statementRound limit stops (trees, .atPosition bytes pos) = some (.goesOn (trees', .atPosition bytes pos'))) ∧
      ∃ result pos', pos ≤ pos' ∧ pos' ≤ bytes.length + 1 ∧
        Statement.parse stops (.atPosition bytes pos) = (result, .atPosition bytes pos') ∧
          parseProgram limit stops (.atPosition bytes pos) = some (result, .atPosition bytes pos')) := by
  have ready := position_ready bytes pos limit enough
  constructor
  · intro within stops
    have ahead := Expression.parse_ahead stops (.atPosition bytes pos) _ _ rfl rfl
    obtain ⟨pos', further, bound, there⟩ := Cursor.position_ahead bytes pos within _ ahead
    refine ⟨(Expression.parse stops (.atPosition bytes pos)).1, pos', further, bound, ?_⟩
    rw [parse_ends limit stops _ ready, ← there]
    exact ⟨rfl, rfl⟩
  · intro within stops
    constructor
    · intro trees
      rcases statement_round_advances limit stops trees _ ready with ended | ⟨trees', c', went, going, ahead, _⟩
      · exact Or.inl ⟨_, ended⟩
      · have inside : pos ≤ bytes.length := Nat.le_of_not_lt (of_decide_eq_false going)
        obtain ⟨pos', further, bound, rfl⟩ := Cursor.position_ahead bytes pos inside c' ahead
        exact Or.inr ⟨trees', pos', further, bound, went⟩
    · have reaches := Statement.read_all_reaches stops (.atPosition bytes pos)
      obtain ⟨pos', onward, bound, there⟩ := Cursor.position_reaches bytes pos within _ reaches
      refine ⟨(Statement.parse stops (.atPosition bytes pos)).1, pos', onward, bound, ?_⟩
      rw [parse_program_ends limit stops _ ready, ← there]
      exact ⟨rfl, rfl⟩

-- After `Disp`, a string runs into the end in the middle of a token of two bytes; its end is read only once.
theorem cut_string_makes_progress :
    let bytes : Bytes := [0xDE, 0x2A, Byte.list]
    bytes.length - 1 < 3 ∧ (∃ result, parse 3 ⟨true, false⟩ (.atPosition bytes 1) = some (result, .atPosition bytes 4)) ∧
      (∃ result pos', 1 < pos' ∧ pos' ≤ 4 ∧
        Expression.parse ⟨true, false⟩ (.atPosition bytes 1) = (result, .atPosition bytes pos') ∧
          parse 3 ⟨true, false⟩ (.atPosition bytes 1) = some (result, .atPosition bytes pos')) ∧
      ∃ result pos', 0 ≤ pos' ∧ pos' ≤ 4 ∧
        Statement.parse ⟨false, false⟩ (.atPosition bytes 0) = (result, .atPosition bytes pos') ∧
          parseProgram 4 ⟨false, false⟩ (.atPosition bytes 0) = some (result, .atPosition bytes pos') := by
  intro bytes
  have fromString := parsers_make_progress bytes 1 3 (by decide)
  have fromStart := parsers_make_progress bytes 0 4 (by decide)
  exact ⟨by decide, ⟨_, rfl⟩, fromString.1 (by decide) ⟨true, false⟩, (fromStart.2 (by decide) ⟨false, false⟩).2⟩

end Lookahead

end GraphCalc

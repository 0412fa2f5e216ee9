import GraphCalc.Proofs.Moves

/-!
Scanning with a look ahead. Numbers, list names and strings are scanned in loops that read one byte too far and
step back, or that run into the end of the input. Written with these moves, and with a limit on the rounds of
every loop, the reading of an item comes to an end and leaves the cursor right behind the item. Only a string
that is never closed leaves it one step further on: it has read the end of the input as well.
-/

set_option autoImplicit false

namespace GraphCalc

inductive Round (σ ρ : Type) where
  | goesOn (state : σ)
  | ends (result : ρ)

namespace Round

variable {σ ρ : Type}

-- At most `limit` rounds. There is no result where the rounds, or those of a loop inside, do not suffice.
def repeated (round : σ → Option (Round σ ρ)) : Nat → σ → Option ρ
  | 0, _ => none
  | limit + 1, s =>
    (round s).bind fun
      | .goesOn s' => repeated round limit s'
      | .ends r => some r

-- A round ends with the value of its state, or goes on in a smaller state of the same value.
def Sound (round : σ → Option (Round σ ρ)) (kept : σ → Prop) (size : σ → Nat) (value : σ → ρ) (s : σ) : Prop :=
  round s = some (.ends (value s)) ∨
    ∃ s', round s = some (.goesOn s') ∧ kept s' ∧ size s' < size s ∧ value s' = value s

theorem repeated_ends (round : σ → Option (Round σ ρ)) (kept : σ → Prop) (size : σ → Nat) (value : σ → ρ)
    (sound : ∀ s, kept s → Sound round kept size value s) (limit : Nat) (s : σ) (holds : kept s)
    (enough : size s < limit) : repeated round limit s = some (value s) := by
  induction limit generalizing s with
  | zero => cases enough
  | succ limit ih =>
      rw [repeated]
      rcases sound s holds with ended | ⟨s', went, holds', smaller, same⟩
      · rw [ended, Option.bind_some]
      · rw [went, Option.bind_some]
        exact (ih s' holds' (by omega)).trans (congrArg some same)

end Round

namespace Cursor

theorem back_next (c : Cursor) (going : c.ended = false) : c.next.back = c := by
  obtain ⟨passed, rest, ended, interrupted⟩ := c
  cases going
  cases rest <;> rfl

theorem going_proper (c : Cursor) (going : c.ended = false) : c.Proper := by
  intro ended
  cases going.symm.trans ended

theorem next_current (c : Cursor) (going : c.ended = false) (b : UInt8) (rest : Bytes) (more : c.rest = b :: rest) :
    c.next.current = some b := by
  simp [next, current, more, going]

theorem next_back (c : Cursor) (b : UInt8) (read : c.current = some b) : c.back.next = c := by
  have going := c.current_going b read
  obtain ⟨passed, rest, ended, interrupted⟩ := c
  cases going
  cases passed with
  | nil => cases read
  | cons d passed =>
      cases read
      rfl

theorem next_again (c : Cursor) (none : c.rest = []) : c.next.next = c.next := by
  obtain ⟨passed, rest, ended, interrupted⟩ := c
  cases none
  rfl

theorem peek_none (c : Cursor) (none : c.peek = none) : c.rest = [] := List.head?_eq_none_iff.mp none

theorem peek_some (c : Cursor) (b : UInt8) (next : c.peek = some b) : c.rest = b :: c.next.rest := by
  rw [next_rest]
  unfold peek at next
  cases more : c.rest with rw [more] at next
  | nil => cases next
  | cons d rest =>
      cases next
      rfl

theorem next_shorter (c : Cursor) (b : UInt8) (next : c.peek = some b) : c.next.rest.length < c.rest.length := by
  rw [c.peek_some b next]
  exact Nat.lt_succ_self _

end Cursor

namespace Lookahead

abbrev NumberState := Numeral × UInt8 × Cursor

-- The byte at hand has been read. One that does not belong to the number is given back, and so is the end.
def numberRound : NumberState → Option (Round NumberState (Except Cause (Numeral × Bool) × Cursor))
  | (n, b, c) =>
    match n.take (Token.ofByte b) with
    | .more n' =>
      match c.peek with
      | some b' => some (.goesOn (n', b', c.next))
      | none => some (.ends (.ok (n', false), c.next.back))
    | .imaginary => some (.ends (.ok (n, true), c))
    | .done => some (.ends (.ok (n, false), c.back))
    | .invalid => some (.ends (.error .invalidNumber, c))

def numberValue : NumberState → Except Cause (Numeral × Bool) × Cursor
  | (n, b, c) => ((n.scan (b :: c.rest)).1, c.back.advance (n.scan (b :: c.rest)).2)

theorem number_round_sound (s : NumberState) (read : s.2.2.current = some s.2.1) :
    Round.Sound numberRound (fun s => s.2.2.current = some s.2.1) (fun s => s.2.2.rest.length) numberValue s := by
  obtain ⟨n, b, c⟩ := s
  have going : c.ended = false := c.current_going b read
  have again := c.next_back b read
  unfold Round.Sound numberRound numberValue
  dsimp only
  rw [Numeral.scan]
  cases taken : n.take (Token.ofByte b) with
  | more n' =>
      dsimp only
      rw [Cursor.advance, again]
      cases next : c.peek with
      | none =>
          left
          rw [c.peek_none next, c.back_next going]
          rfl
      | some b' =>
          right
          have more := c.peek_some b' next
          refine ⟨_, rfl, c.next_current going b' _ more, c.next_shorter b' next, ?_⟩
          dsimp only
          rw [c.back_next going, ← more]
  | imaginary =>
      left
      dsimp only
      rw [Cursor.advance, again]
      rfl
  | done => exact Or.inl rfl
  | invalid =>
      left
      dsimp only
      rw [Cursor.advance, again]
      rfl

abbrev NameState := List Char × Cursor

def nameRound : NameState → Option (Round NameState (List Char × Cursor))
  | (chars, c) =>
    if chars.length < 5 then
      match c.peek.bind fun b => Item.nameChar? chars.isEmpty (Token.ofByte b) with
      | some char => some (.goesOn (chars ++ [char], c.next))
      | none => some (.ends (chars, c.next.back))
    else some (.ends (chars, c))

def nameRest : NameState → List Char
  | (chars, c) => Item.nameChars (5 - chars.length) chars.isEmpty c.rest

def nameValue (s : NameState) : List Char × Cursor := (s.1 ++ nameRest s, s.2.advance (nameRest s).length)

theorem name_round_sound (s : NameState) (going : s.2.ended = false) :
    Round.Sound nameRound (fun s => s.2.ended = false) (fun s => s.2.rest.length) nameValue s := by
  obtain ⟨chars, c⟩ := s
  unfold Round.Sound nameRound nameValue nameRest
  dsimp only
  by_cases room : chars.length < 5
  · obtain ⟨k, left⟩ : ∃ k, 5 - chars.length = k + 1 := ⟨4 - chars.length, by omega⟩
    rw [if_pos room, left]
    cases next : c.peek with
    | none =>
        left
        rw [c.peek_none next, c.back_next going]
        simp [Item.nameChars, Cursor.advance]
    | some b =>
        rw [c.peek_some b next, Item.nameChars, Option.bind_some]
        cases char : Item.nameChar? chars.isEmpty (Token.ofByte b) with
        | none =>
            left
            rw [c.back_next going]
            simp [Cursor.advance]
        | some x =>
            right
            have after : 5 - (chars ++ [x]).length = k := by rw [List.length_append, List.length_singleton]; omega
            have begun : (chars ++ [x]).isEmpty = false := by simp
            refine ⟨_, rfl, ?_, Nat.lt_succ_self _, ?_⟩
            · exact c.next.current_going b (c.next_current going b _ (c.peek_some b next))
            · dsimp only
              rw [after, begun, List.append_assoc, List.singleton_append]
              rfl
  · left
    rw [if_neg room, Nat.sub_eq_zero_of_le (Nat.le_of_not_lt room)]
    simp [Item.nameChars, Cursor.advance]

abbrev TextState := Bytes × Cursor

-- The second byte of a token goes unlooked at; where it is missing the end is read in its place.
def textRound : TextState → Option (Round TextState (Bytes × Bool × Cursor))
  | (bytes, c) =>
    match c.peek with
    | none => some (.ends (bytes, false, c.next))
    | some b =>
      if b = Byte.quote then some (.ends (bytes, true, c.next))
      else if b = Byte.newline ∨ b = Byte.store then some (.ends (bytes, false, c.next.back))
      else if Byte.isTwoByte b then some (.goesOn (bytes ++ b :: c.next.peek.toList, c.next.next))
      else some (.goesOn (bytes ++ [b], c.next))

-- Behind a string, and past the end where the string is not closed before it.
def textEnd (c : Cursor) : Cursor :=
  let (_, closed, used) := Item.textBytes c.rest
  if closed = false ∧ (c.advance used).rest = [] then (c.advance used).next else c.advance used

def textValue : TextState → Bytes × Bool × Cursor
  | (bytes, c) => (bytes ++ (Item.textBytes c.rest).1, (Item.textBytes c.rest).2.1, textEnd c)

theorem text_value_empty (bytes : Bytes) (c : Cursor) (none : c.rest = []) : textValue (bytes, c) = (bytes, false, c.next) := by
  simp [textValue, textEnd, Item.textBytes, Cursor.advance, none]

theorem text_value_byte (bytes : Bytes) (c : Cursor) (b : UInt8) (more : c.rest = b :: c.next.rest) (notQuote : b ≠ Byte.quote)
    (inside : ¬(b = Byte.newline ∨ b = Byte.store)) (oneByte : ¬Byte.isTwoByte b = true) :
    textValue (bytes ++ [b], c.next) = textValue (bytes, c) := by
  cases rest : c.next.rest with
  | nil =>
      rw [text_value_empty _ _ rest]
      rw [rest] at more
      simp [textValue, textEnd, more, Item.textBytes, notQuote, inside, Cursor.advance, rest]
  | cons second later =>
      rw [rest] at more
      simp [textValue, textEnd, more, rest, Item.textBytes, notQuote, inside, oneByte, Cursor.advance]

-- A first byte at the end of the input stands alone, and the end is read in place of the second.
theorem text_value_pair (bytes : Bytes) (c : Cursor) (b : UInt8) (more : c.rest = b :: c.next.rest) (notQuote : b ≠ Byte.quote)
    (inside : ¬(b = Byte.newline ∨ b = Byte.store)) (twoByte : Byte.isTwoByte b = true) :
    textValue (bytes ++ b :: c.next.peek.toList, c.next.next) = textValue (bytes, c) := by
  cases rest : c.next.rest with
  | nil =>
      have last : c.next.next.rest = [] := by rw [Cursor.next_rest, rest]; rfl
      rw [text_value_empty _ _ last, c.next.next_again rest]
      rw [rest] at more
      simp [textValue, textEnd, more, Item.textBytes, notQuote, inside, Cursor.advance, rest, Cursor.peek]
  | cons second later =>
      have after : c.next.next.rest = later := by rw [Cursor.next_rest, rest]; rfl
      rw [rest] at more
      simp [textValue, textEnd, more, rest, after, Item.textBytes, notQuote, inside, twoByte, Cursor.advance, Cursor.peek]

theorem text_round_sound (s : TextState) (proper : s.2.Proper) :
    Round.Sound textRound (fun s => s.2.Proper) (fun s => s.2.rest.length) textValue s := by
  obtain ⟨bytes, c⟩ := s
  have proper' := c.next_proper proper
  unfold Round.Sound textRound
  dsimp only
  cases next : c.peek with
  | none =>
      left
      rw [text_value_empty bytes c (c.peek_none next)]
  | some b =>
      have more := c.peek_some b next
      have going := c.proper_going proper b _ more
      dsimp only
      by_cases quote : b = Byte.quote
      · left
        rw [if_pos quote, textValue, textEnd, more]
        cases c.next.rest <;> simp [Item.textBytes, Cursor.advance, quote]
      · rw [if_neg quote]
        by_cases ended : b = Byte.newline ∨ b = Byte.store
        · left
          rw [if_pos ended, c.back_next going, textValue, textEnd, more]
          cases c.next.rest <;> simp [Item.textBytes, Cursor.advance, quote, ended, more]
        · rw [if_neg ended]
          right
          by_cases twoByte : Byte.isTwoByte b = true
          · rw [if_pos twoByte]
            refine ⟨_, rfl, c.next.next_proper proper', ?_, text_value_pair bytes c b more quote ended twoByte⟩
            calc
              c.next.next.rest.length ≤ c.next.rest.length := by rw [Cursor.next_rest, List.length_tail]; omega
              _ < c.rest.length := c.next_shorter b next
          · rw [if_neg twoByte]
            exact ⟨_, rfl, proper', c.next_shorter b next, text_value_byte bytes c b more quote ended twoByte⟩

def literal : Except Cause (Numeral × Bool) → Except Cause Item
  | .error e => .error e
  | .ok (n, imaginary) => n.finiteValue.map fun x => .operand (if imaginary then .complex 0 x else .number x)

def reference (tree : Tree) (target : Target) (c : Cursor) : Except Cause Item × Cursor :=
  if c.peek = some Byte.openParen then (.ok (.opener (some target) .paren), c.next) else (.ok (.operand tree), c)

def indexed (index : Except Cause UInt8) (tree : UInt8 → Tree) (target : UInt8 → Target) (c : Cursor) :
    Except Cause Item × Cursor :=
  match index with
  | .ok i => reference (tree i) (target i) c.next
  | .error e => (.error e, c.next)

def named (c : Cursor) : List Char → Except Cause Item × Cursor
  | [] => (.error .invalidListName, c)
  | chars => reference (.customList (String.ofList chars)) (.customListElement (String.ofList chars)) c

def read (limit : Nat) (b : UInt8) (c : Cursor) : Option (Except Cause Item × Cursor) :=
  match Token.ofByte b with
  | .digit _ | .decimalPoint | .exponent =>
    (Round.repeated numberRound limit (.empty, b, c)).map fun (result, c') => (literal result, c')
  | .list => some (indexed (Item.slot 6 c.rest) .list .listElement c)
  | .matrix => some (indexed (Item.slot 10 c.rest) .matrix .matrixElement c)
  | .string => some ((Item.slot 10 c.rest).map fun i => .operand (.string i), c.next)
  | .equation => some ((Item.equationSlot c.rest).map fun i => .operand (.equation i), c.next)
  | .customList => (Round.repeated nameRound limit ([], c)).map fun (chars, c') => named c' chars
  | .random => some (reference (.call (.builtin .random) []) (.builtin .random) c)
  | _ => some ((Item.read b c.rest).1, c)

theorem number_begun (b : UInt8) (rest : Bytes)
    (begins : (∃ d, Token.ofByte b = .digit d) ∨ Token.ofByte b = .decimalPoint ∨ Token.ofByte b = .exponent) :
    ∃ used, (Numeral.empty.scan (b :: rest)).2 = used + 1 := by
  rcases begins with ⟨d, token⟩ | token | token
  all_goals
    rw [Numeral.scan, token]
    exact ⟨_, rfl⟩

theorem read_number (limit : Nat) (b : UInt8) (c : Cursor) (atHand : c.current = some b) (enough : c.rest.length < limit)
    (begins : (∃ d, Token.ofByte b = .digit d) ∨ Token.ofByte b = .decimalPoint ∨ Token.ofByte b = .exponent) :
    (Round.repeated numberRound limit (.empty, b, c)).map (fun (result, c') => (literal result, c')) =
      some ((Item.number b c.rest).1, c.advance (Item.number b c.rest).2) := by
  obtain ⟨used, size⟩ := number_begun b c.rest begins
  have again := c.next_back b atHand
  rw [Round.repeated_ends numberRound _ _ numberValue number_round_sound limit (.empty, b, c) atHand enough, Option.map_some,
    numberValue, size, Cursor.advance, again]
  unfold Item.number
  dsimp only
  rw [size]
  cases (Numeral.empty.scan (b :: c.rest)).1 <;> rfl

theorem reference_ends (tree : Tree) (target : Target) (used : Nat) (c : Cursor) :
    reference tree target (c.advance used) =
      ((Item.reference tree target used c.rest).1, c.advance (Item.reference tree target used c.rest).2) := by
  unfold reference Item.reference Cursor.peek
  rw [Cursor.advance_rest]
  split
  · rw [← c.advance_add used 1]
    rfl
  · rfl

theorem read_name (limit : Nat) (b : UInt8) (c : Cursor) (token : Token.ofByte b = .customList) (going : c.ended = false)
    (enough : c.rest.length < limit) :
    (Round.repeated nameRound limit ([], c)).map (fun (chars, c') => named c' chars) =
      some ((Item.read b c.rest).1, c.advance (Item.read b c.rest).2) := by
  rw [Round.repeated_ends nameRound _ _ nameValue name_round_sound limit ([], c) going enough, Option.map_some]
  have rest : nameRest ([], c) = Item.nameChars 5 true c.rest := rfl
  rw [nameValue, rest, List.nil_append, Item.read, token]
  dsimp only
  cases Item.nameChars 5 true c.rest with
  | nil => rfl
  | cons char chars => exact congrArg some (reference_ends _ _ _ c)

theorem read_ends (limit : Nat) (b : UInt8) (c : Cursor) (atHand : c.current = some b) (enough : c.rest.length < limit)
    (notText : Token.ofByte b ≠ .quote) :
    read limit b c = some ((Item.read b c.rest).1, c.advance (Item.read b c.rest).2) := by
  unfold read
  cases token : Token.ofByte b with
  | digit d =>
      rw [Item.read, token]
      exact read_number limit b c atHand enough (Or.inl ⟨d, token⟩)
  | decimalPoint =>
      rw [Item.read, token]
      exact read_number limit b c atHand enough (Or.inr (Or.inl token))
  | exponent =>
      rw [Item.read, token]
      exact read_number limit b c atHand enough (Or.inr (Or.inr token))
  | customList => exact read_name limit b c token (c.current_going b atHand) enough
  | list =>
      rw [Item.read, token]
      dsimp only
      cases Item.slot 6 c.rest with
      | ok i => exact congrArg some (reference_ends _ _ 1 c)
      | error e => rfl
  | matrix =>
      rw [Item.read, token]
      dsimp only
      cases Item.slot 10 c.rest with
      | ok i => exact congrArg some (reference_ends _ _ 1 c)
      | error e => rfl
  | string | equation => rw [Item.read, token]; rfl
  | random =>
      rw [Item.read, token]
      exact congrArg some (reference_ends _ _ 0 c)
  | quote => exact absurd token notText
  | _ =>
      rw [Item.read, token]
      rfl

end Lookahead

end GraphCalc

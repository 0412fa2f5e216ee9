import GraphCalc.Proofs.Effects
import GraphCalc.Proofs.FormulaItems
import GraphCalc.Proofs.Lines
import GraphCalc.Proofs.Nodes

set_option autoImplicit false

namespace GraphCalc

-- The lowercase letters, the blank, and every character with a spelling of its own. A quote and a store
-- arrow end a string, and a superscript minus is shown as the sign it stands for.
def StringChar (c : Char) : Prop :=
  ('a' ≤ c ∧ c ≤ 'z') ∨ c = ' ' ∨ (∃ s ∈ Spelling.all, s.text = [c]) ∧ c ∉ ['"', '→', '⁻']

instance (c : Char) : Decidable (StringChar c) := inferInstanceAs (Decidable (_ ∨ _))

def Quotable (cs : List Char) : Prop := (∀ c ∈ cs, StringChar c) ∧ ¬ ['-', '>'] <:+: cs

def quoted (s : String) : String := "\"" ++ s ++ "\""

def charBytes (c : Char) : Bytes :=
  match lowercaseByte? c with
  | some b => [Byte.lowercase, b]
  | none => if c = ' ' then [Byte.space] else (Spelling.ofText? [c]).getD []

def stringBytes (cs : List Char) : Bytes := cs.flatMap charBytes

namespace Spelling

-- A spelling of one character, the lowercase letters apart, is read and shown as one byte.
def Plain (s : Spelling) : Prop :=
  ofText? s.text = some s.bytes ∧ ofBytes? s.bytes = some s.text ∧ s.bytes.length = 1 ∧
    ∀ b ∈ s.bytes, Byte.isTwoByte b = false ∧ b ∉ [Byte.quote, Byte.store, Byte.newline, Byte.space]

-- One evaluation of the table for all that is needed of it. The bytes of a spelling are tested one by one, so
-- that not every byte there is has to be gone through.
theorem table :
    (∀ s ∈ all, s.text ≠ [] ∧ ('"' ∈ s.text → s.text = ['"'])) ∧
      (∀ s ∈ all, s.text.length = 1 → s.text.all (fun c => c ∉ ['"', '→', '⁻'] ∧ lowercaseByte? c = none) →
        ofText? s.text = some s.bytes ∧ ofBytes? s.bytes = some s.text ∧ s.bytes.length = 1 ∧
          s.bytes.all (fun b => Byte.isTwoByte b = false ∧ b ∉ [Byte.quote, Byte.store, Byte.newline, Byte.space])) ∧
      longest? false ['D', 'i', 's', 'p', ' '] = some ⟨['D', 'i', 's', 'p'], [0xDE]⟩ ∧
      (∀ afterDigit, longest? afterDigit ['"'] = some ⟨['"'], [Byte.quote]⟩ ∧
        longest? afterDigit ['+'] = some ⟨['+'], [0x70]⟩) ∧
      ofText? ['"'] = some [Byte.quote] ∧ ofText? ['\n'] = none ∧ ofText? ['\r'] = none := by
  decide +kernel

theorem plain_of_single (s : Spelling) (member : s ∈ all) (single : s.text.length = 1)
    (other : s.text.all (fun c => c ∉ ['"', '→', '⁻'] ∧ lowercaseByte? c = none) = true) : s.Plain := by
  obtain ⟨read, shown, size, bytes⟩ := table.2.1 s member single other
  exact ⟨read, shown, size, fun b inside => of_decide_eq_true (List.all_eq_true.mp bytes b inside)⟩

-- A quote is never inside a longer spelling, so what stands before it is read by itself.
theorem longest_before_quote (afterDigit : Bool) (c : Char) (chars more : List Char) :
    longest? afterDigit (c :: chars ++ '"' :: more) = longest? afterDigit (c :: chars) := by
  apply longest_congr
  intro s member
  by_cases quote : '"' ∈ s.text
  · rw [(table.1 s member).2 quote]
    simp [List.isPrefixOf]
  · exact prefix_before '"' s.text (c :: chars) more quote

theorem longest_quote (afterDigit : Bool) (more : List Char) :
    longest? afterDigit ('"' :: more) = some ⟨['"'], [Byte.quote]⟩ := by
  refine (longest_congr afterDigit ('"' :: more) ['"'] fun s member => ?_).trans (table.2.2.2.1 afterDigit).1
  by_cases quote : '"' ∈ s.text
  · rw [(table.1 s member).2 quote]
    simp [List.isPrefixOf]
  · exact (prefix_before '"' s.text [] more quote).trans (prefix_before '"' s.text [] [] quote).symm

end Spelling

theorem lowercase_shown (c : Char) (b : UInt8) (letter : lowercaseByte? c = some b) : lowercaseChar? b = some c := by
  have letters : ∀ n : Fin 26, lowercaseChar? (UInt8.ofNat (if n.val < 11 then 0xB0 + n.val else 0xB1 + n.val)) =
      some (Char.ofNat ('a'.toNat + n.val)) := by
    decide
  unfold lowercaseByte? at letter
  split at letter
  · rename_i within
    have lower : 'a'.toNat ≤ c.toNat := within.1
    have upper : c.toNat ≤ 'z'.toNat := within.2
    have bound : c.toNat - 'a'.toNat < 26 := by
      have limit : 'z'.toNat - 'a'.toNat < 26 := by decide
      omega
    cases letter
    refine (letters ⟨_, bound⟩).trans ?_
    rw [Nat.add_sub_cancel' lower, Char.ofNat_toNat]
  · cases letter

theorem lowercase_none (c : Char) (other : lowercaseByte? c = none) (legal : StringChar c) :
    c = ' ' ∨ ∃ s ∈ Spelling.all, s.text = [c] ∧ s.Plain := by
  rcases legal with letter | blank | ⟨⟨s, member, text⟩, allowed⟩
  · rw [lowercaseByte?, if_pos letter] at other
    cases other
  · exact Or.inl blank
  · refine Or.inr ⟨s, member, text, Spelling.plain_of_single s member (by rw [text]; rfl) ?_⟩
    rw [text]
    exact List.all_eq_true.mpr (List.forall_mem_singleton.mpr (decide_eq_true ⟨allowed, other⟩))

theorem string_char_cases (c : Char) (legal : StringChar c) :
    (∃ b, lowercaseByte? c = some b ∧ charBytes c = [Byte.lowercase, b]) ∨
      (c = ' ' ∧ charBytes c = [Byte.space]) ∨
      ∃ b, lowercaseByte? c = none ∧ c ≠ ' ' ∧ charBytes c = [b] ∧ Spelling.ofText? [c] = some [b] ∧
        Spelling.ofBytes? [b] = some [c] ∧ Byte.isTwoByte b = false ∧
        b ∉ [Byte.quote, Byte.store, Byte.newline, Byte.space] := by
  unfold charBytes
  cases letter : lowercaseByte? c with
  | some b => exact Or.inl ⟨b, rfl, rfl⟩
  | none =>
      rcases lowercase_none c letter legal with blank | ⟨s, _, text, found, shown, single, bytes⟩
      · exact Or.inr (Or.inl ⟨blank, if_pos blank⟩)
      · by_cases blank : c = ' '
        · exact Or.inr (Or.inl ⟨blank, if_pos blank⟩)
        · obtain ⟨b, alone⟩ := List.length_eq_one_iff.mp single
          rw [alone, List.forall_mem_singleton] at bytes
          rw [text, alone] at found shown
          refine Or.inr (Or.inr ⟨b, rfl, blank, ?_, found, shown, bytes.1, bytes.2⟩)
          dsimp only
          rw [if_neg blank, found]
          rfl

theorem char_token (c : Char) (legal : StringChar c) : ∃ token : TextToken, charBytes c = token.bytes := by
  rcases string_char_cases c legal with ⟨b, _, bytes⟩ | ⟨_, bytes⟩ | ⟨b, _, _, bytes, _, _, alone, other⟩
  · exact ⟨.two Byte.lowercase b rfl, bytes⟩
  · exact ⟨.one Byte.space rfl (by decide) (by decide) (by decide), bytes⟩
  · simp only [List.mem_cons, not_or] at other
    exact ⟨.one b alone other.1 other.2.2.1 other.2.1, bytes⟩

theorem string_tokens (cs : List Char) (legal : ∀ c ∈ cs, StringChar c) :
    ∃ tokens : List TextToken, stringBytes cs = tokens.flatMap TextToken.bytes := by
  induction cs with
  | nil => exact ⟨[], rfl⟩
  | cons c cs ih =>
      obtain ⟨first, others⟩ := List.forall_mem_cons.mp legal
      obtain ⟨token, bytes⟩ := char_token c first
      obtain ⟨tokens, more⟩ := ih others
      refine ⟨token :: tokens, ?_⟩
      rw [List.flatMap_cons, ← bytes, ← more]
      rfl

section Shown

theorem detokenize_one (b : UInt8) (more : Bytes) (alone : Byte.isTwoByte b = false) :
    detokenizeChars (b :: more) = tokenText [b] ++ detokenizeChars more := by
  cases more with
  | nil => rw [detokenizeChars, detokenizeChars, List.append_nil]
  | cons second rest => rw [detokenizeChars, if_neg (by simp [alone])]

theorem char_shown (c : Char) (more : Bytes) (legal : StringChar c) :
    detokenizeChars (charBytes c ++ more) = c :: detokenizeChars more := by
  rcases string_char_cases c legal with ⟨b, letter, bytes⟩ | ⟨blank, bytes⟩ | ⟨b, _, _, bytes, _, shown, alone, other⟩
  · rw [bytes]
    change detokenizeChars (Byte.lowercase :: b :: more) = _
    have pair : Byte.isTwoByte Byte.lowercase = true := rfl
    rw [detokenizeChars, if_pos pair, pairText, if_pos rfl, lowercase_shown c b letter]
    rfl
  · rw [bytes, blank, List.singleton_append, detokenize_one Byte.space more rfl, tokenText, if_pos rfl]
    rfl
  · simp only [List.mem_cons, not_or] at other
    rw [bytes, List.singleton_append, detokenize_one b more alone, tokenText, if_neg (by simpa using other.2.2.2.1),
      if_neg (by simpa using other.2.2.1), shown]
    rfl

theorem string_shown (cs : List Char) (more : Bytes) (legal : ∀ c ∈ cs, StringChar c) :
    detokenizeChars (stringBytes cs ++ more) = cs ++ detokenizeChars more := by
  induction cs with
  | nil => rfl
  | cons c cs ih =>
      obtain ⟨first, others⟩ := List.forall_mem_cons.mp legal
      change detokenizeChars (charBytes c ++ stringBytes cs ++ more) = _
      rw [List.append_assoc, char_shown c _ first, ih others]
      rfl

theorem strings_shown (parts : List (List Char)) (legal : ∀ cs ∈ parts, ∀ c ∈ cs, StringChar c) :
    detokenizeChars (parts.map stringBytes).flatten = parts.flatten := by
  induction parts with
  | nil => rfl
  | cons cs parts ih =>
      obtain ⟨first, others⟩ := List.forall_mem_cons.mp legal
      rw [List.map_cons, List.flatten_cons, List.flatten_cons, string_shown cs _ first, ih others]

end Shown

namespace Reading

variable (r : Reading) (more : List Char)

theorem char_in_line (c : Char) (legal : StringChar c) : c ≠ '\n' ∧ c ≠ '\r' := by
  have unspelled := Spelling.table.2.2.2.2.2
  rcases string_char_cases c legal with ⟨b, letter, _⟩ | ⟨blank, _⟩ | ⟨b, _, _, _, spelled, _⟩
  · constructor <;> rintro rfl <;> cases letter
  · rw [blank]
    decide
  · constructor <;> rintro rfl
    · cases unspelled.1.symm.trans spelled
    · cases unspelled.2.symm.trans spelled

theorem read_char (c : Char) (inside : r.inString = true) (legal : StringChar c)
    (noArrow : ¬ (c = '-' ∧ more.head? = some '>')) : r.read? c more = some (charBytes c, 0) := by
  obtain ⟨notNewline, notReturn⟩ := char_in_line c legal
  rw [read?, if_neg notNewline, if_neg (by simp [notReturn, inside]), if_pos inside, stringToken?]
  rcases string_char_cases c legal with ⟨b, letter, bytes⟩ | ⟨blank, bytes⟩ | ⟨b, other, notBlank, bytes, spelled, _⟩
  · rw [letter, bytes]
  · rw [bytes, blank]
    rfl
  · rw [other]
    dsimp only
    rw [if_neg notBlank, if_neg noArrow, spelled, bytes]
    rfl

theorem after_char (c : Char) (inside : r.inString = true) (legal : StringChar c) :
    (r.after c (charBytes c) 0).inString = true := by
  rw [after, if_neg (char_in_line c legal).1]
  dsimp only
  obtain ⟨notQuote, notStore⟩ : charBytes c ≠ [Byte.quote] ∧ charBytes c ≠ [Byte.store] := by
    rcases string_char_cases c legal with ⟨b, _, bytes⟩ | ⟨_, bytes⟩ | ⟨b, _, _, bytes, _, _, _, other⟩
    · simp [bytes]
    · rw [bytes]
      decide
    · simp only [List.mem_cons, not_or] at other
      simp [bytes, other.1, other.2.1]
  rw [if_neg notQuote, if_neg notStore, inside]

theorem read_closing (inside : r.inString = true) : r.read? '"' more = some ([Byte.quote], 0) := by
  have notLetter : lowercaseByte? '"' = none := rfl
  rw [read?, if_neg (by decide), if_neg (by simp [inside]), if_pos inside, stringToken?, notLetter]
  dsimp only
  rw [if_neg (by decide), if_neg (by simp), Spelling.table.2.2.2.2.1]
  rfl

theorem read_outside (c : Char) (outside : r.inString = false) (visible : c ∉ ['\n', '\r', ' ', '\t']) :
    r.read? c more = r.token? c more := by
  simp only [List.mem_cons, List.not_mem_nil, or_false, not_or] at visible
  rw [read?, if_neg visible.1, if_neg (by simp [visible]), if_neg (by simp [outside])]

theorem read_opening (outside : r.inString = false) : r.read? '"' more = some ([Byte.quote], 0) := by
  rw [r.read_outside more '"' outside (by decide), token?, Spelling.longest_quote]
  rfl

theorem read_plus (outside : r.inString = false) : r.read? '+' ('"' :: more) = some ([0x70], 0) := by
  have alone := Spelling.longest_before_quote r.afterDigit '+' [] more
  rw [r.read_outside _ '+' outside (by decide), token?]
  rw [List.cons_append, List.nil_append] at alone
  rw [alone, (Spelling.table.2.2.2.1 r.afterDigit).2]
  rfl

theorem read_display : Reading.start.read? 'D' ('i' :: 's' :: 'p' :: ' ' :: '"' :: more) = some ([0xDE], 3) := by
  have alone := Spelling.longest_before_quote false 'D' ['i', 's', 'p', ' '] more
  rw [Reading.start.read_outside _ 'D' rfl (by decide), token?]
  change (Spelling.longest? false (['D', 'i', 's', 'p', ' '] ++ '"' :: more)).map _ = _
  rw [alone, Spelling.table.2.2.1]
  rfl

end Reading

section Tokens

theorem tokenize_string (r : Reading) (cs more : List Char) (inside : r.inString = true)
    (legal : ∀ c ∈ cs, StringChar c) (noArrow : ¬ ['-', '>'] <:+: cs) :
    ∃ r' : Reading, r'.inString = false ∧
      tokenizeFrom r (cs ++ '"' :: more) = (tokenizeFrom r' more).map (stringBytes cs ++ Byte.quote :: ·) := by
  induction cs generalizing r with
  | nil =>
      refine ⟨r.after '"' [Byte.quote] 0, ?_, ?_⟩
      · change (!r.inString) = false
        rw [inside]
        rfl
      · rw [List.nil_append, tokenize_from_cons r '"' more [Byte.quote] 0 (r.read_closing more inside)]
        rfl
  | cons c cs ih =>
      obtain ⟨first, others⟩ := List.forall_mem_cons.mp legal
      have here : ¬ (c = '-' ∧ (cs ++ '"' :: more).head? = some '>') := by
        rintro ⟨rfl, next⟩
        cases cs with
        | nil => cases next
        | cons d ds =>
            cases next
            exact noArrow ⟨[], ds, rfl⟩
      have later : ¬ ['-', '>'] <:+: cs := fun arrow => noArrow (arrow.trans (List.suffix_cons c cs).isInfix)
      obtain ⟨r', outside, rest⟩ := ih (r.after c (charBytes c) 0) (r.after_char c inside first) others later
      refine ⟨r', outside, ?_⟩
      rw [List.cons_append, tokenize_from_cons r c _ (charBytes c) 0 (r.read_char _ c inside first here), List.drop_zero, rest]
      cases tokenizeFrom r' more with
      | error f => rfl
      | ok bytes =>
          change Except.ok (charBytes c ++ (stringBytes cs ++ Byte.quote :: bytes)) =
            .ok (charBytes c ++ stringBytes cs ++ Byte.quote :: bytes)
          rw [List.append_assoc]

def quotedChars (cs : List Char) : List Char := '"' :: (cs ++ ['"'])

def quotedBytes (cs : List Char) : Bytes := Byte.quote :: (stringBytes cs ++ [Byte.quote])

theorem tokenize_quoted (r : Reading) (cs more : List Char) (outside : r.inString = false)
    (quotable : Quotable cs) :
    ∃ r' : Reading, r'.inString = false ∧
      tokenizeFrom r (quotedChars cs ++ more) = (tokenizeFrom r' more).map (quotedBytes cs ++ ·) := by
  have opened : (r.after '"' [Byte.quote] 0).inString = true := by
    change (!r.inString) = true
    rw [outside]
    rfl
  obtain ⟨r', closed, rest⟩ := tokenize_string _ cs more opened quotable.1 quotable.2
  refine ⟨r', closed, ?_⟩
  rw [quotedChars, List.cons_append, List.append_assoc, List.singleton_append,
    tokenize_from_cons r '"' _ [Byte.quote] 0 (r.read_opening _ outside), List.drop_zero, rest]
  cases tokenizeFrom r' more with
  | error f => rfl
  | ok bytes =>
      change Except.ok (Byte.quote :: (stringBytes cs ++ Byte.quote :: bytes)) =
        .ok (Byte.quote :: (stringBytes cs ++ [Byte.quote] ++ bytes))
      rw [List.append_assoc, List.singleton_append]

theorem tokenize_added (r : Reading) (parts : List (List Char)) (outside : r.inString = false)
    (quotable : ∀ cs ∈ parts, Quotable cs) :
    tokenizeFrom r (parts.flatMap fun cs => '+' :: quotedChars cs) = .ok (parts.flatMap fun cs => 0x70 :: quotedBytes cs) := by
  induction parts generalizing r with
  | nil => rw [List.flatMap_nil, List.flatMap_nil, tokenizeFrom]
  | cons cs parts ih =>
      obtain ⟨first, others⟩ := List.forall_mem_cons.mp quotable
      have plus : r.read? '+' (quotedChars cs ++ parts.flatMap fun cs => '+' :: quotedChars cs) = some ([0x70], 0) :=
        r.read_plus _ outside
      have still : (r.after '+' [0x70] 0).inString = false := outside
      obtain ⟨r', closed, rest⟩ := tokenize_quoted _ cs (parts.flatMap fun cs => '+' :: quotedChars cs) still first
      rw [List.flatMap_cons, List.flatMap_cons, List.cons_append, tokenize_from_cons r '+' _ [0x70] 0 plus,
        List.drop_zero, rest, ih r' closed others]
      rfl

theorem tokenize_display (first : List Char) (rest : List (List Char)) (quotable : ∀ cs ∈ first :: rest, Quotable cs) :
    tokenizeFrom .start ('D' :: 'i' :: 's' :: 'p' :: ' ' :: (quotedChars first ++ rest.flatMap fun cs => '+' :: quotedChars cs)) =
      .ok (0xDE :: (quotedBytes first ++ rest.flatMap fun cs => 0x70 :: quotedBytes cs)) := by
  obtain ⟨firstQuotable, others⟩ := List.forall_mem_cons.mp quotable
  generalize later : rest.flatMap (fun cs => '+' :: quotedChars cs) = more
  let r := Reading.start.after 'D' [0xDE] 3
  have word : Reading.start.read? 'D' ('i' :: 's' :: 'p' :: ' ' :: (quotedChars first ++ more)) = some ([0xDE], 3) :=
    Reading.read_display _
  have blank : r.read? ' ' (quotedChars first ++ more) = some ([], 0) := rfl
  have outside : (r.after ' ' [] 0).inString = false := rfl
  obtain ⟨r', closed, read⟩ := tokenize_quoted _ first more outside firstQuotable
  rw [tokenize_from_cons _ 'D' _ [0xDE] 3 word]
  change (tokenizeFrom r (' ' :: (quotedChars first ++ more))).map _ = _
  rw [tokenize_from_cons r ' ' _ [] 0 blank, List.drop_zero, read, ← later, tokenize_added r' rest closed others]
  rfl

end Tokens

def added (tree : Tree) (parts : List Bytes) : Tree :=
  parts.foldl (fun sum bytes => .operator .add [sum, .text bytes]) tree

namespace Expression

theorem read_quoted (cs : List Char) (tail : Bytes) (legal : ∀ c ∈ cs, StringChar c) :
    Item.read Byte.quote (stringBytes cs ++ [Byte.quote] ++ tail) =
      (.ok (.text (stringBytes cs) true), (stringBytes cs ++ [Byte.quote]).length) := by
  obtain ⟨tokens, bytes⟩ := string_tokens cs legal
  have token : Token.ofByte Byte.quote = .quote := rfl
  unfold Item.read
  rw [token]
  dsimp only
  rw [bytes, List.append_assoc, List.singleton_append, Item.text_bytes_closed, List.length_append]
  rfl

theorem read_from_item (stops : Stops) (s s' : Stacks) (c : Cursor) (b : UInt8) (bytes tail : Bytes) (item : Item)
    (running : c.interrupted = false) (more : c.rest = b :: (bytes ++ tail)) (inside : Byte.endsLine b = false)
    (onward : stops.endAt s b = false) (read : Item.read b (bytes ++ tail) = (.ok item, bytes.length))
    (accepted : s.accept item = .ok s') :
    ∃ c' : Cursor, c'.interrupted = false ∧ c'.rest = tail ∧ readFrom stops s c = readFrom stops s' c' := by
  have stepped := step_item s b c.next item bytes.length (by rw [Cursor.next_rest, more]; exact read)
  have step : step s b c.next = (.ok s', c.next.advance bytes.length) :=
    Prod.ext (stepped.1.trans accepted) (stepped.2 s' accepted)
  refine ⟨c.next.advance bytes.length, ?_, ?_, ?_⟩
  · rw [Cursor.advance_interrupted, Cursor.next_interrupted, running]
  · rw [Cursor.advance_rest, Cursor.next_rest, more, List.tail_cons, List.drop_left]
  · rw [read_from_cons stops s c running b _ more, if_neg (by simp [inside, onward]), step]
    rfl

theorem quote_goes_on (stops : Stops) (s : Stacks) : stops.endAt s Byte.quote = false := by
  simp [Stops.endAt, Byte.quote, Byte.comma, Byte.closeParen]

theorem plus_goes_on (stops : Stops) (s : Stacks) : stops.endAt s 0x70 = false := by
  simp [Stops.endAt, Byte.comma, Byte.closeParen]

-- `adds` and `ends` say that the stacks hold `sum`: a plus sign finds it finished, and so does the end.
theorem read_added (stops : Stops) (s : Stacks) (sum : Tree) (parts : List (List Char)) (c : Cursor)
    (adds : s.accept (.operator .add) = .ok ⟨[sum], [.operator .add], 0, false⟩) (ends : s.finish = .ok sum)
    (running : c.interrupted = false) (more : c.rest = parts.flatMap fun cs => 0x70 :: quotedBytes cs)
    (legal : ∀ cs ∈ parts, ∀ c ∈ cs, StringChar c) :
    ∃ c' : Cursor, c'.rest = [] ∧ c'.ended = true ∧
      readFrom stops s c = (.ok (added sum (parts.map stringBytes)), c') := by
  induction parts generalizing s sum c with
  | nil =>
      refine ⟨c.next, ?_, ?_, ?_⟩
      · rw [Cursor.next_rest, more]
        rfl
      · rw [Cursor.next, more]
        rfl
      · rw [read_from_last stops s c running more, ends]
        rfl
  | cons cs parts ih =>
      obtain ⟨first, others⟩ := List.forall_mem_cons.mp legal
      obtain ⟨c₁, running₁, rest₁, plus⟩ := read_from_item stops s _ c 0x70 []
        (quotedBytes cs ++ parts.flatMap fun cs => 0x70 :: quotedBytes cs) (.operator .add) running more rfl
        (plus_goes_on stops s) rfl adds
      obtain ⟨c₂, running₂, rest₂, string⟩ := read_from_item stops ⟨[sum], [.operator .add], 0, false⟩
        ⟨[.text (stringBytes cs), sum], [.operator .add], 0, true⟩ c₁ Byte.quote (stringBytes cs ++ [Byte.quote]) (parts.flatMap fun cs => 0x70 :: quotedBytes cs)
        (.text (stringBytes cs) true) running₁ rest₁ rfl (quote_goes_on stops _) (read_quoted cs _ first) rfl
      obtain ⟨c', done, ended, last⟩ := ih ⟨[.text (stringBytes cs), sum], [.operator .add], 0, true⟩
        (.operator .add [sum, .text (stringBytes cs)]) c₂ rfl rfl running₂ rest₂ others
      exact ⟨c', done, ended, (plus.trans string).trans last⟩

theorem read_strings (stops : Stops) (first : List Char) (rest : List (List Char)) (c : Cursor)
    (running : c.interrupted = false) (more : c.rest = quotedBytes first ++ rest.flatMap fun cs => 0x70 :: quotedBytes cs)
    (legal : ∀ cs ∈ first :: rest, ∀ c ∈ cs, StringChar c) :
    ∃ c' : Cursor, c'.rest = [] ∧ c'.ended = true ∧
      readFrom stops .empty c = (.ok (added (.text (stringBytes first)) (rest.map stringBytes)), c') := by
  obtain ⟨firstLegal, others⟩ := List.forall_mem_cons.mp legal
  obtain ⟨c₁, running₁, rest₁, string⟩ := read_from_item stops .empty ⟨[.text (stringBytes first)], [], 0, true⟩ c Byte.quote
    (stringBytes first ++ [Byte.quote]) _ (.text (stringBytes first) true) running more rfl (quote_goes_on stops _)
    (read_quoted first _ firstLegal) rfl
  obtain ⟨c', done, ended, last⟩ := read_added stops ⟨[.text (stringBytes first)], [], 0, true⟩
    (.text (stringBytes first)) rest c₁ rfl rfl running₁ rest₁ others
  exact ⟨c', done, ended, string.trans last⟩

end Expression

namespace Statement

theorem parse_display (first : List Char) (rest : List (List Char)) (legal : ∀ cs ∈ first :: rest, ∀ c ∈ cs, StringChar c) :
    parseProgram (0xDE :: (quotedBytes first ++ rest.flatMap fun cs => 0x70 :: quotedBytes cs)) false =
      .ok [.command .display [added (.text (stringBytes first)) (rest.map stringBytes)]] := by
  generalize bytes : (quotedBytes first ++ rest.flatMap fun cs => 0x70 :: quotedBytes cs) = more
  let c : Cursor := ⟨[0xDE], more, false, false⟩
  obtain ⟨c', done, ended, read⟩ := Expression.read_strings ⟨true, false⟩ first rest c rfl bytes.symm legal
  have started : endOfLine more.head? = false := by
    rw [← bytes]
    rfl
  have finished : c'.current = none := by rw [Cursor.current, ended]; rfl
  have arguments : readArguments false c = (.ok [added (.text (stringBytes first)) (rest.map stringBytes)], c') := by
    rw [read_arguments_eq, Expression.parse_of_read _ c c' _ read, afterArgument, finished]
    rfl
  refine parse_program_single 0xDE more rfl _ c' ?_ done
  have token : Token.ofByte 0xDE = .command .display := rfl
  rw [readOne, token]
  change ((readShape .args c).1.map _, (readShape .args c).2) = _
  rw [readShape, if_neg (by rw [Bool.not_eq_true]; exact started)]
  change ((readArguments false c).1.map _, (readArguments false c).2) = _
  rw [arguments]
  rfl

end Statement

namespace Evaluation

theorem evaluate_added (env : Surroundings) (equation : Bytes → Supply → Outcome Value) (tree : Tree) (bytes : Bytes)
    (parts : List Bytes) (s : Supply) (value : evaluateWith env equation tree s = (.ok (.string bytes), s)) :
    evaluateWith env equation (added tree parts) s = (.ok (.string (bytes ++ parts.flatten)), s) := by
  induction parts generalizing tree bytes with
  | nil => rw [List.flatten_nil, List.append_nil]; exact value
  | cons part parts ih =>
      rw [List.flatten_cons, ← List.append_assoc]
      refine ih (.operator .add [tree, .text part]) (bytes ++ part) ?_
      rw [evaluate_with_node env equation _ s (by simp)]
      change andThen (evaluateAllWith env equation [tree, .text part] s) _ = _
      rw [evaluateAllWith, value]
      rfl

end Evaluation

namespace Machine

theorem run_display (m : Machine) (first : List Char) (rest : List (List Char)) (running : m.interrupted = false)
    (legal : ∀ cs ∈ first :: rest, ∀ c ∈ cs, StringChar c) :
    m.run [.command .display [added (.text (stringBytes first)) (rest.map stringBytes)]] =
      (.ok none, { m with screen := m.screen.display (String.ofList (first ++ rest.flatten)) }) := by
  have value : m.evaluate (added (.text (stringBytes first)) (rest.map stringBytes)) =
      (.ok (.string (stringBytes first ++ (rest.map stringBytes).flatten)), m) := by
    rw [evaluate, Evaluation.evaluate, Evaluation.evaluate_added _ _ _ (stringBytes first) _ _ rfl]
  have shown : detokenize (stringBytes first ++ (rest.map stringBytes).flatten) = String.ofList (first ++ rest.flatten) :=
    congrArg String.ofList (strings_shown (first :: rest) legal)
  rw [run, runFrom, runOne, if_neg (by simp [running])]
  simp only [perform, displayAll, value, lineText, shown]
  rfl

theorem display_text (first : String) (rest : List String) :
    ("Disp " ++ "+".intercalate ((first :: rest).map quoted)).toList =
      'D' :: 'i' :: 's' :: 'p' :: ' ' :: (quotedChars first.toList ++
        (rest.map String.toList).flatMap fun cs => '+' :: quotedChars cs) := by
  have sum : ("+".intercalate ((first :: rest).map quoted)).toList =
      quotedChars first.toList ++ (rest.map String.toList).flatMap fun cs => '+' :: quotedChars cs := by
    induction rest generalizing first with
    | nil => simp [quoted, quotedChars]
    | cons second rest ih =>
        rw [List.map_cons, List.map_cons, String.intercalate_cons_cons, ← List.map_cons, String.toList_append, ih]
        simp [quoted, quotedChars]
  rw [String.toList_append, sum]
  rfl

theorem strings_displayed_as_written (m : Machine) (strings : List String) (nonempty : strings ≠ [])
    (quotable : ∀ s ∈ strings, Quotable s.toList) (running : m.interrupted = false) :
    m.runText ("Disp " ++ "+".intercalate (strings.map quoted)) =
        (.ok none, { m with screen := m.screen.display (String.join strings) }) ∧
      (m.screen.display (String.join strings)).lines = m.screen.lines ++ [String.join strings] := by
  refine ⟨?_, rfl⟩
  obtain ⟨first, rest, rfl⟩ := List.exists_cons_of_ne_nil nonempty
  have parts : ∀ cs ∈ first.toList :: rest.map String.toList, Quotable cs := by
    rw [← List.map_cons]
    exact List.forall_mem_map.mpr quotable
  have legal (cs : List Char) (member : cs ∈ first.toList :: rest.map String.toList) : ∀ c ∈ cs, StringChar c :=
    (parts cs member).1
  have program : programOf ("Disp " ++ "+".intercalate ((first :: rest).map quoted)) m.interrupted =
      .ok [.command .display [added (.text (stringBytes first.toList)) ((rest.map String.toList).map stringBytes)]] := by
    rw [programOf, tokenize, display_text, tokenize_display _ _ parts, running]
    exact Statement.parse_display _ _ legal
  have joined : String.ofList (first.toList ++ (rest.map String.toList).flatten) = String.join (first :: rest) := by
    rw [← String.toList_inj]
    simp [List.flatMap_def]
  rw [runText, program]
  dsimp only
  rw [m.run_display _ _ running legal, joined]
  rfl

-- A store arrow cut in two is displayed; a colon and a comma mean nothing inside a string.
theorem split_arrow_displayed :
    (∀ s ∈ ["go: A,2", "-", ">"], Quotable s.toList) ∧
      (initial.runText "Disp \"go: A,2\"+\"-\"+\">\"").1 = .ok none ∧
      (initial.runText "Disp \"go: A,2\"+\"-\"+\">\"").2.screen.lines = ["go: A,2->"] := by
  have legal : ∀ c ∈ ['g', 'o', ':', ' ', 'A', ',', '2', '-', '>'], StringChar c := by
    simp only [List.forall_mem_cons, List.not_mem_nil, false_imp_iff, implies_true, and_true]
    decide +kernel
  have within (cs : List Char) (part : cs ⊆ ['g', 'o', ':', ' ', 'A', ',', '2', '-', '>']) (c : Char) (member : c ∈ cs) :
      StringChar c := legal c (part member)
  have short (c : Char) : ¬ ['-', '>'] <:+: [c] := fun arrow => absurd arrow.length_le (by simp)
  have noMinus : ¬ ['-', '>'] <:+: ['g', 'o', ':', ' ', 'A', ',', '2'] := fun arrow =>
    absurd (arrow.subset List.mem_cons_self) (by decide)
  have quotable : ∀ s ∈ ["go: A,2", "-", ">"], Quotable s.toList := by
    simp only [List.forall_mem_cons, List.not_mem_nil, false_imp_iff, implies_true, and_true]
    exact ⟨⟨within _ (by decide), noMinus⟩, ⟨within _ (by decide), short '-'⟩, ⟨within _ (by decide), short '>'⟩⟩
  have text : "Disp \"go: A,2\"+\"-\"+\">\"" = "Disp " ++ "+".intercalate (["go: A,2", "-", ">"].map quoted) := by decide
  have displayed := strings_displayed_as_written initial ["go: A,2", "-", ">"] (by simp) quotable rfl
  rw [text, displayed.1]
  exact ⟨quotable, rfl, displayed.2⟩

end Machine

end GraphCalc

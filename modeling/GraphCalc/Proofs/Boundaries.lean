import GraphCalc.Proofs.Items

set_option autoImplicit false

namespace GraphCalc

-- Tokens that go on with no item. A negation may be the sign of an exponent.
def Token.bounds : Token → Bool
  | .operator op => op != .negate
  | .closeParen | .closeBracket | .closeBrace | .newline | .colon => true
  | _ => false

def Bounded (tail : Bytes) : Prop := ∀ b ∈ tail.head?, (Token.ofByte b).bounds = true

theorem in_line (b : UInt8) (notNewline : Token.ofByte b ≠ .newline) (notColon : Token.ofByte b ≠ .colon) :
    Byte.endsLine b = false := by
  have newline : b ≠ Byte.newline := by rintro rfl; exact notNewline rfl
  have colon : b ≠ Byte.colon := by rintro rfl; exact notColon rfl
  simp [Byte.endsLine, newline, colon]

theorem bounded_not_open (tail : Bytes) (bounded : Bounded tail) : tail.head? ≠ some Byte.openParen := by
  intro head
  have impossible := bounded _ head
  cases impossible

theorem bounded_not_row (tail : Bytes) (bounded : Bounded tail) : tail.head? ≠ some Byte.openBracket := by
  intro head
  have impossible := bounded _ head
  cases impossible

namespace Numeral

theorem take_bounds (n : Numeral) (token : Token) (bounds : token.bounds = true) : n.take token = .done := by
  cases token with
  | operator op => cases op <;> first | rfl | cases bounds
  | closeParen | closeBracket | closeBrace | newline | colon => rfl
  | _ => cases bounds

theorem scan_bounded (n : Numeral) (rest tail : Bytes) (bounded : Bounded tail) : n.scan (rest ++ tail) = n.scan rest := by
  induction rest generalizing n with
  | nil =>
      cases tail with
      | nil => rfl
      | cons b more =>
          have stop := take_bounds n _ (bounded b rfl)
          simp only [List.nil_append, scan, stop]
  | cons b rest ih =>
      rw [List.cons_append, scan, scan]
      cases n.take (Token.ofByte b) with
      | more n' => simp only [ih n']
      | _ => rfl

theorem scan_within (n : Numeral) (rest : Bytes) : (n.scan rest).2 ≤ rest.length := by
  induction rest generalizing n with
  | nil => exact Nat.le_refl 0
  | cons b rest ih =>
      rw [scan, List.length_cons]
      cases n.take (Token.ofByte b) with
      | more n' => exact Nat.succ_le_succ (ih n')
      | _ => simp

end Numeral

namespace Item

theorem number_bounded (b : UInt8) (rest tail : Bytes) (bounded : Bounded tail) :
    number b (rest ++ tail) = number b rest := by
  unfold number
  rw [← List.cons_append, Numeral.scan_bounded _ _ _ bounded]

theorem name_char_bounds (first : Bool) (token : Token) (bounds : token.bounds = true) : nameChar? first token = none := by
  cases token with
  | operator op => rfl
  | closeParen | closeBracket | closeBrace | newline | colon => rfl
  | _ => cases bounds

theorem name_chars_bounded (room : Nat) (first : Bool) (rest tail : Bytes) (bounded : Bounded tail) :
    nameChars room first (rest ++ tail) = nameChars room first rest := by
  induction rest generalizing room first with
  | nil =>
      cases room with
      | zero => rfl
      | succ room =>
          cases tail with
          | nil => rfl
          | cons b more =>
              have stop := name_char_bounds first _ (bounded b rfl)
              simp only [List.nil_append, nameChars, stop]
  | cons b rest ih =>
      cases room with
      | zero => rfl
      | succ room =>
          rw [List.cons_append, nameChars, nameChars]
          cases nameChar? first (Token.ofByte b) with
          | none => rfl
          | some c => simp only [ih room false]

theorem name_chars_within (room : Nat) (first : Bool) (rest : Bytes) :
    (nameChars room first rest).length ≤ rest.length := by
  induction rest generalizing room first with
  | nil => cases room <;> exact Nat.le_refl 0
  | cons b rest ih =>
      cases room with
      | zero => exact Nat.zero_le _
      | succ room =>
          rw [nameChars]
          cases nameChar? first (Token.ofByte b) with
          | none => exact Nat.zero_le _
          | some c => exact Nat.succ_le_succ (ih room false)

theorem text_bytes_within (rest : Bytes) : (textBytes rest).2.2 ≤ rest.length := by
  fun_induction textBytes rest with
  | case7 b second rest _ _ _ bytes closed used found ih =>
      rw [found] at ih
      exact Nat.add_le_add_right ih 2
  | case8 b second rest _ _ _ bytes closed used found ih =>
      rw [found] at ih
      exact Nat.succ_le_succ ih
  | _ => simp

theorem text_bytes_ended (rest tail : Bytes) (ended : (textBytes rest).2.1 = true ∨ (textBytes rest).2.2 < rest.length) :
    textBytes (rest ++ tail) = textBytes rest := by
  fun_induction textBytes rest with
  | case1 => simp at ended
  | case2 => cases tail <;> rfl
  | case3 b notQuote ends =>
      cases tail with
      | nil => rw [List.append_nil, textBytes, if_neg notQuote, if_pos ends]
      | cons next more => rw [List.singleton_append, textBytes, if_neg notQuote, if_pos ends]
  | case4 => simp at ended
  | case5 => rfl
  | case6 b second rest notQuote ends => rw [List.cons_append, List.cons_append, textBytes, if_neg notQuote, if_pos ends]
  | case7 b second rest notQuote inside pair bytes closed used found ih =>
      rw [found] at ih
      have later := ih (ended.imp id fun less => by simpa using less)
      rw [List.cons_append, List.cons_append, textBytes, if_neg notQuote, if_neg inside, if_pos pair, later]
  | case8 b second rest notQuote inside alone bytes closed used found ih =>
      rw [found] at ih
      have later := ih (ended.imp id fun less => by simpa using less)
      rw [List.cons_append] at later
      rw [List.cons_append, List.cons_append, textBytes, if_neg notQuote, if_neg inside, if_neg alone, later]

theorem reference_bounded (tree : Tree) (target : Target) (used : Nat) (rest tail : Bytes) (bounded : Bounded tail)
    (within : used ≤ rest.length) : reference tree target used (rest ++ tail) = reference tree target used rest := by
  have follows : ((rest ++ tail).drop used).head? = some Byte.openParen ↔ (rest.drop used).head? = some Byte.openParen := by
    rw [List.drop_append_of_le_length within]
    cases rest.drop used with
    | nil => simpa using bounded_not_open tail bounded
    | cons b later => simp
  unfold reference
  simp only [follows]

theorem reference_within (tree : Tree) (target : Target) (used : Nat) (rest : Bytes) (within : used ≤ rest.length) :
    (reference tree target used rest).2 ≤ rest.length := by
  unfold reference
  split
  · rename_i follows
    have more : rest.drop used ≠ [] := by
      intro none
      rw [none] at follows
      cases follows
    have longer : used < rest.length := by
      rcases Nat.lt_or_eq_of_le within with less | rfl
      · exact less
      · exact absurd List.drop_length more
    exact longer
  · exact within

theorem row_follows_bounded (rest tail : Bytes) (bounded : Bounded tail) :
    (rest ++ tail).head? = some Byte.openBracket ↔ rest.head? = some Byte.openBracket := by
  cases rest with
  | nil => simpa using bounded_not_row tail bounded
  | cons b later => simp

def indexed : Token → Bool
  | .list | .matrix | .string | .equation => true
  | _ => false

theorem slot_append (count i : UInt8) (later tail : Bytes) : slot count (i :: later ++ tail) = slot count (i :: later) := rfl

theorem read_bounded (b : UInt8) (rest tail : Bytes) (bounded : Bounded tail)
    (index : indexed (Token.ofByte b) = true → rest ≠ [])
    (text : Token.ofByte b = .quote → textBytes (rest ++ tail) = textBytes rest) : read b (rest ++ tail) = read b rest := by
  unfold read
  cases token : Token.ofByte b with
  | digit _ | decimalPoint | exponent => exact number_bounded b rest tail bounded
  | list | matrix =>
      obtain ⟨i, later, rfl⟩ := List.exists_cons_of_ne_nil (index (by rw [token]; rfl))
      dsimp only
      rw [slot_append]
      split
      · exact reference_bounded _ _ 1 (i :: later) tail bounded (by simp)
      · rfl
  | string | equation =>
      obtain ⟨i, later, rfl⟩ := List.exists_cons_of_ne_nil (index (by rw [token]; rfl))
      rfl
  | customList =>
      dsimp only
      rw [name_chars_bounded _ _ _ _ bounded]
      cases chars : nameChars 5 true rest with
      | nil => rfl
      | cons first others =>
          have within := name_chars_within 5 true rest
          rw [chars] at within
          exact reference_bounded _ _ _ rest tail bounded within
  | quote =>
      dsimp only
      rw [text token]
  | closeBracket => simp only [row_follows_bounded rest tail bounded]
  | random => exact reference_bounded _ _ 0 rest tail bounded (Nat.zero_le _)
  | _ => rfl

theorem read_within (b : UInt8) (rest : Bytes) (index : indexed (Token.ofByte b) = true → rest ≠ []) :
    (read b rest).2 ≤ rest.length := by
  unfold read
  cases token : Token.ofByte b with
  | digit _ | decimalPoint | exponent =>
      have scanned := Numeral.scan_within .empty (b :: rest)
      rw [List.length_cons] at scanned
      change (Numeral.empty.scan (b :: rest)).2 - 1 ≤ rest.length
      omega
  | list | matrix =>
      obtain ⟨i, later, rfl⟩ := List.exists_cons_of_ne_nil (index (by rw [token]; rfl))
      dsimp only
      split
      · exact reference_within _ _ 1 (i :: later) (by simp)
      · simp
  | string | equation =>
      obtain ⟨i, later, rfl⟩ := List.exists_cons_of_ne_nil (index (by rw [token]; rfl))
      simp
  | customList =>
      have within := name_chars_within 5 true rest
      dsimp only
      split
      · exact Nat.zero_le _
      · exact reference_within _ _ _ rest within
  | quote => exact text_bytes_within rest
  | random => exact reference_within _ _ 0 rest (Nat.zero_le _)
  | _ => exact Nat.zero_le _

theorem read_index (b : UInt8) (rest : Bytes) (item : Item) (used : Nat) (done : read b rest = (.ok item, used))
    (isIndexed : indexed (Token.ofByte b) = true) : rest ≠ [] := by
  rintro rfl
  unfold read at done
  cases token : Token.ofByte b with rw [token] at done isIndexed
  | list | matrix | string | equation => cases done
  | _ => cases isIndexed

end Item

end GraphCalc

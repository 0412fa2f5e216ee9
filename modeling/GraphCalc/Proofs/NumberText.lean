import GraphCalc.Proofs.LongestSpelling

/-!
Numbers before a power. The digits `10` and the opening of a power after them spell one token, the power of
ten, unless a digit or a decimal point stands right before them. An exponent of ten has its mark or its sign
there, so it is the one place where a number is cut.
-/

set_option autoImplicit false

namespace GraphCalc

inductive NumberSymbol where
  | digit (d : Fin 10)
  | point
  | exponent
  | minus
deriving DecidableEq

namespace NumberSymbol

def byte : NumberSymbol → UInt8
  | .digit d => Byte.digitZero + UInt8.ofNat d
  | .point => Byte.decimalPoint
  | .exponent => Byte.exponent
  | .minus => Byte.negate

def text : NumberSymbol → List Char
  | .digit d => [Nat.digitChar d]
  | .point => ['.']
  | .exponent => ['|', 'E']
  | .minus => ['~']

def spelling (s : NumberSymbol) : Spelling := ⟨s.text, [s.byte]⟩

def continues : NumberSymbol → Bool
  | .digit _ | .point => true
  | .exponent | .minus => false

theorem continues_byte (s : NumberSymbol) :
    (decide (Byte.digitZero ≤ s.byte) && decide (s.byte ≤ Byte.decimalPoint)) = s.continues := by
  cases s with
  | digit d => exact (by decide : ∀ d : Fin 10, (decide (Byte.digitZero ≤ (digit d).byte) &&
      decide ((digit d).byte ≤ Byte.decimalPoint)) = true) d
  | _ => rfl

end NumberSymbol

namespace Spelling

-- One evaluation of the table for the symbols of a number and for the opening of a power.
theorem number_table :
    (∀ d : Fin 10, starting (Nat.digitChar d) =
      (NumberSymbol.digit d).spelling :: if d = 1 then [⟨tenPower, [Builtin.tenPower.byte]⟩] else []) ∧
      starting '.' = [NumberSymbol.point.spelling] ∧ starting '|' = [NumberSymbol.exponent.spelling, ⟨['|', 'L'], [Byte.customList]⟩] ∧
      starting '~' = [NumberSymbol.minus.spelling] ∧ starting '^' = [⟨['^'], [Operator.power.byte]⟩] ∧
      starting '(' = [⟨['('], [Byte.openParen]⟩] := by
  decide +kernel

theorem fits_single (afterDigit : Bool) (c : Char) (more : List Char) (bytes : Bytes) :
    fits afterDigit (c :: more) ⟨[c], bytes⟩ = true := by
  have other : ([c] == tenPower) = false := by simp [tenPower]
  simp [fits, other]

theorem fits_ten (afterDigit : Bool) (more : List Char) (bytes : Bytes) :
    fits afterDigit ('1' :: more) ⟨tenPower, bytes⟩ = (['0', '^', '('].isPrefixOf more && !afterDigit) := by
  change ((('1' == '1') && ['0', '^', '('].isPrefixOf more) && !(afterDigit && true)) = _
  rw [Bool.and_true, beq_self_eq_true, Bool.true_and]

theorem longest_alone (afterDigit : Bool) (c : Char) (more : List Char) (bytes : Bytes)
    (alone : starting c = [⟨[c], bytes⟩]) : longest? afterDigit (c :: more) = some ⟨[c], bytes⟩ := by
  rw [longest_starting, alone, List.filter_cons_of_pos (fits_single afterDigit c more bytes)]
  rfl

theorem longest_one (afterDigit : Bool) (more : List Char) :
    longest? afterDigit ('1' :: more) =
      if afterDigit = false ∧ ['0', '^', '('] <+: more then some ⟨tenPower, [Builtin.tenPower.byte]⟩
      else some (NumberSymbol.digit 1).spelling := by
  have ones : starting '1' = [⟨['1'], [(NumberSymbol.digit 1).byte]⟩, ⟨tenPower, [Builtin.tenPower.byte]⟩] :=
    number_table.1 1
  rw [longest_starting, ones, List.filter_cons_of_pos (fits_single afterDigit '1' more _)]
  by_cases power : afterDigit = false ∧ ['0', '^', '('] <+: more
  · have fitting : fits afterDigit ('1' :: more) ⟨tenPower, [Builtin.tenPower.byte]⟩ = true := by
      rw [fits_ten, power.1, List.isPrefixOf_iff_prefix.mpr power.2]
      rfl
    rw [if_pos power, List.filter_cons_of_pos fitting]
    rfl
  · have unfit : ¬ fits afterDigit ('1' :: more) ⟨tenPower, [Builtin.tenPower.byte]⟩ = true := by
      rw [fits_ten, Bool.and_eq_true, List.isPrefixOf_iff_prefix, Bool.not_eq_true']
      exact fun fitting => power fitting.symm
    rw [if_neg power, List.filter_cons_of_neg unfit]
    rfl

theorem longest_symbol (afterDigit : Bool) (s : NumberSymbol) (more : List Char)
    (uncut : s = .digit 1 → afterDigit = false → ¬ ['0', '^', '('] <+: more) :
    longest? afterDigit (s.text ++ more) = some s.spelling := by
  cases s with
  | digit d =>
      by_cases one : d = 1
      · subst one
        exact (longest_one afterDigit more).trans (if_neg fun power => uncut rfl power.1 power.2)
      · have alone := number_table.1 d
        rw [if_neg one] at alone
        exact longest_alone afterDigit _ more _ alone
  | point => exact longest_alone afterDigit _ more _ number_table.2.1
  | exponent =>
      change longest? afterDigit ('|' :: 'E' :: more) = _
      rw [longest_starting, number_table.2.2.1]
      cases afterDigit <;> rfl
  | minus => exact longest_alone afterDigit _ more _ number_table.2.2.2.1

end Spelling

namespace NumberSymbol

def texts (symbols : List NumberSymbol) : List Char := symbols.flatMap text

-- The power of ten is read where only `10` is left and no digit or point stands before it.
def Cut : Bool → List NumberSymbol → Prop
  | _, [] => False
  | afterDigit, s :: rest => (afterDigit = false ∧ s :: rest = [.digit 1, .digit 0]) ∨ Cut s.continues rest

def powerBytes (afterDigit : Bool) : List NumberSymbol → Bytes
  | [] => [Operator.power.byte, Byte.openParen]
  | s :: rest =>
    if afterDigit = false ∧ s :: rest = [.digit 1, .digit 0] then [Builtin.tenPower.byte]
    else s.byte :: powerBytes s.continues rest

theorem text_head (s : NumberSymbol) : ∃ c more, s.text = c :: more ∧ c ≠ '^' ∧ c ∉ ['\n', '\r', ' ', '\t'] ∧
    (c = '0' → s = .digit 0) := by
  cases s with
  | digit d =>
      refine ⟨_, [], rfl, ?_⟩
      revert d
      decide
  | _ => exact ⟨_, _, rfl, by decide, by decide, by decide⟩

theorem byte_not_quote (s : NumberSymbol) : s.byte ≠ Byte.quote := by
  cases s with
  | digit d =>
      revert d
      decide
  | _ => decide

theorem zero_before_power (rest : List NumberSymbol) (more : List Char) :
    ['0', '^', '('] <+: texts rest ++ '^' :: '(' :: more ↔ rest = [.digit 0] := by
  cases rest with
  | nil => simp [texts]
  | cons s rest =>
      obtain ⟨c, cs, text, _, _, zero⟩ := s.text_head
      constructor
      · intro begins
        rw [texts, List.flatMap_cons, text, List.cons_append, List.cons_append, List.cons_prefix_cons] at begins
        obtain ⟨first, begins⟩ := begins
        obtain rfl := zero first.symm
        cases text
        cases rest with
        | nil => rfl
        | cons t rest =>
            obtain ⟨d, ds, text, notPower, _⟩ := t.text_head
            rw [List.nil_append, List.flatMap_cons, text, List.cons_append, List.cons_append, List.cons_prefix_cons] at begins
            exact absurd begins.1.symm notPower
      · intro same
        rw [same]
        exact ⟨more, rfl⟩

end NumberSymbol

theorem tokenize_symbol (r : Reading) (s : NumberSymbol) (more : List Char) (outside : r.inString = false)
    (uncut : s = .digit 1 → r.afterDigit = false → ¬ ['0', '^', '('] <+: more) :
    ∃ r' : Reading, r'.inString = false ∧ r'.afterDigit = s.continues ∧
      tokenizeFrom r (s.text ++ more) = (tokenizeFrom r' more).map (s.byte :: ·) := by
  have found := Spelling.longest_symbol r.afterDigit s more uncut
  obtain ⟨c, cs, text, _, visible, _⟩ := s.text_head
  rw [text, List.cons_append] at found
  obtain ⟨r', outside', after, read⟩ :=
    tokenize_spelled r c (cs ++ more) s.spelling s.byte outside visible found rfl s.byte_not_quote
  refine ⟨r', outside', after.trans s.continues_byte, ?_⟩
  have used : (cs ++ more).drop (s.spelling.text.length - 1) = more := by
    change (cs ++ more).drop (s.text.length - 1) = more
    rw [text, List.length_cons, Nat.add_sub_cancel, List.drop_left]
  rw [text, List.cons_append, read, used]

theorem tokenize_power (r : Reading) (symbols : List NumberSymbol) (more : List Char) (outside : r.inString = false) :
    ∃ r' : Reading, r'.inString = false ∧
      tokenizeFrom r (NumberSymbol.texts symbols ++ '^' :: '(' :: more) =
        (tokenizeFrom r' more).map (NumberSymbol.powerBytes r.afterDigit symbols ++ ·) := by
  induction symbols generalizing r with
  | nil =>
      obtain ⟨r₁, outside₁, _, power⟩ := tokenize_spelled r '^' ('(' :: more) ⟨['^'], [Operator.power.byte]⟩ _ outside
        (by decide) (Spelling.longest_alone _ _ _ _ Spelling.number_table.2.2.2.2.1) rfl (by decide)
      obtain ⟨r₂, outside₂, _, opened⟩ := tokenize_spelled r₁ '(' more ⟨['('], [Byte.openParen]⟩ _ outside₁
        (by decide) (Spelling.longest_alone _ _ _ _ Spelling.number_table.2.2.2.2.2) rfl (by decide)
      refine ⟨r₂, outside₂, ?_⟩
      change tokenizeFrom r ('^' :: '(' :: more) = _
      rw [power]
      change (tokenizeFrom r₁ ('(' :: more)).map _ = _
      rw [opened]
      change ((tokenizeFrom r₂ more).map _).map _ = _
      cases tokenizeFrom r₂ more <;> rfl
  | cons s rest ih =>
      by_cases cut : r.afterDigit = false ∧ s :: rest = [.digit 1, .digit 0]
      · obtain ⟨digitless, ten⟩ := cut
        cases ten
        have found : Spelling.longest? r.afterDigit ('1' :: '0' :: '^' :: '(' :: more) =
            some ⟨Spelling.tenPower, [Builtin.tenPower.byte]⟩ :=
          (Spelling.longest_one _ _).trans (if_pos ⟨digitless, more, rfl⟩)
        obtain ⟨r', outside', _, read⟩ := tokenize_spelled r '1' _ _ _ outside (by decide) found rfl (by decide)
        refine ⟨r', outside', ?_⟩
        rw [NumberSymbol.powerBytes, if_pos ⟨digitless, rfl⟩]
        exact read
      · have uncut : s = .digit 1 → r.afterDigit = false →
            ¬ ['0', '^', '('] <+: NumberSymbol.texts rest ++ '^' :: '(' :: more := by
          rintro rfl digitless begins
          rw [(NumberSymbol.zero_before_power rest more).mp begins] at cut
          exact cut ⟨digitless, rfl⟩
        obtain ⟨r₁, outside₁, continues, symbol⟩ := tokenize_symbol r s _ outside uncut
        obtain ⟨r₂, outside₂, later⟩ := ih r₁ outside₁
        refine ⟨r₂, outside₂, ?_⟩
        rw [NumberSymbol.powerBytes, if_neg cut, ← continues, NumberSymbol.texts, List.flatMap_cons, List.append_assoc]
        change tokenizeFrom r (s.text ++ (NumberSymbol.texts rest ++ '^' :: '(' :: more)) = _
        rw [symbol, later]
        cases tokenizeFrom r₂ more <;> rfl

namespace NumberSymbol

theorem power_bytes_whole (afterDigit : Bool) (symbols : List NumberSymbol) (more : Bytes) :
    symbols.map byte ++ [Operator.power.byte, Byte.openParen] <+: powerBytes afterDigit symbols ++ more ↔
      ¬ Cut afterDigit symbols := by
  induction symbols generalizing afterDigit with
  | nil => simp [powerBytes, Cut]
  | cons s rest ih =>
      by_cases cut : afterDigit = false ∧ s :: rest = [.digit 1, .digit 0]
      · rw [powerBytes, if_pos cut, cut.2, List.map_cons, List.cons_append, List.cons_append, List.cons_prefix_cons]
        exact iff_of_false (fun same => absurd same.1 (by decide)) (not_not_intro (Or.inl ⟨cut.1, rfl⟩))
      · rw [powerBytes, if_neg cut, List.map_cons, List.cons_append, List.cons_append, List.cons_prefix_cons, ih,
          Cut, or_iff_right cut]
        exact and_iff_right rfl

theorem cut_digits (digits : List (Fin 10)) (rest : List NumberSymbol) :
    Cut true (digits.map .digit ++ rest) ↔ Cut true rest := by
  induction digits with
  | nil => rfl
  | cons d digits ih => simpa [Cut, continues] using ih

theorem cut_digits_only (digits : List (Fin 10)) : Cut false (digits.map .digit) ↔ digits = [1, 0] := by
  cases digits with
  | nil => simp [Cut]
  | cons d digits =>
      have later : ¬ Cut true (digits.map .digit) := by
        rw [← List.append_nil (digits.map _), cut_digits]
        exact id
      simp [Cut, continues, later, List.map_eq_cons_iff]

end NumberSymbol

-- Digits, a decimal point with digits after it, and an exponent with or without its sign.
structure NumberText where
  whole : List (Fin 10)
  fraction : Option (List (Fin 10))
  exponent : Option (Bool × List (Fin 10))

namespace NumberText

def fractionSymbols : Option (List (Fin 10)) → List NumberSymbol
  | none => []
  | some digits => .point :: digits.map .digit

def exponentSymbols : Option (Bool × List (Fin 10)) → List NumberSymbol
  | none => []
  | some (negative, digits) => .exponent :: ((if negative then [.minus] else []) ++ digits.map .digit)

def symbols (w : NumberText) : List NumberSymbol :=
  w.whole.map .digit ++ (fractionSymbols w.fraction ++ exponentSymbols w.exponent)

def text (w : NumberText) : String := String.ofList (NumberSymbol.texts w.symbols)

def bytes (w : NumberText) : Bytes := w.symbols.map NumberSymbol.byte

theorem exponent_cut (exponent : Option (Bool × List (Fin 10))) (afterDigit : Bool) :
    NumberSymbol.Cut afterDigit (exponentSymbols exponent) ↔ ∃ negative, exponent = some (negative, [1, 0]) := by
  cases exponent with
  | none => simp [exponentSymbols, NumberSymbol.Cut]
  | some part =>
      obtain ⟨negative, digits⟩ := part
      cases negative with
      | false => simp [exponentSymbols, NumberSymbol.Cut, NumberSymbol.continues, NumberSymbol.cut_digits_only]
      | true => simp [exponentSymbols, NumberSymbol.Cut, NumberSymbol.continues, NumberSymbol.cut_digits_only]

theorem fraction_cut (fraction : Option (List (Fin 10))) (afterDigit : Bool) (rest : List NumberSymbol)
    (P : Prop) (later : ∀ afterDigit, NumberSymbol.Cut afterDigit rest ↔ P) :
    NumberSymbol.Cut afterDigit (fractionSymbols fraction ++ rest) ↔ P := by
  cases fraction with
  | none => exact later afterDigit
  | some digits =>
      rw [← later true, ← NumberSymbol.cut_digits digits rest]
      simp [fractionSymbols, NumberSymbol.Cut, NumberSymbol.continues]

theorem symbols_cut (w : NumberText) : NumberSymbol.Cut false w.symbols ↔
    w.symbols = [.digit 1, .digit 0] ∨ ∃ negative, w.exponent = some (negative, [1, 0]) := by
  have later (afterDigit : Bool) : NumberSymbol.Cut afterDigit (fractionSymbols w.fraction ++ exponentSymbols w.exponent) ↔
      ∃ negative, w.exponent = some (negative, [1, 0]) :=
    fraction_cut w.fraction afterDigit _ _ (exponent_cut w.exponent)
  unfold symbols
  cases w.whole with
  | nil =>
      have notTen : fractionSymbols w.fraction ++ exponentSymbols w.exponent ≠ [.digit 1, .digit 0] := by
        cases w.fraction <;> cases w.exponent <;> simp [fractionSymbols, exponentSymbols]
      rw [List.map_nil, List.nil_append, later, or_iff_right notTen]
  | cons d digits =>
      rw [List.map_cons, List.cons_append, NumberSymbol.Cut, ← later true, NumberSymbol.continues, NumberSymbol.cut_digits]
      simp

end NumberText

theorem tokenize_number_power (w : NumberText) (r : String) : ∃ r' : Reading, r'.inString = false ∧
    tokenize (w.text ++ "^(" ++ r) =
      (tokenizeFrom r' r.toList).map (NumberSymbol.powerBytes false w.symbols ++ ·) := by
  have text : (w.text ++ "^(" ++ r).toList = NumberSymbol.texts w.symbols ++ '^' :: '(' :: r.toList := by
    simp [NumberText.text]
  rw [tokenize, text]
  exact tokenize_power .start w.symbols r.toList rfl

theorem number_kept_whole_iff (w : NumberText) (other : w.text ≠ "10") (r : String) (bytes : Bytes)
    (read : tokenize (w.text ++ "^(" ++ r) = .ok bytes) :
    w.bytes ++ [Operator.power.byte, Byte.openParen] <+: bytes ↔ ∀ negative, w.exponent ≠ some (negative, [1, 0]) := by
  obtain ⟨r', _, power⟩ := tokenize_number_power w r
  rw [power] at read
  cases rest : tokenizeFrom r' r.toList with rw [rest] at read
  | error f => cases read
  | ok later =>
      cases read
      have notTen : w.symbols ≠ [.digit 1, .digit 0] := by
        intro ten
        apply other
        rw [NumberText.text, ten]
        rfl
      have cut := w.symbols_cut
      rw [or_iff_right notTen] at cut
      refine (NumberSymbol.power_bytes_whole false w.symbols later).trans ?_
      rw [cut, not_exists]

theorem tokenize_number_opening (w : NumberText) :
    tokenize (w.text ++ "^(" ++ "") = .ok (NumberSymbol.powerBytes false w.symbols) := by
  obtain ⟨r', _, power⟩ := tokenize_number_power w ""
  rw [power]
  change (tokenizeFrom r' []).map _ = _
  rw [tokenizeFrom]
  change Except.ok (NumberSymbol.powerBytes false w.symbols ++ []) = _
  rw [List.append_nil]

-- Tens before the point, after it and at the end of an exponent.
theorem tens_in_number_kept : ∃ (w : NumberText) (bytes : Bytes),
    w.text = "210.10|E~110" ∧ tokenize (w.text ++ "^(" ++ "") = .ok bytes ∧
      [0x32, 0x31, 0x30, 0x3A, 0x31, 0x30, 0x3B, 0xB0, 0x31, 0x31, 0x30, 0xF0, 0x10] <+: bytes := by
  let w : NumberText := ⟨[2, 1, 0], some [1, 0], some (true, [1, 1, 0])⟩
  have text : w.text = "210.10|E~110" := by decide
  have read := tokenize_number_opening w
  refine ⟨w, _, text, read, (number_kept_whole_iff w ?_ "" _ read).mpr ?_⟩
  · rw [text]
    decide
  · intro negative same
    cases same

theorem exponent_of_ten_cut : ∃ (w : NumberText) (bytes : Bytes),
    w.text = "1|E10" ∧ tokenize (w.text ++ "^(" ++ "") = .ok bytes ∧
      bytes = [0x31, 0x3B, 0xC1] ∧ ¬ w.bytes ++ [Operator.power.byte, Byte.openParen] <+: bytes := by
  exact ⟨⟨[1], none, some (false, [1, 0])⟩, _, by decide, tokenize_number_opening _, by decide, by decide⟩

end GraphCalc

import Mathlib.Data.List.Chain
import GraphCalc.Proofs.Arguments
import GraphCalc.Proofs.NumberText
import GraphCalc.Proofs.Precedence

set_option autoImplicit false

namespace GraphCalc

def NameChar (c : Char) : Prop := ('A' ≤ c ∧ c ≤ 'Z') ∨ c = 'θ' ∨ ('0' ≤ c ∧ c ≤ '9')

instance (c : Char) : Decidable (NameChar c) := inferInstanceAs (Decidable (_ ∨ _))

structure IsListName (w : String) : Prop where
  short : w.length ≤ 5
  chars : ∀ c ∈ w.toList, NameChar c
  first : ∃ c more, w.toList = c :: more ∧ c.isDigit = false

-- The two characters spell one of the six lists or one of the ten functions.
def Merges (a b : Char) : Prop := (a = 'L' ∧ '1' ≤ b ∧ b ≤ '6') ∨ (a = 'Y' ∧ '0' ≤ b ∧ b ≤ '9')

instance (a b : Char) : Decidable (Merges a b) := inferInstanceAs (Decidable (_ ∨ _))

def Separate (cs : List Char) : Prop := cs.IsChain fun a b => ¬ Merges a b

instance (cs : List Char) : Decidable (Separate cs) := inferInstanceAs (Decidable (cs.IsChain _))

namespace Spelling

def nameOrParen (c : Char) : Bool := decide (NameChar c) || c == '(' || c == ')'

def ofLetter (i : Nat) : Spelling := ⟨[if i = 26 then 'θ' else Char.ofNat (0x41 + i)], [Byte.letterA + UInt8.ofNat i]⟩

def ofDigit (i : Nat) : Spelling := ⟨[Char.ofNat (0x30 + i)], [Byte.digitZero + UInt8.ofNat i]⟩

def ofList (i : Nat) : Spelling := ⟨['L', Char.ofNat (0x31 + i)], [Byte.list, UInt8.ofNat i]⟩

def ofFunction (i : Nat) : Spelling := ⟨['Y', Char.ofNat (0x30 + (i + 1) % 10)], [Byte.equation, 0x10 + UInt8.ofNat i]⟩

def named : List Spelling :=
  [⟨['('], [Byte.openParen]⟩, ⟨[')'], [Byte.closeParen]⟩] ++ (List.range 10).map ofDigit ++ (List.range 27).map ofLetter ++
    (List.range 6).map ofList ++ (List.range 10).map ofFunction

theorem name_table : all.filter (fun s => s.text.all nameOrParen) = named ∧
    starting '∟' = [⟨['∟'], [Byte.customList]⟩] ∧ starting ')' = [⟨[')'], [Byte.closeParen]⟩] := by
  decide +kernel

-- A token of two characters is the start of a list or a function, and all others are single bytes.
def shape (s : Spelling) : Bool :=
  match s.text with
  | [_] => s.bytes.length == 1
  | [a, b] => decide (Merges a b) && s.bytes.head?.any fun lead => lead == Byte.list || lead == Byte.equation
  | _ => false

theorem named_shape : ∀ s ∈ named, s.shape = true := by decide +kernel

theorem named_text : ∀ s ∈ named, ∀ s' ∈ named, s.text = s'.text → s = s' := by decide +kernel

theorem named_pair (a b : Char) (merges : Merges a b) : ∃ s ∈ named, s.text = [a, b] := by
  have digit (low high : Char) (within : low ≤ b ∧ b ≤ high) (checked : ∀ i : Fin (high.toNat + 1 - low.toNat),
      ∃ s ∈ named, s.text = [a, Char.ofNat (low.toNat + i)]) : ∃ s ∈ named, s.text = [a, b] := by
    have lower : low.toNat ≤ b.toNat := within.1
    have upper : b.toNat ≤ high.toNat := within.2
    obtain found := checked ⟨b.toNat - low.toNat, by omega⟩
    rwa [Nat.add_sub_cancel' lower, Char.ofNat_toNat] at found
  rcases merges with ⟨rfl, within⟩ | ⟨rfl, within⟩
  · exact digit '1' '6' within (by decide +kernel)
  · exact digit '0' '9' within (by decide +kernel)

theorem in_named (s : Spelling) (member : s ∈ all) (chars : ∀ c ∈ s.text, nameOrParen c = true) : s ∈ named := by
  rw [← name_table.1]
  exact List.mem_filter.mpr ⟨member, List.all_eq_true.mpr chars⟩

theorem named_in (s : Spelling) (member : s ∈ named) : s ∈ all := by
  rw [← name_table.1] at member
  exact (List.mem_filter.mp member).1

theorem longest_named (afterDigit : Bool) (chars : List Char) (s : Spelling) (member : s ∈ named) (begins : s.text <+: chars)
    (inside : ∀ c ∈ chars, nameOrParen c = true) :
    ∃ best ∈ named, longest? afterDigit chars = some best ∧ best.text <+: chars ∧ s.text.length ≤ best.text.length := by
  have notTen : (s.text == tenPower) = false := by
    apply beq_false_of_ne
    intro ten
    have power : nameOrParen '^' = true := inside '^' (begins.subset (by rw [ten]; decide))
    cases power
  have fitting : fits afterDigit chars s = true := by
    rw [fits, List.isPrefixOf_iff_prefix.mpr begins, notTen, Bool.and_false]
    rfl
  obtain ⟨best, inTable, found, fits, bound⟩ := longest_maximal afterDigit chars s (named_in s member) fitting
  exact ⟨best, in_named best inTable fun c part => inside c (fits.subset part), found, fits, bound⟩

theorem longest_single (afterDigit : Bool) (c : Char) (cs : List Char) (bytes : Bytes) (member : ⟨[c], bytes⟩ ∈ named)
    (inside : ∀ d ∈ c :: cs, nameOrParen d = true) (apart : ∀ d ∈ cs.head?, ¬ Merges c d) :
    longest? afterDigit (c :: cs) = some ⟨[c], bytes⟩ := by
  obtain ⟨best, among, found, begins, _⟩ := longest_named afterDigit (c :: cs) ⟨[c], bytes⟩ member ⟨cs, rfl⟩ inside
  have shaped := named_shape best among
  unfold shape at shaped
  split at shaped
  · rename_i d text
    rw [text, List.cons_prefix_cons] at begins
    rw [found, named_text best among ⟨[c], bytes⟩ member (by rw [text, begins.1])]
  · rename_i a b text
    rw [text, List.cons_prefix_cons] at begins
    obtain ⟨rfl, rest, same⟩ := begins
    rw [Bool.and_eq_true] at shaped
    exact absurd (of_decide_eq_true shaped.1) (apart b (by rw [← same]; rfl))
  · cases shaped

theorem longest_pair (afterDigit : Bool) (a b : Char) (cs : List Char) (inside : ∀ d ∈ a :: b :: cs, nameOrParen d = true)
    (merges : Merges a b) : ∃ s ∈ named, longest? afterDigit (a :: b :: cs) = some s ∧ s.text = [a, b] := by
  obtain ⟨pair, member, text⟩ := named_pair a b merges
  obtain ⟨best, among, found, begins, bound⟩ :=
    longest_named afterDigit (a :: b :: cs) pair member (by rw [text]; exact ⟨cs, rfl⟩) inside
  have shaped := named_shape best among
  unfold shape at shaped
  split at shaped
  · rename_i d single
    rw [text, single] at bound
    exact absurd bound (by simp)
  · rename_i a' b' two
    rw [two, List.cons_prefix_cons, List.cons_prefix_cons] at begins
    exact ⟨best, among, found, by rw [two, begins.1, begins.2.1]⟩
  · cases shaped

theorem pair_lead (s : Spelling) (member : s ∈ named) (a b : Char) (text : s.text = [a, b]) :
    ∃ lead more, s.bytes = lead :: more ∧ (lead = Byte.list ∨ lead = Byte.equation) := by
  have shaped := named_shape s member
  simp only [shape, text, Bool.and_eq_true] at shaped
  cases split : s.bytes with
  | nil =>
      rw [split] at shaped
      cases shaped.2
  | cons lead more =>
      rw [split] at shaped
      exact ⟨lead, more, rfl, by simpa using shaped.2⟩

end Spelling

namespace NameSymbol

theorem named (symbol : NameSymbol) : ⟨[symbol.char], [symbol.byte]⟩ ∈ Spelling.named := by
  cases symbol with
  | letter slot bound =>
      exact small_bytes 27 (fun b => ⟨[if b = 26 then 'θ' else Char.ofNat (0x41 + b.toNat)], [Byte.letterA + b]⟩ ∈ Spelling.named)
        (by decide +kernel) slot (UInt8.lt_iff_toNat_lt.mp bound)
  | digit value bound =>
      exact small_bytes 10 (fun b => ⟨[Char.ofNat (0x30 + b.toNat)], [Byte.digitZero + b]⟩ ∈ Spelling.named)
        (by decide +kernel) value (UInt8.lt_iff_toNat_lt.mp bound)

theorem of_char (c : Char) (legal : NameChar c) : ∃ symbol : NameSymbol, symbol.char = c := by
  have offset (low high : Char) (count : Nat) (small : high.toNat < low.toNat + count) (byte : count ≤ UInt8.size)
      (within : low ≤ c ∧ c ≤ high) : ∃ b : UInt8, b.toNat < count ∧ Char.ofNat (low.toNat + b.toNat) = c := by
    have lower : low.toNat ≤ c.toNat := within.1
    have upper : c.toNat ≤ high.toNat := within.2
    have same : (UInt8.ofNat (c.toNat - low.toNat)).toNat = c.toNat - low.toNat := UInt8.toNat_ofNat_of_lt' (by omega)
    refine ⟨UInt8.ofNat (c.toNat - low.toNat), by omega, ?_⟩
    rw [same, Nat.add_sub_cancel' lower, Char.ofNat_toNat]
  rcases legal with capital | rfl | numeral
  · obtain ⟨slot, bound, same⟩ := offset 'A' 'Z' 26 (by decide) (by decide) capital
    have below : slot < 27 := UInt8.lt_iff_toNat_lt.mpr (Nat.lt_succ_of_lt bound)
    have other : slot ≠ 26 := by
      rintro rfl
      exact absurd bound (by decide)
    exact ⟨.letter slot below, (if_neg other).trans same⟩
  · exact ⟨.letter 26 (by decide), rfl⟩
  · obtain ⟨value, bound, same⟩ := offset '0' '9' 10 (by decide) (by decide) numeral
    exact ⟨.digit value (UInt8.lt_iff_toNat_lt.mpr bound), same⟩

theorem of_chars (cs : List Char) (legal : ∀ c ∈ cs, NameChar c) : ∃ symbols : List NameSymbol, symbols.map char = cs := by
  induction cs with
  | nil => exact ⟨[], rfl⟩
  | cons c cs ih =>
      obtain ⟨first, others⟩ := List.forall_mem_cons.mp legal
      obtain ⟨symbol, rfl⟩ := of_char c first
      obtain ⟨symbols, rfl⟩ := ih others
      exact ⟨symbol :: symbols, rfl⟩

theorem digit_char (value : UInt8) (bound : value < 10) : (Char.ofNat (0x30 + value.toNat)).isDigit = true :=
  small_bytes 10 (fun b => (Char.ofNat (0x30 + b.toNat)).isDigit = true) (by decide +kernel) value
    (UInt8.lt_iff_toNat_lt.mp bound)

theorem allowed (symbol : NameSymbol) : Spelling.nameOrParen symbol.char = true := by
  have member := symbol.named
  rw [← Spelling.name_table.1] at member
  exact List.all_eq_true.mp (List.mem_filter.mp member).2 symbol.char List.mem_cons_self

theorem visible (symbol : NameSymbol) : symbol.char ∉ ['\n', '\r', ' ', '\t'] := by
  intro blank
  have checked : ['\n', '\r', ' ', '\t'].all (fun c => !Spelling.nameOrParen c) = true := by decide
  have other := List.all_eq_true.mp checked symbol.char blank
  rw [symbol.allowed] at other
  cases other

theorem byte_not_quote (symbol : NameSymbol) : symbol.byte ≠ Byte.quote := by
  cases symbol with
  | letter slot bound =>
      exact small_bytes 27 (fun b => Byte.letterA + b ≠ Byte.quote) (by decide) slot (UInt8.lt_iff_toNat_lt.mp bound)
  | digit value bound =>
      exact small_bytes 10 (fun b => Byte.digitZero + b ≠ Byte.quote) (by decide) value (UInt8.lt_iff_toNat_lt.mp bound)

end NameSymbol

theorem ListName.of_text (w : String) (legal : IsListName w) : ∃ name : ListName, name.text = w := by
  obtain ⟨symbols, same⟩ := NameSymbol.of_chars w.toList legal.chars
  obtain ⟨c, more, shape, notDigit⟩ := legal.first
  have short := legal.short
  rw [← String.length_toList, ← same, List.length_map] at short
  cases symbols with
  | nil => rw [shape] at same; cases same
  | cons first more =>
      cases first with
      | letter slot bound =>
          refine ⟨⟨slot, bound, more, Nat.le_of_succ_le_succ short⟩, ?_⟩
          change String.ofList ((NameSymbol.letter slot bound :: more).map NameSymbol.char) = w
          rw [same, String.ofList_toList]
      | digit value bound =>
          rw [shape, List.map_cons] at same
          rw [← (List.cons.inj same).1, NameSymbol.char, NameSymbol.digit_char value bound] at notDigit
          cases notDigit

section Tokens

-- What stands behind a name: nothing, or a position in parentheses.
structure NameTail (tail : List Char) (bytes : Bytes) : Prop where
  chars : ∀ c ∈ tail, Spelling.nameOrParen c = true
  apart : ∀ d ∈ tail.head?, ∀ a, ¬ Merges a d
  read : ∀ r : Reading, r.inString = false → tokenizeFrom r tail = .ok bytes

theorem name_chars_inside (symbols : List NameSymbol) (tail : List Char)
    (chars : ∀ c ∈ tail, Spelling.nameOrParen c = true) :
    ∀ c ∈ symbols.map NameSymbol.char ++ tail, Spelling.nameOrParen c = true := by
  intro c member
  rcases List.mem_append.mp member with name | behind
  · obtain ⟨symbol, _, rfl⟩ := List.mem_map.mp name
    exact symbol.allowed
  · exact chars c behind

theorem tokenize_name_symbol (r : Reading) (symbol : NameSymbol) (cs : List Char) (outside : r.inString = false)
    (inside : ∀ c ∈ cs, Spelling.nameOrParen c = true) (apart : ∀ d ∈ cs.head?, ¬ Merges symbol.char d) :
    ∃ r' : Reading, r'.inString = false ∧
      tokenizeFrom r (symbol.char :: cs) = (tokenizeFrom r' cs).map (symbol.byte :: ·) := by
  have found := Spelling.longest_single r.afterDigit symbol.char cs [symbol.byte] symbol.named
    (List.forall_mem_cons.mpr ⟨symbol.allowed, inside⟩) apart
  obtain ⟨r', outside', _, read⟩ := tokenize_spelled r symbol.char cs _ symbol.byte outside symbol.visible found rfl
    symbol.byte_not_quote
  exact ⟨r', outside', read⟩

theorem tokenize_separate (r : Reading) (symbols : List NameSymbol) (tail : List Char) (bytes : Bytes)
    (outside : r.inString = false) (behind : NameTail tail bytes) (separate : Separate (symbols.map NameSymbol.char)) :
    tokenizeFrom r (symbols.map NameSymbol.char ++ tail) = .ok (symbols.map NameSymbol.byte ++ bytes) := by
  induction symbols generalizing r with
  | nil => exact behind.read r outside
  | cons symbol rest ih =>
      have apart : ∀ d ∈ (rest.map NameSymbol.char ++ tail).head?, ¬ Merges symbol.char d := by
        cases rest with
        | nil => exact fun d head => behind.apart d head symbol.char
        | cons next later =>
            rintro d ⟨⟩
            exact (List.isChain_cons_cons.mp separate).1
      obtain ⟨r', outside', read⟩ :=
        tokenize_name_symbol r symbol _ outside (name_chars_inside rest tail behind.chars) apart
      rw [List.map_cons, List.cons_append, read, ih r' outside' separate.tail]
      rfl

theorem tokenize_merged (r : Reading) (symbols : List NameSymbol) (tail : List Char) (bytes : Bytes)
    (outside : r.inString = false) (chars : ∀ c ∈ tail, Spelling.nameOrParen c = true)
    (merged : ¬ Separate (symbols.map NameSymbol.char))
    (read : tokenizeFrom r (symbols.map NameSymbol.char ++ tail) = .ok bytes) :
    ∃ before lead more, before <+: symbols ∧ before.length < symbols.length ∧
      bytes = before.map NameSymbol.byte ++ lead :: more ∧ (lead = Byte.list ∨ lead = Byte.equation) := by
  induction symbols generalizing r bytes with
  | nil => exact absurd .nil merged
  | cons symbol rest ih =>
      cases rest with
      | nil => exact absurd (.singleton _) merged
      | cons next later =>
          have inside := name_chars_inside (symbol :: next :: later) tail chars
          by_cases pair : Merges symbol.char next.char
          · obtain ⟨s, member, found, text⟩ :=
              Spelling.longest_pair r.afterDigit symbol.char next.char (later.map NameSymbol.char ++ tail) inside pair
            obtain ⟨lead, more, split, kind⟩ := Spelling.pair_lead s member _ _ text
            have token : r.read? symbol.char (next.char :: (later.map NameSymbol.char ++ tail)) =
                some (lead :: more, s.text.length - 1) := by
              rw [r.read_outside _ symbol.char outside symbol.visible, Reading.token?, found, ← split]
              rfl
            rw [List.map_cons, List.map_cons, List.cons_append, List.cons_append, tokenize_from_cons r _ _ _ _ token] at read
            cases rest : tokenizeFrom (r.after symbol.char (lead :: more) (s.text.length - 1))
              ((next.char :: (later.map NameSymbol.char ++ tail)).drop (s.text.length - 1)) with rw [rest] at read
            | error f => cases read
            | ok bytes' =>
                cases read
                exact ⟨[], lead, more ++ bytes', List.nil_prefix, Nat.succ_pos _, rfl, kind⟩
          · have apart : ∀ d ∈ ((next :: later).map NameSymbol.char ++ tail).head?, ¬ Merges symbol.char d := by
              rintro d ⟨⟩
              exact pair
            have later' : ¬ Separate ((next :: later).map NameSymbol.char) := fun separate =>
              merged (List.isChain_cons_cons.mpr ⟨pair, separate⟩)
            obtain ⟨r', outside', step⟩ := tokenize_name_symbol r symbol _ outside
              (name_chars_inside (next :: later) tail chars) apart
            rw [List.map_cons, List.cons_append, step] at read
            cases rest : tokenizeFrom r' ((next :: later).map NameSymbol.char ++ tail) with rw [rest] at read
            | error f => cases read
            | ok bytes' =>
                cases read
                obtain ⟨before, lead, more, part, shorter, split, kind⟩ := ih r' bytes' outside' later' rest
                refine ⟨symbol :: before, lead, more, List.cons_prefix_cons.mpr ⟨rfl, part⟩, Nat.succ_lt_succ shorter, ?_, kind⟩
                rw [split]
                rfl

theorem tokenize_mark (mark : String) (marked : mark ∈ ["∟", "|L"]) (cs : List Char) : ∃ r : Reading, r.inString = false ∧
    tokenizeFrom .start (mark.toList ++ cs) = (tokenizeFrom r cs).map (Byte.customList :: ·) := by
  simp only [List.mem_cons, List.not_mem_nil, or_false] at marked
  rcases marked with rfl | rfl
  · obtain ⟨r, outside, _, read⟩ := tokenize_spelled .start '∟' cs ⟨['∟'], [Byte.customList]⟩ _ rfl (by decide)
      (Spelling.longest_alone _ _ _ _ Spelling.name_table.2.1) rfl (by decide)
    exact ⟨r, outside, read⟩
  · have found : Spelling.longest? false ('|' :: 'L' :: cs) = some ⟨['|', 'L'], [Byte.customList]⟩ := by
      rw [Spelling.longest_starting, Spelling.number_table.2.2.1]
      rfl
    obtain ⟨r, outside, _, read⟩ := tokenize_spelled .start '|' ('L' :: cs) _ _ rfl (by decide) found rfl (by decide)
    exact ⟨r, outside, read⟩

theorem tail_nothing : NameTail [] [] := by
  refine ⟨by simp, by simp, fun r _ => ?_⟩
  rw [tokenizeFrom]

theorem tail_position (n : Fin 10) : NameTail ['(', Nat.digitChar n, ')']
    [Byte.openParen, (NumberSymbol.digit n).byte, Byte.closeParen] := by
  have digits : ∀ n : Fin 10, Spelling.nameOrParen (Nat.digitChar n) = true := by decide
  refine ⟨by simpa [Spelling.nameOrParen] using digits n, ?_, fun r outside => ?_⟩
  · rintro d ⟨⟩ a
    simp [Merges]
  · obtain ⟨r₁, outside₁, _, opened⟩ := tokenize_spelled r '(' [Nat.digitChar n, ')'] ⟨['('], [Byte.openParen]⟩ _ outside
      (by decide) (Spelling.longest_alone _ _ _ _ Spelling.number_table.2.2.2.2.2) rfl (by decide)
    obtain ⟨r₂, outside₂, _, digit⟩ := tokenize_symbol r₁ (.digit n) [')'] outside₁ (by simp)
    obtain ⟨r₃, _, _, closed⟩ := tokenize_spelled r₂ ')' [] ⟨[')'], [Byte.closeParen]⟩ _ outside₂
      (by decide) (Spelling.longest_alone _ _ _ _ Spelling.name_table.2.2) rfl (by decide)
    rw [opened]
    change (tokenizeFrom r₁ ((NumberSymbol.digit n).text ++ [')'])).map _ = _
    rw [digit, closed]
    change ((((tokenizeFrom r₃ []).map _).map _).map _) = _
    rw [tokenizeFrom]
    rfl

end Tokens

namespace Expression

theorem parse_name (name : ListName) :
    (parse lineOnly (.start (Byte.customList :: name.bytes) false)).1 = .ok (.customList name.text) :=
  parse_shallow (.operand (.customList name)) (Nat.zero_le _)

theorem parse_element (name : ListName) (n : Fin 10) :
    (parse lineOnly (.start (Byte.customList :: (name.bytes ++
      [Byte.openParen, (NumberSymbol.digit n).byte, Byte.closeParen])) false)).1 =
      .ok (.call (.customListElement name.text) [.number (Float32.ofNat n)]) := by
  let access : Formula := .gathered (.customListElement name) 1 rfl (.last (.operand (.literal (digitLiteral n))))
  have written : access.render = Byte.customList :: (name.bytes ++
      [Byte.openParen, (NumberSymbol.digit n).byte, Byte.closeParen]) := by
    change (Byte.customList :: (name.bytes ++ [Byte.openParen])) ++ [(NumberSymbol.digit n).byte, Byte.closeParen] = _
    rw [List.cons_append, List.append_assoc]
    rfl
  rw [← written]
  exact parse_shallow access (Nat.le_of_ble_eq_true rfl)

theorem broken_name_leaf (name : ListName) (before : List NameSymbol) (lead : UInt8) (more : Bytes)
    (part : before <+: name.symbols) (shorter : before.length < name.symbols.length)
    (kind : lead = Byte.list ∨ lead = Byte.equation) (tree : Tree)
    (parsed : (parse lineOnly (.start (Byte.customList :: (before.map NameSymbol.byte ++ lead :: more)) false)).1 = .ok tree) :
    ∃ v : String, v.length < name.text.length ∧ tree.leaves.head? = some (.customList v) := by
  have ends : ∀ start, Item.nameChar? start (Token.ofByte lead) = none := by
    intro start
    rcases kind with rfl | rfl <;> rfl
  obtain ⟨all, cut, leaves⟩ := parse_leaves _ tree parsed
  change source (Byte.customList :: (before.map NameSymbol.byte ++ lead :: more)) = .ok all at cut
  cases found : items (Byte.customList :: (before.map NameSymbol.byte ++ lead :: more)) with
  | error e =>
      rw [source, found] at cut
      cases cut
  | ok cutItems =>
      rw [source, found] at cut
      cases cut
      obtain ⟨item, used, later, read, _, rfl⟩ := items_cons_ok _ _ cutItems rfl found
      cases before with
      | nil =>
          have none : Item.nameChars 5 true (([] : List NameSymbol).map NameSymbol.byte ++ lead :: more) = [] := by
            simp only [List.map_nil, List.nil_append, Item.nameChars, ends]
          have token : Token.ofByte Byte.customList = .customList := rfl
          unfold Item.read at read
          rw [token] at read
          dsimp only at read
          rw [none] at read
          cases read
      | cons symbol rest =>
          rw [ListName.symbols, List.cons_prefix_cons] at part
          obtain ⟨rfl, part⟩ := part
          let broken : ListName := ⟨name.first, name.bound, rest, Nat.le_trans part.length_le name.short⟩
          have step := Item.read_custom_list broken (lead :: more) (by rintro b ⟨⟩; exact ends)
          have apart : lead ≠ Byte.openParen := by
            rcases kind with rfl | rfl <;> decide
          rw [Item.reference, List.drop_left, List.head?_cons, if_neg (by simpa using apart)] at step
          cases read.symm.trans step
          refine ⟨broken.text, ?_, ?_⟩
          · simpa [ListName.text, broken, ListName.symbols] using shorter
          · rw [leaves]
            rfl

end Expression

def Reads (text : String) (tree : Tree) : Prop :=
  ∃ bytes, tokenize text = .ok bytes ∧ (Expression.parse Expression.lineOnly (.start bytes false)).1 = .ok tree

theorem marked_text (mark behind : String) (name : ListName) : (mark ++ name.text ++ behind).toList =
    mark.toList ++ (name.symbols.map NameSymbol.char ++ behind.toList) := by
  simp [ListName.text]

section Names

variable (mark : String) (marked : mark ∈ ["∟", "|L"]) (name : ListName)

include marked

theorem tokenize_marked (behind : String) (bytes : Bytes) (tail : NameTail behind.toList bytes)
    (separate : Separate name.text.toList) :
    tokenize (mark ++ name.text ++ behind) = .ok (Byte.customList :: (name.bytes ++ bytes)) := by
  obtain ⟨r, outside, read⟩ := tokenize_mark mark marked (name.symbols.map NameSymbol.char ++ behind.toList)
  rw [ListName.text, String.toList_ofList] at separate
  rw [tokenize, marked_text, read, tokenize_separate r name.symbols behind.toList bytes outside tail separate]
  rfl

theorem merged_leaf (behind : String) (chars : ∀ c ∈ behind.toList, Spelling.nameOrParen c = true)
    (merged : ¬ Separate name.text.toList) (tree : Tree) (reads : Reads (mark ++ name.text ++ behind) tree) :
    ∃ v : String, v.length < name.text.length ∧ tree.leaves.head? = some (.customList v) := by
  obtain ⟨bytes, cut, parsed⟩ := reads
  obtain ⟨r, outside, read⟩ := tokenize_mark mark marked (name.symbols.map NameSymbol.char ++ behind.toList)
  rw [ListName.text, String.toList_ofList] at merged
  rw [tokenize, marked_text, read] at cut
  cases rest : tokenizeFrom r (name.symbols.map NameSymbol.char ++ behind.toList) with rw [rest] at cut
  | error f => cases cut
  | ok later =>
      cases cut
      obtain ⟨before, lead, more, part, shorter, rfl, kind⟩ :=
        tokenize_merged r name.symbols behind.toList later outside chars merged rest
      exact Expression.broken_name_leaf name before lead more part shorter kind tree parsed

end Names

theorem list_name_read_iff (mark : String) (marked : mark ∈ ["∟", "|L"]) (w : String) (legal : IsListName w) (n : Fin 10) :
    (Reads (mark ++ w) (.customList w) ↔ Separate w.toList) ∧
      (Reads (mark ++ w ++ ("(" ++ toString n.val ++ ")")) (.call (.customListElement w) [.number (Float32.ofNat n)]) ↔
        Separate w.toList) := by
  obtain ⟨name, rfl⟩ := ListName.of_text w legal
  have position : ("(" ++ toString n.val ++ ")").toList = ['(', Nat.digitChar n, ')'] :=
    (by decide : ∀ n : Fin 10, ("(" ++ toString n.val ++ ")").toList = ['(', Nat.digitChar n, ')']) n
  have access := tail_position n
  rw [← position] at access
  constructor
  · rw [← String.append_empty (s := mark ++ name.text)]
    constructor
    · intro reads
      by_contra merged
      obtain ⟨v, shorter, leaf⟩ := merged_leaf mark marked name "" (by simp) merged _ reads
      cases leaf
      exact Nat.lt_irrefl _ shorter
    · intro separate
      refine ⟨_, tokenize_marked mark marked name "" [] tail_nothing separate, ?_⟩
      rw [List.append_nil]
      exact Expression.parse_name name
  · constructor
    · intro reads
      by_contra merged
      obtain ⟨v, _, leaf⟩ := merged_leaf mark marked name _ access.chars merged _ reads
      cases leaf
    · intro separate
      exact ⟨_, tokenize_marked mark marked name _ _ access separate, Expression.parse_element name n⟩

-- `L` and `Y` are letters like any other where no digit follows them.
theorem name_with_letters_apart_read :
    IsListName "LX16Y" ∧ Separate "LX16Y".toList ∧ Reads "|LLX16Y" (.customList "LX16Y") ∧
      Reads "|LLX16Y(7)" (.call (.customListElement "LX16Y") [.number (Float32.ofNat 7)]) := by
  have chars : "LX16Y".toList.all (fun c => decide (NameChar c)) = true := by decide
  have legal : IsListName "LX16Y" :=
    ⟨by decide, fun c member => of_decide_eq_true (List.all_eq_true.mp chars c member), 'L', _, rfl, rfl⟩
  have separate : Separate "LX16Y".toList := by decide
  obtain ⟨reference, element⟩ := list_name_read_iff "|L" (by simp) "LX16Y" legal 7
  exact ⟨legal, separate, reference.mpr separate, element.mpr separate⟩

theorem first_list_not_named : IsListName "L1" ∧ tokenize "∟L1" = .ok [Byte.customList, Byte.list, 0] ∧
    (Expression.parse Expression.lineOnly (.start [Byte.customList, Byte.list, 0] false)).1 =
      .error ⟨.invalidListName, some ⟨1, 1⟩⟩ := by
  have chars : "L1".toList.all (fun c => decide (NameChar c)) = true := by decide
  have legal : IsListName "L1" :=
    ⟨by decide, fun c member => of_decide_eq_true (List.all_eq_true.mp chars c member), 'L', _, rfl, rfl⟩
  obtain ⟨r, outside, marked⟩ := tokenize_mark "∟" (by simp) ['L', '1']
  have inside : ['L', '1'].all Spelling.nameOrParen = true := by decide
  obtain ⟨s, member, found, text⟩ :=
    Spelling.longest_pair r.afterDigit 'L' '1' [] (List.all_eq_true.mp inside) (by decide)
  obtain rfl : s = Spelling.ofList 0 := Spelling.named_text s member _ (by decide) text
  have token : r.read? 'L' ['1'] = some ([Byte.list, 0], 1) := by
    rw [r.read_outside _ 'L' outside (by decide), Reading.token?, found]
    rfl
  refine ⟨legal, ?_, ?_⟩
  · change tokenizeFrom .start ("∟".toList ++ ['L', '1']) = _
    rw [marked, tokenize_from_cons r 'L' ['1'] [Byte.list, 0] 1 token]
    change ((tokenizeFrom _ []).map _).map _ = _
    rw [tokenizeFrom]
    rfl
  · rw [Expression.parse, Expression.readFrom]
    rfl

end GraphCalc

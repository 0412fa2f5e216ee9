import GraphCalc.Proofs.Boundaries
import GraphCalc.Proofs.Formula

set_option autoImplicit false

namespace GraphCalc

def enclosedItems (needed : Bool) (all : List Item) : List Item :=
  if needed then .opener none .paren :: (all ++ [.closer .paren false]) else all

mutual
def Formula.items : Formula → List Item
  | .operand x => [x.item]
  | .unary op _ x =>
    if op.isPrefix then .operator op :: enclosedItems (op.encloses x.level) x.items
    else enclosedItems (op.encloses x.level) x.items ++ [.operator op]
  | .binary op _ _ _ lhs rhs =>
    enclosedItems (op.enclosesLeft lhs.level) lhs.items ++
      .operator op :: enclosedItems (op.enclosesRight rhs.level) rhs.items
  | .gathered head _ _ args => .opener head.target? head.group :: (args.items ++ [.closer head.group false])

def Arguments.items {count : Nat} : Arguments count → List Item
  | .last x => x.items
  | .more _ x rest => x.items ++ .operator .comma :: rest.items
end

def Token.separates : Token → Bool
  | .operator op => op != .negate
  | .closeParen | .closeBracket | .closeBrace => true
  | _ => false

def Separated (tail : Bytes) : Prop := ∀ b ∈ tail.head?, (Token.ofByte b).separates = true

theorem separated_bounded (tail : Bytes) (separated : Separated tail) : Bounded tail := by
  intro b head
  have separates := separated b head
  cases token : Token.ofByte b with rw [token] at separates
  | operator op => exact separates
  | closeParen | closeBracket | closeBrace => rfl
  | _ => cases separates

theorem operator_token (op : Operator) : Token.ofByte op.byte = .operator op := by
  cases op <;> rfl

theorem operator_separated (op : Operator) (tail : Bytes) (notNegate : op ≠ .negate) : Separated (op.byte :: tail) := by
  rintro b ⟨⟩
  rw [operator_token]
  simpa [Token.separates] using notNegate

theorem small_bytes (n : Nat) (P : UInt8 → Prop) (checked : ∀ i : Fin n, P (UInt8.ofNat i)) (b : UInt8)
    (bound : b.toNat < n) : P b := by
  have here := checked ⟨b.toNat, bound⟩
  rwa [UInt8.ofNat_toNat] at here

theorem letter_token (slot : UInt8) (bound : slot < 27) : Token.ofByte (Byte.letterA + slot) = .variable slot :=
  small_bytes 27 (fun b => Token.ofByte (Byte.letterA + b) = .variable b) (by decide +kernel) slot
    (UInt8.lt_iff_toNat_lt.mp bound)

theorem digit_token (value : UInt8) (bound : value < 10) : Token.ofByte (Byte.digitZero + value) = .digit value :=
  small_bytes 10 (fun b => Token.ofByte (Byte.digitZero + b) = .digit b) (by decide +kernel) value
    (UInt8.lt_iff_toNat_lt.mp bound)

namespace Item

theorem name_chars_separated (symbols : List NameSymbol) (room : Nat) (first : Bool) (tail : Bytes)
    (fits : symbols.length ≤ room) (letter : first = true → ∀ symbol ∈ symbols.head?, ∃ slot bound, symbol = .letter slot bound)
    (ends : ∀ b ∈ tail.head?, ∀ start, nameChar? start (Token.ofByte b) = none) :
    nameChars room first (symbols.map NameSymbol.byte ++ tail) = symbols.map NameSymbol.char := by
  induction symbols generalizing room first with
  | nil =>
      cases room with
      | zero => rfl
      | succ room =>
          cases tail with
          | nil => rfl
          | cons b rest => simp only [List.map_nil, List.nil_append, nameChars, ends b rfl first]
  | cons symbol symbols ih =>
      cases room with
      | zero => cases fits
      | succ room =>
          have later := ih room false (Nat.le_of_succ_le_succ fits) (by simp)
          have read : nameChar? first (Token.ofByte symbol.byte) = some symbol.char := by
            cases symbol with
            | letter slot bound => rw [NameSymbol.byte, letter_token slot bound, nameChar?, NameSymbol.char]
            | digit value bound =>
                have later : first = false := by
                  cases start : first with
                  | false => rfl
                  | true =>
                      obtain ⟨slot, slotBound, same⟩ := letter start _ rfl
                      cases same
                rw [NameSymbol.byte, digit_token value bound, nameChar?, later, NameSymbol.char]
                rfl
          simp only [List.map_cons, List.cons_append, nameChars, read, later]

theorem text_bytes_one (b : UInt8) (rest bytes : Bytes) (closed : Bool) (used : Nat) (filled : rest ≠ [])
    (alone : Byte.isTwoByte b = false) (notQuote : b ≠ Byte.quote) (inside : ¬ (b = Byte.newline ∨ b = Byte.store))
    (read : textBytes rest = (bytes, closed, used)) : textBytes (b :: rest) = (b :: bytes, closed, used + 1) := by
  cases rest with
  | nil => exact absurd rfl filled
  | cons second rest =>
      rw [textBytes, if_neg notQuote, if_neg inside, if_neg (by simp [alone]), read]

theorem text_bytes_two (b second : UInt8) (rest bytes : Bytes) (closed : Bool) (used : Nat)
    (pair : Byte.isTwoByte b = true) (read : textBytes rest = (bytes, closed, used)) :
    textBytes (b :: second :: rest) = (b :: second :: bytes, closed, used + 2) := by
  have notQuote : b ≠ Byte.quote := by rintro rfl; cases pair
  have inside : ¬ (b = Byte.newline ∨ b = Byte.store) := by rintro (rfl | rfl) <;> cases pair
  rw [textBytes, if_neg notQuote, if_neg inside, if_pos pair, read]

theorem text_bytes_closed (tokens : List TextToken) (tail : Bytes) :
    textBytes (tokens.flatMap TextToken.bytes ++ Byte.quote :: tail) =
      (tokens.flatMap TextToken.bytes, true, (tokens.flatMap TextToken.bytes).length + 1) := by
  induction tokens with
  | nil => cases tail <;> rfl
  | cons token tokens ih =>
      rw [List.flatMap_cons, List.append_assoc]
      cases token with
      | one b alone notQuote notNewline notStore =>
          exact text_bytes_one b _ _ _ _ (by simp) alone notQuote (not_or.mpr ⟨notNewline, notStore⟩) ih
      | two b second pair => exact text_bytes_two b second _ _ _ _ pair ih

theorem reference_separated (tree : Tree) (target : Target) (bytes tail : Bytes) (separated : Separated tail) :
    reference tree target bytes.length (bytes ++ tail) = (.ok (.operand tree), bytes.length) := by
  rw [reference, List.drop_left, if_neg (bounded_not_open tail (separated_bounded tail separated))]

theorem reference_opened (tree : Tree) (target : Target) (bytes tail : Bytes) :
    reference tree target bytes.length (bytes ++ Byte.openParen :: tail) =
      (.ok (.opener (some target) .paren), bytes.length + 1) := by
  rw [reference, List.drop_left, List.head?_cons, if_pos rfl]

end Item

theorem slot_within (count index : UInt8) (rest : Bytes) (bound : index < count) :
    Item.slot count (index :: rest) = .ok index := if_pos bound

theorem Operand.equation_slot_byte (slot : UInt8) (bound : slot < 31) (rest : Bytes) :
    Item.equationSlot (equationByte slot :: rest) = .ok slot := by
  have alone (b : UInt8) : Item.equationSlot (b :: rest) = Item.equationSlot [b] := rfl
  have checked := small_bytes 31 (fun b => (Item.equationSlot [equationByte b]).toOption = some b)
    (by decide +kernel) slot (UInt8.lt_iff_toNat_lt.mp bound)
  rw [alone]
  cases found : Item.equationSlot [equationByte slot] with
  | error e => rw [found] at checked; cases checked
  | ok i => rw [found] at checked; cases checked; rfl

theorem ListName.read_chars (name : ListName) (tail : Bytes)
    (ends : ∀ b ∈ tail.head?, ∀ start, Item.nameChar? start (Token.ofByte b) = none) :
    Item.nameChars 5 true (name.bytes ++ tail) = name.symbols.map NameSymbol.char := by
  refine Item.name_chars_separated name.symbols 5 true tail ?_ ?_ ends
  · have short := name.short
    simp only [ListName.symbols, List.length_cons]
    omega
  · rintro _ symbol ⟨⟩
    exact ⟨name.first, name.bound, rfl⟩

theorem Item.read_custom_list (name : ListName) (tail : Bytes)
    (ends : ∀ b ∈ tail.head?, ∀ start, nameChar? start (Token.ofByte b) = none) :
    Item.read Byte.customList (name.bytes ++ tail) =
      reference (.customList name.text) (.customListElement name.text) name.bytes.length (name.bytes ++ tail) := by
  have named := name.read_chars tail ends
  have size : (name.symbols.map NameSymbol.char).length = name.bytes.length := by simp [ListName.bytes]
  have token : Token.ofByte Byte.customList = .customList := rfl
  unfold Item.read
  rw [token]
  dsimp only
  rw [named, ← size]
  rfl

theorem Item.read_list (slot : UInt8) (rest : Bytes) (bound : slot < 6) :
    Item.read Byte.list (slot :: rest) = reference (.list slot) (.listElement slot) 1 (slot :: rest) := by
  have token : Token.ofByte Byte.list = .list := rfl
  unfold Item.read
  rw [token]
  dsimp only
  rw [slot_within 6 slot rest bound]

theorem Item.read_matrix (slot : UInt8) (rest : Bytes) (bound : slot < 10) :
    Item.read Byte.matrix (slot :: rest) = reference (.matrix slot) (.matrixElement slot) 1 (slot :: rest) := by
  have token : Token.ofByte Byte.matrix = .matrix := rfl
  unfold Item.read
  rw [token]
  dsimp only
  rw [slot_within 10 slot rest bound]

theorem Literal.read_first (x : Literal) (rest : Bytes) :
    Byte.endsLine x.first = false ∧ Item.read x.first rest = Item.number x.first rest := by
  have starts := x.starts
  unfold Item.read
  cases token : Token.ofByte x.first with rw [token] at starts
  | digit d => exact ⟨in_line _ (by simp [token]) (by simp [token]), rfl⟩
  | decimalPoint => exact ⟨in_line _ (by simp [token]) (by simp [token]), rfl⟩
  | exponent => exact ⟨in_line _ (by simp [token]) (by simp [token]), rfl⟩
  | _ => cases starts

theorem Operand.read_bytes (x : Operand) (tail : Bytes) (separated : Separated tail) : ∃ first more,
    x.bytes = first :: more ∧ Byte.endsLine first = false ∧
      Item.read first (more ++ tail) = (.ok x.item, more.length) := by
  cases x with
  | literal x =>
      obtain ⟨inLine, read⟩ := x.read_first (x.more ++ tail)
      refine ⟨x.first, x.more, rfl, inLine, ?_⟩
      rw [read]
      exact (Item.number_bounded _ _ tail (separated_bounded tail separated)).trans x.read
  | constant c =>
      cases c with
      | random => exact ⟨_, [], rfl, rfl, Item.reference_separated _ _ [] tail separated⟩
      | imaginary | pi | getKey | answer => exact ⟨_, [], rfl, rfl, rfl⟩
  | «variable» slot bound =>
      have token := letter_token slot bound
      refine ⟨_, [], rfl, in_line _ (by simp [token]) (by simp [token]), ?_⟩
      unfold Item.read
      rw [token]
      rfl
  | string slot bound =>
      refine ⟨_, [slot], rfl, rfl, ?_⟩
      change ((Item.slot 10 (slot :: tail)).map _, 1) = _
      rw [slot_within 10 slot tail bound]
      rfl
  | equation slot bound =>
      refine ⟨_, [equationByte slot], rfl, rfl, ?_⟩
      change ((Item.equationSlot (equationByte slot :: tail)).map _, 1) = _
      rw [equation_slot_byte slot bound]
      rfl
  | list slot bound =>
      refine ⟨_, [slot], rfl, rfl, ?_⟩
      rw [List.singleton_append, Item.read_list slot tail bound]
      exact Item.reference_separated _ _ [slot] tail separated
  | matrix slot bound =>
      refine ⟨_, [slot], rfl, rfl, ?_⟩
      rw [List.singleton_append, Item.read_matrix slot tail bound]
      exact Item.reference_separated _ _ [slot] tail separated
  | customList name =>
      refine ⟨_, name.bytes, rfl, rfl, ?_⟩
      rw [Item.read_custom_list name tail fun b head start =>
        Item.name_char_bounds start _ (separated_bounded tail separated b head)]
      exact Item.reference_separated _ _ name.bytes tail separated
  | text tokens =>
      refine ⟨_, tokens.flatMap TextToken.bytes ++ [Byte.quote], rfl, rfl, ?_⟩
      have token : Token.ofByte Byte.quote = .quote := rfl
      unfold Item.read
      rw [token]
      dsimp only
      rw [List.append_assoc, List.singleton_append, Item.text_bytes_closed, List.length_append]
      rfl

theorem function_token (f : Builtin) (count : Nat) (positive : 0 < count) (allowed : f.arity.allows count = true)
    (other : f ≠ .random) : Token.ofByte f.byte = .function f := by
  have none (f : Builtin) (nullary : f.arity = .exactly 0) : f.arity.allows count = false := by
    rw [nullary]
    simp [Arity.exactly, Arity.allows]
    omega
  cases f with
  | random => exact absurd rfl other
  | answer => rw [none .answer rfl] at allowed; cases allowed
  | getKey => rw [none .getKey rfl] at allowed; cases allowed
  | _ => rfl

theorem Head.read_bytes (head : Head) (count : Nat) (positive : 0 < count) (allowed : head.allows count = true) :
    ∃ first more, head.bytes = first :: more ∧ Byte.endsLine first = false ∧
      ∀ tail, Item.read first (more ++ tail) = (.ok (.opener head.target? head.group), more.length) := by
  cases head with
  | function f =>
      by_cases random : f = .random
      · subst random
        exact ⟨Byte.random, [Byte.openParen], rfl, rfl, fun tail => Item.reference_opened _ _ [] tail⟩
      · have token := function_token f count positive allowed random
        refine ⟨f.byte, [], if_neg random, in_line _ (by simp [token]) (by simp [token]), ?_⟩
        intro tail
        unfold Item.read
        rw [token]
        rfl
  | listElement slot bound =>
      refine ⟨_, [slot, Byte.openParen], rfl, rfl, ?_⟩
      intro tail
      exact (Item.read_list slot _ bound).trans (Item.reference_opened _ _ [slot] tail)
  | customListElement name =>
      refine ⟨_, name.bytes ++ [Byte.openParen], rfl, rfl, ?_⟩
      intro tail
      rw [List.append_assoc, List.singleton_append, Item.read_custom_list name _ (by rintro b ⟨⟩ start; rfl),
        Item.reference_opened, List.length_append]
      rfl
  | matrixElement slot bound =>
      refine ⟨_, [slot, Byte.openParen], rfl, rfl, ?_⟩
      intro tail
      exact (Item.read_matrix slot _ bound).trans (Item.reference_opened _ _ [slot] tail)
  | braces => exact ⟨_, [], rfl, rfl, fun tail => rfl⟩
  | brackets => exact ⟨_, [], rfl, rfl, fun tail => rfl⟩

theorem read_closer (group : Group) (tail : Bytes) (separated : Separated tail) :
    Item.read group.closeByte tail = (.ok (.closer group false), 0) := by
  cases group with
  | paren => rfl
  | bracket =>
      change (Except.ok (Item.closer .bracket (decide (tail.head? = some Byte.openBracket))), 0) = _
      rw [decide_eq_false (bounded_not_row tail (separated_bounded tail separated))]
  | brace => rfl

-- Bytes that are cut into some items whatever separates them from what follows.
def Cuts (bytes : Bytes) (all : List Item) : Prop :=
  ∀ tail, Separated tail → Expression.items (bytes ++ tail) = (Expression.items tail).map (all ++ ·)

theorem cuts_nothing : Cuts [] [] := by
  intro tail _
  rw [List.nil_append]
  cases Expression.items tail <;> rfl

theorem cuts_lead (first : UInt8) (more bytes : Bytes) (item : Item) (all : List Item)
    (inLine : Byte.endsLine first = false)
    (read : ∀ tail, Separated tail → Item.read first (more ++ (bytes ++ tail)) = (.ok item, more.length))
    (rest : Cuts bytes all) : Cuts (first :: (more ++ bytes)) (item :: all) := by
  intro tail separated
  rw [List.cons_append, List.append_assoc, Expression.items_cons first _ item more.length inLine (read tail separated),
    List.drop_left, rest tail separated]
  cases Expression.items tail <;> rfl

theorem cuts_append (bytes bytes' : Bytes) (all all' : List Item) (left : Cuts bytes all) (right : Cuts bytes' all')
    (starts : ∀ tail, Separated tail → Separated (bytes' ++ tail)) : Cuts (bytes ++ bytes') (all ++ all') := by
  intro tail separated
  rw [List.append_assoc, left _ (starts tail separated), right tail separated]
  cases Expression.items tail with
  | error e => rfl
  | ok later => simp [Except.map]

theorem cuts_operand (x : Operand) : Cuts x.bytes [x.item] := by
  intro tail separated
  obtain ⟨first, more, shape, inLine, read⟩ := x.read_bytes tail separated
  rw [shape, List.cons_append, Expression.items_cons first _ x.item more.length inLine read, List.drop_left]
  rfl

theorem cuts_operator (op : Operator) (bytes : Bytes) (all : List Item) (rest : Cuts bytes all) :
    Cuts (op.byte :: bytes) (.operator op :: all) := by
  have token := operator_token op
  refine cuts_lead op.byte [] bytes (.operator op) all (in_line _ (by simp [token]) (by simp [token])) ?_ rest
  intro tail _
  unfold Item.read
  rw [token]
  rfl

theorem cuts_closer (group : Group) : Cuts [group.closeByte] [.closer group false] := by
  refine cuts_lead group.closeByte [] [] _ [] (by cases group <;> rfl) ?_ cuts_nothing
  intro tail separated
  exact read_closer group tail separated

theorem closer_separated (group : Group) (tail : Bytes) : Separated ([group.closeByte] ++ tail) := by
  rintro b ⟨⟩
  cases group <;> rfl

theorem cuts_closed (group : Group) (bytes : Bytes) (all : List Item) (inner : Cuts bytes all) :
    Cuts (bytes ++ [group.closeByte]) (all ++ [.closer group false]) :=
  cuts_append _ _ _ _ inner (cuts_closer group) (fun tail _ => closer_separated group tail)

theorem cuts_enclosed (needed : Bool) (bytes : Bytes) (all : List Item) (inner : Cuts bytes all) :
    Cuts (enclosed needed bytes) (enclosedItems needed all) := by
  cases needed with
  | false => exact inner
  | true =>
      exact cuts_lead Byte.openParen [] _ (.opener none .paren) _ rfl (fun tail _ => rfl) (cuts_closed .paren bytes all inner)

theorem Arguments.positive (count : Nat) (args : Arguments count) : 0 < count := by
  cases args <;> exact Nat.succ_pos _

mutual
theorem formula_cuts (f : Formula) : Cuts f.render f.items := by
  cases f with
  | operand x => exact cuts_operand x
  | unary op one x =>
      have inner := cuts_enclosed (op.encloses x.level) x.render x.items (formula_cuts x)
      unfold Formula.render Formula.items
      by_cases before : op.isPrefix = true
      · rw [if_pos before, if_pos before]
        exact cuts_operator op _ _ inner
      · rw [if_neg before, if_neg before]
        have notNegate : op ≠ .negate := fun same => before (by rw [same]; rfl)
        exact cuts_append _ _ _ _ inner (cuts_operator op [] [] cuts_nothing)
          (fun tail _ => operator_separated op tail notNegate)
  | binary op two notStore notComma lhs rhs =>
      have left := cuts_enclosed (op.enclosesLeft lhs.level) lhs.render lhs.items (formula_cuts lhs)
      have right := cuts_enclosed (op.enclosesRight rhs.level) rhs.render rhs.items (formula_cuts rhs)
      have notNegate : op ≠ .negate := fun same => by rw [same] at two; cases two
      unfold Formula.render Formula.items
      exact cuts_append _ _ _ _ left (cuts_operator op _ _ right) (fun tail _ => operator_separated op _ notNegate)
  | gathered head count allowed args =>
      have closed := cuts_closed head.group args.render args.items (arguments_cut count args)
      obtain ⟨first, more, shape, inLine, read⟩ := head.read_bytes count (args.positive count) allowed
      unfold Formula.render Formula.items
      rw [shape]
      exact cuts_lead first more _ _ _ inLine (fun tail _ => read _) closed

theorem arguments_cut (count : Nat) (args : Arguments count) : Cuts args.render args.items := by
  cases args with
  | last x => exact formula_cuts x
  | more count x rest =>
      unfold Arguments.render Arguments.items
      exact cuts_append _ _ _ _ (formula_cuts x) (cuts_operator .comma _ _ (arguments_cut count rest))
        (fun tail _ => operator_separated .comma _ (by decide))
end

theorem render_items (f : Formula) : Expression.items f.render = .ok f.items := by
  have cut := formula_cuts f [] nofun
  rw [List.append_nil, Expression.items] at cut
  simpa [Except.map] using cut

end GraphCalc

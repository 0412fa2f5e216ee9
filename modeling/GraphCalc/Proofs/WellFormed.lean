import GraphCalc.Proofs.Items

set_option autoImplicit false

namespace GraphCalc

def LegalListName (name : String) : Prop :=
  name.length ≤ 5 ∧
    ∃ first more, name.toList = first :: more ∧ (first = 'θ' ∨ ('A' ≤ first ∧ first ≤ 'Z'))

def Target.InRange : Target → Prop
  | .builtin _ => True
  | .listElement slot => slot < 6
  | .customListElement name => LegalListName name
  | .matrixElement slot => slot < 10

-- There is no case for a command: an expression never holds one.
inductive Tree.WellFormed : Tree → Prop where
  | number (x : Float32) (finite : x.isFinite = true) : WellFormed (.number x)
  | complex (re im : Float32) (reFinite : re.isFinite = true) (imFinite : im.isFinite = true) :
      WellFormed (.complex re im)
  | variable (slot : UInt8) (bound : slot < 27) : WellFormed (.variable slot)
  | string (slot : UInt8) (bound : slot < 10) : WellFormed (.string slot)
  | equation (slot : UInt8) (bound : slot < 31) : WellFormed (.equation slot)
  | list (slot : UInt8) (bound : slot < 6) : WellFormed (.list slot)
  | customList (name : String) (legal : LegalListName name) : WellFormed (.customList name)
  | matrix (slot : UInt8) (bound : slot < 10) : WellFormed (.matrix slot)
  | operator (op : Operator) (args : List Tree) (notComma : op ≠ .comma)
      (count : args.length = if op.isUnary then 1 else 2) (children : ∀ t ∈ args, WellFormed t) :
      WellFormed (.operator op args)
  | call (target : Target) (args : List Tree) (inRange : target.InRange)
      (count : target.arity.allows args.length = true) (children : ∀ t ∈ args, WellFormed t) :
      WellFormed (.call target args)
  | braces (args : List Tree) (filled : args ≠ []) (children : ∀ t ∈ args, WellFormed t) :
      WellFormed (.braces args)
  | brackets (args : List Tree) (filled : args ≠ []) (children : ∀ t ∈ args, WellFormed t) :
      WellFormed (.brackets args)
  | text (bytes : Bytes) : WellFormed (.text bytes)

theorem Tree.well_formed_induction (P : Tree → Prop)
    (leaf : ∀ tree, WellFormed tree → tree.children = [] → P tree)
    (unary : ∀ op x, P x → P (.operator op [x]))
    (binary : ∀ op lhs rhs, P lhs → P rhs → P (.operator op [lhs, rhs]))
    (node : ∀ opening first more, P first → (∀ t ∈ more, P t) → P (Opening.node opening (first :: more)))
    (tree : Tree) (wellFormed : tree.WellFormed) : P tree := by
  induction wellFormed with
  | operator op args notComma count _ ih =>
      match args, count, ih with
      | [], count, _ => cases arity : op.isUnary <;> simp [arity] at count
      | [x], _, ih => exact unary op x (ih x (by simp))
      | [lhs, rhs], _, ih => exact binary op lhs rhs (ih lhs (by simp)) (ih rhs (by simp))
      | _ :: _ :: _ :: _, count, _ => cases arity : op.isUnary <;> simp [arity] at count
  | call target args inRange count children ih =>
      cases args with
      | nil => exact leaf _ (.call target [] inRange count children) rfl
      | cons first more => exact node (.call target) first more (ih first (by simp)) (fun t member => ih t (by simp [member]))
  | braces args filled children ih =>
      cases args with
      | nil => exact absurd rfl filled
      | cons first more => exact node .braces first more (ih first (by simp)) (fun t member => ih t (by simp [member]))
  | brackets args filled children ih =>
      cases args with
      | nil => exact absurd rfl filled
      | cons first more => exact node .brackets first more (ih first (by simp)) (fun t member => ih t (by simp [member]))
  | number x finite => exact leaf _ (.number x finite) rfl
  | complex re im reFinite imFinite => exact leaf _ (.complex re im reFinite imFinite) rfl
  | «variable» slot bound => exact leaf _ (.variable slot bound) rfl
  | string slot bound => exact leaf _ (.string slot bound) rfl
  | equation slot bound => exact leaf _ (.equation slot bound) rfl
  | list slot bound => exact leaf _ (.list slot bound) rfl
  | customList name legal => exact leaf _ (.customList name legal) rfl
  | matrix slot bound => exact leaf _ (.matrix slot bound) rfl
  | text bytes => exact leaf _ (.text bytes) rfl

theorem zero_finite : (0 : Float32).isFinite = true := by decide +kernel

namespace Item

def Sound : Item → Prop
  | .operand tree => tree.WellFormed ∧ tree.children = []
  | .opener target group => ∀ t, target = some t → t.InRange ∧ group = .paren
  | .text _ _ | .operator _ | .closer _ _ => True

theorem every_byte (P : UInt8 → Prop) (checked : ∀ n : Fin 256, P (UInt8.ofFin n)) (b : UInt8) : P b :=
  checked b.toFin

theorem letter_slot_bound (b : UInt8) (letter : (Byte.letterA ≤ b && b ≤ Byte.theta) = true) :
    b - Byte.letterA < 27 := by
  simp only [Bool.and_eq_true, decide_eq_true_eq, UInt8.le_iff_toNat_le] at letter
  rw [UInt8.lt_iff_toNat_lt, UInt8.toNat_sub_of_le _ _ (UInt8.le_iff_toNat_le.mpr letter.1)]
  have low : Byte.letterA.toNat = 65 := rfl
  have high : Byte.theta.toNat = 91 := rfl
  have bound : (27 : UInt8).toNat = 27 := rfl
  omega

theorem else_branch {c : Prop} [Decidable c] {a v : Token} {x : Option Token}
    (found : (if c then some a else x) = some v) (other : a ≠ v) : x = some v := by
  by_cases h : c
  · rw [if_pos h] at found
    exact absurd (Option.some.inj found) other
  · rwa [if_neg h] at found

theorem variable_slot_bound (b slot : UInt8) (token : Token.ofByte b = .variable slot) : slot < 27 := by
  have special : Token.special? b = some (.variable slot) := by
    unfold Token.ofByte at token
    split at token
    · rename_i found
      rw [found, token]
    · split at token <;> cases token
  unfold Token.special? at special
  replace special := else_branch special nofun
  by_cases letter : (Byte.letterA ≤ b && b ≤ Byte.theta) = true
  · rw [if_pos letter] at special
    cases special
    exact letter_slot_bound b letter
  · rw [if_neg letter] at special
    repeat replace special := else_branch special nofun
    cases special

theorem slot_bound (count i : UInt8) (rest : Bytes) (found : slot count rest = .ok i) : i < count := by
  unfold slot at found
  split at found
  · cases found
  · split at found
    · rename_i bound
      cases found
      exact bound
    · cases found

theorem equation_slot_bound (rest : Bytes) (i : UInt8) (found : equationSlot rest = .ok i) : i < 31 := by
  cases rest with
  | nil => cases found
  | cons b more =>
      -- A test of the slot found, so that only the bytes are gone through and not the slots as well.
      have bound := every_byte (fun b => (equationSlot [b]).toOption.all (· < 31) = true) (by decide +kernel) b
      have alone : equationSlot [b] = .ok i := found
      rw [alone] at bound
      exact of_decide_eq_true bound

theorem name_chars_length (room : Nat) (first : Bool) (rest : Bytes) :
    (nameChars room first rest).length ≤ room := by
  fun_induction nameChars room first rest with
  | case1 => exact Nat.le_refl _
  | case2 => exact Nat.zero_le _
  | case3 room first b rest c named ih => exact Nat.succ_le_succ ih
  | case4 => exact Nat.zero_le _

theorem letter_in_range (slot : UInt8) (bound : slot < 27) (other : slot ≠ 26) :
    'A' ≤ Char.ofNat (0x41 + slot.toNat) ∧ Char.ofNat (0x41 + slot.toNat) ≤ 'Z' := by
  have checked : ∀ n : Fin 26, 'A' ≤ Char.ofNat (0x41 + n.val) ∧ Char.ofNat (0x41 + n.val) ≤ 'Z' := by decide
  have below : slot.toNat < 27 := UInt8.lt_iff_toNat_lt.mp bound
  have apart : slot.toNat ≠ 26 := fun same => other (UInt8.toNat_inj.mp same)
  exact checked ⟨slot.toNat, by omega⟩

theorem name_chars_legal (rest : Bytes) (first : Char) (more : List Char)
    (named : nameChars 5 true rest = first :: more) : LegalListName (String.ofList (first :: more)) := by
  have short := name_chars_length 5 true rest
  rw [named] at short
  refine ⟨by rw [String.length_ofList]; exact short, first, more, String.toList_ofList, ?_⟩
  cases rest with
  | nil => cases named
  | cons b rest =>
      rw [nameChars] at named
      cases token : Token.ofByte b with
      | «variable» slot =>
          simp only [token, nameChar?, List.cons.injEq] at named
          rw [← named.1]
          by_cases theta : slot = 26
          · exact Or.inl (if_pos theta)
          · rw [if_neg theta]
            exact Or.inr (letter_in_range slot (variable_slot_bound b slot token) theta)
      | _ => simp [token, nameChar?] at named

theorem one_finite : (1 : Float32).isFinite = true := by decide +kernel

theorem pi_finite : Elementary.pi.isFinite = true := by decide +kernel

theorem finite_value_finite (n : Numeral) (x : Float32) (valued : n.finiteValue = .ok x) : x.isFinite = true := by
  unfold Numeral.finiteValue at valued
  split at valued
  · split at valued
    · rename_i finite
      cases valued
      exact finite
    · cases valued
  · cases valued

theorem reference_sound (tree : Tree) (target : Target) (size used : Nat) (rest : Bytes) (item : Item)
    (wellFormed : tree.WellFormed) (leaf : tree.children = []) (inRange : target.InRange)
    (read : reference tree target size rest = (.ok item, used)) : item.Sound := by
  rcases reference_ok tree target size used rest item read with rfl | rfl
  · intro t same
    cases same
    exact ⟨inRange, rfl⟩
  · exact ⟨wellFormed, leaf⟩

theorem number_sound (b : UInt8) (rest : Bytes) (used : Nat) (item : Item)
    (read : number b rest = (.ok item, used)) : item.Sound := by
  obtain ⟨n, imaginary, x, valued, _, rfl, _⟩ := number_ok b rest used item read
  have finite := finite_value_finite n x valued
  cases imaginary with
  | false => exact ⟨.number x finite, rfl⟩
  | true => exact ⟨.complex 0 x zero_finite finite, rfl⟩

theorem read_sound (b : UInt8) (rest : Bytes) (used : Nat) (item : Item)
    (read : Item.read b rest = (.ok item, used)) : item.Sound := by
  unfold Item.read at read
  cases token : Token.ofByte b with rw [token] at read
  | digit _ => exact number_sound b rest used item read
  | decimalPoint => exact number_sound b rest used item read
  | exponent => exact number_sound b rest used item read
  | imaginary => cases read; exact ⟨.complex 0 1 zero_finite one_finite, rfl⟩
  | pi => cases read; exact ⟨.number _ pi_finite, rfl⟩
  | «variable» slot => cases read; exact ⟨.variable slot (variable_slot_bound b slot token), rfl⟩
  | list =>
      cases found : slot 6 rest with
      | error e => rw [found] at read; cases read
      | ok i =>
          rw [found] at read
          have bound := slot_bound 6 i rest found
          exact reference_sound _ (.listElement i) _ _ _ _ (.list i bound) rfl bound read
  | matrix =>
      cases found : slot 10 rest with
      | error e => rw [found] at read; cases read
      | ok i =>
          rw [found] at read
          have bound := slot_bound 10 i rest found
          exact reference_sound _ (.matrixElement i) _ _ _ _ (.matrix i bound) rfl bound read
  | string =>
      cases found : slot 10 rest with
      | error e => rw [found] at read; cases read
      | ok i =>
          rw [found] at read
          cases read
          exact ⟨.string i (slot_bound 10 i rest found), rfl⟩
  | equation =>
      cases found : equationSlot rest with
      | error e => rw [found] at read; cases read
      | ok i =>
          rw [found] at read
          cases read
          exact ⟨.equation i (equation_slot_bound rest i found), rfl⟩
  | customList =>
      cases named : nameChars 5 true rest with
      | nil => rw [named] at read; cases read
      | cons first more =>
          rw [named] at read
          have legal := name_chars_legal rest first more named
          exact reference_sound _ (.customListElement _) _ _ _ _ (.customList _ legal) rfl legal read
  | random =>
      exact reference_sound _ (.builtin .random) _ _ _ _ (.call (.builtin .random) [] trivial rfl nofun) rfl trivial read
  | getKey => cases read; exact ⟨.call (.builtin .getKey) [] trivial rfl nofun, rfl⟩
  | answer => cases read; exact ⟨.call (.builtin .answer) [] trivial rfl nofun, rfl⟩
  | function f => cases read; exact fun t same => ⟨Option.some.inj same ▸ trivial, rfl⟩
  | openParen | openBracket | openBrace => cases read; exact nofun
  | closeParen | closeBracket | closeBrace => cases read; trivial
  | quote => cases read; trivial
  | operator op => cases read; trivial
  | command _ | unknown _ => cases read
  | colon | newline | elseWord | endWord => cases read

theorem parts_sound (item part : Item) (sound : item.Sound) (member : part ∈ item.parts) : part.Sound := by
  cases item with
  | text bytes closed => rw [List.mem_singleton.mp member]; trivial
  | closer group rowFollows =>
      cases rowFollows with
      | false => rw [List.mem_singleton.mp member]; trivial
      | true =>
          have either : part = .closer group false ∨ part = .operator .comma := by simpa [parts] using member
          rcases either with rfl | rfl <;> trivial
  | operand _ | operator _ | opener _ _ => rw [List.mem_singleton.mp member]; exact sound

end Item

namespace Stacks

structure Sound (s : Stacks) : Prop where
  output : ∀ t ∈ s.output, t.WellFormed
  calls : ∀ target, .call target ∈ s.pending → target.InRange

theorem empty_sound : empty.Sound := ⟨nofun, nofun⟩

theorem apply_operator_well_formed (op : Operator) (output output' : List Tree) (notComma : op ≠ .comma)
    (wellFormed : ∀ t ∈ output, t.WellFormed) (applied : applyOperator op output = .ok output') :
    ∀ t ∈ output', t.WellFormed := by
  rcases apply_operator_ok op output output' applied with ⟨unary, x, rest, rfl, rfl⟩ | ⟨binary, lhs, rhs, rest, rfl, rfl⟩
  · intro t member
    rcases List.mem_cons.mp member with same | below
    · subst same
      refine .operator op [x] notComma (by simp [unary]) ?_
      intro child inside
      rw [List.mem_singleton.mp inside]
      exact wellFormed x (by simp)
    · exact wellFormed t (by simp [below])
  · intro t member
    rcases List.mem_cons.mp member with same | below
    · subst same
      refine .operator op [lhs, rhs] notComma (by simp [binary]) ?_
      intro child inside
      have either : child = lhs ∨ child = rhs := by simpa using inside
      rcases either with rfl | rfl <;> exact wellFormed _ (by simp)
    · exact wellFormed t (by simp [below])

-- A comma waits whatever is placed, so it is never made into a node.
theorem reduce_stacks_well_formed (strength : Nat) (right : Bool) (pending pending' : List Pending)
    (output output' : List Tree) (spared : waits .comma strength right = true)
    (wellFormed : ∀ t ∈ output, t.WellFormed)
    (reduced : reduceStacks strength right pending output = .ok (pending', output')) :
    ∀ t ∈ output', t.WellFormed := by
  fun_induction reduceStacks strength right pending output with
  | case1 => cases reduced; exact wellFormed
  | case2 op pending output ready output₁ applied ih =>
      have notComma : op ≠ .comma := fun same => ready (same ▸ spared)
      exact ih (apply_operator_well_formed op output output₁ notComma wellFormed applied) reduced
  | case3 => cases reduced
  | case4 => cases reduced; exact wellFormed

theorem placing_spares_comma (op : Operator) : waits .comma (strengthOf op) op.isRightAssociative = true := by
  cases op <;> rfl

theorem reduced_sound (s : Stacks) (strength : Nat) (right : Bool) (pending : List Pending) (output : List Tree)
    (spared : waits .comma strength right = true) (sound : s.Sound)
    (reduced : reduceStacks strength right s.pending s.output = .ok (pending, output)) (nested : Nat) (need : Bool) :
    (⟨output, pending, nested, need⟩ : Stacks).Sound := by
  refine ⟨reduce_stacks_well_formed _ _ _ _ _ _ spared sound.output reduced, ?_⟩
  intro target member
  exact sound.calls target ((reduce_stacks_suffix _ _ _ _ _ _ reduced).subset member)

theorem place_operator_sound (s s' : Stacks) (op : Operator) (sound : s.Sound)
    (placed : s.placeOperator op = .ok s') : s'.Sound := by
  obtain ⟨pending, output, reduced, rfl⟩ := place_operator_ok s s' op placed
  have reducedSound := reduced_sound s _ _ pending output (placing_spares_comma op) sound reduced s.nested op.isUnary
  exact ⟨reducedSound.output, fun target member => reducedSound.calls target (by simpa using member)⟩

theorem multiply_sound (s s' : Stacks) (sound : s.Sound) (multiplied : s.multiply = .ok s') : s'.Sound := by
  rcases multiply_ok s s' multiplied with ⟨_, rfl⟩ | ⟨_, placed⟩
  · exact sound
  · exact place_operator_sound s s' .multiply sound placed

theorem take_operator_sound (s s' : Stacks) (written : Operator) (sound : s.Sound)
    (taken : s.takeOperator written = .ok s') : s'.Sound := by
  rcases take_operator_ok s s' written taken with ⟨_, s₁, multiplied, rfl⟩ | ⟨_, placed⟩
  · have before := multiply_sound s s₁ sound multiplied
    exact ⟨before.output, fun target member => before.calls target (by simpa using member)⟩
  · exact place_operator_sound s s' _ sound placed

theorem push_output_sound (s s₁ : Stacks) (tree : Tree) (need : Bool) (sound : s.Sound)
    (wellFormed : tree.WellFormed) (multiplied : s.multiply = .ok s₁) :
    ({ s₁ with output := tree :: s₁.output, needMultiply := need } : Stacks).Sound := by
  have before := multiply_sound s s₁ sound multiplied
  refine ⟨?_, before.calls⟩
  intro t member
  rcases List.mem_cons.mp member with same | below
  · exact same ▸ wellFormed
  · exact before.output t below

theorem take_opener_sound (s s' : Stacks) (target : Option Target) (group : Group) (sound : s.Sound)
    (legal : (Item.opener target group).Sound) (taken : s.takeOpener target group = .ok s') : s'.Sound := by
  obtain ⟨s₁, multiplied, rfl⟩ := take_opener_ok s s' target group taken
  have before := multiply_sound s s₁ sound multiplied
  refine ⟨before.output, ?_⟩
  intro t member
  rcases List.mem_append.mp member with opened | below
  · cases target with
    | none => simp [openingEntries] at opened
    | some called =>
        have same : t = called := by simpa [openingEntries] using opened
        exact (legal t (congrArg some same.symm)).1
  · exact before.calls t below

theorem gather_well_formed (opening : Opening) (args height : Nat) (output : List Tree) (positive : 0 < args)
    (count : output.length = height + args) (wellFormed : ∀ t ∈ output, t.WellFormed)
    (allowed : ∀ target, opening = .call target → target.InRange ∧ target.arity.allows args = true) :
    ∀ t ∈ gather opening.node args output, t.WellFormed := by
  have taken : (output.take args).reverse.length = args := by
    rw [List.length_reverse, List.length_take]
    omega
  have filled : (output.take args).reverse ≠ [] := by
    intro none
    rw [none] at taken
    exact absurd taken (by simpa using Nat.ne_of_lt positive)
  have children : ∀ t ∈ (output.take args).reverse, t.WellFormed := fun t member =>
    wellFormed t (List.mem_of_mem_take (List.mem_reverse.mp member))
  intro t member
  rcases List.mem_cons.mp member with same | below
  · subst same
    cases opening with
    | call target =>
        have ok := allowed target rfl
        exact .call target _ ok.1 (by rw [taken]; exact ok.2) children
    | braces => exact .braces _ filled children
    | brackets => exact .brackets _ filled children
  · exact wellFormed t (List.mem_of_mem_drop below)

theorem group_closes_sound (group : Group) (pending pending' : List Pending) (output output' : List Tree)
    (nested : Nat) (need : Bool) (sound : (⟨output, pending, nested, need⟩ : Stacks).Sound)
    (closed : GroupCloses group pending output pending' output') (nested' : Nat) (need' : Bool) :
    (⟨output', pending', nested', need'⟩ : Stacks).Sound := by
  obtain ⟨commas, height, below, _, opening, _, count, closes⟩ := closed
  have inside : ∀ p ∈ below, p ∈ List.replicate commas (.operator .comma) ++ .group group height :: below := by
    intro p member
    simp [member]
  have positive : 0 < commas + 1 := Nat.succ_pos commas
  cases closes with
  | brace => exact ⟨gather_well_formed .braces _ height _ positive count sound.output nofun,
      fun target member => sound.calls target (inside _ member)⟩
  | bracket => exact ⟨gather_well_formed .brackets _ height _ positive count sound.output nofun,
      fun target member => sound.calls target (inside _ member)⟩
  | call target _ _ allowed =>
      refine ⟨gather_well_formed (.call target) _ height _ positive count sound.output ?_, ?_⟩
      · rintro t ⟨⟩
        exact ⟨sound.calls target (inside _ (by simp)), allowed⟩
      · exact fun t member => sound.calls t (inside _ (by simp [member]))
  | plain => exact ⟨sound.output, fun target member => sound.calls target (inside _ member)⟩

theorem take_closer_sound (s s' : Stacks) (group : Group) (sound : s.Sound)
    (taken : s.takeCloser group = .ok s') : s'.Sound := by
  obtain ⟨pending, output, pending', output', reduced, closes, rfl⟩ := take_closer_ok s s' group taken
  have before := reduced_sound s _ _ pending output rfl sound reduced s.nested s.needMultiply
  exact group_closes_sound group _ _ _ _ _ _ before closes _ _

theorem accept_sound (s s' : Stacks) (item : Item) (sound : s.Sound) (legal : item.Sound)
    (accepted : s.accept item = .ok s') : s'.Sound := by
  cases item with
  | operand tree =>
      obtain ⟨s₁, multiplied, rfl⟩ := take_operand_ok s s' tree accepted
      exact push_output_sound s s₁ tree true sound legal.1 multiplied
  | text bytes closed =>
      obtain ⟨s₁, multiplied, rfl⟩ := take_text_ok s s' bytes closed accepted
      exact push_output_sound s s₁ (.text bytes) closed sound (.text bytes) multiplied
  | operator op => exact take_operator_sound s s' op sound accepted
  | opener target group => exact take_opener_sound s s' target group sound legal accepted
  | closer group rowFollows =>
      obtain ⟨s₁, closed, accepted⟩ := bind_ok accepted
      have after := take_closer_sound s s₁ group sound closed
      cases rowFollows with
      | false => cases Except.ok.inj accepted; exact after
      | true => exact take_operator_sound s₁ s' .comma after accepted

theorem finishes_well_formed (s : Stacks) (tree : Tree) (sound : s.Sound)
    (finished : Finishes s.pending s.output tree) : tree.WellFormed := by
  obtain ⟨output, pending, nested, need⟩ := s
  dsimp only at finished
  induction finished with
  | done pending output tree reduced =>
      exact (reduced_sound _ _ _ [] [tree] rfl sound reduced nested need).output tree (by simp)
  | close pending pending₁ pending₂ output output₁ output₂ tree reduced closes rest ih =>
      have flushed := reduced_sound _ _ _ pending₁ output₁ rfl sound reduced nested need
      exact ih (group_closes_sound .paren _ _ _ _ _ _ flushed closes nested need)

end Stacks

namespace Expression

theorem step_sound (s s' : Stacks) (b : UInt8) (c c' : Cursor) (sound : s.Sound)
    (taken : step s b c = (.ok s', c')) : s'.Sound := by
  unfold step at taken
  split at taken
  · cases taken
  · rename_i item used read
    split at taken
    · rename_i accepted
      cases taken
      exact Stacks.accept_sound s s' item sound (Item.read_sound b c.rest used item read) accepted
    · cases taken

theorem read_from_well_formed (stops : Stops) (s : Stacks) (c : Cursor) (tree : Tree) (sound : s.Sound)
    (read : (readFrom stops s c).1 = .ok tree) : tree.WellFormed := by
  fun_induction readFrom stops s c with
  | case1 => cases read
  | case2 s c _ _ => exact Stacks.finishes_well_formed s tree sound (Stacks.finish_ok s tree read)
  | case3 s c _ b rest _ _ => exact Stacks.finishes_well_formed s tree sound (Stacks.finish_ok s tree read)
  | case4 => cases read
  | case5 s c _ b rest _ _ s' c' taken ih => exact ih (step_sound s s' b c.next c' sound taken) read

theorem parsed_well_formed (stops : Stops) (c : Cursor) (tree : Tree) (parsed : (parse stops c).1 = .ok tree) :
    tree.WellFormed :=
  read_from_well_formed stops .empty c tree Stacks.empty_sound ((parse_ok stops c tree).mp parsed)

theorem items_sound (bytes : Bytes) (all : List Item) (cut : items bytes = .ok all) : ∀ item ∈ all, item.Sound := by
  fun_induction items bytes generalizing all with
  | case1 => cases cut; simp
  | case2 => cases cut; simp
  | case3 => cases cut
  | case4 b rest inside item used read ih =>
      cases later : items (rest.drop used) with
      | error e => rw [later] at cut; cases cut
      | ok more =>
          rw [later] at cut
          cases cut
          intro found member
          rcases List.mem_cons.mp member with rfl | among
          · exact Item.read_sound b rest used found read
          · exact ih more later found among

theorem source_sound (bytes : Bytes) (all : List Item) (cut : source bytes = .ok all) : ∀ item ∈ all, item.Sound := by
  unfold source at cut
  cases read : items bytes with
  | error e => rw [read] at cut; cases cut
  | ok written =>
      rw [read] at cut
      cases cut
      intro part member
      obtain ⟨item, among, inside⟩ := List.mem_flatMap.mp member
      exact item.parts_sound part (items_sound bytes written read item among) inside

theorem parse_well_formed (stops : Stops) (c : Cursor) (tree : Tree)
    (parsed : (parse stops c).1 = .ok tree) : tree.WellFormed := parsed_well_formed stops c tree parsed

-- The greatest of `A` and an element of the first list.
theorem call_with_access_well_formed :
    (parse ⟨true, false⟩ (.start [0x19, 0x41, 0x2B, 0x5D, 0x00, 0x10, 0x42, 0x11, 0x11] false)).1 =
        .ok (.call (.builtin .maximum) [.variable 0, .call (.listElement 0) [.variable 1]]) ∧
      (Tree.call (.builtin .maximum) [.variable 0, .call (.listElement 0) [.variable 1]]).WellFormed := by
  have parsed : (parse ⟨true, false⟩ (.start [0x19, 0x41, 0x2B, 0x5D, 0x00, 0x10, 0x42, 0x11, 0x11] false)).1 =
      .ok (.call (.builtin .maximum) [.variable 0, .call (.listElement 0) [.variable 1]]) :=
    (parse_ok _ _ _).mpr (by cbv)
  exact ⟨parsed, parse_well_formed _ _ _ parsed⟩

end Expression

end GraphCalc

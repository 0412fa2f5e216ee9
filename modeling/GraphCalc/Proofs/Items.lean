import GraphCalc.Expression
import GraphCalc.Proofs.StackSteps

set_option autoImplicit false

namespace GraphCalc

theorem Cursor.next_interrupted (c : Cursor) : c.next.interrupted = c.interrupted := by
  unfold next
  cases c.rest <;> rfl

theorem Cursor.advance_interrupted (c : Cursor) (n : Nat) : (c.advance n).interrupted = c.interrupted := by
  induction n generalizing c with
  | zero => rfl
  | succ n ih => rw [advance, ih, next_interrupted]

-- An item with what it leaves unwritten: the closing quote of a string, the comma between two rows.
def Item.parts : Item → List Item
  | .text bytes _ => [.text bytes true]
  | .closer group true => [.closer group false, .operator .comma]
  | item => [item]

def Item.Single : Item → Prop
  | .text _ closed => closed = true
  | .closer _ rowFollows => rowFollows = false
  | _ => True

theorem Item.parts_single (item part : Item) (member : part ∈ item.parts) : part.Single := by
  cases item with
  | text bytes closed => rw [List.mem_singleton.mp member]; rfl
  | closer group rowFollows =>
      cases rowFollows with
      | false => rw [List.mem_singleton.mp member]; rfl
      | true =>
          have either : part = .closer group false ∨ part = .operator .comma := by simpa [parts] using member
          rcases either with rfl | rfl
          · rfl
          · trivial
  | operand _ | operator _ | opener _ _ => rw [List.mem_singleton.mp member]; trivial

-- A string without its closing quote ends at a store arrow or with the line.
def TextsEnd : List Item → Prop
  | [] => True
  | .text _ false :: rest => (rest = [] ∨ ∃ more, rest = .operator .store :: more) ∧ TextsEnd rest
  | _ :: rest => TextsEnd rest

theorem Item.text_bytes_rest (rest bytes : Bytes) (used : Nat) (read : textBytes rest = (bytes, false, used)) :
    rest.drop used = [] ∨ (rest.drop used).head? = some Byte.newline ∨ (rest.drop used).head? = some Byte.store := by
  fun_induction textBytes rest generalizing bytes used with
  | case1 => cases read; exact Or.inl rfl
  | case2 => cases read
  | case3 b _ ended =>
      cases read
      exact Or.inr (ended.imp (congrArg some) (congrArg some))
  | case4 => cases read; exact Or.inl rfl
  | case5 => cases read
  | case6 b second rest _ ended =>
      cases read
      exact Or.inr (ended.imp (congrArg some) (congrArg some))
  | case7 b second rest _ _ _ bytes' closed used' more ih =>
      cases read
      exact ih _ _ more
  | case8 b second rest _ _ _ bytes' closed used' more ih =>
      cases read
      exact ih _ _ more

theorem Item.number_ok (b : UInt8) (rest : Bytes) (used : Nat) (item : Item)
    (read : number b rest = (.ok item, used)) : ∃ n imaginary x, n.finiteValue = .ok x ∧
      Numeral.empty.scan (b :: rest) = (.ok (n, imaginary), (Numeral.empty.scan (b :: rest)).2) ∧
        item = .operand (if imaginary then .complex 0 x else .number x) ∧
          used = (Numeral.empty.scan (b :: rest)).2 - 1 := by
  unfold number at read
  cases scanned : Numeral.empty.scan (b :: rest) with
  | mk result size =>
      rw [scanned] at read
      cases result with
      | error e => cases read
      | ok found =>
          obtain ⟨n, imaginary⟩ := found
          dsimp only at read
          cases valued : n.finiteValue with
          | error e => rw [valued] at read; cases read
          | ok x =>
              rw [valued] at read
              cases read
              exact ⟨n, imaginary, x, valued, rfl, rfl, rfl⟩

theorem Item.reference_ok (tree : Tree) (target : Target) (size used : Nat) (rest : Bytes) (item : Item)
    (read : reference tree target size rest = (.ok item, used)) :
    item = .opener (some target) .paren ∨ item = .operand tree := by
  unfold reference at read
  split at read
  · exact Or.inl (Except.ok.inj (Prod.mk.inj read).1).symm
  · exact Or.inr (Except.ok.inj (Prod.mk.inj read).1).symm

theorem Item.text_begins (b : UInt8) (rest bytes : Bytes) (closed : Bool) (used : Nat)
    (read : Item.read b rest = (.ok (.text bytes closed), used)) : Token.ofByte b = .quote := by
  have numeral : number b rest ≠ (.ok (.text bytes closed), used) := by
    intro number
    obtain ⟨_, _, _, _, _, same, _⟩ := number_ok b rest used _ number
    cases same
  have referred (tree : Tree) (target : Target) (size : Nat) :
      reference tree target size rest ≠ (.ok (.text bytes closed), used) := by
    intro reference
    rcases reference_ok tree target size used rest _ reference with same | same <;> cases same
  unfold Item.read at read
  cases token : Token.ofByte b with rw [token] at read
  | digit _ => exact absurd read numeral
  | decimalPoint | exponent => exact absurd read numeral
  | random => exact absurd read (referred _ _ _)
  | list =>
      cases found : slot 6 rest with rw [found] at read
      | error e => cases read
      | ok i => exact absurd read (referred _ _ _)
  | matrix =>
      cases found : slot 10 rest with rw [found] at read
      | error e => cases read
      | ok i => exact absurd read (referred _ _ _)
  | customList =>
      cases named : nameChars 5 true rest with rw [named] at read
      | nil => cases read
      | cons first more => exact absurd read (referred _ _ _)
  | string => cases found : slot 10 rest <;> rw [found] at read <;> cases read
  | equation => cases found : equationSlot rest <;> rw [found] at read <;> cases read
  | _ => cases read

theorem Item.read_text (b : UInt8) (rest bytes : Bytes) (closed : Bool) (used : Nat)
    (read : Item.read b rest = (.ok (.text bytes closed), used)) : textBytes rest = (bytes, closed, used) := by
  have token := text_begins b rest bytes closed used read
  rw [Item.read, token] at read
  cases read
  rfl

def Stacks.run (s : Stacks) : List Item → Except Cause Stacks
  | [] => .ok s
  | item :: items => s.accept item >>= fun s' => s'.run items

namespace Stacks

def withNeed (need : Bool) (s : Stacks) : Stacks := { s with needMultiply := need }

theorem store_ignores_need (s : Stacks) (need : Bool) :
    (s.withNeed need).accept (.operator .store) = s.accept (.operator .store) := by
  change (s.withNeed need).placeOperator .store = s.placeOperator .store
  rw [place_operator_eq, place_operator_eq]
  rfl

theorem run_append (s : Stacks) (first second : List Item) :
    s.run (first ++ second) = s.run first >>= fun s' => s'.run second := by
  induction first generalizing s with
  | nil => rfl
  | cons item rest ih =>
      rw [List.cons_append, run, run]
      cases s.accept item with
      | error e => rfl
      | ok s₁ => exact ih s₁

theorem run_closer_parts (s : Stacks) (group : Group) (rowFollows : Bool) :
    s.run (Item.closer group rowFollows).parts = s.accept (.closer group rowFollows) := by
  cases rowFollows with
  | false => simp only [Item.parts, run, accept]; cases s.takeCloser group <;> rfl
  | true =>
      simp only [Item.parts, run, accept]
      cases s.takeCloser group with
      | error e => rfl
      | ok s₁ =>
          simp only [bind, Except.bind, pure, Except.pure, Bool.false_eq_true, if_false, if_true]
          cases s₁.takeOperator .comma <;> rfl

theorem run_parts (s s' : Stacks) (all : List Item) (tree : Tree) (ends : TextsEnd all)
    (ran : s.run all = .ok s') (finished : Finishes s'.pending s'.output tree) :
    ∃ s'', s.run (all.flatMap Item.parts) = .ok s'' ∧ Finishes s''.pending s''.output tree := by
  induction all generalizing s with
  | nil => exact ⟨s', ran, finished⟩
  | cons item rest ih =>
      obtain ⟨s₁, accepted, restRan⟩ := bind_ok ran
      rw [List.flatMap_cons]
      have same (restEnds : TextsEnd rest) (unchanged : s.run item.parts = .ok s₁) :
          ∃ s'', s.run (item.parts ++ rest.flatMap Item.parts) = .ok s'' ∧ Finishes s''.pending s''.output tree := by
        obtain ⟨s'', ranParts, finishedParts⟩ := ih s₁ restEnds restRan
        refine ⟨s'', ?_, finishedParts⟩
        rw [run_append, unchanged]
        exact ranParts
      have alone (single : item.parts = [item]) : s.run item.parts = .ok s₁ := by
        rw [single, run, accepted]
        rfl
      cases item with
      | text bytes closed =>
          cases closed with
          | true => exact same ends (alone rfl)
          | false =>
              have taken : s.run [.text bytes true] = .ok (s₁.withNeed true) := by
                obtain ⟨s₂, multiplied, taken⟩ := bind_ok accepted
                obtain ⟨s₃, pushed, taken⟩ := bind_ok taken
                cases Except.ok.inj taken
                simp only [run, accept, takeText, multiplied, pushed, bind, Except.bind]
                rfl
              rw [Item.parts, run_append, taken]
              rcases ends.1 with rfl | ⟨more, rfl⟩
              · cases Except.ok.inj restRan
                exact ⟨s'.withNeed true, rfl, finished⟩
              · obtain ⟨s'', ranParts, finishedParts⟩ := ih s₁ ends.2 restRan
                refine ⟨s'', ?_, finishedParts⟩
                rw [← ranParts]
                change (s₁.withNeed true).accept (.operator .store) >>= _ = s₁.accept (.operator .store) >>= _
                rw [store_ignores_need]
      | closer group rowFollows => exact same ends (by rw [run_closer_parts]; exact accepted)
      | operand _ | operator _ | opener _ _ => exact same ends (alone rfl)

end Stacks

namespace Expression

def lineOnly : Stops := ⟨false, false⟩

def items : Bytes → Except Cause (List Item)
  | [] => .ok []
  | b :: rest =>
    if Byte.endsLine b then .ok []
    else
      match Item.read b rest with
      | (.error e, _) => .error e
      | (.ok item, used) => (items (rest.drop used)).map (item :: ·)
termination_by bytes => bytes.length
decreasing_by
  simp only [List.length_drop, List.length_cons]
  omega

theorem line_only_end (s : Stacks) (b : UInt8) : lineOnly.endAt s b = false := by
  simp [lineOnly, Stops.endAt]

theorem items_cons (b : UInt8) (rest : Bytes) (item : Item) (used : Nat) (inLine : Byte.endsLine b = false)
    (read : Item.read b rest = (.ok item, used)) :
    items (b :: rest) = (items (rest.drop used)).map (item :: ·) := by
  rw [items, if_neg (by simp [inLine]), read]

theorem items_cons_ok (b : UInt8) (rest : Bytes) (all : List Item) (inLine : Byte.endsLine b = false)
    (cut : items (b :: rest) = .ok all) :
    ∃ item used more, Item.read b rest = (.ok item, used) ∧ items (rest.drop used) = .ok more ∧
      all = item :: more := by
  rw [items, if_neg (by simp [inLine])] at cut
  cases read : Item.read b rest with
  | mk result used =>
      cases result with
      | error e => rw [read] at cut; cases cut
      | ok item =>
          rw [read] at cut
          cases later : items (rest.drop used) with
          | error e => simp [later, Except.map] at cut
          | ok more =>
              simp only [later, Except.map] at cut
              exact ⟨item, used, more, rfl, later, (Except.ok.inj cut).symm⟩

theorem step_item (s : Stacks) (b : UInt8) (c : Cursor) (item : Item) (used : Nat)
    (read : Item.read b c.rest = (.ok item, used)) :
    (step s b c).1 = s.accept item ∧
      ∀ s', s.accept item = .ok s' → (step s b c).2 = c.advance used := by
  simp only [step, read]
  cases s.accept item with
  | error e => exact ⟨rfl, nofun⟩
  | ok s' => exact ⟨rfl, fun _ _ => rfl⟩

theorem step_ok (s s' : Stacks) (b : UInt8) (c c' : Cursor) (taken : step s b c = (.ok s', c')) :
    ∃ item used, Item.read b c.rest = (.ok item, used) ∧ s.accept item = .ok s' ∧ c' = c.advance used := by
  cases read : Item.read b c.rest with
  | mk result used =>
      cases result with
      | error e =>
          unfold step at taken
          rw [read] at taken
          cases taken
      | ok item =>
          obtain ⟨stepped, moved⟩ := step_item s b c item used read
          rw [taken] at stepped moved
          exact ⟨item, used, rfl, stepped.symm, moved s' stepped.symm⟩

theorem read_from_items (s : Stacks) (c : Cursor) (all : List Item) (running : c.interrupted = false)
    (cut : items c.rest = .ok all) : (readFrom lineOnly s c).1 = s.run all >>= Stacks.finish := by
  fun_induction readFrom lineOnly s c generalizing all with
  | case1 s c interrupted => rw [running] at interrupted; cases interrupted
  | case2 s c _ none =>
      rw [none, items] at cut
      cases cut
      rfl
  | case3 s c _ b rest more ending =>
      rw [line_only_end, Bool.or_false] at ending
      rw [more, items, if_pos ending] at cut
      cases cut
      rfl
  | case4 s c _ b rest more inside e c' taken =>
      rw [line_only_end, Bool.or_false, Bool.not_eq_true] at inside
      rw [more] at cut
      obtain ⟨item, used, later, read, _, rfl⟩ := items_cons_ok b rest all inside cut
      have stepped := (step_item s b c.next item used (by rw [Cursor.next_rest, more]; exact read)).1
      rw [taken] at stepped
      rw [Stacks.run, ← stepped]
      rfl
  | case5 s c _ b rest more inside s' c' taken ih =>
      rw [line_only_end, Bool.or_false, Bool.not_eq_true] at inside
      rw [more] at cut
      obtain ⟨item, used, later, read, laterCut, rfl⟩ := items_cons_ok b rest all inside cut
      obtain ⟨stepped, moved⟩ := step_item s b c.next item used (by rw [Cursor.next_rest, more]; exact read)
      rw [taken] at stepped moved
      have place : c' = c.next.advance used := moved s' stepped.symm
      rw [Stacks.run, ← stepped]
      refine ih later ?_ ?_
      · rw [place, Cursor.advance_interrupted, Cursor.next_interrupted, running]
      · rw [place, Cursor.advance_rest, Cursor.next_rest, more]
        exact laterCut

theorem items_of_read_from (s : Stacks) (c : Cursor) (tree : Tree)
    (read : (readFrom lineOnly s c).1 = .ok tree) : ∃ all, items c.rest = .ok all := by
  fun_induction readFrom lineOnly s c with
  | case1 => cases read
  | case2 s c _ none => exact ⟨[], by rw [none, items]⟩
  | case3 s c _ b rest more ending =>
      rw [line_only_end, Bool.or_false] at ending
      exact ⟨[], by rw [more, items, if_pos ending]⟩
  | case4 => cases read
  | case5 s c _ b rest more inside s' c' taken ih =>
      rw [line_only_end, Bool.or_false, Bool.not_eq_true] at inside
      obtain ⟨later, laterCut⟩ := ih read
      obtain ⟨item, used, itemRead, _, rfl⟩ := step_ok s s' b c.next c' taken
      rw [Cursor.next_rest, more, List.tail_cons] at itemRead
      rw [Cursor.advance_rest, Cursor.next_rest, more, List.tail_cons] at laterCut
      refine ⟨item :: later, ?_⟩
      rw [more, items_cons b rest item used inside itemRead, laterCut]
      rfl

theorem parse_ok (stops : Stops) (c : Cursor) (tree : Tree) :
    (parse stops c).1 = .ok tree ↔ (readFrom stops .empty c).1 = .ok tree := by
  unfold parse
  cases readFrom stops .empty c with
  | mk outcome c' =>
      cases outcome with
      | error e => exact ⟨nofun, nofun⟩
      | ok t => exact ⟨fun parsed => by cases parsed; rfl, fun read => by cases read; rfl⟩

theorem read_from_running (stops : Stops) (s : Stacks) (c : Cursor) (tree : Tree)
    (read : (readFrom stops s c).1 = .ok tree) : c.interrupted = false := by
  cases flag : c.interrupted with
  | false => rfl
  | true =>
      rw [readFrom, if_pos flag] at read
      cases read

theorem items_store (rest : Bytes) (all : List Item) (cut : items (Byte.store :: rest) = .ok all) :
    ∃ more, all = .operator .store :: more := by
  obtain ⟨item, used, more, read, _, rfl⟩ := items_cons_ok Byte.store rest all rfl cut
  cases read
  exact ⟨more, rfl⟩

theorem items_texts_end (bytes : Bytes) (all : List Item) (cut : items bytes = .ok all) : TextsEnd all := by
  fun_induction items bytes generalizing all with
  | case1 => cases cut; trivial
  | case2 => cases cut; trivial
  | case3 => cases cut
  | case4 b rest inside item used read ih =>
      cases later : items (rest.drop used) with
      | error e => rw [later] at cut; cases cut
      | ok more =>
          rw [later] at cut
          cases cut
          have moreEnd := ih more later
          cases item with
          | text bytes closed =>
              cases closed with
              | true => exact moreEnd
              | false =>
                  refine ⟨?_, moreEnd⟩
                  rcases Item.text_bytes_rest rest bytes used (Item.read_text b rest bytes false used read) with
                    none | newline | store
                  · rw [none, items] at later
                    exact Or.inl (Except.ok.inj later).symm
                  · obtain ⟨tail, shape⟩ := List.head?_eq_some_iff.mp newline
                    rw [shape, items, if_pos (by decide)] at later
                    exact Or.inl (Except.ok.inj later).symm
                  · obtain ⟨tail, shape⟩ := List.head?_eq_some_iff.mp store
                    rw [shape] at later
                    exact Or.inr (items_store tail more later)
          | _ => exact moreEnd

def source (bytes : Bytes) : Except Cause (List Item) :=
  (items bytes).map (·.flatMap Item.parts)

theorem parse_source (c : Cursor) (tree : Tree) (parsed : (parse lineOnly c).1 = .ok tree) :
    ∃ all s, source c.rest = .ok all ∧ Stacks.empty.run all = .ok s ∧ Stacks.Finishes s.pending s.output tree := by
  have read := (parse_ok lineOnly c tree).mp parsed
  obtain ⟨all, cut⟩ := items_of_read_from .empty c tree read
  rw [read_from_items .empty c all (read_from_running _ _ _ _ read) cut] at read
  obtain ⟨s, ran, finished⟩ := bind_ok read
  obtain ⟨s', ranParts, finishes⟩ :=
    Stacks.run_parts .empty s all tree (items_texts_end c.rest all cut) ran (Stacks.finish_ok s tree finished)
  exact ⟨all.flatMap Item.parts, s', by rw [source, cut]; rfl, ranParts, finishes⟩

theorem source_single (bytes : Bytes) (all : List Item) (cut : source bytes = .ok all) : ∀ item ∈ all, item.Single := by
  unfold source at cut
  cases read : items bytes with
  | error e => rw [read] at cut; cases cut
  | ok written =>
      rw [read] at cut
      cases cut
      intro part member
      obtain ⟨item, _, inside⟩ := List.mem_flatMap.mp member
      exact Item.parts_single item part inside

end Expression

end GraphCalc

import GraphCalc.Proofs.Boundaries
import GraphCalc.Proofs.Moves
import GraphCalc.Proofs.Nesting

set_option autoImplicit false

namespace GraphCalc

-- The bytes are cut into the items and nothing is left over.
inductive Spells : Bytes → List Item → Prop where
  | nothing : Spells [] []
  | next (b : UInt8) (rest : Bytes) (item : Item) (used : Nat) (more : List Item) (inLine : Byte.endsLine b = false)
      (read : Item.read b rest = (.ok item, used)) (later : Spells (rest.drop used) more) : Spells (b :: rest) (item :: more)

def TextClosed (all : List Item) : Prop := ∀ bytes, all.getLast? ≠ some (.text bytes false)

theorem text_closed_later (item : Item) (more : List Item) (closed : TextClosed (item :: more)) : TextClosed more := by
  cases more with
  | nil => exact nofun
  | cons next later =>
      intro bytes last
      exact closed bytes (by rw [List.getLast?_cons_cons, last])

theorem spells_filled (bytes : Bytes) (all : List Item) (spelled : Spells bytes all) (filled : all ≠ []) : bytes ≠ [] := by
  cases spelled with
  | nothing => exact absurd rfl filled
  | next => exact nofun

theorem Item.read_quote (b : UInt8) (rest : Bytes) (quote : Token.ofByte b = .quote) :
    Item.read b rest = (.ok (.text (textBytes rest).1 (textBytes rest).2.1), (textBytes rest).2.2) := by
  unfold Item.read
  rw [quote]

theorem Item.read_followed (b : UInt8) (rest tail : Bytes) (item : Item) (used : Nat) (more : List Item)
    (read : Item.read b rest = (.ok item, used)) (later : Spells (rest.drop used) more) (closed : TextClosed (item :: more))
    (bounded : Bounded tail) : Item.read b (rest ++ tail) = (.ok item, used) := by
  rw [← read]
  refine read_bounded b rest tail bounded (read_index b rest item used read) fun quote => text_bytes_ended rest tail ?_
  rw [read_quote b rest quote] at read
  cases read
  cases ends : (textBytes rest).2.1 with
  | true => exact Or.inl rfl
  | false =>
      -- The items that come after it stand in the rest.
      have filled : more ≠ [] := by
        rintro rfl
        exact closed (textBytes rest).1 (by rw [ends]; rfl)
      have bytesLeft := spells_filled _ more later filled
      exact Or.inr (Nat.lt_of_not_le fun all => bytesLeft (List.drop_eq_nil_of_le all))

namespace Expression

theorem spells_items (bytes : Bytes) (all : List Item) (spelled : Spells bytes all) : items bytes = .ok all := by
  induction spelled with
  | nothing => rw [items]
  | next b rest item used more inLine read later ih =>
      rw [items_cons b rest item used inLine read, ih]
      rfl

theorem spells_of_read_from (s : Stacks) (c c' : Cursor) (tree : Tree) (going : c.ended = false)
    (read : readFrom lineOnly s c = (.ok tree, c')) (whole : c'.ended = true) :
    ∃ all s', Spells c.rest all ∧ s.run all = .ok s' ∧ s'.finish = .ok tree := by
  fun_induction readFrom lineOnly s c with
  | case1 => cases read
  | case2 s c _ none =>
      rw [none]
      exact ⟨[], s, .nothing, rfl, (Prod.mk.inj read).1⟩
  | case3 s c _ b rest more =>
      have same : c.next.ended = c.ended := by simp [Cursor.next, more]
      rw [← (Prod.mk.inj read).2, same, going] at whole
      cases whole
  | case4 => cases read
  | case5 s c _ b rest more inside s' c₁ taken ih =>
      rw [line_only_end, Bool.or_false, Bool.not_eq_true] at inside
      obtain ⟨item, used, itemRead, accepted, rfl⟩ := step_ok s s' b c.next c₁ taken
      have first : c.next.ended = false := by simp [Cursor.next, more, going]
      have within := Item.read_within b c.next.rest (Item.read_index b _ item used itemRead)
      rw [itemRead] at within
      obtain ⟨later, s'', spelled, ran, finished⟩ := ih (c.next.advance_going first used within) read
      rw [Cursor.advance_rest, Cursor.next_rest, more, List.tail_cons] at spelled
      rw [Cursor.next_rest, more, List.tail_cons] at itemRead
      refine ⟨item :: later, s'', ?_, ?_, finished⟩
      · rw [more]
        exact .next b rest item used later inside itemRead spelled
      · rw [Stacks.run, accepted]
        exact ran

theorem item_goes_on (stops : Stops) (s s' : Stacks) (b : UInt8) (rest : Bytes) (item : Item) (used : Nat)
    (counted : Stacks.Counted s.pending s.nested) (read : Item.read b rest = (.ok item, used))
    (accepted : s.accept item = .ok s') (settled : ¬ Stacks.StrayComma s'.pending) : stops.endAt s b = false := by
  by_cases outside : s.nested = 0
  · have notComma : b ≠ Byte.comma := by
      rintro rfl
      cases read
      exact settled (Stacks.comma_outside s s' counted outside accepted)
    have notParen : b ≠ Byte.closeParen := by
      rintro rfl
      cases read
      exact Stacks.closer_outside s s' .paren false counted outside accepted
    simp [Stops.endAt, notComma, notParen]
  · simp [Stops.endAt, outside]

theorem read_from_spelled (stops : Stops) (bytes tail : Bytes) (all : List Item) (s s' : Stacks) (c : Cursor)
    (spelled : Spells bytes all) (closed : TextClosed all) (bounded : Bounded tail) (running : c.interrupted = false)
    (follows : c.rest = bytes ++ tail) (counted : Stacks.Counted s.pending s.nested) (ran : s.run all = .ok s')
    (settled : ¬ Stacks.StrayComma s'.pending) :
    readFrom stops s c = readFrom stops s' (c.advance bytes.length) := by
  induction spelled generalizing s c with
  | nothing =>
      cases Except.ok.inj ran
      rfl
  | next b rest item used more inLine read later ih =>
      obtain ⟨s₁, accepted, restRan⟩ := bind_ok ran
      have here := Item.read_followed b rest tail item used more read later closed bounded
      have within := Item.read_within b rest (Item.read_index b rest item used read)
      rw [read] at within
      have waiting : ¬ Stacks.StrayComma s₁.pending := fun stray =>
        settled (Stacks.shifts_stray _ _ _ _ (Stacks.run_shifts s₁ s' more restRan) stray)
      have goesOn := item_goes_on stops s s₁ b _ item used counted here accepted waiting
      have nextRest : c.next.rest = rest ++ tail := by rw [Cursor.next_rest, follows]; rfl
      obtain ⟨stepped, moved⟩ := step_item s b c.next item used (by rw [nextRest]; exact here)
      have taken : step s b c.next = (.ok s₁, c.next.advance used) :=
        Prod.ext (stepped.trans accepted) (moved s₁ accepted)
      rw [read_from_cons stops s c running b (rest ++ tail) follows, inLine, goesOn, if_neg (by simp), taken, onward]
      rw [ih s₁ (c.next.advance used) (text_closed_later item more closed) ?_ ?_ ?_ restRan, Cursor.advance_add,
        List.length_drop, Nat.add_sub_cancel' within]
      · rfl
      · rw [Cursor.advance_interrupted, Cursor.next_interrupted, running]
      · rw [Cursor.advance_rest, nextRest, List.drop_append_of_le_length within]
      · exact Stacks.shifts_counted _ _ _ _ (Stacks.accept_shifts s s₁ item accepted) counted

-- The bytes are one expression with the tree: it is read to the end of them.
def Spans (bytes : Bytes) (tree : Tree) : Prop :=
  ∃ c, parse lineOnly (.start bytes false) = (.ok tree, c) ∧ c.ended = true

theorem read_of_parse (stops : Stops) (c c' : Cursor) (tree : Tree) (parsed : parse stops c = (.ok tree, c')) :
    readFrom stops .empty c = (.ok tree, c') :=
  Prod.ext ((parse_ok stops c tree).mp (by rw [parsed])) (by rw [← parse_rest, parsed])

theorem spans_run (bytes : Bytes) (tree : Tree) (spans : Spans bytes tree) :
    ∃ all s, Spells bytes all ∧ Stacks.empty.run all = .ok s ∧ Stacks.Counted s.pending s.nested ∧
      Stacks.Finishes s.pending s.output tree := by
  obtain ⟨c, parsed, whole⟩ := spans
  obtain ⟨all, s, spelled, ran, finished⟩ := spells_of_read_from .empty _ c tree rfl (read_of_parse _ _ c tree parsed) whole
  have counted := Stacks.shifts_counted _ _ _ _ (Stacks.run_shifts .empty s all ran) rfl
  exact ⟨all, s, spelled, ran, counted, Stacks.finish_ok s tree finished⟩

end Expression

end GraphCalc

import GraphCalc.Proofs.Spelling

set_option autoImplicit false

namespace GraphCalc

theorem closers_bounded (count : Nat) : Bounded (List.replicate count Byte.closeParen) := by
  intro b head
  have member := List.mem_of_mem_head? head
  rw [List.eq_of_mem_replicate member]
  rfl

namespace Stacks

-- The parenthesis that the end of the expression would close first can as well be closed before it.
theorem closer_before_end (s : Stacks) (tree : Tree) (inside : s.nested ≠ 0) (counted : Counted s.pending s.nested)
    (finished : Finishes s.pending s.output tree) :
    ∃ s', s.accept (.closer .paren false) = .ok s' ∧ s'.nested + 1 = s.nested ∧ Counted s'.pending s'.nested ∧
      Finishes s'.pending s'.output tree := by
  have present : openGroups s.pending ≠ [] := fun none => inside (by rw [counted, none]; rfl)
  cases finished with
  | done _ _ _ reduced =>
      rw [← reduce_stacks_groups _ _ _ _ _ _ reduced] at present
      exact absurd rfl present
  | close _ pending₁ pending₂ _ output₁ output₂ _ reduced closes rest =>
      have groups := group_closes_groups _ _ _ _ _ closes
      rw [reduce_stacks_groups _ _ _ _ _ _ reduced] at groups
      have count : s.nested = (openGroups pending₂).length + 1 := by rw [counted, groups, List.length_cons]
      exact ⟨_, accept_closer_closes s .paren _ _ _ _ _ count reduced closes, count.symm, rfl, rest⟩

theorem closer_refused (s : Stacks) (tree : Tree) (outside : s.nested = 0) (counted : Counted s.pending s.nested)
    (finished : Finishes s.pending s.output tree) : s.accept (.closer .paren false) = .error (.unexpectedCloser .paren) := by
  have none := counted_outside s.pending s.nested counted outside
  have flushed : ∃ s', s.flush = .ok s' ∧ s'.nested = 0 := by
    cases finished with
    | done _ _ _ reduced => exact ⟨{ s with pending := [], output := [tree] }, by rw [flush, reduce, reduced]; rfl, outside⟩
    | close _ pending₁ _ _ output₁ _ _ reduced closes =>
        have groups := group_closes_groups _ _ _ _ _ closes
        rw [reduce_stacks_groups _ _ _ _ _ _ reduced, none] at groups
        cases groups
  obtain ⟨s', reduced, zero⟩ := flushed
  simp only [accept, takeCloser, reduced, bind, Except.bind, zero, if_true]
  rfl

end Stacks

namespace Expression

theorem parse_error (stops : Stops) (c : Cursor) (e : Cause) (failed : (readFrom stops .empty c).1 = .error e) :
    ∃ f, (parse stops c).1 = .error f ∧ f.cause = e := by
  unfold parse
  cases read : readFrom stops .empty c with
  | mk result c' =>
      rw [read] at failed
      cases failed
      exact ⟨_, rfl, rfl⟩

section Closers

variable (s : Stacks) (c : Cursor) (tree : Tree) (running : c.interrupted = false)
  (counted : Stacks.Counted s.pending s.nested) (finished : Stacks.Finishes s.pending s.output tree)

include running counted finished

theorem read_from_closer (rest : Bytes) (follows : c.rest = Byte.closeParen :: rest) (inside : s.nested ≠ 0) :
    c.next.interrupted = false ∧ c.next.rest = rest ∧
      ∃ s', readFrom lineOnly s c = readFrom lineOnly s' c.next ∧ s'.nested + 1 = s.nested ∧
        Stacks.Counted s'.pending s'.nested ∧ Stacks.Finishes s'.pending s'.output tree := by
  obtain ⟨s', accepted, inner⟩ := Stacks.closer_before_end s tree inside counted finished
  obtain ⟨stepped, moved⟩ := step_item s Byte.closeParen c.next (.closer .paren false) 0 rfl
  have taken : step s Byte.closeParen c.next = (.ok s', c.next) := Prod.ext (stepped.trans accepted) (moved s' accepted)
  refine ⟨c.next_interrupted.trans running, by rw [Cursor.next_rest, follows, List.tail_cons], s', ?_, inner⟩
  rw [read_from_cons lineOnly s c running _ rest follows, line_only_end, if_neg (by decide), taken, onward]

theorem read_from_closers (count : Nat) (follows : c.rest = List.replicate count Byte.closeParen)
    (within : count ≤ s.nested) : ∃ c', readFrom lineOnly s c = (.ok tree, c') ∧ c'.ended = true := by
  induction count generalizing s c with
  | zero =>
      refine ⟨c.next, ?_, by simp [Cursor.next, follows]⟩
      rw [read_from_last lineOnly s c running follows, Stacks.finishes_finish s tree counted finished]
  | succ n ih =>
      rw [List.replicate_succ] at follows
      obtain ⟨running', follows', s', taken, inner, counted', finished'⟩ :=
        read_from_closer s c tree running counted finished _ follows (by omega)
      rw [taken]
      exact ih s' c.next running' counted' finished' follows' (by omega)

theorem read_from_extra_closer (count : Nat) (follows : c.rest = List.replicate count Byte.closeParen)
    (more : s.nested < count) : (readFrom lineOnly s c).1 = .error (.unexpectedCloser .paren) := by
  induction count generalizing s c with
  | zero => cases more
  | succ n ih =>
      rw [List.replicate_succ] at follows
      by_cases outside : s.nested = 0
      · have refused := (step_item s Byte.closeParen c.next (.closer .paren false) 0 rfl).1
        rw [Stacks.closer_refused s tree outside counted finished] at refused
        rw [read_from_cons lineOnly s c running _ _ follows, line_only_end, if_neg (by decide)]
        cases taken : step s Byte.closeParen c.next with
        | mk result c' =>
            rw [taken] at refused
            cases refused
            rfl
      · obtain ⟨running', follows', s', taken, inner, counted', finished'⟩ :=
          read_from_closer s c tree running counted finished _ follows outside
        rw [taken]
        exact ih s' c.next running' counted' finished' follows' (by omega)

end Closers

theorem open_parens_closed_early (bytes : Bytes) (tree : Tree) (all : List Item) (spans : Spans bytes tree)
    (cut : items bytes = .ok all) (closed : TextClosed all) :
    ∃ count, unclosed [] all = some (List.replicate count .paren) ∧
      (∀ closers ≤ count, Spans (bytes ++ List.replicate closers Byte.closeParen) tree) ∧
        ∀ closers > count,
          ∃ f, (parse lineOnly (.start (bytes ++ List.replicate closers Byte.closeParen) false)).1 = .error f ∧
            f.cause = .unexpectedCloser .paren ∧ f.cause.kind = .malformed := by
  obtain ⟨all', s, spelled, ran, counted, finished⟩ := spans_run bytes tree spans
  cases (spells_items bytes all' spelled).symm.trans cut
  have parens : Stacks.openGroups s.pending = List.replicate s.nested .paren :=
    List.eq_replicate_iff.mpr ⟨counted.symm, Stacks.finishes_groups _ _ tree finished⟩
  have settled := Stacks.finishes_not_stray _ _ tree finished
  -- Whatever the number of closing parentheses, the expression itself is read first.
  have reached (closers : Nat) : ∃ c : Cursor, c.interrupted = false ∧ c.rest = List.replicate closers Byte.closeParen ∧
      readFrom lineOnly .empty (.start (bytes ++ List.replicate closers Byte.closeParen) false) = readFrom lineOnly s c := by
    refine ⟨_, ?_, ?_, read_from_spelled lineOnly bytes _ all .empty s _ spelled closed (closers_bounded closers) rfl rfl rfl
      ran settled⟩
    · exact Cursor.advance_interrupted _ _
    · rw [Cursor.advance_rest, Cursor.start, List.drop_left]
  refine ⟨s.nested, ?_, ?_, ?_⟩
  · rw [← parens]
    exact Stacks.run_unclosed .empty s all ran
  · intro closers within
    obtain ⟨c, running, follows, reads⟩ := reached closers
    obtain ⟨c', taken, ended⟩ := read_from_closers s c tree running counted finished closers follows within
    exact ⟨c', parse_of_read _ _ _ _ (reads.trans taken), ended⟩
  · intro closers more
    obtain ⟨c, running, follows, reads⟩ := reached closers
    have refused := read_from_extra_closer s c tree running counted finished closers follows more
    rw [← reads] at refused
    obtain ⟨f, failed, cause⟩ := parse_error _ _ _ refused
    exact ⟨f, failed, cause, by rw [cause]; rfl⟩

def openCall : Bytes := [0x19, 0x08, 0x41, 0x2B, 0x42, 0x09, 0x2B, 0xB0, 0x10, 0x43]

def openCallTree : Tree :=
  .call (.builtin .maximum) [.braces [.variable 0, .variable 1], .operator .negate [.variable 2]]

theorem call_and_negation_closed_early :
    Spans openCall openCallTree ∧ Spans (openCall ++ [Byte.closeParen]) openCallTree ∧
      Spans (openCall ++ [Byte.closeParen, Byte.closeParen]) openCallTree ∧
        ∃ f, (parse lineOnly (.start (openCall ++ [Byte.closeParen, Byte.closeParen, Byte.closeParen]) false)).1 = .error f ∧
          f.cause.kind = .malformed := by
  have spans : Spans openCall openCallTree := ⟨⟨openCall.reverse, [], true, false⟩, parse_of_read _ _ _ _ (by cbv), rfl⟩
  have cut : items openCall = .ok [.opener (some (.builtin .maximum)) .paren, .opener none .brace, .operand (.variable 0),
      .operator .comma, .operand (.variable 1), .closer .brace false, .operator .comma, .operator .negate,
      .opener none .paren, .operand (.variable 2)] := by cbv
  obtain ⟨count, left, accepted, refused⟩ := open_parens_closed_early openCall openCallTree _ spans cut (by simp [TextClosed])
  have two : 2 = count := by
    have groups : [Group.paren, .paren] = List.replicate count .paren := Option.some.inj left
    simpa using congrArg List.length groups
  subst two
  obtain ⟨f, failed, _, kind⟩ := refused 3 (by decide)
  exact ⟨spans, accepted 1 (by decide), accepted 2 (by decide), f, failed, kind⟩

end Expression

end GraphCalc

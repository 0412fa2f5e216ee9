import GraphCalc.Cursor
import GraphCalc.Expression.Stacks

set_option autoImplicit false

namespace GraphCalc.Expression

structure Stops where
  comma : Bool
  paren : Bool
deriving DecidableEq, Repr

def Stops.endAt (stops : Stops) (s : Stacks) (b : UInt8) : Bool :=
  s.nested == 0 && ((stops.comma && b == Byte.comma) || (stops.paren && b == Byte.closeParen))

/-- Takes in the item that begins with the byte `b` just read. A string is refused at its opening
quote, before it is read: only the multiplication in front of it can find no room. -/
def step (s : Stacks) (b : UInt8) (c : Cursor) : Except Cause Stacks × Cursor :=
  match Item.read b c.rest with
  | (.error e, used) => (.error e, c.advance used)
  | (.ok item, used) =>
    match s.accept item with
    | .ok s' => (.ok s', c.advance used)
    | .error e => (.error e, if item.isText then c else c.advance used)

theorem step_rest (s : Stacks) (b : UInt8) (c : Cursor) :
    (step s b c).2.rest.length ≤ c.rest.length := by
  have shorter (n : Nat) : (c.advance n).rest.length ≤ c.rest.length := by
    rw [Cursor.advance_rest, List.length_drop]
    omega
  unfold step
  split
  · exact shorter _
  · split
    · exact shorter _
    · dsimp only
      split
      · exact Nat.le_refl _
      · exact shorter _

theorem step_next_rest (s : Stacks) (c : Cursor) (b : UInt8) (rest : Bytes) (more : c.rest = b :: rest) :
    (step s b c.next).2.rest.length < c.rest.length := by
  have := step_rest s b c.next
  rw [Cursor.next_rest, more] at this
  rw [more]
  exact Nat.lt_succ_of_le this

def readFrom (stops : Stops) (s : Stacks) (c : Cursor) : Except Cause Tree × Cursor :=
  if c.interrupted then (.error .interrupted, c)
  else
    match _more : c.rest with
    | [] => (s.finish, c.next)
    | b :: _ =>
      if Byte.endsLine b || stops.endAt s b then (s.finish, c.next)
      else
        match _taken : step s b c.next with
        | (.error e, c') => (.error e, c')
        | (.ok s', c') => readFrom stops s' c'
termination_by c.rest.length
decreasing_by
  have := step_next_rest s c b _ _more
  rwa [_taken] at this

def parse (stops : Stops) (c : Cursor) : Except Fault Tree × Cursor :=
  let (result, c') := readFrom stops .empty c
  (result.mapError fun e => (Fault.ofCause e).located c'.place, c')

theorem read_from_rest_le (stops : Stops) (s : Stacks) (c : Cursor) :
    (readFrom stops s c).2.rest.length ≤ c.rest.length := by
  fun_induction readFrom stops s c with
  | case1 => exact Nat.le_refl _
  | case2 s c _ more => simp [Cursor.next_rest, more]
  | case3 s c _ b rest more => simp [Cursor.next_rest, more]
  | case4 s c _ b rest more _ e c' taken =>
    have := step_next_rest s c b rest more
    rw [taken] at this
    exact Nat.le_of_lt this
  | case5 s c _ b rest more _ s' c' taken ih =>
    have := step_next_rest s c b rest more
    rw [taken] at this
    exact Nat.le_trans ih (Nat.le_of_lt this)

theorem read_from_progress (stops : Stops) (s : Stacks) (c : Cursor) (running : c.interrupted = false)
    (more : c.rest ≠ []) : (readFrom stops s c).2.rest.length < c.rest.length := by
  fun_cases readFrom stops s c with
  | case1 interrupted => simp [running] at interrupted
  | case2 _ none => exact absurd none more
  | case3 _ b rest more => simp [Cursor.next_rest, more]
  | case4 _ b rest more _ e c' taken =>
    have := step_next_rest s c b rest more
    rwa [taken] at this
  | case5 _ b rest more _ s' c' taken =>
    have := step_next_rest s c b rest more
    rw [taken] at this
    exact Nat.lt_of_le_of_lt (read_from_rest_le stops s' c') this

theorem parse_rest (stops : Stops) (c : Cursor) : (parse stops c).2 = (readFrom stops .empty c).2 := rfl

theorem parse_failure (stops : Stops) (c : Cursor) (stuck : c.interrupted = true ∨ c.rest = []) :
    ∃ f, (parse stops c).1 = .error f := by
  unfold parse
  fun_cases readFrom stops .empty c with
  | case1 => exact ⟨_, rfl⟩
  | case2 => exact ⟨_, rfl⟩
  | case3 running b rest more => simp [running, more] at stuck
  | case4 running b rest more => simp [running, more] at stuck
  | case5 running b rest more => simp [running, more] at stuck

theorem parse_progress (stops : Stops) (c c' : Cursor) (tree : Tree)
    (parsed : parse stops c = (.ok tree, c')) : c'.rest.length < c.rest.length := by
  have moved : c' = (readFrom stops .empty c).2 := by rw [← parse_rest, parsed]
  by_cases stuck : c.interrupted = true ∨ c.rest = []
  · obtain ⟨f, failed⟩ := parse_failure stops c stuck
    rw [parsed] at failed
    cases failed
  · rw [moved]
    exact read_from_progress stops _ c (by simpa using fun h => stuck (Or.inl h)) fun h => stuck (Or.inr h)

end GraphCalc.Expression

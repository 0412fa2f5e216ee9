import GraphCalc.Proofs.Items
import GraphCalc.Statement

set_option autoImplicit false

namespace GraphCalc

namespace Cursor

theorem advance_add (c : Cursor) (m n : Nat) : (c.advance m).advance n = c.advance (m + n) := by
  induction m generalizing c with
  | zero => rw [advance, Nat.zero_add]
  | succ m ih => rw [advance, ih, Nat.succ_add, advance]

def Reaches (c c' : Cursor) : Prop := ∃ n, c' = c.advance n

def Ahead (c c' : Cursor) : Prop := c.next.Reaches c'

theorem reaches_refl (c : Cursor) : c.Reaches c := ⟨0, rfl⟩

theorem reaches_trans (c c' c'' : Cursor) (first : c.Reaches c') (second : c'.Reaches c'') : c.Reaches c'' := by
  obtain ⟨m, rfl⟩ := first
  obtain ⟨n, rfl⟩ := second
  exact ⟨m + n, c.advance_add m n⟩

theorem ahead_reaches (c c' : Cursor) (ahead : c.Ahead c') : c.Reaches c' :=
  reaches_trans c c.next c' ⟨1, rfl⟩ ahead

theorem reaches_interrupted (c c' : Cursor) (reaches : c.Reaches c') : c'.interrupted = c.interrupted := by
  obtain ⟨n, rfl⟩ := reaches
  exact c.advance_interrupted n

theorem reaches_suffix (c c' : Cursor) (reaches : c.Reaches c') : c'.rest <:+ c.rest := by
  obtain ⟨n, rfl⟩ := reaches
  rw [advance_rest]
  exact List.drop_suffix n c.rest

theorem current_going (c : Cursor) (b : UInt8) (read : c.current = some b) : c.ended = false := by
  unfold current at read
  by_cases ended : c.ended = true
  · rw [if_pos ended] at read
    cases read
  · simpa using ended

theorem advance_going (c : Cursor) (going : c.ended = false) (n : Nat) (within : n ≤ c.rest.length) :
    (c.advance n).ended = false := by
  induction n generalizing c with
  | zero => exact going
  | succ n ih =>
      cases rest : c.rest with rw [rest] at within
      | nil => cases within
      | cons b rest' =>
          apply ih
          · simp [next, rest, going]
          · rw [next_rest, rest]
            exact Nat.le_of_succ_le_succ within

theorem next_bytes (c : Cursor) : c.next.passed.reverse ++ c.next.rest = c.passed.reverse ++ c.rest := by
  unfold next
  cases c.rest <;> simp

theorem reaches_bytes (c c' : Cursor) (reaches : c.Reaches c') :
    c'.passed.reverse ++ c'.rest = c.passed.reverse ++ c.rest := by
  obtain ⟨n, rfl⟩ := reaches
  induction n generalizing c with
  | zero => rfl
  | succ n ih => rw [advance, ih, next_bytes]

theorem next_past (c : Cursor) (none : c.rest = []) (past : c.ended = true) : c.next = c := by
  obtain ⟨passed, rest, ended, interrupted⟩ := c
  cases none
  cases past
  rfl

def Proper (c : Cursor) : Prop := c.ended = true → c.rest = []

theorem start_proper (bytes : Bytes) (interrupted : Bool) : (start bytes interrupted).Proper := by
  intro ended
  cases ended

theorem proper_going (c : Cursor) (proper : c.Proper) (b : UInt8) (rest : Bytes) (bytes : c.rest = b :: rest) :
    c.ended = false := by
  by_cases ended : c.ended = true
  · rw [proper ended] at bytes
    cases bytes
  · simpa using ended

theorem next_proper (c : Cursor) (proper : c.Proper) : c.next.Proper := by
  unfold next
  cases more : c.rest with
  | nil => exact fun _ => rfl
  | cons b rest =>
      intro ended
      rw [proper ended] at more
      cases more

theorem reaches_proper (c c' : Cursor) (reaches : c.Reaches c') (proper : c.Proper) : c'.Proper := by
  obtain ⟨n, rfl⟩ := reaches
  induction n generalizing c with
  | zero => exact proper
  | succ n ih => exact ih c.next (next_proper c proper)

def Started (c : Cursor) : Prop := c.passed ≠ [] ∨ c.ended = true

theorem next_started (c : Cursor) : c.next.Started := by
  unfold next
  cases c.rest with
  | nil => exact Or.inr rfl
  | cons b rest => exact Or.inl (by simp)

theorem ahead_started (c c' : Cursor) (ahead : c.Ahead c') : c'.Started := by
  obtain ⟨n, rfl⟩ := ahead
  induction n generalizing c with
  | zero => exact c.next_started
  | succ n ih => exact ih c.next

end Cursor

namespace Expression

theorem step_cursor (s : Stacks) (b : UInt8) (c : Cursor) :
    (step s b c).2 = c ∨ (step s b c).2 = c.advance (Item.read b c.rest).2 := by
  unfold step
  cases Item.read b c.rest with
  | mk result used =>
      cases result with
      | error e => exact Or.inr rfl
      | ok item =>
          dsimp only
          cases s.accept item with
          | ok s' => exact Or.inr rfl
          | error e =>
              dsimp only
              split
              · exact Or.inl rfl
              · exact Or.inr rfl

theorem step_reaches (s : Stacks) (b : UInt8) (c : Cursor) : c.Reaches (step s b c).2 := by
  rcases step_cursor s b c with stays | moves
  · rw [stays]
    exact c.reaches_refl
  · exact ⟨_, moves⟩

def onward (stops : Stops) : Except Cause Stacks × Cursor → Except Cause Tree × Cursor
  | (.error e, c) => (.error e, c)
  | (.ok s, c) => readFrom stops s c

theorem read_from_last (stops : Stops) (s : Stacks) (c : Cursor) (running : c.interrupted = false) (none : c.rest = []) :
    readFrom stops s c = (s.finish, c.next) := by
  rw [readFrom, if_neg (by simp [running])]
  split
  · rfl
  · rename_i more
    cases none.symm.trans more

theorem read_from_cons (stops : Stops) (s : Stacks) (c : Cursor) (running : c.interrupted = false) (b : UInt8)
    (rest : Bytes) (more : c.rest = b :: rest) :
    readFrom stops s c =
      if Byte.endsLine b || stops.endAt s b then (s.finish, c.next) else onward stops (step s b c.next) := by
  rw [readFrom, if_neg (by simp [running])]
  split
  · rename_i none
    cases more.symm.trans none
  · rename_i same
    cases more.symm.trans same
    by_cases ends : (Byte.endsLine b || stops.endAt s b) = true
    · rw [if_pos ends, if_pos ends]
    · rw [if_neg ends, if_neg ends]
      split <;> rename_i taken <;> rw [taken, onward]

theorem read_from_ahead (stops : Stops) (s : Stacks) (c : Cursor) (running : c.interrupted = false) :
    c.Ahead (readFrom stops s c).2 := by
  fun_induction readFrom stops s c with
  | case1 s c interrupted => rw [running] at interrupted; cases interrupted
  | case2 s c => exact c.next.reaches_refl
  | case3 s c => exact c.next.reaches_refl
  | case4 s c _ b rest more _ e c' taken =>
      have stepped := step_reaches s b c.next
      rwa [taken] at stepped
  | case5 s c _ b rest more _ s' c' taken ih =>
      have stepped := step_reaches s b c.next
      rw [taken] at stepped
      have same := Cursor.reaches_interrupted _ _ (c.ahead_reaches c' stepped)
      exact Cursor.reaches_trans _ _ _ stepped (c'.ahead_reaches _ (ih (same.trans running)))

theorem parse_of_read (stops : Stops) (c c' : Cursor) (tree : Tree) (read : readFrom stops .empty c = (.ok tree, c')) :
    parse stops c = (.ok tree, c') := by
  unfold parse
  rw [read]
  rfl

theorem parse_ahead (stops : Stops) (c c' : Cursor) (result : Except Fault Tree) (running : c.interrupted = false)
    (parsed : parse stops c = (result, c')) : c.Ahead c' := by
  have ahead := read_from_ahead stops .empty c running
  rw [← parse_rest, parsed] at ahead
  exact ahead

end Expression

namespace Statement

def afterArgument (paren : Bool) : Except Fault Tree × Cursor → Except Fault (List Tree) × Cursor
  | (.error f, c) => (.error f, c)
  | (.ok tree, c) =>
    if c.current = some Byte.comma then ((readArguments paren c).1.map (tree :: ·), (readArguments paren c).2)
    else if paren ∧ c.current = some Byte.closeParen ∧ endOfLine c.peek = false then
      (.error (Fault.ofCause .tokenAfterParen), c)
    else (.ok [tree], c)

theorem read_arguments_eq (paren : Bool) (c : Cursor) :
    readArguments paren c = afterArgument paren (Expression.parse ⟨true, paren⟩ c) := by
  rw [readArguments]
  split <;> rename_i parsed <;> rw [parsed, afterArgument]

def onward (stops : Stops) : Except Fault Tree × Cursor → Except Fault (List Tree) × Cursor
  | (.error f, c) => (.error f, c)
  | (.ok tree, c) => ((readAll stops c).1.map (tree :: ·), (readAll stops c).2)

theorem read_all_last (stops : Stops) (c : Cursor) (running : c.interrupted = false) (none : c.rest = []) :
    readAll stops c = (.ok [], c.next) := by
  rw [readAll, if_neg (by simp [running])]
  split
  · rfl
  · rename_i more
    cases none.symm.trans more

theorem read_all_cons (stops : Stops) (c : Cursor) (running : c.interrupted = false) (b : UInt8) (rest : Bytes)
    (more : c.rest = b :: rest) :
    readAll stops c =
      if Byte.endsLine b then readAll stops c.next
      else if stops.endAt b then (.ok [], c)
      else onward stops (readOne b c) := by
  rw [readAll, if_neg (by simp [running])]
  split
  · rename_i none
    cases more.symm.trans none
  · rename_i same
    cases more.symm.trans same
    by_cases ends : Byte.endsLine b = true
    · rw [if_pos ends, if_pos ends]
    · rw [if_neg ends, if_neg ends]
      by_cases stopped : stops.endAt b = true
      · rw [if_pos stopped, if_pos stopped]
      · rw [if_neg stopped, if_neg stopped]
        split <;> rename_i read <;> rw [read, onward]

theorem read_arguments_ahead (paren : Bool) (c : Cursor) (running : c.interrupted = false) :
    c.Ahead (readArguments paren c).2 := by
  fun_induction readArguments paren c with
  | case1 c f c' parsed => exact Expression.parse_ahead _ c c' _ running parsed
  | case2 c tree c' parsed _ result c'' more ih =>
      have ahead := Expression.parse_ahead _ c c' _ running parsed
      have same := Cursor.reaches_interrupted _ _ (c.ahead_reaches c' ahead)
      have later := ih (same.trans running)
      rw [more] at later
      exact Cursor.reaches_trans _ _ _ ahead (c'.ahead_reaches _ later)
  | case3 c tree c' parsed => exact Expression.parse_ahead _ c c' _ running parsed
  | case4 c tree c' parsed => exact Expression.parse_ahead _ c c' _ running parsed

theorem read_shape_reaches (shape : Shape) (c : Cursor) (running : c.interrupted = false) :
    c.Reaches (readShape shape c).2 := by
  have arguments (paren : Bool) := c.ahead_reaches _ (read_arguments_ahead paren c running)
  cases shape with
  | standalone =>
      rw [readShape]
      split <;> exact c.reaches_refl
  | args | paren =>
      rw [readShape]
      split
      · exact c.reaches_refl
      · exact arguments _

theorem read_one_ahead (b : UInt8) (c : Cursor) (running : c.interrupted = false) : c.Ahead (readOne b c).2 := by
  unfold readOne
  split
  · exact read_shape_reaches _ c.next (c.next_interrupted.trans running)
  · exact Expression.parse_ahead _ c _ _ running rfl

theorem read_all_reaches (stops : Stops) (c : Cursor) : c.Reaches (readAll stops c).2 := by
  fun_induction readAll stops c with
  | case1 c => exact c.reaches_refl
  | case2 c => exact ⟨1, rfl⟩
  | case3 c _ b rest more ends ih => exact Cursor.reaches_trans _ _ _ ⟨1, rfl⟩ ih
  | case4 c => exact c.reaches_refl
  | case5 c running b rest more _ _ f c' read =>
      have ahead := read_one_ahead b c (by simpa using running)
      rw [read] at ahead
      exact c.ahead_reaches c' ahead
  | case6 c running b rest more _ _ tree c' read result c'' later ih =>
      have ahead := read_one_ahead b c (by simpa using running)
      rw [read] at ahead
      rw [later] at ih
      exact Cursor.reaches_trans _ _ _ (c.ahead_reaches c' ahead) ih

theorem read_all_failed_ahead (stops : Stops) (c : Cursor) (running : c.interrupted = false) (f : Fault)
    (failed : (readAll stops c).1 = .error f) : c.Ahead (readAll stops c).2 := by
  revert failed
  fun_cases readAll stops c with
  | case1 interrupted => rw [running] at interrupted; cases interrupted
  | case2 => exact fun _ => c.next.reaches_refl
  | case3 _ b rest more ends => exact fun _ => read_all_reaches stops c.next
  | case4 => exact nofun
  | case5 _ b rest more _ _ f c' read =>
      have ahead := read_one_ahead b c running
      rw [read] at ahead
      exact fun _ => ahead
  | case6 _ b rest more _ _ tree c' read result c'' later =>
      have ahead := read_one_ahead b c running
      have onward := read_all_reaches stops c'
      rw [read] at ahead
      rw [later] at onward
      exact fun _ => Cursor.reaches_trans _ _ _ ahead onward

theorem parse_program_single (b : UInt8) (rest : Bytes) (inLine : Byte.endsLine b = false) (tree : Tree) (c : Cursor)
    (read : readOne b (.start (b :: rest) false) = (.ok tree, c)) (last : c.rest = []) :
    parseProgram (b :: rest) false = .ok [tree] := by
  have reaches := Cursor.ahead_reaches _ _ (read_one_ahead b (.start (b :: rest) false) rfl)
  rw [read] at reaches
  unfold parseProgram parse
  rw [read_all_cons ⟨false, false⟩ _ rfl b rest rfl, if_neg (by simp [inLine]), if_neg (by simp [Stops.endAt]), read,
    onward, read_all_last _ c (Cursor.reaches_interrupted _ c reaches) last]
  rfl

end Statement

end GraphCalc

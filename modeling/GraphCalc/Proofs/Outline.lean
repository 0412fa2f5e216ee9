import GraphCalc.Proofs.Balance

/-!
Outlines: a tree and the items it was read from, both written as one sequence of marks in source order.
They differ only in the place of factorials: a factorial waits on the pending stack, and what binds
tighter passes it.
-/

set_option autoImplicit false

namespace GraphCalc

-- The last mark stands for brackets and commas of which a tree keeps no trace.
inductive Mark where
  | operand (tree : Tree)
  | operator (op : Operator)
  | enter (opening : Opening)
  | separator
  | leave
  | plain

namespace Mark

def isFactorial : Mark → Bool
  | .operator .factorial => true
  | _ => false

def isTight : Mark → Bool
  | .operator op => op.precedence < Operator.precedence .factorial
  | _ => false

def isTraced : Mark → Bool
  | .plain | .operator .factorial => false
  | _ => true

theorem untraced (mark : Mark) (untraced : mark.isTraced = false) (other : mark.isFactorial = false) : mark = .plain := by
  cases mark with
  | plain => rfl
  | operator op => cases op <;> simp [isTraced, isFactorial] at untraced other
  | operand _ | enter _ | separator | leave => cases untraced

end Mark

namespace Tree

-- The operators of an expression stand between, before or after their operands, the bracket of a call
-- before its arguments.
mutual
def outline : Tree → List Mark
  | .operator op [x] => if op.isPrefix then .operator op :: outline x else outline x ++ [.operator op]
  | .operator op [lhs, rhs] => outline lhs ++ .operator op :: outline rhs
  | .operator op args => .operator op :: outlineMore args
  | .call target (first :: more) => .enter (.call target) :: (outline first ++ (outlineMore more ++ [.leave]))
  | .braces (first :: more) => .enter .braces :: (outline first ++ (outlineMore more ++ [.leave]))
  | .brackets (first :: more) => .enter .brackets :: (outline first ++ (outlineMore more ++ [.leave]))
  | leaf => [.operand leaf]

def outlineMore : List Tree → List Mark
  | [] => []
  | t :: rest => .separator :: (outline t ++ outlineMore rest)
end

theorem outline_more_append (first second : List Tree) :
    outlineMore (first ++ second) = outlineMore first ++ outlineMore second := by
  induction first with
  | nil => rfl
  | cons t rest ih => simp [outlineMore, ih]

theorem outline_node (opening : Opening) (first : Tree) (more : List Tree) :
    (opening.node (first :: more)).outline =
      .enter opening :: (first.outline ++ (outlineMore more ++ [.leave])) := by
  cases opening <;> rfl

end Tree

-- The brackets around a place in the source are listed from the inside out.
def separatorMark : List (Option Opening) → Mark
  | some _ :: _ => .separator
  | _ => .plain

def enterMark : Option Opening → Mark
  | some opening => .enter opening
  | none => .plain

def leaveMark : Option Opening → Mark
  | some _ => .leave
  | none => .plain

theorem separator_mark_cases (around : List (Option Opening)) :
    separatorMark around = .separator ∨ separatorMark around = .plain := by
  cases around with
  | nil => exact Or.inr rfl
  | cons bracket outside =>
      cases bracket with
      | none => exact Or.inr rfl
      | some opening => exact Or.inl rfl

theorem leave_mark_cases (bracket : Option Opening) : leaveMark bracket = .leave ∨ leaveMark bracket = .plain := by
  cases bracket with
  | none => exact Or.inr rfl
  | some opening => exact Or.inl rfl

def implied (product : Bool) : List Mark := if product then [.operator .multiply] else []

namespace Item

def startsOperand : Item → Bool
  | .operand _ | .text _ _ | .opener _ _ => true
  | .operator op => op == .negate
  | .closer _ _ => false

def mark (ended : Bool) (around : List (Option Opening)) : Item → Mark
  | .operand tree => .operand tree
  | .text bytes _ => .operand (.text bytes)
  | .operator op => if op = .comma then separatorMark around else .operator (Stacks.resolved ended op)
  | .opener target group => enterMark (Opening.ofItem? target group)
  | .closer _ _ => leaveMark around.head?.join

def outline (ended : Bool) (around : List (Option Opening)) (item : Item) : List Mark :=
  implied (item.startsOperand && ended) ++ [item.mark ended around]

def around (before : List (Option Opening)) : Item → List (Option Opening)
  | .opener target group => Opening.ofItem? target group :: before
  | .closer _ _ => before.tail
  | _ => before

theorem outline_factorials (ended : Bool) (before : List (Option Opening)) (item : Item) :
    (item.outline ended before).countP Mark.isFactorial = (item.mark ended before).isFactorial.toNat := by
  unfold outline
  generalize item.mark ended before = mark
  have times : (Mark.operator .multiply).isFactorial = false := rfl
  cases item.startsOperand && ended <;> cases factorial : mark.isFactorial <;> simp [implied, factorial, times]

theorem factorial_item (ended : Bool) (before : List (Option Opening)) (item : Item)
    (factorial : (item.mark ended before).isFactorial = true) : item = .operator .factorial := by
  cases item with
  | operator op =>
      by_cases comma : op = .comma
      · rw [mark, if_pos comma] at factorial
        rcases separator_mark_cases before with same | same <;> rw [same] at factorial <;> cases factorial
      · rw [mark, if_neg comma, Stacks.resolved] at factorial
        by_cases minus : op = .subtract ∧ ended = false
        · rw [if_pos minus] at factorial
          cases factorial
        · rw [if_neg minus] at factorial
          cases op <;> first | rfl | cases factorial
  | opener target group => cases target <;> cases group <;> cases factorial
  | closer group _ =>
      rw [mark] at factorial
      rcases leave_mark_cases before.head?.join with same | same <;> rw [same] at factorial <;> cases factorial
  | operand _ | text _ _ => cases factorial

end Item

-- Brackets that are still open at the end are left there.
def sourceOutline : Bool → List (Option Opening) → List Item → List Mark
  | _, around, [] => around.map leaveMark
  | ended, around, item :: rest =>
    item.outline ended around ++ sourceOutline item.endsOperand (item.around around) rest

-- The second sequence is the first without its plain marks, with every factorial put off until it is
-- applied; `waiting` factorials have been read before, the last of them right before if `fresh`. Only
-- a tight operator passes a fresh one.
inductive Late : Bool → Nat → List Mark → List Mark → Prop where
  | done (fresh : Bool) : Late fresh 0 [] []
  | settle (fresh : Bool) (waiting : Nat) (source result : List Mark)
      (due : fresh = true → ∀ mark ∈ source.head?, mark.isTight = false) (rest : Late false waiting source result) :
      Late fresh (waiting + 1) source (.operator .factorial :: result)
  | wait (waiting : Nat) (source result : List Mark) (rest : Late true (waiting + 1) source result) :
      Late false waiting (.operator .factorial :: source) result
  | copy (fresh : Bool) (waiting : Nat) (mark : Mark) (source result : List Mark) (traced : mark.isTraced = true)
      (passes : fresh = true → mark.isTight = true) (rest : Late false waiting source result) :
      Late fresh waiting (mark :: source) (mark :: result)
  | drop (waiting : Nat) (source result : List Mark) (rest : Late false waiting source result) :
      Late false waiting (.plain :: source) result

theorem late_filter (keep : Mark → Bool) (fresh : Bool) (waiting : Nat) (source result : List Mark)
    (factorial : keep (.operator .factorial) = false) (plain : keep .plain = false)
    (late : Late fresh waiting source result) : result.filter keep = source.filter keep := by
  induction late with
  | done => rfl
  | settle fresh waiting source result _ _ ih => rw [List.filter_cons_of_neg (by simp [factorial]), ih]
  | wait waiting source result _ ih => rw [List.filter_cons_of_neg (by simp [factorial]), ih]
  | copy fresh waiting mark source result _ _ _ ih => rw [List.filter_cons, List.filter_cons, ih]
  | drop waiting source result _ ih => rw [List.filter_cons_of_neg (by simp [plain]), ih]

theorem late_settle (fresh : Bool) (settled waiting : Nat) (source result : List Mark)
    (due : fresh = true → settled ≠ 0 ∧ ∀ mark ∈ source.head?, mark.isTight = false)
    (rest : Late false waiting source result) :
    Late fresh (settled + waiting) source (List.replicate settled (.operator .factorial) ++ result) := by
  induction settled generalizing fresh with
  | zero =>
      cases fresh with
      | false => simpa using rest
      | true => exact absurd rfl (due rfl).1
  | succ n ih =>
      have inner := ih false nofun
      rw [List.replicate_succ, List.cons_append, Nat.add_right_comm]
      exact .settle fresh (n + waiting) source _ (fun isFresh => (due isFresh).2) inner

theorem late_copy (marks : List Mark) (waiting : Nat) (source result : List Mark)
    (others : ∀ mark ∈ marks, mark.isFactorial = false) (rest : Late false waiting source result) :
    Late false waiting (marks ++ source) (marks.filter Mark.isTraced ++ result) := by
  induction marks with
  | nil => exact rest
  | cons mark marks ih =>
      have later := ih (fun m member => others m (by simp [member]))
      have other := others mark (by simp)
      cases traced : mark.isTraced with
      | true =>
          rw [List.filter_cons_of_pos traced]
          exact .copy false waiting mark _ _ traced nofun later
      | false =>
          rw [List.filter_cons_of_neg (by simp [traced])]
          rw [Mark.untraced mark traced other]
          exact .drop waiting _ _ later

theorem factorial_mark (mark : Mark) (factorial : mark.isFactorial = true) : mark = .operator .factorial := by
  cases mark with
  | operator op => cases op <;> first | rfl | cases factorial
  | operand _ | enter _ | separator | leave | plain => cases factorial

theorem late_item (fresh product : Bool) (settled waiting : Nat) (mark : Mark) (source result : List Mark)
    (alone : mark.isFactorial = true → product = false)
    (due : fresh = true → ∀ first ∈ (implied product ++ [mark]).head?, if first.isTight then settled = 0 else settled ≠ 0)
    (rest : Late mark.isFactorial (waiting + mark.isFactorial.toNat) source result) :
    Late fresh (settled + waiting) (implied product ++ [mark] ++ source)
      (List.replicate settled (.operator .factorial) ++ ((implied product ++ [mark]).filter Mark.isTraced ++ result)) := by
  cases factorial : mark.isFactorial with
  | true =>
      cases alone factorial
      cases factorial_mark mark factorial
      refine late_settle fresh settled waiting _ _ ?_ (.wait waiting source result rest)
      intro isFresh
      exact ⟨due isFresh _ rfl, fun first same => by cases same; rfl⟩
  | false =>
      rw [factorial] at rest
      have others : ∀ m ∈ implied product ++ [mark], m.isFactorial = false := by
        have times : (Mark.operator .multiply).isFactorial = false := rfl
        cases product <;> simp [implied, factorial, times]
      have copied := late_copy (implied product ++ [mark]) waiting source result others rest
      cases product with
      | true =>
          refine late_settle fresh settled waiting _ _ ?_ copied
          intro isFresh
          exact ⟨due isFresh _ rfl, fun first head => by cases head; rfl⟩
      | false =>
          by_cases passing : fresh = true ∧ mark.isTight = true
          · obtain ⟨isFresh, tight⟩ := passing
            have none : settled = 0 := by simpa [tight] using due isFresh mark rfl
            have traced : mark.isTraced = true := by
              cases shown : mark.isTraced with
              | true => rfl
              | false =>
                  rw [Mark.untraced mark shown factorial] at tight
                  cases tight
            subst none
            simpa [implied, traced] using Late.copy fresh waiting mark source result traced (fun _ => tight) rest
          · refine late_settle fresh settled waiting _ _ ?_ copied
            intro isFresh
            have loose : mark.isTight = false := by simpa [isFresh] using passing
            exact ⟨by simpa [loose] using due isFresh mark rfl, fun first head => by cases head; exact loose⟩

end GraphCalc

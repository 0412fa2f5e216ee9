import GraphCalc.Proofs.StackOutline

set_option autoImplicit false

namespace GraphCalc

def Mark.isWord : Mark → Bool
  | .operand _ | .enter _ => true
  | .operator op => op != .multiply
  | .separator | .leave | .plain => false

namespace Item

def words (ended : Bool) : Item → List Mark
  | .operand tree => [.operand tree]
  | .text bytes _ => [.operand (.text bytes)]
  | .operator op => if op = .comma ∨ op = .multiply then [] else [.operator (Stacks.resolved ended op)]
  | .opener target group => (Opening.ofItem? target group).toList.map .enter
  | .closer _ _ => []

end Item

def sourceWords : Bool → List Item → List Mark
  | _, [] => []
  | ended, item :: rest => item.words ended ++ sourceWords item.endsOperand rest

-- Some factorial is followed at once by an operator that binds tighter.
def Overtaken (all : List Item) : Prop :=
  ∃ op : Operator, op.precedence < Operator.precedence .factorial ∧ [.operator .factorial, .operator op] <:+: all

-- The same of marks, the first of which follows a factorial if `fresh`.
def Passed : Bool → List Mark → Prop
  | _, [] => False
  | fresh, mark :: rest => (fresh = true ∧ mark.isTight = true) ∨ Passed mark.isFactorial rest

theorem passed_loose (fresh : Bool) (marks : List Mark) (loose : ∀ mark ∈ marks.head?, mark.isTight = false) :
    Passed fresh marks ↔ Passed false marks := by
  cases marks with
  | nil => rfl
  | cons mark rest => simp [Passed, loose mark rfl]

theorem loose_not_passed (fresh : Bool) (marks : List Mark) (loose : ∀ mark ∈ marks, mark.isTight = false) :
    ¬ Passed fresh marks := by
  induction marks generalizing fresh with
  | nil => exact id
  | cons mark rest ih =>
      have later := ih mark.isFactorial (fun m member => loose m (by simp [member]))
      simpa [Passed, loose mark (by simp)] using later

theorem tight_is_word (mark : Mark) (tight : mark.isTight = true) : mark.isWord = true := by
  cases mark with
  | operator op => cases op <;> first | rfl | cases tight
  | operand _ | enter _ | separator | leave | plain => cases tight

theorem traced_not_factorial (mark : Mark) (traced : mark.isTraced = true) : mark.isFactorial = false := by
  cases factorial : mark.isFactorial with
  | false => rfl
  | true =>
      rw [factorial_mark mark factorial] at traced
      cases traced

-- With one factorial waiting at most, that is until a factorial is passed for the first time.
theorem late_words (fresh : Bool) (waiting : Nat) (source result : List Mark) (late : Late fresh waiting source result)
    (one : waiting = fresh.toNat) :
    result.filter Mark.isWord = (if fresh then [.operator .factorial] else []) ++ source.filter Mark.isWord ↔
      ¬ Passed fresh source := by
  induction late with
  | done fresh =>
      cases fresh with
      | false => simp [Passed]
      | true => cases one
  | settle fresh waiting source result due _ ih =>
      cases fresh with
      | false => cases one
      | true =>
          have none : waiting = 0 := Nat.succ.inj one
          rw [passed_loose true source (due rfl), ← ih none]
          simp [List.filter_cons, Mark.isWord]
  | wait waiting source result _ ih =>
      have none : waiting = 0 := one
      subst none
      have later := ih rfl
      simpa [Passed, List.filter_cons, Mark.isWord, Mark.isFactorial] using later
  | copy fresh waiting mark source result traced passes _ ih =>
      cases fresh with
      | false =>
          simp only [Passed, Bool.false_eq_true, false_and, false_or, traced_not_factorial mark traced, if_false,
            List.nil_append]
          rw [← ih one, List.filter_cons, List.filter_cons]
          cases mark.isWord <;> simp
      | true =>
          have tight := passes rfl
          have different : mark ≠ .operator .factorial := by
            rintro rfl
            cases traced
          simp [Passed, tight, tight_is_word mark tight, different]
  | drop waiting source result _ ih =>
      have none : waiting = 0 := one
      subst none
      have later := ih rfl
      simpa [Passed, List.filter_cons, Mark.isWord, Mark.isFactorial] using later

theorem item_outline_words (ended : Bool) (around : List (Option Opening)) (item : Item) :
    (item.outline ended around).filter Mark.isWord = item.words ended := by
  have product (needed : Bool) : (implied needed).filter Mark.isWord = [] := by cases needed <;> rfl
  rw [Item.outline, List.filter_append, product, List.nil_append]
  cases item with
  | operand tree => rfl
  | text bytes closed => rfl
  | operator op =>
      cases op with
      | comma =>
          rw [Item.mark, if_pos rfl]
          rcases separator_mark_cases around with same | same <;> rw [same] <;> rfl
      | subtract => cases ended <;> rfl
      | _ => rfl
  | opener target group => cases target <;> cases group <;> rfl
  | closer group rowFollows =>
      rw [Item.mark]
      rcases leave_mark_cases around.head?.join with same | same <;> rw [same] <;> rfl

theorem source_outline_words (ended : Bool) (around : List (Option Opening)) (all : List Item) :
    (sourceOutline ended around all).filter Mark.isWord = sourceWords ended all := by
  induction all generalizing ended around with
  | nil =>
      rw [sourceOutline, sourceWords, List.filter_eq_nil_iff]
      intro mark member
      obtain ⟨opening, _, rfl⟩ := List.mem_map.mp member
      cases opening <;> exact Bool.false_ne_true
  | cons item rest ih => rw [sourceOutline, sourceWords, List.filter_append, item_outline_words, ih]

def Item.isTight : Item → Bool
  | .operator op => op.precedence < Operator.precedence .factorial
  | _ => false

theorem item_mark_tight (ended : Bool) (around : List (Option Opening)) (item : Item) :
    (item.mark ended around).isTight = item.isTight := by
  cases item with
  | operand tree => rfl
  | text bytes closed => rfl
  | operator op =>
      cases op with
      | comma =>
          rw [Item.mark, if_pos rfl]
          rcases separator_mark_cases around with same | same <;> rw [same] <;> rfl
      | subtract => cases ended <;> rfl
      | _ => rfl
  | opener target group => cases target <;> cases group <;> rfl
  | closer group rowFollows =>
      rw [Item.mark]
      rcases leave_mark_cases around.head?.join with same | same <;> rw [same] <;> rfl

theorem overtaken_cons (item : Item) (rest : List Item) :
    Overtaken (item :: rest) ↔
      (item = .operator .factorial ∧ ∃ next ∈ rest.head?, next.isTight = true) ∨ Overtaken rest := by
  constructor
  · rintro ⟨op, tight, inside⟩
    rcases List.infix_cons_iff.mp inside with here | later
    · obtain ⟨same, here⟩ := List.cons_prefix_cons.mp here
      obtain ⟨more, rfl⟩ := here
      exact Or.inl ⟨same.symm, .operator op, rfl, decide_eq_true tight⟩
    · exact Or.inr ⟨op, tight, later⟩
  · rintro (⟨rfl, next, head, tight⟩ | ⟨op, tight, later⟩)
    · obtain ⟨more, rfl⟩ := List.head?_eq_some_iff.mp head
      cases next with
      | operator op => exact ⟨op, of_decide_eq_true tight, [], more, rfl⟩
      | operand _ | text _ _ | opener _ _ | closer _ _ => cases tight
    · exact ⟨op, tight, List.infix_cons later⟩

theorem passed_item (fresh ended : Bool) (around : List (Option Opening)) (item : Item) (marks : List Mark) :
    Passed fresh (item.outline ended around ++ marks) ↔
      (fresh = true ∧ item.isTight = true) ∨ Passed (item.mark ended around).isFactorial marks := by
  have tight := item_mark_tight ended around item
  rw [Item.outline]
  cases product : item.startsOperand && ended with
  | false => simp [implied, Passed, tight]
  | true =>
      have loose : item.isTight = false := by
        cases item with
        | operator op => cases op <;> first | rfl | cases product
        | operand _ | text _ _ | opener _ _ | closer _ _ => rfl
      have times : (Mark.operator .multiply).isTight = false ∧ (Mark.operator .multiply).isFactorial = false := ⟨rfl, rfl⟩
      simp [implied, Passed, loose, times]

theorem passed_outline (fresh ended : Bool) (around : List (Option Opening)) (all : List Item) :
    Passed fresh (sourceOutline ended around all) ↔
      (fresh = true ∧ ∃ first ∈ all.head?, first.isTight = true) ∨ Overtaken all := by
  induction all generalizing fresh ended around with
  | nil =>
      have none : ¬ Passed fresh (around.map leaveMark) := by
        refine loose_not_passed fresh _ ?_
        intro mark member
        obtain ⟨opening, _, rfl⟩ := List.mem_map.mp member
        cases opening <;> rfl
      simpa [sourceOutline, Overtaken] using none
  | cons item rest ih =>
      have factorial : (item.mark ended around).isFactorial = true ↔ item = .operator .factorial := by
        refine ⟨item.factorial_item ended around, ?_⟩
        rintro rfl
        rfl
      rw [sourceOutline, passed_item, ih, factorial, overtaken_cons]
      simp

namespace Expression

theorem parse_keeps_order_iff (c : Cursor) (tree : Tree) (parsed : (parse lineOnly c).1 = .ok tree) :
    ∃ all, source c.rest = .ok all ∧
      (tree.outline.filter Mark.isWord).filter (fun mark => !mark.isFactorial) =
          (sourceWords false all).filter (fun mark => !mark.isFactorial) ∧
        (tree.outline.filter Mark.isWord = sourceWords false all ↔ ¬ Overtaken all) := by
  obtain ⟨all, s, cut, _, _, _, late⟩ := parse_outline c tree parsed
  refine ⟨all, cut, ?_, ?_⟩
  · rw [← source_outline_words false [] all, List.filter_filter, List.filter_filter]
    exact late_filter _ false 0 _ _ rfl rfl late
  · have kept := late_words false 0 _ _ late rfl
    rw [passed_outline, source_outline_words] at kept
    simpa using kept

-- The factorial of `A` next to the square of `B`.
theorem factorial_before_square_keeps_order :
    (parse lineOnly (.start [0x41, 0x2D, 0x42, 0x0D] false)).1 =
        .ok (.operator .multiply [.operator .factorial [.variable 0], .operator .square [.variable 1]]) ∧
      ∃ all, source [0x41, 0x2D, 0x42, 0x0D] = .ok all ∧
        ([.operand (.variable 0), .operator .factorial, .operand (.variable 1), .operator .square] =
          sourceWords false all ↔ ¬ Overtaken all) := by
  have parsed : (parse lineOnly (.start [0x41, 0x2D, 0x42, 0x0D] false)).1 =
      .ok (.operator .multiply [.operator .factorial [.variable 0], .operator .square [.variable 1]]) :=
    (parse_ok _ _ _).mpr (by cbv)
  obtain ⟨all, cut, _, kept⟩ := parse_keeps_order_iff _ _ parsed
  exact ⟨parsed, all, cut, kept⟩

-- Of the factorial of `A`, raised to `B`, the factorial comes to stand behind the whole power.
theorem factorial_takes_power :
    (parse lineOnly (.start [0x41, 0x2D, 0xF0, 0x42] false)).1 =
        .ok (.operator .factorial [.operator .power [.variable 0, .variable 1]]) ∧
      source [0x41, 0x2D, 0xF0, 0x42] =
        .ok [.operand (.variable 0), .operator .factorial, .operator .power, .operand (.variable 1)] ∧
      (Tree.operator .factorial [.operator .power [.variable 0, .variable 1]]).outline.filter Mark.isWord ≠
        sourceWords false [.operand (.variable 0), .operator .factorial, .operator .power, .operand (.variable 1)] :=
  ⟨(parse_ok _ _ _).mpr (by cbv), by cbv, nofun⟩

end Expression

end GraphCalc

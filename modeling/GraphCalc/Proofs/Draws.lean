import GraphCalc.Machine.Supply

set_option autoImplicit false

namespace GraphCalc

inductive Draw where
  | fraction | integer
deriving DecidableEq

namespace Generator

def draw (g : Generator) : Draw → Generator
  | .fraction => g.fraction.2
  | .integer => g.integer.2

def after (g : Generator) (draws : List Draw) : Generator := draws.foldl draw g

theorem after_append (g : Generator) (first second : List Draw) :
    g.after (first ++ second) = (g.after first).after second := List.foldl_append

theorem after_draws (g : Generator) (draws : List Draw) : ∃ n, g.after draws = { g with state := n } := by
  induction draws generalizing g with
  | nil => exact ⟨g.state, rfl⟩
  | cons d rest ih =>
      obtain ⟨n, same⟩ := ih (g.draw d)
      refine ⟨n, same.trans ?_⟩
      cases d <;> rfl

theorem many_after {α : Type} (draw : Generator → α × Generator) (each : ∀ g, ∃ draws, (draw g).2 = g.after draws)
    (n : Nat) (g : Generator) : ∃ draws, (many draw n g).2 = g.after draws := by
  induction n generalizing g with
  | zero => exact ⟨[], rfl⟩
  | succ n ih =>
      obtain ⟨first, drawn⟩ := each g
      obtain ⟨later, rest⟩ := ih (draw g).2
      exact ⟨first ++ later, by rw [after_append, ← drawn, ← rest]; rfl⟩

theorem many_length {α : Type} (draw : Generator → α × Generator) (n : Nat) (g : Generator) :
    (many draw n g).1.length = n := by
  induction n generalizing g with
  | zero => rfl
  | succ n ih => exact congrArg (· + 1) (ih _)

-- What is asked of a generator: a fraction is finite and an integer is one of -9 to 9, after any draws.
structure Sound (g : Generator) : Prop where
  fraction : ∀ draws, (g.after draws).fraction.1.isFinite = true
  integer : ∀ draws, -9 ≤ (g.after draws).integer.1 ∧ (g.after draws).integer.1 ≤ 9

theorem sound_after (g : Generator) (draws : List Draw) (sound : g.Sound) : (g.after draws).Sound := by
  constructor
  · intro later
    rw [← after_append]
    exact sound.fraction _
  · intro later
    rw [← after_append]
    exact sound.integer _

theorem sound_of_states (g : Generator) (fraction : ∀ n, (g.fractions n).1.isFinite = true)
    (integer : ∀ n, -9 ≤ (g.integers n).1 ∧ (g.integers n).1 ≤ 9) : g.Sound := by
  constructor
  · intro draws
    obtain ⟨n, same⟩ := after_draws g draws
    rw [same]
    exact fraction n
  · intro draws
    obtain ⟨n, same⟩ := after_draws g draws
    rw [same]
    exact integer n

theorem many_each {α : Type} (draw : Generator → α × Generator) (P : α → Prop) (each : ∀ g, g.Sound → P (draw g).1)
    (drawn : ∀ g, ∃ draws, (draw g).2 = g.after draws) (n : Nat) (g : Generator) (sound : g.Sound) :
    ∀ x ∈ (many draw n g).1, P x := by
  induction n generalizing g with
  | zero =>
      intro x member
      cases member
  | succ n ih =>
      intro x member
      rcases List.mem_cons.mp member with rfl | later
      · exact each g sound
      · obtain ⟨draws, next⟩ := drawn g
        exact ih _ (next ▸ sound_after g draws sound) x later

theorem fraction_drawn (g : Generator) : ∃ draws, g.fraction.2 = g.after draws := ⟨[.fraction], rfl⟩

theorem entry_drawn (g : Generator) : ∃ draws, g.entry.2 = g.after draws := ⟨[.integer], rfl⟩

end Generator

namespace Supply

def Drawn (s s' : Supply) : Prop := ∃ draws, s' = { s with generator := s.generator.after draws }

theorem drawn_nothing (s : Supply) : s.Drawn s := ⟨[], rfl⟩

theorem fraction_drawn (s : Supply) : s.Drawn s.fraction.2 := ⟨[.fraction], rfl⟩

theorem fractions_drawn (s : Supply) (n : Nat) : s.Drawn (s.fractions n).2 := by
  obtain ⟨draws, same⟩ := Generator.many_after _ Generator.fraction_drawn n s.generator
  exact ⟨draws, by rw [← same]; rfl⟩

theorem entries_drawn (s : Supply) (rows columns : Nat) : s.Drawn (s.entries rows columns).2 := by
  obtain ⟨draws, same⟩ :=
    Generator.many_after _ (Generator.many_after _ Generator.entry_drawn columns) rows s.generator
  exact ⟨draws, by rw [← same]; rfl⟩

end Supply

end GraphCalc

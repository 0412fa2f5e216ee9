set_option autoImplicit false

namespace GraphCalc

/-- A generator of random numbers: what each of its two draws gives from a state, with the state after
it, and the state it is in. -/
structure Generator where
  fractions : Nat → Float32 × Nat
  integers : Nat → Int × Nat
  state : Nat

namespace Generator

def fraction (g : Generator) : Float32 × Generator :=
  ((g.fractions g.state).1, { g with state := (g.fractions g.state).2 })

def integer (g : Generator) : Int × Generator :=
  ((g.integers g.state).1, { g with state := (g.integers g.state).2 })

def entry (g : Generator) : Float32 × Generator :=
  (Float32.ofInt g.integer.1, g.integer.2)

def many {α : Type} (draw : Generator → α × Generator) : Nat → Generator → List α × Generator
  | 0, g => ([], g)
  | n + 1, g =>
    let (x, g) := draw g
    let (xs, g) := many draw n g
    (x :: xs, g)

end Generator

structure Supply where
  keys : List Float32
  generator : Generator
  depth : Nat

namespace Supply

def fresh (g : Generator) : Supply := ⟨[], g, 0⟩

def key (s : Supply) : Float32 × Supply :=
  match s.keys with
  | k :: keys => (k, { s with keys := keys })
  | [] => (0, s)

def press (s : Supply) (key : Float32) : Supply := { s with keys := s.keys ++ [key] }

def fraction (s : Supply) : Float32 × Supply :=
  let (x, g) := s.generator.fraction
  (x, { s with generator := g })

def fractions (s : Supply) (n : Nat) : List Float32 × Supply :=
  let (xs, g) := Generator.many Generator.fraction n s.generator
  (xs, { s with generator := g })

def enter (s : Supply) : Supply := { s with depth := s.depth + 1 }

def leave (s : Supply) : Supply := { s with depth := s.depth - 1 }

def entries (s : Supply) (rows columns : Nat) : List (List Float32) × Supply :=
  let (xss, g) := Generator.many (Generator.many Generator.entry columns) rows s.generator
  (xss, { s with generator := g })

end Supply

end GraphCalc

import Mathlib.Data.List.GetD
import GraphCalc.Fault

set_option autoImplicit false

namespace GraphCalc

variable {α β γ : Type}

theorem bind_ok {x : Except Cause α} {f : α → Except Cause β} {b : β}
    (done : (x >>= f) = .ok b) : ∃ a, x = .ok a ∧ f a = .ok b := by
  cases x with
  | error e => cases done
  | ok a => exact ⟨a, rfl, done⟩

theorem bind_error {x : Except Cause α} {f : α → Except Cause β} {e : Cause}
    (failed : (x >>= f) = .error e) : x = .error e ∨ ∃ a, x = .ok a ∧ f a = .error e := by
  cases x with
  | error d =>
      cases failed
      exact Or.inl rfl
  | ok a => exact Or.inr ⟨a, rfl, failed⟩

theorem both_ok (first second : Except Cause Unit) :
    (do first; second) = .ok () ↔ first = .ok () ∧ second = .ok () := by
  cases first with
  | error e => exact ⟨nofun, fun both => nomatch both.1⟩
  | ok _ => exact ⟨fun done => ⟨rfl, done⟩, fun both => both.2⟩

section Positions

variable (result : Nat → Except Cause α)

theorem results_next (n : Nat) :
    (List.range (n + 1)).mapM result = (List.range n).mapM result >>= fun zs => (result n).map (zs ++ [·]) := by
  rw [List.range_succ, List.mapM_append]
  cases (List.range n).mapM result with
  | error e => rfl
  | ok zs =>
      simp only [List.mapM_cons, List.mapM_nil]
      cases result n <;> rfl

theorem results_ok (n : Nat) (zs : List α) (done : (List.range n).mapM result = .ok zs) :
    zs.length = n ∧ ∀ i (inside : i < zs.length), result i = .ok zs[i] := by
  induction n generalizing zs with
  | zero =>
      cases done
      exact ⟨rfl, by simp⟩
  | succ n ih =>
      rw [results_next] at done
      cases before : (List.range n).mapM result with rw [before] at done
      | error e => cases done
      | ok ys =>
          obtain ⟨size, each⟩ := ih ys before
          cases last : result n with
          | error e => simp [last, bind, Except.bind, Except.map] at done
          | ok z =>
              have whole : ys ++ [z] = zs := by simpa [last, bind, Except.bind, Except.map] using done
              subst whole
              refine ⟨by simp [size], fun i inside => ?_⟩
              by_cases earlier : i < ys.length
              · rw [each i earlier, List.getElem_append_left earlier]
              · have here : i = n := by simp at inside; omega
                subst here
                rw [last, List.getElem_append_right (by omega)]
                simp [size]

theorem results_failed (n : Nat) (e : Cause) (failed : (List.range n).mapM result = .error e) :
    ∃ i < n, result i = .error e ∧ ∀ j < i, ∃ z, result j = .ok z := by
  induction n with
  | zero => cases failed
  | succ n ih =>
      rw [results_next] at failed
      cases before : (List.range n).mapM result with rw [before] at failed
      | error e' =>
          cases failed
          obtain ⟨i, inside, first⟩ := ih before
          exact ⟨i, Nat.lt_succ_of_lt inside, first⟩
      | ok zs =>
          obtain ⟨size, each⟩ := results_ok result n zs before
          cases last : result n with
          | ok z => simp [last, bind, Except.bind, Except.map] at failed
          | error e' =>
              have same : e' = e := by simpa [last, bind, Except.bind, Except.map] using failed
              exact ⟨n, Nat.lt_succ_self n, by rw [last, same], fun j earlier => ⟨_, each j (by omega)⟩⟩

theorem results_error (n : Nat) (e : Cause) : (List.range n).mapM result = .error e ↔
    ∃ i < n, result i = .error e ∧ ∀ j < i, ∃ z, result j = .ok z := by
  refine ⟨results_failed result n e, ?_⟩
  rintro ⟨i, inside, failed, before⟩
  cases all : (List.range n).mapM result with
  | ok zs =>
      obtain ⟨size, each⟩ := results_ok result n zs all
      rw [each i (by omega)] at failed
      cases failed
  | error e' =>
      obtain ⟨j, _, failed', before'⟩ := results_failed result n e' all
      rcases Nat.lt_trichotomy i j with less | rfl | greater
      · obtain ⟨z, done⟩ := before' i less
        cases failed.symm.trans done
      · rw [Except.error.inj (failed'.symm.trans failed)]
      · obtain ⟨z, done⟩ := before j greater
        cases failed'.symm.trans done

theorem results_ok_iff (blank : α) (n : Nat) (zs : List α) :
    (List.range n).mapM result = .ok zs ↔ zs.length = n ∧ ∀ i < n, result i = .ok (zs.getD i blank) := by
  constructor
  · intro done
    obtain ⟨rfl, each⟩ := results_ok result n zs done
    refine ⟨rfl, fun i inside => ?_⟩
    rw [each i inside, List.getD_eq_getElem _ _ inside]
  · rintro ⟨rfl, each⟩
    cases all : (List.range zs.length).mapM result with
    | error e =>
        obtain ⟨i, inside, failed, -⟩ := results_failed result _ e all
        cases (each i inside).symm.trans failed
    | ok ys =>
        obtain ⟨size, same⟩ := results_ok result _ ys all
        congr 1
        apply List.ext_getElem size
        intro i inside inside'
        have here := (same i inside).symm.trans (each i inside')
        rwa [List.getD_eq_getElem _ _ inside', Except.ok.injEq] at here

end Positions

theorem list_by_position (blank : α) (xs : List α) : xs = (List.range xs.length).map fun i => xs.getD i blank := by
  apply List.ext_getElem
  · simp
  · intro i inside _
    simp [inside]

theorem mapM_ok_iff (f : α → Except Cause β) (blank : α) (blank' : β) (xs : List α) (ys : List β) :
    xs.mapM f = .ok ys ↔ ys.length = xs.length ∧ ∀ i < xs.length, f (xs.getD i blank) = .ok (ys.getD i blank') := by
  have positions := list_by_position blank xs
  conv => lhs; rw [positions, List.mapM_map]
  exact results_ok_iff (fun i => f (xs.getD i blank)) blank' xs.length ys

theorem mapM_each (f : α → Except Cause β) (k : β → γ) (xs : List α) :
    (xs.mapM f).map (List.map k) = xs.mapM fun x => (f x).map k := by
  induction xs with
  | nil => rfl
  | cons x xs ih =>
      rw [List.mapM_cons, List.mapM_cons, ← ih]
      cases f x with
      | error e => rfl
      | ok y => cases xs.mapM f <;> rfl

theorem mapM_wrapped (wrap : α → β) (unwrap : β → Except Cause α) (back : ∀ x, unwrap (wrap x) = .ok x)
    (xs : List α) : (xs.map wrap).mapM unwrap = .ok xs := by
  induction xs with
  | nil => rfl
  | cons x xs ih =>
      rw [List.map_cons, List.mapM_cons, back, ih]
      rfl

def FailsOnly (allowed : Cause → Prop) (result : Except Cause α) : Prop :=
  ∀ e, result = .error e → allowed e

section Failing

variable {allowed : Cause → Prop}

@[simp]
theorem fails_ok (x : α) : FailsOnly allowed (.ok x) := nofun

@[simp]
theorem fails_pure (x : α) : FailsOnly allowed (pure x) := nofun

@[simp]
theorem fails_error (e : Cause) : FailsOnly allowed (.error e : Except Cause α) ↔ allowed e := by
  constructor
  · exact fun fails => fails e rfl
  · intro blamed e' same
    cases same
    exact blamed

@[simp]
theorem fails_throw (e : Cause) : FailsOnly allowed (throw e : Except Cause α) ↔ allowed e := fails_error e

theorem fails_next (x : Except Cause α) (f : α → Except Cause β) (first : FailsOnly allowed x)
    (next : ∀ a, x = .ok a → FailsOnly allowed (f a)) : FailsOnly allowed (x >>= f) := by
  intro e failed
  rcases bind_error failed with early | ⟨a, done, late⟩
  · exact first e early
  · exact next a done e late

@[simp]
theorem fails_bind (x : Except Cause α) (f : α → Except Cause β) (first : FailsOnly allowed x)
    (next : ∀ a, FailsOnly allowed (f a)) : FailsOnly allowed (x >>= f) :=
  fails_next x f first fun a _ => next a

@[simp]
theorem fails_throw_bind (e : Cause) (f : α → Except Cause β) :
    FailsOnly allowed ((throw e : Except Cause α) >>= f) ↔ allowed e := fails_error e

@[simp]
theorem fails_map (x : Except Cause α) (f : α → β) : FailsOnly allowed (x.map f) ↔ FailsOnly allowed x := by
  cases x <;> simp [Except.map]

@[simp]
theorem fails_functor_map (x : Except Cause α) (f : α → β) :
    FailsOnly allowed (f <$> x) ↔ FailsOnly allowed x := fails_map x f

@[simp]
theorem fails_mapM (xs : List α) (f : α → Except Cause β) (each : ∀ x, FailsOnly allowed (f x)) :
    FailsOnly allowed (xs.mapM f) := by
  induction xs with
  | nil => simp
  | cons x xs ih =>
      rw [List.mapM_cons]
      apply fails_bind
      · exact each x
      · intro y
        apply fails_bind
        · exact ih
        · simp

@[simp]
theorem fails_foldlM (xs : List α) (f : β → α → Except Cause β) (init : β)
    (each : ∀ y x, FailsOnly allowed (f y x)) : FailsOnly allowed (xs.foldlM f init) := by
  induction xs generalizing init with
  | nil => simp
  | cons x xs ih =>
      rw [List.foldlM_cons]
      apply fails_bind
      · exact each init x
      · exact ih

end Failing

-- Whatever the result is, it is in `P`; there may be none.
def Yields (P : α → Prop) (result : Except Cause α) : Prop := ∀ x, result = .ok x → P x

section Yielding

variable {P : α → Prop}

@[simp]
theorem yields_ok (x : α) : Yields P (.ok x) ↔ P x := by
  constructor
  · exact fun yields => yields x rfl
  · intro holds y same
    cases same
    exact holds

@[simp]
theorem yields_pure (x : α) : Yields P (pure x) ↔ P x := yields_ok x

@[simp]
theorem yields_error (e : Cause) : Yields P (.error e) := by
  intro x same
  cases same

@[simp]
theorem yields_throw (e : Cause) : Yields P (throw e) := yields_error e

@[simp]
theorem yields_true (result : Except Cause α) : Yields (fun _ => True) result := fun _ _ => trivial

theorem yields_bind (Q : β → Prop) (x : Except Cause β) (f : β → Except Cause α) (first : Yields Q x)
    (next : ∀ b, Q b → Yields P (f b)) : Yields P (x >>= f) := by
  cases x with
  | error e => exact yields_error e
  | ok b => exact next b (first b rfl)

theorem yields_next (x : Except Cause β) (f : β → Except Cause α) (next : ∀ b, Yields P (f b)) :
    Yields P (x >>= f) :=
  yields_bind (fun _ => True) x f (yields_true x) fun b _ => next b

@[simp]
theorem yields_throw_bind (e : Cause) (f : β → Except Cause α) : Yields P ((throw e : Except Cause β) >>= f) :=
  yields_error e

@[simp]
theorem yields_map (x : Except Cause β) (f : β → α) : Yields P (x.map f) ↔ Yields (fun b => P (f b)) x := by
  cases x <;> simp [Except.map]

@[simp]
theorem yields_functor_map (x : Except Cause β) (f : β → α) :
    Yields P (f <$> x) ↔ Yields (fun b => P (f b)) x := yields_map x f

theorem yields_mapM (xs : List β) (f : β → Except Cause α) (each : ∀ x ∈ xs, Yields P (f x)) :
    Yields (fun ys => ys.length = xs.length ∧ ∀ y ∈ ys, P y) (xs.mapM f) := by
  induction xs with
  | nil => simp
  | cons x xs ih =>
      rw [List.mapM_cons]
      refine yields_bind P _ _ (each x (by simp)) fun y holds => ?_
      refine yields_bind _ _ _ (ih fun x member => each x (by simp [member])) fun ys later => ?_
      simp only [yields_pure, List.length_cons, later.1, List.forall_mem_cons]
      exact ⟨trivial, holds, later.2⟩

theorem yields_foldlM (xs : List β) (f : α → β → Except Cause α) (start : α) (first : P start)
    (each : ∀ y, P y → ∀ x ∈ xs, Yields P (f y x)) : Yields P (xs.foldlM f start) := by
  induction xs generalizing start with
  | nil => simpa using first
  | cons x xs ih =>
      rw [List.foldlM_cons]
      refine yields_bind P _ _ (each start first x (by simp)) fun y holds => ?_
      exact ih y holds fun y holds x member => each y holds x (by simp [member])

end Yielding

end GraphCalc

import Mathlib.Tactic.Common

/-!
# Consumers of a stream that arrives in pieces

A `Consumer` looks at what is pending and either waits for more or goes on, having
consumed some of it. If more had been there, it would have done the same. So where it
comes to wait is settled by the stream alone (`Goes.unique`). A consumer may also be
disturbed: between its steps its state moves on its own (`Runs`).
-/

namespace WindTerm.Library

variable {σ β : Type*}

/-- A consumer: a step waits, or goes on with a new state and the number of elements
consumed. -/
structure Consumer (σ β : Type*) where
  step : σ → List β → Option (σ × Nat)
  consumed_le {s s' : σ} {pending : List β} {n : Nat} :
    step s pending = some (s', n) → n ≤ pending.length
  keeps {s s' : σ} {pending : List β} {n : Nat} (more : List β) :
    step s pending = some (s', n) → step s (pending ++ more) = some (s', n)

namespace Consumer

/-- The consumer goes from a state and what is pending to others, while its state may
move. -/
inductive Runs (c : Consumer σ β) (moves : σ → σ → Prop) : σ → List β → σ → List β → Prop
  | refl (s : σ) (pending : List β) : Runs c moves s pending s pending
  | step {s s' t : σ} {pending rest : List β} {n : Nat} (steps : c.step s pending = some (s', n))
    (runs : Runs c moves s' (pending.drop n) t rest) : Runs c moves s pending t rest
  | move {s s' t : σ} {pending rest : List β} (moved : moves s s')
    (runs : Runs c moves s' pending t rest) : Runs c moves s pending t rest

/-- The consumer goes by its steps alone. -/
abbrev Goes (c : Consumer σ β) : σ → List β → σ → List β → Prop := c.Runs fun _ _ => False

/-- The consumer waits for more. -/
def Waits (c : Consumer σ β) (s : σ) (pending : List β) : Prop := c.step s pending = none

variable {c : Consumer σ β} {moves : σ → σ → Prop} {s t u : σ} {pending rest rest' : List β}

theorem Runs.trans (first : c.Runs moves s pending t rest)
    (second : c.Runs moves t rest u rest') : c.Runs moves s pending u rest' := by
  induction first with
  | refl => exact second
  | step steps _ ih => exact .step steps (ih second)
  | move moved _ ih => exact .move moved (ih second)

/-- It would do the same with more. -/
theorem Runs.more (runs : c.Runs moves s pending t rest) (more : List β) :
    c.Runs moves s (pending ++ more) t (rest ++ more) := by
  induction runs with
  | refl => exact .refl ..
  | step steps _ ih =>
      apply Runs.step (c.keeps more steps)
      rw [List.drop_append_of_le_length (c.consumed_le steps)]
      exact ih
  | move moved _ ih => exact .move moved ih

/-- Where no state that the steps come to moves, there are the steps only. -/
theorem Runs.goes (runs : c.Runs moves s pending t rest)
    (still : ∀ u left, c.Goes s pending u left → ∀ u', ¬ moves u u') :
    c.Goes s pending t rest := by
  induction runs with
  | refl => exact .refl ..
  | step steps _ ih => exact .step steps (ih fun u left goes => still u left (.step steps goes))
  | move moved _ _ => exact (still _ _ (.refl ..) _ moved).elim

/-- What every step and every move keeps holds wherever it comes to. -/
theorem Runs.invariant {inv : σ → Prop}
    (step : ∀ {s s' : σ} {pending : List β} {n : Nat},
      c.step s pending = some (s', n) → inv s → inv s')
    (move : ∀ {s s' : σ}, moves s s' → inv s → inv s')
    (runs : c.Runs moves s pending t rest) (holds : inv s) : inv t := by
  induction runs with
  | refl => exact holds
  | step steps _ ih => exact ih (step steps holds)
  | move moved _ ih => exact ih (move moved holds)

/-- What comes to a wait comes to one wait. -/
theorem Goes.unique {t' : σ} (goes : c.Goes s pending t rest) (waits : c.Waits t rest)
    (goes' : c.Goes s pending t' rest') (waits' : c.Waits t' rest') : t = t' ∧ rest = rest' := by
  induction goes with
  | refl =>
      cases goes' with
      | refl => exact ⟨rfl, rfl⟩
      | step steps _ =>
          unfold Waits at waits
          rw [waits] at steps
          cases steps
      | move moved _ => exact moved.elim
  | step steps _ ih =>
      cases goes' with
      | refl =>
          unfold Waits at waits'
          rw [waits'] at steps
          cases steps
      | step steps' others =>
          rw [steps] at steps'
          cases steps'
          exact ih waits others
      | move moved _ => exact moved.elim
  | move moved _ _ => exact moved.elim

end Consumer

end WindTerm.Library

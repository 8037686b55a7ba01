import Mathlib.Tactic.Common

/-!
# Loops that may not end

A loop of a program is given by its `turn`: from one state it either carries on
with a new state or leaves with a result. `Loop.run` makes at most a given
number of turns, `Loop.Returns` says that some number of turns is enough, and
the rules below walk a loop turn by turn. `Loop.not_terminates_of_invariant` is
the rule for a loop that never leaves.
-/

namespace WindTerm.Library

variable {σ ρ : Type*}

/-- At most `n` turns of a loop: the state reached if the loop is still going,
the result if it has left. -/
def Loop.run (turn : σ → σ ⊕ ρ) : Nat → σ → σ ⊕ ρ
  | 0, s => .inl s
  | n + 1, s =>
      match turn s with
      | .inl s' => Loop.run turn n s'
      | .inr r => .inr r

/-- The loop started in `s` leaves with the result `r`. -/
def Loop.Returns (turn : σ → σ ⊕ ρ) (s : σ) (r : ρ) : Prop :=
  ∃ n, Loop.run turn n s = .inr r

/-- The loop started in `s` leaves after finitely many turns. -/
def Loop.Terminates (turn : σ → σ ⊕ ρ) (s : σ) : Prop :=
  ∃ r, Loop.Returns turn s r

variable {turn : σ → σ ⊕ ρ} {s s' : σ} {r r' : ρ}

theorem Loop.run_succ_of_inl (carries : turn s = .inl s') (n : Nat) :
    Loop.run turn (n + 1) s = Loop.run turn n s' := by
  simp only [Loop.run, carries]

theorem Loop.run_succ_of_inr (leaves : turn s = .inr r) (n : Nat) :
    Loop.run turn (n + 1) s = .inr r := by
  simp only [Loop.run, leaves]

theorem Loop.run_one (turn : σ → σ ⊕ ρ) (s : σ) : Loop.run turn 1 s = turn s := by
  unfold Loop.run
  cases turn s <;> rfl

/-- A loop whose first turn leaves returns that turn's result and no other. -/
theorem Loop.returns_iff_of_inr (leaves : turn s = .inr r) :
    Loop.Returns turn s r' ↔ r' = r := by
  constructor
  · rintro ⟨n, run⟩
    cases n with
    | zero => cases run
    | succ n =>
        rw [Loop.run_succ_of_inr leaves] at run
        exact (Sum.inr.inj run).symm
  · rintro rfl
    exact ⟨1, Loop.run_succ_of_inr leaves 0⟩

/-- A turn that carries on does not change what the loop returns. -/
theorem Loop.returns_iff_of_inl (carries : turn s = .inl s') :
    Loop.Returns turn s r ↔ Loop.Returns turn s' r := by
  constructor
  · rintro ⟨n, run⟩
    cases n with
    | zero => cases run
    | succ n => exact ⟨n, by rwa [Loop.run_succ_of_inl carries] at run⟩
  · rintro ⟨n, run⟩
    exact ⟨n + 1, by rwa [Loop.run_succ_of_inl carries]⟩

/-- What a loop returns is determined by the state it starts in. -/
theorem Loop.Returns.unique (first : Loop.Returns turn s r)
    (second : Loop.Returns turn s r') : r = r' := by
  obtain ⟨n, run⟩ := first
  induction n generalizing s with
  | zero => cases run
  | succ n ih =>
      cases step : turn s with
      | inl s' =>
          rw [Loop.run_succ_of_inl step] at run
          exact ih ((Loop.returns_iff_of_inl step).mp second) run
      | inr t =>
          rw [Loop.run_succ_of_inr step] at run
          rw [(Loop.returns_iff_of_inr step).mp second]
          exact (Sum.inr.inj run).symm

/-- An invariant under which every turn carries on keeps the loop going for
ever. -/
theorem Loop.not_terminates_of_invariant (invariant : σ → Prop)
    (carries : ∀ s, invariant s → ∃ s', turn s = .inl s' ∧ invariant s')
    (start : invariant s) : ¬ Loop.Terminates turn s := by
  rintro ⟨r, n, run⟩
  induction n generalizing s with
  | zero => cases run
  | succ n ih =>
      obtain ⟨s', step, next⟩ := carries s start
      rw [Loop.run_succ_of_inl step] at run
      exact ih next run

end WindTerm.Library

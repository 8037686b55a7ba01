import Mathlib.Algebra.Order.Ring.Int
import Mathlib.Tactic.Ring

/-!
# Scaling integers by a ratio

`scale num den x` is `x * num / den` truncated toward zero. Scaling values that
are not negative keeps their order and has a lower adjoint (`le_scale_iff`);
scaling there and back loses less than one step of the way there and one of the
way back (`sub_scale_scale_lt`).
-/

namespace WindTerm.Library

/-- `x * num / den`, truncated toward zero. -/
def scale (num den x : Int) : Int := (x * num).tdiv den

variable {num den x y : Int}

theorem scale_mono (nonneg : 0 ≤ num) (pos : 0 < den) (le : x ≤ y) :
    scale num den x ≤ scale num den y :=
  Int.tdiv_le_tdiv pos (Int.mul_le_mul_of_nonneg_right le nonneg)

theorem scale_nonneg (nonneg : 0 ≤ num) (pos : 0 ≤ den) (le : 0 ≤ x) : 0 ≤ scale num den x :=
  Int.tdiv_nonneg (Int.mul_nonneg le nonneg) pos

theorem scale_nonpos (nonneg : 0 ≤ num) (pos : 0 < den) (le : x ≤ 0) : scale num den x ≤ 0 := by
  have mono := scale_mono nonneg pos le
  rwa [show scale num den 0 = 0 by simp [scale]] at mono

theorem le_scale_iff (nonneg : 0 ≤ num) (pos : 0 < den) (le : 0 ≤ x) {k : Int} :
    k ≤ scale num den x ↔ k * den ≤ x * num := by
  rw [scale, Int.tdiv_eq_ediv_of_nonneg (Int.mul_nonneg le nonneg), Int.le_ediv_iff_mul_le pos]

/-- A ratio maps its denominator to its numerator. -/
theorem scale_den (num : Int) (pos : 0 < den) : scale num den den = num := by
  rw [scale, Int.mul_comm]
  exact Int.mul_tdiv_cancel num (Int.ne_of_gt pos)

theorem scale_le_num (nonneg : 0 ≤ num) (pos : 0 < den) (le : x ≤ den) : scale num den x ≤ num :=
  (scale_mono nonneg pos le).trans_eq (scale_den num pos)

/-- Scaling up by a ratio of at least one. -/
theorem le_scale (ratio : den ≤ num) (pos : 0 < den) (le : 0 ≤ x) : x ≤ scale num den x := by
  rw [le_scale_iff (le_trans pos.le ratio) pos le]
  exact Int.mul_le_mul_of_nonneg_left ratio le

theorem scale_mul_le (nonneg : 0 ≤ num) (pos : 0 < den) (le : 0 ≤ x) :
    scale num den x * den ≤ x * num :=
  (le_scale_iff nonneg pos le).mp le_rfl

theorem mul_lt_scale (nonneg : 0 ≤ num) (pos : 0 < den) (le : 0 ≤ x) :
    x * num < scale num den x * den + den := by
  have above := (le_scale_iff nonneg pos le).not.mp (not_le.mpr (lt_add_one (scale num den x)))
  rw [not_le, add_mul, one_mul] at above
  exact above

/-- There and back does not lead above the start. -/
theorem scale_scale_le (num_pos : 0 < num) (den_pos : 0 < den) (le : 0 ≤ x) :
    scale den num (scale num den x) ≤ x := by
  have there := scale_mul_le num_pos.le den_pos le
  have back := scale_mul_le den_pos.le num_pos (scale_nonneg num_pos.le den_pos.le le)
  exact le_of_mul_le_mul_right (back.trans there) num_pos

/-- There and back leads less than `den / num + 1` below the start. -/
theorem sub_scale_scale_lt (num_pos : 0 < num) (den_pos : 0 < den) (le : 0 ≤ x) :
    (x - scale den num (scale num den x)) * num < den + num := by
  have there := mul_lt_scale num_pos.le den_pos le
  have back := mul_lt_scale den_pos.le num_pos (scale_nonneg num_pos.le den_pos.le le)
  rw [sub_mul]
  omega

end WindTerm.Library

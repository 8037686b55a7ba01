import WindTerm.Library.Along
import WindTerm.Widgets.ScrollBar
import Mathlib.Algebra.Order.Field.Rat

/-!
# Which runs of a scroll bar keep its value in range

The base always has the clamped range (`Synced`), and a value of it is taken
over as a value of the range (`fromBase_bounds`). So a value that is out of range
is corrected whenever the base changes, and only then: `inRange_along_iff` says
for which calls that is enough, and `scaling_faithful_iff` which values of a
range beyond `INT_MAX` the base can show.
-/

namespace WindTerm

open Library

namespace ScrollBar

variable {β : Type*} [QScrollBar β]

/-! ## The base and the range -/

/-- The range is one that `setRange` accepts, and the base has it clamped. -/
structure Synced (s : ScrollBar β) : Prop where
  nonneg : 0 ≤ s.minimum
  ordered : s.minimum ≤ s.maximum
  below : s.maximum < 2 ^ 63
  baseMinimum : QScrollBar.minimum s.base = clamp s.minimum
  baseMaximum : QScrollBar.maximum s.base = clamp s.maximum
  pageStep : 0 < QScrollBar.pageStep s.base ∧ QScrollBar.pageStep s.base < 2 ^ 31
  singleStep : 0 < QScrollBar.singleStep s.base ∧ QScrollBar.singleStep s.base < 2 ^ 31

/-- The value is in the range. -/
def InRange (s : ScrollBar β) : Prop := s.minimum ≤ s.value ∧ s.value ≤ s.maximum

instance (s : ScrollBar β) : Decidable s.InRange := inferInstanceAs (Decidable (_ ∧ _))

theorem INT_MAX_pos : 0 < INT_MAX := by decide

theorem clamp_mono {x y : Int} (le : x ≤ y) : clamp x ≤ clamp y := by
  unfold clamp
  split <;> split <;> omega

theorem clamp_nonneg {x : Int} (nonneg : 0 ≤ x) : 0 ≤ clamp x := by
  unfold clamp INT_MAX
  split <;> omega

omit [QScrollBar β] in
/-- A value of the clamped range is taken over as a value of the range. -/
theorem fromBase_bounds {s : ScrollBar β} (nonneg : 0 ≤ s.minimum)
    (ordered : s.minimum ≤ s.maximum) {x : Int} (low : clamp s.minimum ≤ x)
    (high : x ≤ clamp s.maximum) : s.minimum ≤ s.fromBase x ∧ s.fromBase x ≤ s.maximum := by
  have positive := INT_MAX_pos
  rcases lt_or_ge INT_MAX s.maximum with large | small
  · have some : 0 ≤ x := (clamp_nonneg nonneg).trans low
    rw [clamp, if_pos large] at high
    rw [fromBase, if_pos large]
    refine ⟨?_, scale_le_num (positive.le.trans large.le) positive high⟩
    rcases lt_or_ge INT_MAX s.minimum with beyond | within
    · rw [clamp, if_pos beyond] at low
      rw [le_antisymm high low, scale_den _ positive]
      exact ordered
    · rw [clamp, if_neg (not_lt.mpr within)] at low
      exact low.trans (le_scale large.le positive some)
  · rw [clamp, if_neg (not_lt.mpr (ordered.trans small))] at low
    rw [clamp, if_neg (not_lt.mpr small)] at high
    rw [fromBase, if_neg (not_lt.mpr small)]
    exact ⟨low, high⟩

/-- A change of the base, with what the slot makes of it. -/
theorem changeBase_fst (change : β → β) (s : ScrollBar β) :
    (s.changeBase change).1 = { s with
      base := change s.base
      value := if QScrollBar.value (change s.base) ≠ QScrollBar.value s.base then
        s.fromBase (QScrollBar.value (change s.base)) else s.value } := by
  unfold changeBase onValueChanged
  dsimp only
  split
  · split
    · rfl
    · next same =>
        rw [not_not] at same
        rw [← show s.value = s.fromBase _ from same]
  · rfl

theorem qBound_eq_iff {low high : Int} (ordered : low ≤ high) (x : Int) :
    qBound low x high = x ↔ low ≤ x ∧ x ≤ high := by
  unfold qBound
  omega

/-! ## The range changes -/

/-- The value is in the new range, or the base corrects its own. -/
def FitsRange (minimum maximum : Int) (s : ScrollBar β) : Prop :=
  (minimum ≤ s.value ∧ s.value ≤ maximum) ∨
    QScrollBar.value s.base < clamp minimum ∨ clamp maximum < QScrollBar.value s.base

theorem setRange_fst {minimum maximum : Int} {s : ScrollBar β}
    (accepted : (s.setRange minimum maximum).1 = true) :
    0 ≤ minimum ∧ minimum ≤ maximum ∧ (s.minimum ≠ minimum ∨ s.maximum ≠ maximum) := by
  unfold setRange at accepted
  split at accepted
  · assumption
  · cases accepted

/-- What an accepted `setRange` leaves. -/
theorem setRange_accepted {minimum maximum : Int} {s : ScrollBar β} (nonneg : 0 ≤ minimum)
    (ordered : minimum ≤ maximum) (changes : s.minimum ≠ minimum ∨ s.maximum ≠ maximum) :
    (s.setRange minimum maximum).2.1 = (changeBase
      (QScrollBar.setRange (clamp minimum) (clamp maximum)) { s with maximum, minimum }).1 := by
  rw [setRange, if_pos ⟨nonneg, ordered, changes⟩]

theorem setRange_refused {minimum maximum : Int} {s : ScrollBar β}
    (refused : ¬ (0 ≤ minimum ∧ minimum ≤ maximum ∧
      (s.minimum ≠ minimum ∨ s.maximum ≠ maximum))) : (s.setRange minimum maximum).2.1 = s := by
  rw [setRange, if_neg refused]

theorem setRange_synced {minimum maximum : Int} {s : ScrollBar β} (synced : Synced s)
    (below : maximum < 2 ^ 63) : Synced (s.setRange minimum maximum).2.1 := by
  rcases Decidable.em (0 ≤ minimum ∧ minimum ≤ maximum ∧
    (s.minimum ≠ minimum ∨ s.maximum ≠ maximum)) with ⟨nonneg, ordered, changes⟩ | refused
  · have range := QScrollBar.range_setRange _ _ s.base (clamp_mono ordered)
    have steps := QScrollBar.steps_setRange (clamp minimum) (clamp maximum) s.base
    rw [setRange_accepted nonneg ordered changes, changeBase_fst]
    exact ⟨nonneg, ordered, below, range.1, range.2, steps.1 ▸ synced.pageStep,
      steps.2 ▸ synced.singleStep⟩
  · rw [setRange_refused refused]
    exact synced

/-- `setRange` keeps the value in range exactly when it refuses the range, or the
value fits. -/
theorem setRange_inRange_iff {minimum maximum : Int} {s : ScrollBar β} (inRange : s.InRange) :
    (s.setRange minimum maximum).2.1.InRange ↔
      (0 ≤ minimum → minimum ≤ maximum → s.FitsRange minimum maximum) := by
  rcases Decidable.em (0 ≤ minimum ∧ minimum ≤ maximum ∧
    (s.minimum ≠ minimum ∨ s.maximum ≠ maximum)) with ⟨nonneg, ordered, changes⟩ | refused
  · rw [setRange_accepted nonneg ordered changes, changeBase_fst, forall_prop_of_true nonneg,
      forall_prop_of_true ordered, QScrollBar.value_setRange _ _ _ (clamp_mono ordered)]
    have bound := qBound_bounds (clamp_mono ordered) (QScrollBar.value s.base)
    have same := qBound_eq_iff (clamp_mono ordered) (QScrollBar.value s.base)
    unfold InRange FitsRange
    dsimp only
    split
    case isTrue moved =>
      refine iff_of_true (fromBase_bounds nonneg ordered bound.1 bound.2) (Or.inr ?_)
      rw [ne_eq, same] at moved
      omega
    case isFalse still =>
      rw [not_not, same] at still
      constructor
      · exact Or.inl
      · rintro (fits | low | high)
        · exact fits
        · omega
        · omega
  · rw [setRange_refused refused]
    refine iff_of_true inRange fun nonneg ordered => Or.inl ?_
    have same : s.minimum = minimum ∧ s.maximum = maximum := by
      by_contra differs
      exact refused ⟨nonneg, ordered, by rwa [← not_and_or]⟩
    rw [← same.1, ← same.2]
    exact inRange

/-! ## Values and steps -/

theorem setValue_inRange {s : ScrollBar β} (synced : Synced s) (inRange : s.InRange) (value : Int) :
    (s.setValue value).2.1.InRange := by
  unfold setValue
  dsimp only
  split
  · exact qBound_bounds synced.ordered value
  · exact inRange

theorem setValue_synced {s : ScrollBar β} (synced : Synced s) (value : Int) :
    Synced (s.setValue value).2.1 := by
  unfold setValue
  dsimp only
  split
  · have range := QScrollBar.range_setValue (s.toBase (qBound s.minimum value s.maximum)) s.base
    have steps := QScrollBar.steps_setValue (s.toBase (qBound s.minimum value s.maximum)) s.base
    exact ⟨synced.nonneg, synced.ordered, synced.below, range.1.trans synced.baseMinimum,
      range.2.trans synced.baseMaximum, steps.1 ▸ synced.pageStep, steps.2 ▸ synced.singleStep⟩
  · exact synced

theorem setPage_inRange {s : ScrollBar β} (inRange : s.InRange) (page : Int) :
    (s.setPage page).2.1.InRange := by
  unfold setPage
  split <;> exact inRange

theorem setPage_synced {s : ScrollBar β} (synced : Synced s) {page : Int} (below : page < 2 ^ 31) :
    Synced (s.setPage page).2.1 := by
  unfold setPage
  split
  case isTrue accepted =>
    have range := QScrollBar.range_setPageStep page s.base
    have steps := QScrollBar.steps_setPageStep page s.base accepted.1
    refine ⟨synced.nonneg, synced.ordered, synced.below, range.1.trans synced.baseMinimum,
      range.2.trans synced.baseMaximum, ?_, steps.2 ▸ synced.singleStep⟩
    rw [steps.1]
    exact ⟨accepted.1, below⟩
  case isFalse => exact synced

theorem setSingleStep_inRange {s : ScrollBar β} (inRange : s.InRange) (singleStep : Int) :
    (s.setSingleStep singleStep).2.1.InRange := by
  unfold setSingleStep
  split <;> exact inRange

theorem setSingleStep_synced {s : ScrollBar β} (synced : Synced s) {singleStep : Int}
    (below : singleStep < 2 ^ 31) : Synced (s.setSingleStep singleStep).2.1 := by
  unfold setSingleStep
  split
  case isTrue accepted =>
    have range := QScrollBar.range_setSingleStep singleStep s.base
    have steps := QScrollBar.steps_setSingleStep singleStep s.base accepted.1
    refine ⟨synced.nonneg, synced.ordered, synced.below, range.1.trans synced.baseMinimum,
      range.2.trans synced.baseMaximum, steps.1 ▸ synced.pageStep, ?_⟩
    rw [steps.2]
    exact ⟨accepted.1, below⟩
  case isFalse => exact synced

/-! ## Slider actions -/

/-- The position the base ends at, from the one the slider was put to. -/
def finalPosition (action : SliderAction) (position : Int) (s : ScrollBar β) : Int :=
  let position := qBound (QScrollBar.minimum s.base) position (QScrollBar.maximum s.base)
  if s.maximum > INT_MAX then scale INT_MAX s.maximum (s.actionValue action position) else position

theorem triggerAction_fst (action : SliderAction) (position : Int) (s : ScrollBar β) :
    (s.triggerAction action position).1 =
      (changeBase (QScrollBar.setValue (s.finalPosition action position)) { s with
        value := s.actionValue action
          (qBound (QScrollBar.minimum s.base) position (QScrollBar.maximum s.base)) }).1 := rfl

theorem triggerAction_synced {s : ScrollBar β} (synced : Synced s) (action : SliderAction)
    (position : Int) : Synced (s.triggerAction action position).1 := by
  have range := QScrollBar.range_setValue (s.finalPosition action position) s.base
  have steps := QScrollBar.steps_setValue (s.finalPosition action position) s.base
  rw [triggerAction_fst, changeBase_fst]
  exact ⟨synced.nonneg, synced.ordered, synced.below, range.1.trans synced.baseMinimum,
    range.2.trans synced.baseMaximum, steps.1 ▸ synced.pageStep, steps.2 ▸ synced.singleStep⟩

theorem Synced.baseOrdered {s : ScrollBar β} (synced : Synced s) :
    QScrollBar.minimum s.base ≤ QScrollBar.maximum s.base := by
  rw [synced.baseMinimum, synced.baseMaximum]
  exact clamp_mono synced.ordered

/-- An action keeps the value in range exactly when the slot of `actionTriggered`
does, or the base changes its value. -/
theorem triggerAction_inRange_iff {s : ScrollBar β} (synced : Synced s) (action : SliderAction)
    (position : Int) : (s.triggerAction action position).1.InRange ↔
      (let value := s.actionValue action
        (qBound (QScrollBar.minimum s.base) position (QScrollBar.maximum s.base))
      s.minimum ≤ value ∧ value ≤ s.maximum) ∨
      qBound (QScrollBar.minimum s.base) (s.finalPosition action position)
        (QScrollBar.maximum s.base) ≠ QScrollBar.value s.base := by
  have bound := qBound_bounds synced.baseOrdered (s.finalPosition action position)
  rw [triggerAction_fst, changeBase_fst, QScrollBar.value_setValue]
  unfold InRange
  dsimp only
  split
  case isTrue moved =>
    refine iff_of_true (fromBase_bounds synced.nonneg synced.ordered ?_ ?_) (Or.inr moved)
    · rw [← synced.baseMinimum]
      exact bound.1
    · rw [← synced.baseMaximum]
      exact bound.2
  case isFalse still => exact (or_iff_left still).symm

theorem wrap_eq {x : Int} (low : -2 ^ 63 ≤ x) (high : x < 2 ^ 63) : wrap x = x := by
  unfold wrap
  rw [Int.bmod_def]
  split <;> omega

theorem wrap_overflow {x : Int} (low : 2 ^ 63 ≤ x) (high : x < 2 ^ 64) : wrap x < 0 := by
  unfold wrap
  rw [Int.bmod_def]
  split <;> omega

/-- Adding a step leads out of range exactly when it overflows and the base is at
its minimum already, where the wrapped value belongs. -/
theorem stepAdd_inRange_iff {s : ScrollBar β} (synced : Synced s) (inRange : s.InRange)
    {action : SliderAction} {step : Int} (positive : 0 < step) (below : step < 2 ^ 31)
    (adds : ∀ position, s.actionValue action position = min s.maximum (wrap (s.value + step)))
    (position : Int) : (s.triggerAction action position).1.InRange ↔
      s.value + step < 2 ^ 63 ∨ QScrollBar.value s.base ≠ QScrollBar.minimum s.base := by
  obtain ⟨low, high⟩ := inRange
  have nonneg := synced.nonneg
  have less := synced.below
  rw [triggerAction_inRange_iff synced, finalPosition, adds]
  dsimp only
  rcases lt_or_ge (s.value + step) (2 ^ 63) with fits | overflows
  · refine iff_of_true (Or.inl ?_) (Or.inl fits)
    rw [wrap_eq (by omega) fits]
    omega
  · have negative := wrap_overflow overflows (by omega)
    have large : s.maximum > INT_MAX := by
      unfold INT_MAX
      omega
    have smallest : min s.maximum (wrap (s.value + step)) = wrap (s.value + step) :=
      min_eq_right (by omega)
    have scaled : scale INT_MAX s.maximum (wrap (s.value + step)) ≤ 0 :=
      scale_nonpos INT_MAX_pos.le (by omega) negative.le
    have bottom : 0 ≤ QScrollBar.minimum s.base := by
      rw [synced.baseMinimum]
      exact clamp_nonneg nonneg
    have ordered := synced.baseOrdered
    rw [smallest, if_pos large, or_iff_right (by omega), or_iff_right (by omega)]
    have atBottom : qBound (QScrollBar.minimum s.base)
        (scale INT_MAX s.maximum (wrap (s.value + step))) (QScrollBar.maximum s.base) =
          QScrollBar.minimum s.base := by
      unfold qBound
      omega
    rw [atBottom, ne_comm]

/-- No other action leads out of range. -/
theorem otherAction_inRange {s : ScrollBar β} (synced : Synced s) (inRange : s.InRange)
    {action : SliderAction} (page : action ≠ .sliderPageStepAdd)
    (single : action ≠ .sliderSingleStepAdd) (position : Int) :
    (s.triggerAction action position).1.InRange := by
  obtain ⟨low, high⟩ := inRange
  have nonneg := synced.nonneg
  have less := synced.below
  have ordered := synced.ordered
  obtain ⟨pagePositive, pageBelow⟩ := synced.pageStep
  obtain ⟨singlePositive, singleBelow⟩ := synced.singleStep
  rw [triggerAction_inRange_iff synced]
  refine Or.inl ?_
  cases action with
  | sliderNoAction => exact ⟨low, high⟩
  | sliderSingleStepAdd => exact (single rfl).elim
  | sliderSingleStepSub =>
      have fits : -2 ^ 63 ≤ s.value - QScrollBar.singleStep s.base := by omega
      simp only [actionValue, wrap_eq fits (by omega)]
      omega
  | sliderPageStepAdd => exact (page rfl).elim
  | sliderPageStepSub =>
      simp only [actionValue, wrap_eq (show -2 ^ 63 ≤ s.value - QScrollBar.pageStep s.base by omega)
        (by omega)]
      omega
  | sliderToMinimum => exact ⟨le_rfl, ordered⟩
  | sliderToMaximum => exact ⟨ordered, le_rfl⟩
  | sliderMove =>
      have bound := qBound_bounds synced.baseOrdered position
      refine fromBase_bounds nonneg ordered ?_ ?_
      · rw [← synced.baseMinimum]
        exact bound.1
      · rw [← synced.baseMaximum]
        exact bound.2

/-! ## Runs -/

/-- A call or a slider action; an action comes with the position the base puts the
slider to. -/
inductive Call where
  | setRange (minimum maximum : Int64)
  | setMinimum (minimum : Int64)
  | setMaximum (maximum : Int64)
  | setValue (value : Int64)
  | setPage (page : Int32)
  | setSingleStep (singleStep : Int32)
  | slide (action : SliderAction) (position : Int32)
  deriving DecidableEq, Repr

def Call.run : Call → ScrollBar β → ScrollBar β
  | .setRange minimum maximum, s => (s.setRange minimum.toInt maximum.toInt).2.1
  | .setMinimum minimum, s => (s.setMinimum minimum.toInt).2.1
  | .setMaximum maximum, s => (s.setMaximum maximum.toInt).2.1
  | .setValue value, s => (s.setValue value.toInt).2.1
  | .setPage page, s => (s.setPage page.toInt).2.1
  | .setSingleStep singleStep, s => (s.setSingleStep singleStep.toInt).2.1
  | .slide action position, s => (s.triggerAction action position.toInt).1

/-- The call does not leave the value where the range is not: a range that would
be accepted has the value in it, or leaves out the value of the base; a step added
does not overflow, or the base is not at its minimum. -/
def Call.Fits : Call → ScrollBar β → Prop
  | .setRange minimum maximum, s =>
      0 ≤ minimum.toInt → minimum.toInt ≤ maximum.toInt →
        s.FitsRange minimum.toInt maximum.toInt
  | .setMinimum minimum, s =>
      0 ≤ minimum.toInt → s.FitsRange minimum.toInt (max minimum.toInt s.maximum)
  | .setMaximum maximum, s =>
      0 ≤ maximum.toInt → s.FitsRange (min s.minimum maximum.toInt) maximum.toInt
  | .slide .sliderPageStepAdd _, s =>
      s.value + QScrollBar.pageStep s.base < 2 ^ 63 ∨
        QScrollBar.value s.base ≠ QScrollBar.minimum s.base
  | .slide .sliderSingleStepAdd _, s =>
      s.value + QScrollBar.singleStep s.base < 2 ^ 63 ∨
        QScrollBar.value s.base ≠ QScrollBar.minimum s.base
  | _, _ => True

theorem Call.run_synced (call : Call) {s : ScrollBar β} (synced : Synced s) :
    Synced (call.run s) := by
  cases call with
  | setRange minimum maximum => exact setRange_synced synced maximum.toInt_lt
  | setMinimum minimum => exact setRange_synced synced (max_lt minimum.toInt_lt synced.below)
  | setMaximum maximum => exact setRange_synced synced maximum.toInt_lt
  | setValue value => exact setValue_synced synced value.toInt
  | setPage page => exact setPage_synced synced page.toInt_lt
  | setSingleStep singleStep => exact setSingleStep_synced synced singleStep.toInt_lt
  | slide action position => exact triggerAction_synced synced action position.toInt

/-- A call on a bar with its value in range leaves it there exactly when it fits. -/
theorem Call.run_inRange_iff (call : Call) {s : ScrollBar β} (synced : Synced s)
    (inRange : s.InRange) : (call.run s).InRange ↔ call.Fits s := by
  have nonneg := synced.nonneg
  cases call with
  | setRange minimum maximum => exact setRange_inRange_iff inRange
  | setMinimum minimum =>
      refine (setRange_inRange_iff inRange).trans (forall_congr' fun _ => ?_)
      exact forall_prop_of_true (le_max_left _ _)
  | setMaximum maximum =>
      refine (setRange_inRange_iff inRange).trans ?_
      rw [forall_prop_of_true (min_le_right _ _), le_min_iff, and_iff_right nonneg]
      rfl
  | setValue value => exact iff_of_true (setValue_inRange synced inRange value.toInt) trivial
  | setPage page => exact iff_of_true (setPage_inRange inRange page.toInt) trivial
  | setSingleStep singleStep =>
      exact iff_of_true (setSingleStep_inRange inRange singleStep.toInt) trivial
  | slide action position =>
      rcases Decidable.em (action = .sliderPageStepAdd) with rfl | page
      · exact stepAdd_inRange_iff synced inRange synced.pageStep.1 synced.pageStep.2
          (fun _ => rfl) position.toInt
      rcases Decidable.em (action = .sliderSingleStepAdd) with rfl | single
      · exact stepAdd_inRange_iff synced inRange synced.singleStep.1 synced.singleStep.2
          (fun _ => rfl) position.toInt
      refine iff_of_true (otherAction_inRange synced inRange page single position.toInt) ?_
      cases action with
      | sliderPageStepAdd => exact (page rfl).elim
      | sliderSingleStepAdd => exact (single rfl).elim
      | _ => exact trivial

theorem new_synced : Synced (new : ScrollBar β) := by
  obtain ⟨minimum, maximum⟩ := @QScrollBar.range_initial β _
  obtain ⟨page, single⟩ := @QScrollBar.steps_initial β _
  refine ⟨?_, ?_, ?_, ?_, ?_, ?_, ?_⟩
  · exact minimum.ge
  · simp only [new, minimum, maximum]
    decide
  · simp only [new, maximum]
    decide
  · simp only [new, minimum]
    decide
  · simp only [new, maximum]
    decide
  · simp only [new, page]
    decide
  · simp only [new, single]
    decide

/-- **When the value stays in range.** In every state of a run of calls and slider
actions on a new scroll bar the value is in the range, if and only if each call
fits in the state it is made in. -/
theorem inRange_along_iff (calls : List Call) :
    EveryState Call.run InRange calls (new : ScrollBar β) ↔
      EachMeets Call.run Call.Fits calls (new : ScrollBar β) := by
  refine @everyState_iff_of_exact _ _ _ _ Synced _ ?_ ?_ calls _ new_synced ?_
  · exact fun call s synced => call.run_synced synced
  · exact fun call s synced inRange => call.run_inRange_iff synced inRange
  · exact QScrollBar.bounds _

/-- The range shrinks beyond `INT_MAX`: the base sees no change, and the value
stays above the maximum. -/
theorem value_above_maximum :
    ¬ EveryState Call.run InRange
      [.setRange 0 0x10000000000, .setValue 0x10000000000, .setRange 0 0x800000000]
      (new : ScrollBar PlainBar) := by
  rintro ⟨-, -, -, inRange⟩
  change InRange (Call.run _ (Call.run _ (Call.run _ _))) at inRange
  revert inRange
  decide +kernel

/-! ## Scaling -/

/-- The base has the clamped range behind an accepted `setRange`. -/
theorem setRange_base {minimum maximum : Int} {s : ScrollBar β}
    (accepted : (s.setRange minimum maximum).1 = true) :
    QScrollBar.minimum (s.setRange minimum maximum).2.1.base = clamp minimum ∧
      QScrollBar.maximum (s.setRange minimum maximum).2.1.base = clamp maximum ∧
      (s.setRange minimum maximum).2.1.maximum = maximum ∧
      (s.setRange minimum maximum).2.1.minimum = minimum := by
  obtain ⟨nonneg, ordered, changes⟩ := setRange_fst accepted
  have range := QScrollBar.range_setRange _ _ s.base (clamp_mono ordered)
  rw [setRange_accepted nonneg ordered changes, changeBase_fst]
  exact ⟨range.1, range.2, rfl, rfl⟩

/-- The values `v` and `w` of a bar keep their order in the base, inside its range,
and `v` comes back inside the range and less than `maximum / INT_MAX + 1` away. -/
structure Faithful (s : ScrollBar β) (v w : Int) : Prop where
  first : QScrollBar.minimum s.base ≤ s.toBase v ∧ s.toBase v ≤ QScrollBar.maximum s.base
  second : QScrollBar.minimum s.base ≤ s.toBase w ∧ s.toBase w ≤ QScrollBar.maximum s.base
  ordered : s.toBase v ≤ s.toBase w
  back : s.minimum ≤ s.fromBase (s.toBase v) ∧ s.fromBase (s.toBase v) ≤ s.maximum
  near : |(v : ℚ) - s.fromBase (s.toBase v)| < s.maximum / INT_MAX + 1

omit [QScrollBar β] in
/-- There and back leads less than `maximum / INT_MAX + 1` away. -/
theorem near_fromBase_toBase {s : ScrollBar β} (large : INT_MAX < s.maximum) {v : Int}
    (nonneg : 0 ≤ v) : |(v : ℚ) - s.fromBase (s.toBase v)| < s.maximum / INT_MAX + 1 := by
  have positive := INT_MAX_pos
  have above := scale_scale_le positive (positive.trans large) nonneg
  have below := sub_scale_scale_lt positive (positive.trans large) nonneg
  rw [toBase, fromBase, if_pos large, if_pos large]
  have distance : (0 : ℚ) ≤ v - scale s.maximum INT_MAX (scale INT_MAX s.maximum v) := by
    rw [sub_nonneg]
    exact_mod_cast above
  have unit : (0 : ℚ) < INT_MAX := by exact_mod_cast positive
  have share : (s.maximum : ℚ) / INT_MAX + 1 = (s.maximum + INT_MAX) / INT_MAX := by
    rw [add_div, div_self unit.ne']
  rw [abs_of_nonneg distance, share, lt_div_iff₀ unit]
  exact_mod_cast below

/-- **When scaling is faithful.** Let `setRange` accept a range that ends beyond
`INT_MAX`, with two values `v ≤ w` in it. The base shows them faithfully if and
only if the clamped minimum of the base is no greater than the scaled `v`. -/
theorem scaling_faithful_iff (s : ScrollBar β) {minimum maximum v w : Int}
    (accepted : (s.setRange minimum maximum).1 = true) (large : INT_MAX < maximum)
    (low : minimum ≤ v) (ordered : v ≤ w) (high : w ≤ maximum) :
    Faithful (s.setRange minimum maximum).2.1 v w ↔ clamp minimum * maximum ≤ v * INT_MAX := by
  have positive := INT_MAX_pos
  obtain ⟨nonneg, proper, -⟩ := setRange_fst accepted
  obtain ⟨baseMinimum, baseMaximum, top, bottom⟩ := setRange_base accepted
  generalize (s.setRange minimum maximum).2.1 = s' at baseMinimum baseMaximum top bottom ⊢
  subst top bottom
  have some : 0 < s'.maximum := positive.trans large
  have scaled (x : Int) : s'.toBase x = scale INT_MAX s'.maximum x := if_pos large
  have lowest : clamp s'.minimum ≤ s'.toBase v ↔ clamp s'.minimum * s'.maximum ≤ v * INT_MAX := by
    rw [scaled, le_scale_iff positive.le some (nonneg.trans low)]
  have clamped : clamp s'.maximum = INT_MAX := if_pos large
  have highest {x : Int} (le : x ≤ s'.maximum) : s'.toBase x ≤ clamp s'.maximum := by
    rw [scaled, clamped]
    exact scale_le_num positive.le some le
  have mono : s'.toBase v ≤ s'.toBase w := by
    rw [scaled, scaled]
    exact scale_mono positive.le some ordered
  constructor
  · intro faithful
    have first := faithful.first.1
    rw [baseMinimum] at first
    exact lowest.mp first
  · intro above
    have first := lowest.mpr above
    refine ⟨?_, ?_, mono, ?_, near_fromBase_toBase large (nonneg.trans low)⟩
    · rw [baseMinimum, baseMaximum]
      exact ⟨first, highest (ordered.trans high)⟩
    · rw [baseMinimum, baseMaximum]
      exact ⟨first.trans mono, highest high⟩
    · exact fromBase_bounds nonneg proper first (highest (ordered.trans high))

/-- From a minimum of zero every value is shown faithfully. -/
theorem scaling_faithful_iff_zero :
    Faithful ((new : ScrollBar PlainBar).setRange 0 0x10000000000).2.1 5 6 ↔
      clamp 0 * 0x10000000000 ≤ 5 * INT_MAX :=
  scaling_faithful_iff new (by decide +kernel) (by decide) (by decide) (by decide) (by decide)

/-- From a minimum of a thousand the base begins at a thousand, but the scaled
minimum is one. -/
theorem minimum_outside_base :
    ((new : ScrollBar PlainBar).setRange 1000 0x10000000000).1 = true ∧
      ¬ Faithful ((new : ScrollBar PlainBar).setRange 1000 0x10000000000).2.1 1000 1000 := by
  refine ⟨by decide +kernel, fun faithful => ?_⟩
  have first := faithful.first.1
  revert first
  decide +kernel

end ScrollBar

end WindTerm

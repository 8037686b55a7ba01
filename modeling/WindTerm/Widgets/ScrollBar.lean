import WindTerm.Library.Scaling
import WindTerm.Library.Traced

/-!
# `ScrollBar.cpp`: a scroll bar with 64-bit values

`ScrollBar` keeps a `qint64` range and value over a `QScrollBar`, which has `int`
ones. Beyond `INT_MAX` its values are scaled down for the base and back. The
class `QScrollBar` is what `ScrollBar` relies on: the base re-bounds its value
and tells only of changes of it. `PlainBar` is such a base.
-/

namespace WindTerm

open Library

def INT_MAX : Int := 2147483647

/-- `x` brought into a range, as `qBound` does it. -/
def qBound (low x high : Int) : Int := max low (min high x)

/-- What `ScrollBar` relies on of its base class. -/
class QScrollBar (β : Type*) where
  minimum : β → Int
  maximum : β → Int
  value : β → Int
  pageStep : β → Int
  singleStep : β → Int
  /-- What the constructor makes. -/
  initial : β
  setRange : Int → Int → β → β
  setValue : Int → β → β
  setPageStep : Int → β → β
  setSingleStep : Int → β → β
  bounds : ∀ b, minimum b ≤ value b ∧ value b ≤ maximum b
  range_initial : minimum initial = 0 ∧ maximum initial = 99
  value_initial : value initial = 0
  steps_initial : pageStep initial = 10 ∧ singleStep initial = 1
  range_setRange : ∀ low high b, low ≤ high →
    minimum (setRange low high b) = low ∧ maximum (setRange low high b) = high
  value_setRange : ∀ low high b, low ≤ high →
    value (setRange low high b) = qBound low (value b) high
  steps_setRange : ∀ low high b,
    pageStep (setRange low high b) = pageStep b ∧ singleStep (setRange low high b) = singleStep b
  range_setValue : ∀ x b,
    minimum (setValue x b) = minimum b ∧ maximum (setValue x b) = maximum b
  value_setValue : ∀ x b, value (setValue x b) = qBound (minimum b) x (maximum b)
  steps_setValue : ∀ x b,
    pageStep (setValue x b) = pageStep b ∧ singleStep (setValue x b) = singleStep b
  range_setPageStep : ∀ step b,
    minimum (setPageStep step b) = minimum b ∧ maximum (setPageStep step b) = maximum b
  steps_setPageStep : ∀ step b, 0 < step →
    pageStep (setPageStep step b) = step ∧ singleStep (setPageStep step b) = singleStep b
  range_setSingleStep : ∀ step b,
    minimum (setSingleStep step b) = minimum b ∧ maximum (setSingleStep step b) = maximum b
  steps_setSingleStep : ∀ step b, 0 < step →
    pageStep (setSingleStep step b) = pageStep b ∧ singleStep (setSingleStep step b) = step

/-! ## A base -/

/-- A base whose value is in its range. -/
structure PlainBar where
  minimum : Int
  maximum : Int
  value : Int
  pageStep : Int
  singleStep : Int
  bounds : minimum ≤ value ∧ value ≤ maximum

theorem qBound_bounds {low high : Int} (ordered : low ≤ high) (x : Int) :
    low ≤ qBound low x high ∧ qBound low x high ≤ high := by
  unfold qBound
  omega

namespace PlainBar

/-- The range, with the value brought into it. -/
def setRange (low high : Int) (b : PlainBar) : PlainBar where
  minimum := low
  maximum := max low high
  value := qBound low b.value (max low high)
  pageStep := b.pageStep
  singleStep := b.singleStep
  bounds := qBound_bounds (le_max_left low high) b.value

def setValue (x : Int) (b : PlainBar) : PlainBar :=
  { b with
    value := qBound b.minimum x b.maximum
    bounds := qBound_bounds (b.bounds.1.trans b.bounds.2) x }

end PlainBar

instance : QScrollBar PlainBar where
  minimum := PlainBar.minimum
  maximum := PlainBar.maximum
  value := PlainBar.value
  pageStep := PlainBar.pageStep
  singleStep := PlainBar.singleStep
  initial := ⟨0, 99, 0, 10, 1, by decide⟩
  setRange := PlainBar.setRange
  setValue := PlainBar.setValue
  setPageStep step b := { b with pageStep := step }
  setSingleStep step b := { b with singleStep := step }
  bounds := PlainBar.bounds
  range_initial := ⟨rfl, rfl⟩
  value_initial := rfl
  steps_initial := ⟨rfl, rfl⟩
  range_setRange low high b ordered := ⟨rfl, max_eq_right ordered⟩
  value_setRange low high b ordered := by
    change qBound low b.value (max low high) = _
    rw [max_eq_right ordered]
  steps_setRange _ _ _ := ⟨rfl, rfl⟩
  range_setValue _ _ := ⟨rfl, rfl⟩
  value_setValue _ _ := rfl
  steps_setValue _ _ := ⟨rfl, rfl⟩
  range_setPageStep _ _ := ⟨rfl, rfl⟩
  steps_setPageStep _ _ _ := ⟨rfl, rfl⟩
  range_setSingleStep _ _ := ⟨rfl, rfl⟩
  steps_setSingleStep _ _ _ := ⟨rfl, rfl⟩

/-! ## The scroll bar -/

/-- `ScrollBar`, over its base. -/
structure ScrollBar (β : Type*) where
  base : β
  maximum : Int
  minimum : Int
  value : Int

/-- The signals of `ScrollBar`. -/
inductive ScrollBar.Signal where
  | pageChanged (page : Int)
  | rangeChanged (minimum maximum : Int)
  | singleStepChanged (singleStep : Int)
  | valueChanged (value oldValue : Int)
  deriving DecidableEq, Repr

/-- `QAbstractSlider::SliderAction`. -/
inductive SliderAction where
  | sliderNoAction
  | sliderSingleStepAdd
  | sliderSingleStepSub
  | sliderPageStepAdd
  | sliderPageStepSub
  | sliderToMinimum
  | sliderToMaximum
  | sliderMove
  deriving DecidableEq, Repr

namespace ScrollBar

variable {β : Type*} [QScrollBar β]

/-- What an operation on `qint64` yields; an overflow, which the language leaves
undefined, is taken to wrap. -/
def wrap (x : Int) : Int := x.bmod (2 ^ 64)

/-- A bound of the range, as it is passed to the base. -/
def clamp (x : Int) : Int := if x > INT_MAX then INT_MAX else x

/-- A value, as it is passed to the base. -/
def toBase (s : ScrollBar β) (value : Int) : Int :=
  if s.maximum > INT_MAX then scale INT_MAX s.maximum value else value

/-- A value of the base, as it is taken over. -/
def fromBase (s : ScrollBar β) (value : Int) : Int :=
  if s.maximum > INT_MAX then scale s.maximum INT_MAX value else value

def new : ScrollBar β where
  base := QScrollBar.initial
  maximum := QScrollBar.maximum (QScrollBar.initial : β)
  minimum := QScrollBar.minimum (QScrollBar.initial : β)
  value := QScrollBar.value (QScrollBar.initial : β)

/-- The slot of `QScrollBar::valueChanged`. -/
def onValueChanged (value : Int) (s : ScrollBar β) : Traced (ScrollBar β) Signal :=
  let value := s.fromBase value
  if s.value ≠ value then ({ s with value }, [.valueChanged value s.value]) else (s, [])

/-- An operation of the base, with the slot if its value changes. -/
def changeBase (change : β → β) (s : ScrollBar β) : Traced (ScrollBar β) Signal :=
  let base := change s.base
  let s' := { s with base }
  if QScrollBar.value base ≠ QScrollBar.value s.base then s'.onValueChanged (QScrollBar.value base)
  else (s', [])

def setRange (minimum maximum : Int) (s : ScrollBar β) : Bool × Traced (ScrollBar β) Signal :=
  if minimum ≥ 0 ∧ minimum ≤ maximum ∧ (s.minimum ≠ minimum ∨ s.maximum ≠ maximum) then
    let s := { s with
      maximum
      minimum }
    let r := s.changeBase (QScrollBar.setRange (clamp minimum) (clamp maximum))
    (true, r.1, r.2 ++ [.rangeChanged minimum maximum])
  else (false, s, [])

def setMaximum (maximum : Int) (s : ScrollBar β) : Bool × Traced (ScrollBar β) Signal :=
  s.setRange (min s.minimum maximum) maximum

def setMinimum (minimum : Int) (s : ScrollBar β) : Bool × Traced (ScrollBar β) Signal :=
  s.setRange minimum (max minimum s.maximum)

def setPage (page : Int) (s : ScrollBar β) : Bool × Traced (ScrollBar β) Signal :=
  if page > 0 ∧ page ≠ QScrollBar.pageStep s.base then
    (true, { s with base := QScrollBar.setPageStep page s.base }, [.pageChanged page])
  else (false, s, [])

def setSingleStep (singleStep : Int) (s : ScrollBar β) : Bool × Traced (ScrollBar β) Signal :=
  if singleStep > 0 ∧ singleStep ≠ QScrollBar.singleStep s.base then
    (true, { s with base := QScrollBar.setSingleStep singleStep s.base },
      [.singleStepChanged singleStep])
  else (false, s, [])

def setValue (value : Int) (s : ScrollBar β) : Bool × Traced (ScrollBar β) Signal :=
  let value := qBound s.minimum value s.maximum
  if s.value ≠ value then
    -- the signals of the base are blocked here
    (true, { s with
      value
      base := QScrollBar.setValue (s.toBase value) s.base }, [.valueChanged value s.value])
  else (false, s, [])

/-- What the slot of `actionTriggered` makes the value, with the slider at
`position`. -/
def actionValue (action : SliderAction) (position : Int) (s : ScrollBar β) : Int :=
  match action with
  | .sliderMove => s.fromBase position
  | .sliderPageStepAdd => min s.maximum (wrap (s.value + QScrollBar.pageStep s.base))
  | .sliderPageStepSub => max s.minimum (wrap (s.value - QScrollBar.pageStep s.base))
  | .sliderSingleStepAdd => min s.maximum (wrap (s.value + QScrollBar.singleStep s.base))
  | .sliderSingleStepSub => max s.minimum (wrap (s.value - QScrollBar.singleStep s.base))
  | .sliderToMaximum => s.maximum
  | .sliderToMinimum => s.minimum
  | .sliderNoAction => s.value

/-- A slider action: the base puts the slider to a position of its range and
emits `actionTriggered`; behind that it takes the position over as its value. -/
def triggerAction (action : SliderAction) (position : Int) (s : ScrollBar β) :
    Traced (ScrollBar β) Signal :=
  let position := qBound (QScrollBar.minimum s.base) position (QScrollBar.maximum s.base)
  let value := s.actionValue action position
  let moved := { s with value }
  -- `setSliderPosition` bounds the scaled value, as `setValue` does
  let position := if s.maximum > INT_MAX then scale INT_MAX s.maximum value else position
  let r := moved.changeBase (QScrollBar.setValue position)
  (r.1, (if value ≠ s.value then [.valueChanged value s.value] else []) ++ r.2)

end ScrollBar

end WindTerm

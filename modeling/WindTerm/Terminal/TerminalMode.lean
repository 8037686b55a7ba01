import WindTerm.Terminal.Basic
import Mathlib.Data.Finset.Basic
import Mathlib.Data.List.AList

/-!
# `TerminalMode`

The mode manager. Each `ThreadLocker` scope of the source is a definition of
its own (the names ending in `Section`), and the operations put the scopes and
the signals emitted between them together.
-/

namespace WindTerm

open Library

/-- `TerminalMode::Mode`. -/
inductive TerminalMode.Mode where
  | insertMode
  | originMode
  | autoWrap
  | autoRepeat
  | trackMouse
  | showCursor
  | alternateScreen
  | alternateScreenNoClear
  | bracketedPaste
  | synchronizedOutput
  | focusEvents
  | mouseProtocolUtf8
  | mouseProtocolSgr
  | mouseProtocolUrxvt
  deriving DecidableEq, Repr

/-- Every mode, in the order of the enumeration. -/
def TerminalMode.allModes : List TerminalMode.Mode :=
  [.insertMode, .originMode, .autoWrap, .autoRepeat, .trackMouse, .showCursor, .alternateScreen,
    .alternateScreenNoClear, .bracketedPaste, .synchronizedOutput, .focusEvents,
    .mouseProtocolUtf8, .mouseProtocolSgr, .mouseProtocolUrxvt]

theorem TerminalMode.mem_allModes (mode : TerminalMode.Mode) :
    mode ∈ TerminalMode.allModes := by
  cases mode <;> decide

/-- `QHash<Mode, bool>`. -/
abbrev TerminalMode.Changes := AList fun _ : TerminalMode.Mode => Bool

/-- The order in which iterating over a `QHash` visits its entries: Qt leaves it
open, so it is any rearrangement. -/
structure TerminalMode.HashOrder where
  visit : TerminalMode.Changes → List (Sigma fun _ : TerminalMode.Mode => Bool)
  perm : ∀ changes, (visit changes).Perm changes.entries

/-- Iteration in the order of insertion, the newest entry first. -/
def TerminalMode.HashOrder.newestFirst : TerminalMode.HashOrder where
  visit changes := changes.entries
  perm _ := .refl _

/-- The fields of `TerminalMode`, and the iteration order of its `QHash`. -/
structure TerminalMode where
  enabledModes : Finset TerminalMode.Mode
  savedModes : Finset TerminalMode.Mode
  pendingChanges : TerminalMode.Changes
  hashOrder : TerminalMode.HashOrder

/-- The signals of `TerminalMode`. -/
inductive TerminalMode.Signal where
  | modeChanged (mode : TerminalMode.Mode) (enabled : Bool)
  | synchronizedOutputChanged (enabled : Bool)
  | flushRequested
  deriving DecidableEq, Repr

namespace TerminalMode

/-- A state and what the thread did to reach it. -/
abbrev Step := Traced TerminalMode (Event Mutex Signal)

/-! ## The locked scopes -/

/-- The scope of `setMode`: whether the mode was off, and the new state. -/
def setModeSection (mode : Mode) (m : TerminalMode) : Bool × TerminalMode :=
  if mode ∈ m.enabledModes then (false, m)
  else (true, { m with enabledModes := insert mode m.enabledModes
                       pendingChanges := m.pendingChanges.insert mode true })

/-- The scope of `resetMode`: whether the mode was on, and the new state. -/
def resetModeSection (mode : Mode) (m : TerminalMode) : Bool × TerminalMode :=
  if mode ∉ m.enabledModes then (false, m)
  else (true, { m with enabledModes := m.enabledModes.erase mode
                       pendingChanges := m.pendingChanges.insert mode false })

/-- Record `value` for each mode of `modes` in the pending changes. -/
def recordChanges (modes : Finset Mode) (value : Bool) (changes : Changes) : Changes :=
  (allModes.filter (· ∈ modes)).foldl (fun changes mode => changes.insert mode value) changes

/-- The modes `restoreModes` switches off. -/
def toDisable (m : TerminalMode) : Finset Mode := m.enabledModes \ m.savedModes

/-- The modes `restoreModes` switches on. -/
def toEnable (m : TerminalMode) : Finset Mode := m.savedModes \ m.enabledModes

/-- The scope of `restoreModes` when there is something to restore. -/
def restoreModesSection (m : TerminalMode) : TerminalMode :=
  { m with enabledModes := m.savedModes
           pendingChanges :=
             recordChanges m.toEnable true (recordChanges m.toDisable false m.pendingChanges) }

/-- The scope of `resetAllModes`. -/
def resetAllModesSection (m : TerminalMode) : TerminalMode :=
  { m with enabledModes := {.autoWrap}
           pendingChanges := (∅ : Changes).insert .autoWrap true }

/-- The scope of `emitModeChanges`: the changes taken, and the new state. -/
def emitModeChangesSection (m : TerminalMode) : Changes × TerminalMode :=
  (m.pendingChanges, { m with pendingChanges := ∅ })

/-! ## The operations -/

/-- The signals `emitModeChanges` sends for one change. -/
def changeSignals (change : Sigma fun _ : Mode => Bool) : List Signal :=
  .modeChanged change.1 change.2 ::
    if change.1 = .synchronizedOutput then [.synchronizedOutputChanged change.2] else []

/-- `emitModeChanges`. -/
def emitModeChanges (m : TerminalMode) : Step :=
  let r := m.emitModeChangesSection
  (r.2, critical .modeManager [] ++ ((m.hashOrder.visit r.1).flatMap changeSignals).map .act)

/-- `setMode`. -/
def setMode (mode : Mode) (m : TerminalMode) : Bool × Step :=
  let r := m.setModeSection mode
  if r.1 then
    (true, Traced.andThen (r.2, critical .modeManager []) emitModeChanges)
  else (false, r.2, critical .modeManager [])

/-- `resetMode`. -/
def resetMode (mode : Mode) (m : TerminalMode) : Bool × Step :=
  let r := m.resetModeSection mode
  if r.1 then
    (true, (Traced.andThen (r.2, critical .modeManager []) emitModeChanges).andThen fun m =>
      (m, if mode = .synchronizedOutput then [.act .flushRequested] else []))
  else (false, r.2, critical .modeManager [])

/-- `toggleMode`. -/
def toggleMode (mode : Mode) (m : TerminalMode) : Bool × Step :=
  let currentlyEnabled := decide (mode ∈ m.enabledModes)
  let r := if currentlyEnabled then m.resetMode mode else m.setMode mode
  (r.1, r.2.1, critical .modeManager [] ++ r.2.2)

/-- `isEnabled`. -/
def isEnabled (mode : Mode) (m : TerminalMode) : Bool × List (Event Mutex Signal) :=
  (decide (mode ∈ m.enabledModes), critical .modeManager [])

/-- `saveModes`. -/
def saveModes (m : TerminalMode) : Step :=
  ({ m with savedModes := m.enabledModes }, critical .modeManager [])

/-- `restoreModes`. -/
def restoreModes (m : TerminalMode) : Step :=
  if m.toDisable = ∅ ∧ m.toEnable = ∅ then (m, critical .modeManager [])
  else
    (Traced.andThen (m.restoreModesSection, critical .modeManager []) emitModeChanges).andThen
      fun m' => (m', if .synchronizedOutput ∈ m.toDisable then [.act .flushRequested] else [])

/-- `resetAllModes`. -/
def resetAllModes (m : TerminalMode) : Step :=
  -- The source sets `changed` here but never calls `emitModeChanges`.
  (m.resetAllModesSection, critical .modeManager [] ++
    if .synchronizedOutput ∈ m.enabledModes then [.act .flushRequested] else [])

/-- The constructor; nothing is connected yet when it calls `resetAllModes`. -/
def new (hashOrder : HashOrder) : TerminalMode :=
  (resetAllModes { enabledModes := ∅, savedModes := ∅, pendingChanges := ∅, hashOrder }).1

end TerminalMode

end WindTerm

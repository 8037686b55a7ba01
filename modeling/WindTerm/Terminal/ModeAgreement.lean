import WindTerm.Terminal.Calls

/-!
# The mode manager and the sync buffer agree

Whether output is synchronised is kept twice, by the mode manager and by the
sync buffer, and only signals carry it from one to the other. Every operation
that announces its changes keeps the two in step (`InStep.callModeManager`);
`resetAllModes` does not announce, so it parts them exactly when it is called
while the mode is on (`agrees_along_iff`).
-/

namespace WindTerm

open Library CSIParser SynchronizedBuffer

namespace TerminalHandler

/-- What should hold between two calls: the two agree, and outside of
synchronised mode nothing is buffered. -/
def Agrees (h : TerminalHandler) : Prop :=
  (h.modeManager.isEnabled .synchronizedOutput).1 = h.syncBuffer.isSynchronized.1 ∧
    ((h.modeManager.isEnabled .synchronizedOutput).1 = false →
      h.syncBuffer.isSynchronized.1 = false → h.syncBuffer.buffer = [])

/-- The two agree, and no change waits to be announced. -/
structure InStep (h : TerminalHandler) : Prop where
  settled : h.modeManager.Settled
  same : h.modeManager.syncEnabled = h.syncBuffer.synchronizedMode

/-! ## Single operations -/

theorem InStep.callSyncBuffer {h : TerminalHandler} (inStep : InStep h)
    {op : Int64 → SynchronizedBuffer → SynchronizedBuffer.Step}
    (mode : ∀ now b, (op now b).1.synchronizedMode = b.synchronizedMode) :
    InStep (callSyncBuffer op h).1 :=
  ⟨inStep.settled, inStep.same.trans (mode _ _).symm⟩

/-- An operation that announces its changes keeps the two in step. -/
theorem InStep.callModeManager {h : TerminalHandler} (inStep : InStep h)
    {op : TerminalMode → TerminalMode.Step} (announces : TerminalMode.Announces op) :
    InStep (callModeManager op h).1 := by
  obtain ⟨settled, changes⟩ := announces h.modeManager inStep.settled
  have state := (callModeManager_spec op h).1
  rw [changes] at state
  by_cases unchanged : (op h.modeManager).1.syncEnabled = h.modeManager.syncEnabled
  · rw [if_pos unchanged, feed_nil] at state
    rw [state]
    exact ⟨settled, unchanged.trans inStep.same⟩
  · rw [if_neg unchanged, feed_singleton] at state
    rw [state]
    exact ⟨settled, (setSynchronizedMode_mode _ _ _).symm⟩

section

variable [Platform]

/-- In a handler at rest nothing is buffered outside of synchronised mode. -/
theorem Sound.agrees_iff {h : TerminalHandler} (sound : Sound h) :
    Agrees h ↔ h.modeManager.syncEnabled = h.syncBuffer.synchronizedMode :=
  ⟨fun agrees => agrees.1, fun same => ⟨same, fun _ normal => sound.tidy.empty normal⟩⟩

theorem InStep.writeItem {h : TerminalHandler} (inStep : InStep h) (item : BufferItem) :
    InStep (writeItem item h).1 :=
  inStep.callSyncBuffer fun now b => write_synchronizedMode now item b

theorem InStep.flushPendingText {h : TerminalHandler} (inStep : InStep h) :
    InStep h.flushPendingText.1 := by
  unfold TerminalHandler.flushPendingText
  split
  · exact inStep
  · have written := inStep.writeItem { type := .textData, data := h.pendingText }
    exact ⟨written.settled, written.same⟩

theorem InStep.handleText {h : TerminalHandler} (inStep : InStep h) (text : QByteArray) :
    InStep (handleText text h).1 := by
  have pending : InStep { h with pendingText := h.pendingText ++ text } :=
    ⟨inStep.settled, inStep.same⟩
  exact pending.flushPendingText

theorem InStep.processCommand {h : TerminalHandler} (inStep : InStep h) (cmd : Command) :
    InStep (processCommand cmd h).1 := by
  change InStep (executeCommand cmd h).1
  rw [executeCommand_eq]
  cases effect cmd with
  | ignore => exact inStep
  | switch mode enabled =>
      cases enabled with
      | true => exact inStep.callModeManager (TerminalMode.setMode_announces mode)
      | false => exact inStep.callModeManager (TerminalMode.resetMode_announces mode)
  | draw item signal => exact inStep.flushPendingText.writeItem item

theorem InStep.inputEffect {h : TerminalHandler} (inStep : InStep h) (resting : Resting h)
    (data : QByteArray) : InStep (inputEffect data h).1 := by
  have handed := inStep.handleText (textPart data)
  have between := (resting.handleText (textPart data)).between
  unfold TerminalHandler.inputEffect
  split
  · exact handed
  · obtain ⟨cmds, rest, read⟩ := Reads.total
      ((TerminalHandler.handleText (textPart data) h).1.csiParser.buffer ++ escPart data)
    have ran := feed_invariant InStep (fun cmd _ inStep => inStep.processCommand cmd)
      (turnCommands
        (TerminalHandler.handleText (textPart data) h).1.csiParser.completedCommands cmds)
      handed
    rw [Traced.andThen_fst, (parseAndDrain_spec between read).1]
    exact ⟨ran.settled, ran.same⟩

/-! ## Runs -/

/-- The calls on a handler and its mode manager. -/
def Call.OfHandlerAndModes : Call → Prop
  | .processInput _ => True
  | .operation .forceFlush => True
  | .operation .clearBuffer => True
  | .operation (.setMode _) => True
  | .operation (.resetMode _) => True
  | .operation (.toggleMode _) => True
  | .operation .saveModes => True
  | .operation .restoreModes => True
  | .operation .resetAllModes => True
  | _ => False

/-- One call keeps the two in step, unless it resets all modes while
`SYNCHRONIZED_OUTPUT` is on. -/
theorem agrees_after_iff {h : TerminalHandler} (resting : Resting h) (agrees : Agrees h)
    {c : Call} (allowed : c.OfHandlerAndModes) {r : Step} (returns : c.Returns h r) :
    Agrees r.1 ↔ (c = .operation .resetAllModes → h.modeManager.syncEnabled = false) := by
  have inStep : InStep h := ⟨resting.sound.settled, resting.sound.agrees_iff.mp agrees⟩
  rw [(resting.after returns).sound.agrees_iff]
  cases c with
  | processInput data =>
      obtain ⟨-, rfl⟩ := (processInput_iff resting.between resting.text data r).mp returns
      exact iff_of_true (inStep.inputEffect resting data).same nofun
  | operation o =>
      rw [show r = o.run h from returns]
      cases o with
      | forceFlush =>
          exact iff_of_true
            (inStep.flushPendingText.callSyncBuffer fun _ b => flush_synchronizedMode b).same nofun
      | clearBuffer => exact iff_of_true inStep.same nofun
      | setMode mode =>
          exact iff_of_true
            (inStep.callModeManager (TerminalMode.setMode_announces mode)).same nofun
      | resetMode mode =>
          exact iff_of_true (inStep.callModeManager (TerminalMode.resetMode_announces mode)).same
            nofun
      | toggleMode mode =>
          exact iff_of_true (inStep.callModeManager (TerminalMode.toggleMode_announces mode)).same
            nofun
      | saveModes =>
          exact iff_of_true (inStep.callModeManager TerminalMode.saveModes_announces).same nofun
      | restoreModes =>
          exact iff_of_true (inStep.callModeManager TerminalMode.restoreModes_announces).same nofun
      | resetAllModes =>
          obtain ⟨-, silent, off⟩ := h.modeManager.resetAllModes_silent
          have state := (callModeManager_spec TerminalMode.resetAllModes h).1
          rw [silent, feed_nil] at state
          change (callModeManager TerminalMode.resetAllModes h).1.modeManager.syncEnabled =
            (callModeManager TerminalMode.resetAllModes h).1.syncBuffer.synchronizedMode ↔ _
          rw [state]
          change h.modeManager.resetAllModes.1.syncEnabled = h.syncBuffer.synchronizedMode ↔ _
          rw [off, inStep.same]
          exact ⟨fun normal _ => normal.symm, fun normal => (normal rfl).symm⟩
      | _ => exact allowed.elim

/-- A sequence of calls that return, each with the handler it leaves. -/
inductive Run : TerminalHandler → List (Call × TerminalHandler) → Prop
  | nil {h : TerminalHandler} : Run h []
  | cons {h : TerminalHandler} {c : Call} {r : Step} {steps : List (Call × TerminalHandler)} :
      c.Returns h r → Run r.1 steps → Run h ((c, r.1) :: steps)

/-- No call resets all modes while `SYNCHRONIZED_OUTPUT` is on. -/
def SparesSync : TerminalHandler → List (Call × TerminalHandler) → Prop
  | _, [] => True
  | h, (c, h') :: steps =>
      (c = .operation .resetAllModes → h.modeManager.syncEnabled = false) ∧ SparesSync h' steps

theorem Run.agrees_iff {h : TerminalHandler} (resting : Resting h) (agrees : Agrees h)
    {steps : List (Call × TerminalHandler)} (run : Run h steps)
    (allowed : ∀ step ∈ steps, step.1.OfHandlerAndModes) :
    (∀ step ∈ steps, Agrees step.2) ↔ SparesSync h steps := by
  induction run with
  | nil => simp [SparesSync]
  | @cons h c r steps returns _ ih =>
      rw [List.forall_mem_cons] at allowed
      have first := agrees_after_iff resting agrees allowed.1 returns
      rw [List.forall_mem_cons, SparesSync, ← first]
      exact and_congr_right fun agrees' => ih (resting.after returns) agrees' allowed.2

/-- **Agreement.** Along every sequence of calls on a new handler and its mode
manager, the mode manager and the sync buffer agree after each call exactly
when no call resets all modes while `SYNCHRONIZED_OUTPUT` is on. -/
theorem agrees_along_iff (hashOrder : TerminalMode.HashOrder) (clock : Nat → Int64)
    {steps : List (Call × TerminalHandler)} (run : Run (.new hashOrder clock) steps)
    (allowed : ∀ step ∈ steps, step.1.OfHandlerAndModes) :
    (∀ step ∈ steps, Agrees step.2) ↔ SparesSync (.new hashOrder clock) steps :=
  run.agrees_iff (new_resting hashOrder clock) ⟨rfl, fun _ _ => rfl⟩ allowed

/-- Operations one after the other. -/
def steps : List Operation → TerminalHandler → List (Call × TerminalHandler)
  | [], _ => []
  | o :: os, h => (.operation o, (o.run h).1) :: steps os (o.run h).1

theorem run_steps (os : List Operation) (h : TerminalHandler) : Run h (steps os h) := by
  induction os generalizing h with
  | nil => exact .nil
  | cons o os ih => exact .cons rfl (ih _)

omit [Platform] in
/-- `SYNCHRONIZED_OUTPUT` is switched on and off, and then all modes are reset. -/
theorem agrees_along_iff_switches :
    letI := Platform.qt6
    let ran := steps [.setMode .synchronizedOutput, .resetMode .synchronizedOutput, .resetAllModes]
      fresh
    ran.map (fun step => step.2.modeManager.syncEnabled) = [true, false, false] ∧
      ∀ step ∈ ran, Agrees step.2 := by
  let _ := Platform.qt6
  have switched : (@steps Platform.qt6
      [.setMode .synchronizedOutput, .resetMode .synchronizedOutput, .resetAllModes] fresh).map
        (fun step => step.2.modeManager.syncEnabled) = [true, false, false] := by decide +kernel
  have off := (List.cons.inj (List.cons.inj switched).2).1
  refine ⟨switched, (agrees_along_iff .newestFirst (fun _ => 0) (run_steps _ _) ?_).mpr ?_⟩
  · simp [steps, Call.OfHandlerAndModes]
  · exact ⟨nofun, nofun, fun _ => off, trivial⟩

omit [Platform] in
/-- `setMode(SYNCHRONIZED_OUTPUT)`, then `resetAllModes`: the mode manager says
that output is not synchronised, and the sync buffer that it is. -/
theorem resetAllModes_parts :
    letI := Platform.qt6
    let h := TerminalHandler.new .newestFirst fun _ => 0
    let on := ((Operation.setMode .synchronizedOutput).run h).1
    let reset := (Operation.resetAllModes.run on).1
    Run h [(.operation (.setMode .synchronizedOutput), on), (.operation .resetAllModes, reset)] ∧
      (reset.modeManager.isEnabled .synchronizedOutput).1 = false ∧
      reset.syncBuffer.isSynchronized.1 = true := by
  let _ := Platform.qt6
  exact ⟨.cons rfl (.cons rfl .nil), rfl, rfl⟩

end

end TerminalHandler

end WindTerm

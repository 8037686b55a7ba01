import WindTerm.Terminal.CSIParserRuns
import WindTerm.Terminal.TerminalHandler

/-!
# What a command does to a handler

`effect` says what `processCommand` does with a command: nothing, switch a
mode, or draw, that is, write an item and emit a signal. `executeCommand_eq`
connects it to the `switch` of the source; later modules reason about effects
only. The commands a parser completes are never private
(`Reads.ordinary`), so none of them switches `SYNCHRONIZED_OUTPUT`.
-/

namespace WindTerm

open Library CSIParser SynchronizedBuffer

namespace TerminalHandler

/-! ## Effects -/

/-- What a command does. -/
inductive Effect where
  | ignore
  | switch (mode : TerminalMode.Mode) (enabled : Bool)
  | draw (item : BufferItem) (signal : Signal)
  deriving DecidableEq, Repr

/-- Switching the mode a DECSET or DECRST parameter stands for. -/
def switchEffect (mode : Int) (enabled : Bool) : Effect :=
  match decMode mode with
  | some m => .switch m enabled
  | none => .ignore

/-- The effect of a DECSET or DECRST with `?`. -/
def privateEffect (cmd : Command) (mode : Int) (enabled : Bool) : Effect :=
  match isSynchronizedOutputCommand cmd with
  | some on => if on = enabled then .switch .synchronizedOutput enabled else .ignore
  | none => switchEffect mode enabled

/-- The effect of a command. -/
def effect (cmd : Command) : Effect :=
  match cmd.type with
  | .decset =>
      match cmd.params with
      | [] => .ignore
      | mode :: _ => switchEffect mode true
  | .decrst =>
      match cmd.params with
      | [] => .ignore
      | mode :: _ => switchEffect mode false
  | .decsetPrivate =>
      match cmd.params with
      | [] => .ignore
      | mode :: _ => privateEffect cmd mode true
  | .decrstPrivate =>
      match cmd.params with
      | [] => .ignore
      | mode :: _ => privateEffect cmd mode false
  | .cursorUp | .cursorDown | .cursorForward | .cursorBackward | .cursorNextLine
  | .cursorPrevLine | .cursorHorizontal | .cursorPosition | .horizontalPos =>
      let target := cursorTarget cmd
      .draw { type := .cursorMove, param1 := target.1, param2 := target.2 }
        (.cursorPositionChanged target.1 target.2)
  | .eraseDisplay | .eraseLine =>
      let mode := cmd.params.head?.getD 0
      .draw { type := if cmd.type = .eraseDisplay then .clearScreen else .resize, param1 := mode }
        (.clearScreenRequested mode)
  | .selectGraphic =>
      .draw { type := .attributeChange, data := serialize cmd.params }
        (.attributeChanged cmd.params)
  | _ => .ignore

/-- The command does not switch `SYNCHRONIZED_OUTPUT`. -/
def Ordinary (cmd : Command) : Prop := ∀ enabled, effect cmd ≠ .switch .synchronizedOutput enabled

theorem decMode_ne_sync (mode : Int) : decMode mode ≠ some .synchronizedOutput := by
  unfold decMode
  split
  · simp
  · split
    · simp
    · split
      · simp
      · split <;> simp

theorem switchEffect_ne_sync (mode : Int) (enabled on : Bool) :
    switchEffect mode enabled ≠ .switch .synchronizedOutput on := by
  unfold switchEffect
  cases known : decMode mode with
  | none => simp
  | some m =>
      intro same
      injection same with sync
      exact decMode_ne_sync mode (sync ▸ known)

/-- A command that is not private does not switch `SYNCHRONIZED_OUTPUT`. -/
theorem ordinary_of_not_private {cmd : Command} (notPrivate : cmd.isPrivate = false) :
    Ordinary cmd := by
  have privateEffect_eq (mode : Int) (enabled : Bool) :
      privateEffect cmd mode enabled = switchEffect mode enabled := by
    unfold privateEffect isSynchronizedOutputCommand
    rw [notPrivate]
    rfl
  intro on
  unfold effect
  split
  case h_1 | h_2 =>
    split
    · simp
    · exact switchEffect_ne_sync _ _ _
  case h_3 | h_4 =>
    split
    · simp
    · rw [privateEffect_eq]
      exact switchEffect_ne_sync _ _ _
  all_goals simp

/-- The four signals that put something on the screen. -/
def isScreen : Signal → Bool
  | .renderData _ _ => true
  | .cursorPositionChanged _ _ => true
  | .clearScreenRequested _ => true
  | .attributeChanged _ => true
  | _ => false

/-- The item written along with a signal: its parameters are those of the signal. -/
def drawnItem (type : BufferItemType) (data : QByteArray) : Signal → BufferItem
  | .cursorPositionChanged row column => { type, data, param1 := row, param2 := column }
  | .clearScreenRequested mode => { type, data, param1 := mode }
  | _ => { type, data }

/-- What a command draws: a signal for the screen that carries no data, and an
item that is not text and is determined by its type, its data and the signal. -/
structure Drawing (item : BufferItem) (signal : Signal) : Prop where
  screen : isScreen signal = true
  noData : ∀ data type, signal ≠ .renderData data type
  notText : item.type ≠ .textData
  params : item = drawnItem item.type item.data signal

theorem effect_draw {cmd : Command} {item : BufferItem} {signal : Signal}
    (draws : effect cmd = .draw item signal) : Drawing item signal := by
  have notSwitch (mode : Int) (enabled : Bool) : switchEffect mode enabled ≠ .draw item signal := by
    unfold switchEffect
    split <;> simp
  have notPrivate (mode : Int) (enabled : Bool) :
      privateEffect cmd mode enabled ≠ .draw item signal := by
    unfold privateEffect
    split
    · split <;> simp
    · exact notSwitch mode enabled
  unfold effect at draws
  split at draws
  case h_1 | h_2 =>
    split at draws
    · cases draws
    · exact (notSwitch _ _ draws).elim
  case h_3 | h_4 =>
    split at draws
    · cases draws
    · exact (notPrivate _ _ draws).elim
  case h_14 | h_15 =>
    cases draws
    refine ⟨rfl, fun _ _ => nofun, ?_, rfl⟩
    dsimp only
    split <;> simp
  all_goals cases draws
  all_goals exact ⟨rfl, fun _ _ => nofun, by simp, rfl⟩

section

variable [Platform]

/-- What an effect does to a handler. -/
def Effect.run : Effect → TerminalHandler → Step
  | .ignore, h => (h, [])
  | .switch mode true, h => h.setMode mode
  | .switch mode false, h => h.resetMode mode
  | .draw item signal, h => h.drawItem item signal

/-- `executeCommand` runs the effect of the command. -/
theorem executeCommand_eq (cmd : Command) (h : TerminalHandler) :
    executeCommand cmd h = (effect cmd).run h := by
  have set (mode : Int) : h.handleDECSET mode = (switchEffect mode true).run h := by
    unfold handleDECSET switchEffect
    cases decMode mode <;> rfl
  have reset (mode : Int) : h.handleDECRST mode = (switchEffect mode false).run h := by
    unfold handleDECRST switchEffect
    cases decMode mode <;> rfl
  rcases cmd with ⟨type, params, intermediate, finalChar, isPrivate⟩
  cases type
  case decset =>
    cases params with
    | nil => rfl
    | cons mode _ => exact set mode
  case decrst =>
    cases params with
    | nil => rfl
    | cons mode _ => exact reset mode
  case decsetPrivate =>
    cases params with
    | nil => rfl
    | cons mode _ =>
        unfold executeCommand effect privateEffect
        dsimp only
        cases isSynchronizedOutputCommand _ with
        | none => exact set mode
        | some on => cases on <;> rfl
  case decrstPrivate =>
    cases params with
    | nil => rfl
    | cons mode _ =>
        unfold executeCommand effect privateEffect
        dsimp only
        cases isSynchronizedOutputCommand _ with
        | none => exact reset mode
        | some on => cases on <;> rfl
  all_goals rfl

end

end TerminalHandler

/-- No command the parser completes switches `SYNCHRONIZED_OUTPUT`. -/
theorem CSIParser.Reads.ordinary {s rest : QByteArray} {cmds : List Command}
    (read : Reads s cmds rest) : ∀ cmd ∈ cmds, TerminalHandler.Ordinary cmd := by
  induction read with
  | nil => simp
  | unfinished _ => simp
  | @token u s rest cmd cmds token _ ih =>
      intro c mem
      rcases List.mem_append.mp mem with here | later
      · cases token with
        | text _ => simp at here
        | escape _ => simp at here
        | malformed _ _ => simp at here
        | @sequence ps is fin wf _ =>
            rw [Option.toList_some, List.mem_singleton] at here
            subst here
            exact TerminalHandler.ordinary_of_not_private (not_contains_question wf.2)
      · exact ih c later

end WindTerm

import WindTerm.Library.Loop
import WindTerm.Terminal.CSIParser
import WindTerm.Terminal.SynchronizedBuffer
import WindTerm.Terminal.TerminalMode

/-!
# `TerminalHandler`

The handler owns a mode manager, a sync buffer and a parser, and its constructor
connects their signals to its own slots. The connections are direct: a slot
runs inside the call that emits the signal. Here an operation of a component is
run first and its trace is then delivered event by event, the slot of a signal
running where the signal stands (`deliver…`). That is the same execution, for
no slot touches the component whose signal it answers: `onCSIParsed` leaves the
parser alone, `onModeChanged` the mode manager, and `onSyncDataReady` only
emits.

`qDebug` output and the flag that switches it on are left out.
-/

namespace WindTerm

open Library CSIParser SynchronizedBuffer

/-- All signals of a handler and its components. -/
inductive TerminalHandler.Signal where
  | modeManager (s : TerminalMode.Signal)
  | syncBuffer (s : SynchronizedBuffer.Signal)
  | csiParser (s : CSIParser.Signal)
  | renderData (data : QByteArray) (type : BufferItemType)
  | cursorPositionChanged (row column : Int)
  | clearScreenRequested (mode : Int)
  | attributeChanged (sgrParams : List Int)
  | synchronizedOutputChanged (enabled : Bool)
  deriving DecidableEq, Repr

/-- What can be seen of a call besides its locks: the signals emitted and the
invocations of `processCommand`. -/
inductive TerminalHandler.Act where
  | emit (s : TerminalHandler.Signal)
  | processCommand (cmd : Command)
  deriving DecidableEq, Repr

/-- The fields of `TerminalHandler`. `clock` is not one of them: it holds the
readings of the wall clock that the coming calls into the sync buffer get, one
for each call. -/
structure TerminalHandler where
  modeManager : TerminalMode
  syncBuffer : SynchronizedBuffer := {}
  csiParser : CSIParser := {}
  pendingText : QByteArray := []
  clock : Nat → Int64

namespace TerminalHandler

/-- A handler and what the thread did to reach it. -/
abbrev Step := Traced TerminalHandler (Event Mutex Act)

/-- A newly constructed handler. -/
def new (hashOrder : TerminalMode.HashOrder) (clock : Nat → Int64) : TerminalHandler where
  modeManager := .new hashOrder
  clock := clock

/-- Emit a signal of the handler itself. -/
def emit (s : Signal) (h : TerminalHandler) : Step := (h, [.act (.emit s)])

/-! ## The sync buffer and its slot -/

/-- `onSyncDataReady`. -/
def onSyncDataReady (items : List BufferItem) : List (Event Mutex Act) :=
  items.map fun item => .act (.emit (.renderData item.data item.type))

/-- What a signal of the sync buffer sets off. -/
def onSyncBufferSignal : SynchronizedBuffer.Signal → List (Event Mutex Act)
  | .dataReady items => onSyncDataReady items
  | .synchronizedModeChanged _ => []
  | .bufferOverflow => []

/-- An event of the sync buffer, its signals delivered. -/
def onSyncBufferEvent : Event Mutex SynchronizedBuffer.Signal → List (Event Mutex Act)
  | .lock m => [.lock m]
  | .unlock m => [.unlock m]
  | .act s => .act (.emit (.syncBuffer s)) :: onSyncBufferSignal s

/-- Call an operation of the sync buffer, with the next reading of the clock. -/
def callSyncBuffer (op : Int64 → SynchronizedBuffer → SynchronizedBuffer.Step)
    (h : TerminalHandler) : Step :=
  let r := op (h.clock 0) h.syncBuffer
  ({ h with syncBuffer := r.1, clock := fun n => h.clock (n + 1) },
    r.2.flatMap onSyncBufferEvent)

/-! ## The mode manager and its slots -/

/-- `onModeChanged`. -/
def onModeChanged (mode : TerminalMode.Mode) (enabled : Bool) (h : TerminalHandler) : Step :=
  if mode = .synchronizedOutput then
    h.callSyncBuffer fun now b => (b.setSynchronizedMode now enabled).2
  else (h, [])

/-- What a signal of the mode manager sets off. -/
def onModeManagerSignal : TerminalMode.Signal → TerminalHandler → Step
  | .modeChanged mode enabled, h => h.onModeChanged mode enabled
  | .synchronizedOutputChanged enabled, h => h.emit (.synchronizedOutputChanged enabled)
  | .flushRequested, h => (h, [])

/-- An event of the mode manager, its signals delivered. -/
def onModeManagerEvent : Event Mutex TerminalMode.Signal → TerminalHandler → Step
  | .lock m, h => (h, [.lock m])
  | .unlock m, h => (h, [.unlock m])
  | .act s, h => (h.emit (.modeManager s)).andThen (onModeManagerSignal s)

/-- Call an operation of the mode manager. -/
def callModeManager (op : TerminalMode → TerminalMode.Step) (h : TerminalHandler) : Step :=
  let r := op h.modeManager
  feed onModeManagerEvent r.2 { h with modeManager := r.1 }

/-- `modeManager->setMode(mode)`. -/
def setMode (mode : TerminalMode.Mode) : TerminalHandler → Step :=
  callModeManager fun m => (m.setMode mode).2

/-- `modeManager->resetMode(mode)`. -/
def resetMode (mode : TerminalMode.Mode) : TerminalHandler → Step :=
  callModeManager fun m => (m.resetMode mode).2

section

variable [Platform]

/-! ## Commands -/

/-- `syncBuffer->write(item)`; no caller looks at the value. -/
def writeItem (item : BufferItem) : TerminalHandler → Step :=
  callSyncBuffer fun now b => (b.write now item).2

/-- `flushPendingText`. -/
def flushPendingText (h : TerminalHandler) : Step :=
  if h.pendingText = [] then (h, [])
  else
    (h.writeItem { type := .textData, data := h.pendingText }).andThen fun h =>
      ({ h with pendingText := [] }, [])

/-- The parameters as `handleSGR` writes them into its item; `0x3B` is `;`. -/
def serialize (params : List Int) : QByteArray := params.flatMap fun param => number param ++ [0x3B]

/-- What `handleSGR`, `handleCursorMove` and `handleErase` do with the item and
the signal they make. -/
def drawItem (item : BufferItem) (signal : Signal) (h : TerminalHandler) : Step :=
  (h.flushPendingText.andThen (writeItem item)).andThen (emit signal)

/-- `handleSGR`. -/
def handleSGR (params : List Int) : TerminalHandler → Step :=
  drawItem { type := .attributeChange, data := serialize params } (.attributeChanged params)

/-- The mode a DECSET or DECRST parameter stands for. -/
def decMode (mode : Int) : Option TerminalMode.Mode :=
  if mode = 25 then some .showCursor
  else if mode = 1047 then some .alternateScreen
  else if mode = 1049 then some .alternateScreenNoClear
  else if mode = 2004 then some .bracketedPaste
  else none

/-- `handleDECSET`. -/
def handleDECSET (mode : Int) (h : TerminalHandler) : Step :=
  match decMode mode with
  | some m => h.setMode m
  | none => (h, [])

/-- `handleDECRST`. -/
def handleDECRST (mode : Int) (h : TerminalHandler) : Step :=
  match decMode mode with
  | some m => h.resetMode m
  | none => (h, [])

/-- The row and column `handleCursorMove` computes. -/
def cursorTarget (cmd : Command) : Int × Int :=
  let n := cmd.params.head?.getD 1
  match cmd.type with
  | .cursorUp => (int32 (-n), 0)
  | .cursorDown => (n, 0)
  | .cursorForward => (0, n)
  | .cursorBackward => (0, int32 (-n))
  | .cursorNextLine => (n, 0)
  | .cursorPrevLine => (int32 (-n), 0)
  | .cursorHorizontal => (0, int32 (n - 1))
  | .cursorPosition | .horizontalPos =>
      let row := cmd.params[0]?.getD 1
      let col := cmd.params[1]?.getD 1
      (if 0 < row then row - 1 else 0, if 0 < col then col - 1 else 0)
  | _ => (0, 0)

/-- `handleCursorMove`. -/
def handleCursorMove (cmd : Command) : TerminalHandler → Step :=
  let target := cursorTarget cmd
  drawItem { type := .cursorMove, param1 := target.1, param2 := target.2 }
    (.cursorPositionChanged target.1 target.2)

/-- `handleErase`. `BufferItemType(5)`, meant as an erased line, is `RESIZE`. -/
def handleErase (cmd : Command) : TerminalHandler → Step :=
  let mode := cmd.params.head?.getD 0
  drawItem { type := if cmd.type = .eraseDisplay then .clearScreen else .resize, param1 := mode }
    (.clearScreenRequested mode)

/-- The `switch` of `processCommand`. -/
def executeCommand (cmd : Command) (h : TerminalHandler) : Step :=
  match cmd.type with
  | .decset =>
      match cmd.params with
      | [] => (h, [])
      | mode :: _ => h.handleDECSET mode
  | .decrst =>
      match cmd.params with
      | [] => (h, [])
      | mode :: _ => h.handleDECRST mode
  | .decsetPrivate =>
      match cmd.params with
      | [] => (h, [])
      | mode :: _ =>
          match isSynchronizedOutputCommand cmd with
          | some syncEnable => if syncEnable then h.setMode .synchronizedOutput else (h, [])
          | none => h.handleDECSET mode
  | .decrstPrivate =>
      match cmd.params with
      | [] => (h, [])
      | mode :: _ =>
          match isSynchronizedOutputCommand cmd with
          | some syncEnable => if !syncEnable then h.resetMode .synchronizedOutput else (h, [])
          | none => h.handleDECRST mode
  | .cursorUp | .cursorDown | .cursorForward | .cursorBackward | .cursorNextLine
  | .cursorPrevLine | .cursorHorizontal | .cursorPosition | .horizontalPos =>
      handleCursorMove cmd h
  | .eraseDisplay | .eraseLine => handleErase cmd h
  | .selectGraphic => handleSGR cmd.params h
  | _ => (h, [])

/-- `processCommand`. -/
def processCommand (cmd : Command) (h : TerminalHandler) : Step :=
  Traced.andThen (h, [.act (.processCommand cmd)]) (executeCommand cmd)

/-! ## The parser and its slot -/

/-- `onCSIParsed`. -/
def onCSIParsed (cmd : Command) (h : TerminalHandler) : Step := h.processCommand cmd

/-- What a signal of the parser sets off. -/
def onCSIParserSignal : CSIParser.Signal → TerminalHandler → Step
  | .commandParsed cmd, h => h.onCSIParsed cmd
  | .parseError _, h => (h, [])

/-- An event of the parser, its signals delivered. -/
def onCSIParserEvent : Event Mutex CSIParser.Signal → TerminalHandler → Step
  | .lock m, h => (h, [.lock m])
  | .unlock m, h => (h, [.unlock m])
  | .act s, h => (h.emit (.csiParser s)).andThen (onCSIParserSignal s)

/-- Deliver what a call of the parser did that left it as `p`. -/
def deliverCSIParser (p : CSIParser) (events : CSIParser.Trace) (h : TerminalHandler) : Step :=
  feed onCSIParserEvent events { h with csiParser := p }

/-- `csiParser->processData(data)`. -/
def parseData (data : QByteArray) (h : TerminalHandler) : QByteArray × Step :=
  let r := h.csiParser.processData data
  (r.1, h.deliverCSIParser r.2.1 r.2.2)

/-- The loop that takes the completed commands out of the parser, one turn for
each command of `queue`, the queue of the parser: `processCommand` adds none. -/
def drainCommands : List Command → TerminalHandler → Step
  | [], h => h.deliverCSIParser h.csiParser h.csiParser.hasCommand.2
  | _ :: queue, h =>
      let taken := h.csiParser.takeCommand
      (((h.deliverCSIParser h.csiParser h.csiParser.hasCommand.2).andThen
        (deliverCSIParser taken.2.1 taken.2.2)).andThen
        (processCommand taken.1)).andThen (drainCommands queue)

/-! ## The operations -/

/-- The variables of the loop of `processInput`. -/
structure InputLoop where
  remaining : QByteArray
  step : TerminalHandler.Step

/-- Hand the bytes before the sequence over as text. -/
def handleText (text : QByteArray) (h : TerminalHandler) : Step :=
  flushPendingText { h with pendingText := h.pendingText ++ text }

/-- One turn of the loop of `processInput`. -/
def processInputTurn (data : QByteArray) (l : InputLoop) : InputLoop ⊕ Step :=
  if l.remaining = [] then .inr l.step
  else
    match l.remaining.idxOf? ESC with
    | none => .inr (l.step.andThen (handleText l.remaining))
    | some escPos =>
        let before := if 0 < escPos then l.step.andThen (handleText (l.remaining.take escPos))
          else l.step
        let remaining := if 0 < escPos then l.remaining.drop escPos else l.remaining
        let parsed := before.1.parseData remaining
        let step := (Traced.andThen before fun _ => parsed.2).andThen fun h =>
          h.drainCommands h.csiParser.completedCommands
        -- The test for progress looks at the whole input, not at the bytes just parsed.
        if parsed.1 = data then .inr step else .inl ⟨parsed.1, step⟩

/-- The loop of `processInput` as it starts. -/
def inputLoop (data : QByteArray) (h : TerminalHandler) : InputLoop := ⟨data, h, []⟩

/-- `processInput(data)` returns, leaving `r`. -/
def ProcessInput (data : QByteArray) (h : TerminalHandler) (r : Step) : Prop :=
  Loop.Returns (processInputTurn data) (inputLoop data h) r

/-- `forceFlush`. -/
def forceFlush (h : TerminalHandler) : Step :=
  h.flushPendingText.andThen (callSyncBuffer fun _ b => b.flush)

/-- `clearBuffer`. -/
def clearBuffer (h : TerminalHandler) : Step :=
  callSyncBuffer (fun _ b => b.clear) { h with pendingText := [] }

end

end TerminalHandler

end WindTerm

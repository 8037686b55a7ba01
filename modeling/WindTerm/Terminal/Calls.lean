import WindTerm.Terminal.InputSpec

/-!
# Calls of a terminal handler

`Call` lists the public operations of a `TerminalHandler` and of the objects
it gives out with `modeManager()`, `syncBuffer()` and `csiParser()`. `Reachable`
are the handlers that sequences of calls lead to, from a new one on; its
parameter says which calls may occur. `Resting` is the invariant of all of them
(`Reachable.resting`).
-/

namespace WindTerm

open Library CSIParser SynchronizedBuffer

namespace TerminalHandler

/-- The public operations other than `processInput`: first those of the handler,
then those of its mode manager, its sync buffer and its parser. -/
inductive Operation where
  | forceFlush
  | clearBuffer
  | isSynchronizedOutputEnabled
  | setDebugEnabled (enabled : Bool)
  | setMode (mode : TerminalMode.Mode)
  | resetMode (mode : TerminalMode.Mode)
  | toggleMode (mode : TerminalMode.Mode)
  | isEnabled (mode : TerminalMode.Mode)
  | saveModes
  | restoreModes
  | resetAllModes
  | setSynchronizedMode (enabled : Bool)
  | isSynchronized
  | write (item : BufferItem)
  | writeData (data : QByteArray)
  | flush
  | clear
  | bufferSize
  | itemCount
  | setMaxBufferSize (maxSize : Nat)
  | maxBufferSize
  | needsFlush
  | processByte (byte : UInt8)
  | processData (data : QByteArray)
  | hasCommand
  | takeCommand
  | takeAllCommands
  | reset
  | isIdle
  | state

/-- A call of a public operation. -/
inductive Call where
  | processInput (data : QByteArray)
  | operation (o : Operation)

/-- A new handler, for the results about fixed inputs. -/
def fresh : TerminalHandler := .new .newestFirst fun _ => 0

section

variable [Platform]

/-- What a call of an operation does. -/
def Operation.run : Operation → TerminalHandler → Step
  | .forceFlush, h => h.forceFlush
  | .clearBuffer, h => h.clearBuffer
  | .isSynchronizedOutputEnabled, h =>
      h.callModeManager fun m => (m, (m.isEnabled .synchronizedOutput).2)
  | .setDebugEnabled _, h => (h, [])
  | .setMode mode, h => h.setMode mode
  | .resetMode mode, h => h.resetMode mode
  | .toggleMode mode, h => h.callModeManager fun m => (m.toggleMode mode).2
  | .isEnabled mode, h => h.callModeManager fun m => (m, (m.isEnabled mode).2)
  | .saveModes, h => h.callModeManager TerminalMode.saveModes
  | .restoreModes, h => h.callModeManager TerminalMode.restoreModes
  | .resetAllModes, h => h.callModeManager TerminalMode.resetAllModes
  | .setSynchronizedMode enabled, h => h.switchBuffer enabled
  | .isSynchronized, h => h.callSyncBuffer fun _ b => (b, b.isSynchronized.2)
  | .write item, h => h.writeItem item
  | .writeData data, h => h.callSyncBuffer fun now b => (b.writeData now data).2
  | .flush, h => h.callSyncBuffer fun _ b => b.flush
  | .clear, h => h.callSyncBuffer fun _ b => b.clear
  | .bufferSize, h => h.callSyncBuffer fun _ b => (b, b.bufferSize.2)
  | .itemCount, h => h.callSyncBuffer fun _ b => (b, b.itemCount.2)
  | .setMaxBufferSize maxSize, h => h.callSyncBuffer fun _ b => b.setMaxBufferSize maxSize
  | .maxBufferSize, h => h.callSyncBuffer fun _ b => (b, [])
  | .needsFlush, h => h.callSyncBuffer fun _ b => (b, [])
  | .processByte byte, h =>
      h.deliverCSIParser (h.csiParser.processByte byte).2.1 (h.csiParser.processByte byte).2.2
  | .processData data, h => (h.parseData data).2
  | .hasCommand, h => h.deliverCSIParser h.csiParser h.csiParser.hasCommand.2
  | .takeCommand, h => h.deliverCSIParser h.csiParser.takeCommand.2.1 h.csiParser.takeCommand.2.2
  | .takeAllCommands, h =>
      h.deliverCSIParser h.csiParser.takeAllCommands.2.1 h.csiParser.takeAllCommands.2.2
  | .reset, h => h.deliverCSIParser h.csiParser.reset.1 h.csiParser.reset.2
  | .isIdle, h => h.deliverCSIParser h.csiParser h.csiParser.isIdle.2
  | .state, h => (h, [])

/-- The call returns from `h`, having done `r`. -/
def Call.Returns : Call → TerminalHandler → Step → Prop
  | .processInput data, h, r => ProcessInput data h r
  | .operation o, h, r => r = o.run h

/-- The handlers that calls of the allowed kind lead to. -/
inductive Reachable (allowed : Call → Prop) : TerminalHandler → Prop
  | new (hashOrder : TerminalMode.HashOrder) (clock : Nat → Int64) :
      Reachable allowed (.new hashOrder clock)
  | call {h : TerminalHandler} {c : Call} {r : Step} :
      Reachable allowed h → allowed c → c.Returns h r → Reachable allowed r.1

/-! ## The components between two calls -/

/-- The invariants of the mode manager and the sync buffer. -/
structure Sound (h : TerminalHandler) : Prop where
  settled : h.modeManager.Settled
  tidy : h.syncBuffer.Tidy

theorem callSyncBuffer_sound {op : Int64 → SynchronizedBuffer → SynchronizedBuffer.Step}
    (keeps : ∀ now b, b.Tidy → (op now b).1.Tidy) {h : TerminalHandler} (sound : Sound h) :
    Sound (callSyncBuffer op h).1 :=
  ⟨sound.settled, keeps _ _ sound.tidy⟩

theorem switchBuffer_sound (on : Bool) {h : TerminalHandler} (sound : Sound h) :
    Sound (switchBuffer on h).1 :=
  callSyncBuffer_sound (fun now _ tidy => tidy.setSynchronizedMode now on) sound

theorem callModeManager_sound {op : TerminalMode → TerminalMode.Step}
    (settles : ∀ m, m.Settled → (op m).1.Settled) {h : TerminalHandler} (sound : Sound h) :
    Sound (callModeManager op h).1 := by
  rw [(callModeManager_spec op h).1]
  exact feed_invariant Sound (fun on _ sound => switchBuffer_sound on sound) _
    ⟨settles _ sound.settled, sound.tidy⟩

theorem writeItem_sound (item : BufferItem) {h : TerminalHandler} (sound : Sound h) :
    Sound (writeItem item h).1 :=
  callSyncBuffer_sound (fun now _ tidy => tidy.write now item) sound

theorem flushPendingText_sound {h : TerminalHandler} (sound : Sound h) :
    Sound h.flushPendingText.1 := by
  unfold flushPendingText
  split
  · exact sound
  · have written := writeItem_sound { type := .textData, data := h.pendingText } sound
    exact ⟨written.settled, written.tidy⟩

theorem handleText_sound (text : QByteArray) {h : TerminalHandler} (sound : Sound h) :
    Sound (handleText text h).1 := by
  have pending : Sound { h with pendingText := h.pendingText ++ text } :=
    ⟨sound.settled, sound.tidy⟩
  exact flushPendingText_sound pending

theorem setMode_sound (mode : TerminalMode.Mode) {h : TerminalHandler} (sound : Sound h) :
    Sound (h.setMode mode).1 :=
  callModeManager_sound (fun m settled => (TerminalMode.setMode_announces mode m settled).1) sound

theorem resetMode_sound (mode : TerminalMode.Mode) {h : TerminalHandler} (sound : Sound h) :
    Sound (h.resetMode mode).1 :=
  callModeManager_sound (fun m settled => (TerminalMode.resetMode_announces mode m settled).1)
    sound

theorem processCommand_sound (cmd : Command) {h : TerminalHandler} (sound : Sound h) :
    Sound (processCommand cmd h).1 := by
  change Sound (executeCommand cmd h).1
  rw [executeCommand_eq]
  cases effect cmd with
  | ignore => exact sound
  | switch mode enabled =>
      cases enabled with
      | true => exact setMode_sound mode sound
      | false => exact resetMode_sound mode sound
  | draw item signal => exact writeItem_sound item (flushPendingText_sound sound)

theorem processCommands_sound (cmds : List Command) {h : TerminalHandler} (sound : Sound h) :
    Sound (processCommands cmds h).1 :=
  feed_invariant Sound (fun cmd _ sound => processCommand_sound cmd sound) cmds sound

/-! ## The invariant -/

/-- What holds of a handler between two calls: its components are in order, no
text is pending, and the commands waiting in the parser are not about
`SYNCHRONIZED_OUTPUT`. -/
structure Resting (h : TerminalHandler) : Prop where
  sound : Sound h
  text : h.pendingText = []
  between : Between h.csiParser
  ordinary : ∀ cmd ∈ h.csiParser.completedCommands, Ordinary cmd

theorem new_resting (hashOrder : TerminalMode.HashOrder) (clock : Nat → Int64) :
    Resting (.new hashOrder clock) where
  sound := ⟨TerminalMode.new_settled hashOrder, .new⟩
  text := rfl
  between := .idle []
  ordinary _ mem := (List.not_mem_nil mem).elim

/-- Running commands keeps the invariant, whatever parser is put in. -/
theorem Resting.processCommands {h : TerminalHandler} (resting : Resting h) (cmds : List Command)
    {p : CSIParser} (between : Between p) (ordinary : ∀ cmd ∈ p.completedCommands, Ordinary cmd) :
    Resting (withParser p (processCommands cmds h).1) where
  sound := by
    have sound := processCommands_sound cmds resting.sound
    exact ⟨sound.settled, sound.tidy⟩
  text := processCommands_text cmds resting.text
  between := between
  ordinary := ordinary

/-- So does a call of the parser. -/
theorem Resting.deliverCSIParser {h : TerminalHandler} (resting : Resting h) {p : CSIParser}
    (between : Between p) (ordinary : ∀ cmd ∈ p.completedCommands, Ordinary cmd)
    (events : CSIParser.Trace) : Resting (h.deliverCSIParser p events).1 := by
  have state := (feed_onCSIParserEvent events (withParser p h)).1
  rw [processCommands_oblivious] at state
  have ran := resting.processCommands (announced (acts events)) between ordinary
  dsimp only at state
  rw [← state] at ran
  exact ran

/-- Bytes read by the parser add only ordinary commands to its queue. -/
theorem Resting.feed_ordinary {h : TerminalHandler} (resting : Resting h) (data : QByteArray) :
    ∀ cmd ∈ (feed dispatch data h.csiParser).1.completedCommands, Ordinary cmd := by
  obtain ⟨cmds, read, completed, -⟩ := resting.between.reads data
  rw [completed]
  intro cmd mem
  rcases List.mem_append.mp mem with before | new
  · exact resting.ordinary cmd before
  · exact read.ordinary cmd new

theorem Resting.callSyncBuffer {h : TerminalHandler} (resting : Resting h)
    {op : Int64 → SynchronizedBuffer → SynchronizedBuffer.Step}
    (keeps : ∀ now b, b.Tidy → (op now b).1.Tidy) : Resting (callSyncBuffer op h).1 :=
  ⟨callSyncBuffer_sound keeps resting.sound, resting.text, resting.between, resting.ordinary⟩

theorem Resting.callModeManager {h : TerminalHandler} (resting : Resting h)
    {op : TerminalMode → TerminalMode.Step} (clean : ∀ m, Clean {.modeManager} (op m).2)
    (settles : ∀ m, m.Settled → (op m).1.Settled) : Resting (callModeManager op h).1 := by
  have parser := (Local.callModeManager clean).csiParser h
  refine ⟨callModeManager_sound settles resting.sound, ?_, ?_, ?_⟩
  · exact (callModeManager_text op h).trans resting.text
  · rw [parser]
    exact resting.between
  · rw [parser]
    exact resting.ordinary

theorem Resting.handleText {h : TerminalHandler} (resting : Resting h) (text : QByteArray) :
    Resting (handleText text h).1 := by
  have parser := (Local.handleText text).csiParser h
  refine ⟨handleText_sound text resting.sound, handleText_text text h, ?_, ?_⟩
  · rw [parser]
    exact resting.between
  · rw [parser]
    exact resting.ordinary

theorem Resting.parseAndDrain {h : TerminalHandler} (resting : Resting h) (data : QByteArray) :
    Resting (h.parseAndDrain data).1 := by
  obtain ⟨cmds, rest, read⟩ := Reads.total (h.csiParser.buffer ++ data)
  rw [(parseAndDrain_spec resting.between read).1]
  exact resting.processCommands _ (.idle []) fun _ mem => (List.not_mem_nil mem).elim

theorem Resting.inputEffect {h : TerminalHandler} (resting : Resting h) (data : QByteArray) :
    Resting (inputEffect data h).1 := by
  unfold TerminalHandler.inputEffect
  split
  · exact resting.handleText _
  · exact (resting.handleText _).parseAndDrain _

theorem Resting.forceFlush {h : TerminalHandler} (resting : Resting h) :
    Resting h.forceFlush.1 := by
  have nothing : h.flushPendingText = (h, []) := by
    unfold flushPendingText
    rw [if_pos resting.text]
  unfold TerminalHandler.forceFlush
  rw [nothing]
  exact resting.callSyncBuffer fun _ _ tidy => tidy.flush

theorem Operation.run_resting (o : Operation) {h : TerminalHandler} (resting : Resting h) :
    Resting (o.run h).1 := by
  cases o with
  | forceFlush => exact resting.forceFlush
  | clearBuffer =>
      have emptied : Resting { h with pendingText := [] } :=
        ⟨⟨resting.sound.settled, resting.sound.tidy⟩, rfl, resting.between, resting.ordinary⟩
      exact emptied.callSyncBuffer fun _ _ tidy => tidy.clear
  | isSynchronizedOutputEnabled =>
      exact resting.callModeManager (fun _ => .scope_nil _) fun _ settled => settled
  | setDebugEnabled enabled => exact resting
  | setMode mode =>
      exact resting.callModeManager (fun m => m.setMode_clean mode) fun m settled =>
        (TerminalMode.setMode_announces mode m settled).1
  | resetMode mode =>
      exact resting.callModeManager (fun m => m.resetMode_clean mode) fun m settled =>
        (TerminalMode.resetMode_announces mode m settled).1
  | toggleMode mode =>
      exact resting.callModeManager (fun m => m.toggleMode_clean mode) fun m settled =>
        (TerminalMode.toggleMode_announces mode m settled).1
  | isEnabled mode => exact resting.callModeManager (fun _ => .scope_nil _) fun _ settled => settled
  | saveModes => exact resting.callModeManager (fun _ => .scope_nil _) fun _ settled => settled
  | restoreModes =>
      exact resting.callModeManager (fun m => m.restoreModes_clean) fun m settled =>
        (TerminalMode.restoreModes_announces m settled).1
  | resetAllModes =>
      exact resting.callModeManager (fun m => m.resetAllModes_clean) fun m _ =>
        m.resetAllModes_silent.1
  | setSynchronizedMode enabled =>
      exact resting.callSyncBuffer fun now _ tidy => tidy.setSynchronizedMode now enabled
  | isSynchronized => exact resting.callSyncBuffer fun _ _ tidy => tidy
  | write item => exact resting.callSyncBuffer fun now _ tidy => tidy.write now item
  | writeData data => exact resting.callSyncBuffer fun now _ tidy => tidy.write now _
  | flush => exact resting.callSyncBuffer fun _ _ tidy => tidy.flush
  | clear => exact resting.callSyncBuffer fun _ _ tidy => tidy.clear
  | bufferSize => exact resting.callSyncBuffer fun _ _ tidy => tidy
  | itemCount => exact resting.callSyncBuffer fun _ _ tidy => tidy
  | setMaxBufferSize maxSize =>
      exact resting.callSyncBuffer fun _ _ tidy => tidy.setMaxBufferSize maxSize
  | maxBufferSize => exact resting.callSyncBuffer fun _ _ tidy => tidy
  | needsFlush => exact resting.callSyncBuffer fun _ _ tidy => tidy
  | processByte byte =>
      have ordinary := resting.feed_ordinary [byte]
      rw [feed_singleton] at ordinary
      exact resting.deliverCSIParser (resting.between.steps byte).between ordinary _
  | processData data =>
      have ordinary := resting.feed_ordinary data
      obtain ⟨-, state, -⟩ := resting.between.processData data
      refine resting.deliverCSIParser ?_ ?_ _
      · rw [state]
        exact .idle _
      · rw [state]
        exact ordinary
  | hasCommand => exact resting.deliverCSIParser resting.between resting.ordinary _
  | takeCommand =>
      have kept : Between h.csiParser.takeCommand.2.1 ∧
          ∀ cmd ∈ h.csiParser.takeCommand.2.1.completedCommands, Ordinary cmd := by
        unfold CSIParser.takeCommand
        split
        · exact ⟨resting.between, resting.ordinary⟩
        · rename_i cmd rest queue
          refine ⟨resting.between.withQueue rest, fun c mem => resting.ordinary c ?_⟩
          rw [queue]
          exact List.mem_cons_of_mem cmd mem
      exact resting.deliverCSIParser kept.1 kept.2 _
  | takeAllCommands =>
      exact resting.deliverCSIParser (resting.between.withQueue [])
        (fun _ mem => (List.not_mem_nil mem).elim) _
  | reset =>
      exact resting.deliverCSIParser (.idle []) (fun _ mem => (List.not_mem_nil mem).elim) _
  | isIdle => exact resting.deliverCSIParser resting.between resting.ordinary _
  | state => exact resting

/-- Every call that returns leaves the handler at rest. -/
theorem Resting.after {h : TerminalHandler} (resting : Resting h) {c : Call} {r : Step}
    (returns : c.Returns h r) : Resting r.1 := by
  cases c with
  | processInput data =>
      obtain ⟨-, rfl⟩ := (processInput_iff resting.between resting.text data r).mp returns
      exact resting.inputEffect data
  | operation o =>
      cases returns
      exact o.run_resting resting

/-- Every reachable handler is at rest. -/
theorem Reachable.resting {allowed : Call → Prop} {h : TerminalHandler}
    (reachable : Reachable allowed h) : Resting h := by
  induction reachable with
  | new hashOrder clock => exact new_resting hashOrder clock
  | call _ _ returns ih => exact ih.after returns

end

end TerminalHandler

end WindTerm

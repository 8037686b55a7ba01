import WindTerm.Terminal.HandlerSpec

/-!
# What texts and commands write and show

A text, and a command that draws, makes one entry: an item for the sync buffer
and the handler's own signal, if there is one. `handleItems_handled` splits what a
list of texts and commands does: its entries are written one after the other,
and apart from that the modes are switched. `writeEntries_steady` says what
writing entries shows and leaves in the sync buffer, in normal mode and, within
its limits, in synchronised mode.
-/

namespace WindTerm

open Library CSIParser SynchronizedBuffer

namespace TerminalHandler

/-- What a handler is given: text, or a command. -/
inductive Item where
  | text (t : QByteArray)
  | command (cmd : Command)

/-! ## What commands draw and switch -/

/-- What a command draws: the cursor is moved, the display or the line erased, or
the attributes changed. -/
inductive Stroke where
  | move (row column : Int)
  | eraseDisplay (mode : Int)
  | eraseLine (mode : Int)
  | attributes (params : List Int)
  deriving DecidableEq, Repr

/-- The item written for a stroke. -/
def Stroke.item : Stroke → BufferItem
  | .move row column => { type := .cursorMove, param1 := row, param2 := column }
  | .eraseDisplay mode => { type := .clearScreen, param1 := mode }
  | .eraseLine mode => { type := .resize, param1 := mode }
  | .attributes params => { type := .attributeChange, data := serialize params }

/-- The handler's own signal for a stroke. -/
def Stroke.signal : Stroke → Signal
  | .move row column => .cursorPositionChanged row column
  | .eraseDisplay mode => .clearScreenRequested mode
  | .eraseLine mode => .clearScreenRequested mode
  | .attributes params => .attributeChanged params

/-- The strokes of the commands. Moves are by a number of rows or columns; rows
and columns of a target are counted from 1. -/
def stroke (cmd : Command) : Option Stroke :=
  let n := cmd.params.head?.getD 1
  match cmd.type with
  | .cursorUp | .cursorPrevLine => some (.move (int32 (-n)) 0)
  | .cursorDown | .cursorNextLine => some (.move n 0)
  | .cursorForward => some (.move 0 n)
  | .cursorBackward => some (.move 0 (int32 (-n)))
  | .cursorHorizontal => some (.move 0 (int32 (n - 1)))
  | .cursorPosition | .horizontalPos =>
      some (.move (max (cmd.params[0]?.getD 1 - 1) 0) (max (cmd.params[1]?.getD 1 - 1) 0))
  | .eraseDisplay => some (.eraseDisplay (cmd.params.head?.getD 0))
  | .eraseLine => some (.eraseLine (cmd.params.head?.getD 0))
  | .selectGraphic => some (.attributes cmd.params)
  | _ => none

/-- The modes with a number. -/
def numberedModes : List (Int × TerminalMode.Mode) :=
  [(25, .showCursor), (1047, .alternateScreen), (1049, .alternateScreenNoClear),
    (2004, .bracketedPaste)]

/-- The mode a command switches, on or off. -/
def switched (cmd : Command) : Option (TerminalMode.Mode × Bool) :=
  let mode := cmd.params.head?.bind fun n => numberedModes.lookup n
  match cmd.type with
  | .decset | .decsetPrivate => mode.map fun m => (m, true)
  | .decrst | .decrstPrivate => mode.map fun m => (m, false)
  | _ => none

theorem Stroke.isScreen (s : Stroke) : isScreen s.signal = true := by
  cases s <;> rfl

theorem Stroke.notText (s : Stroke) : s.item.type ≠ .textData := by
  cases s <;> simp [Stroke.item]

/-- A stroke is determined by the type of its item and its signal. -/
theorem Stroke.ext {s s' : Stroke} (type : s.item.type = s'.item.type)
    (signal : s.signal = s'.signal) : s = s' := by
  cases s <;> cases s' <;> simp_all [Stroke.item, Stroke.signal]

theorem decMode_eq (mode : Int) : decMode mode = numberedModes.lookup mode := by
  rcases Decidable.em (mode = 25) with rfl | other
  · rfl
  rcases Decidable.em (mode = 1047) with rfl | other'
  · rfl
  rcases Decidable.em (mode = 1049) with rfl | other''
  · rfl
  rcases Decidable.em (mode = 2004) with rfl | other'''
  · rfl
  have differs {n : Int} (ne : ¬ mode = n) : (mode == n) = false := beq_false_of_ne ne
  simp [decMode, numberedModes, List.lookup_cons, *]

theorem switched_of_stroke {cmd : Command} {s : Stroke} (drawn : stroke cmd = some s) :
    switched cmd = none := by
  rcases cmd with ⟨type, params, intermediate, finalChar, isPrivate⟩
  cases type <;> first | rfl | cases drawn

/-- The effect of an ordinary command. -/
theorem effect_eq {cmd : Command} (ordinary : Ordinary cmd) :
    effect cmd =
      match stroke cmd with
      | some s => .draw s.item s.signal
      | none =>
          match switched cmd with
          | some (mode, on) => .switch mode on
          | none => .ignore := by
  rcases cmd with ⟨type, params, intermediate, finalChar, isPrivate⟩
  have switches (mode : Int) (on : Bool) : switchEffect mode on =
      match (numberedModes.lookup mode).map fun m => (m, on) with
      | some (mode, on) => .switch mode on
      | none => .ignore := by
    unfold switchEffect
    rw [decMode_eq]
    cases numberedModes.lookup mode <;> rfl
  have target (n : Int) : (if 0 < n then n - 1 else 0) = max (n - 1) 0 := by omega
  cases type
  case decset | decrst =>
      cases params with
      | nil => rfl
      | cons mode _ => exact switches mode _
  case decsetPrivate =>
      cases params with
      | nil => rfl
      | cons mode rest =>
          have other := ordinary true
          simp only [effect, privateEffect] at other ⊢
          cases sync : isSynchronizedOutputCommand
              ⟨.decsetPrivate, mode :: rest, intermediate, finalChar, isPrivate⟩ with
          | none => exact switches mode true
          | some on =>
              cases on with
              | true => simp [sync] at other
              | false => simp [isSynchronizedOutputCommand] at sync
  case decrstPrivate =>
      cases params with
      | nil => rfl
      | cons mode rest =>
          have other := ordinary false
          simp only [effect, privateEffect] at other ⊢
          cases sync : isSynchronizedOutputCommand
              ⟨.decrstPrivate, mode :: rest, intermediate, finalChar, isPrivate⟩ with
          | none => exact switches mode false
          | some on =>
              cases on with
              | true => simp [isSynchronizedOutputCommand] at sync
              | false => simp [sync] at other
  case cursorPosition | horizontalPos =>
      unfold effect cursorTarget
      dsimp only
      rw [target, target]
      rfl
  all_goals rfl

/-! ## Entries -/

/-- What a text or a drawing command makes. -/
inductive Entry where
  | text (t : QByteArray)
  | drawing (s : Stroke)

/-- The item a text is written as. -/
def textItem (t : QByteArray) : BufferItem := { type := .textData, data := t }

/-- The item written. -/
def Entry.item : Entry → BufferItem
  | .text t => textItem t
  | .drawing s => s.item

/-- The handler's own signal. -/
def Entry.signals : Entry → List Signal
  | .text _ => []
  | .drawing s => [s.signal]

/-- The entries a text makes. -/
def textEntries (t : QByteArray) : List Entry := if t = [] then [] else [.text t]

def Item.entries : Item → List Entry
  | .text t => textEntries t
  | .command cmd => (stroke cmd).toList.map .drawing

/-- The entries a list of texts and commands makes. -/
def entries (items : List Item) : List Entry := items.flatMap Item.entries

/-- The text of an entry that is text. -/
def Entry.text? : Entry → Option QByteArray
  | .text t => some t
  | .drawing _ => none

/-- What commands draw. -/
def strokes (cmds : List Command) : List Stroke := cmds.filterMap stroke

/-- The entries of commands are what they draw; none of them is text. -/
theorem entries_commands (cmds : List Command) :
    entries (cmds.map .command) = (strokes cmds).map .drawing := by
  induction cmds with
  | nil => rfl
  | cons cmd cmds ih =>
      change (stroke cmd).toList.map Entry.drawing ++ entries (cmds.map .command) = _
      rw [ih, ← List.map_append]
      unfold strokes
      rw [List.filterMap_cons]
      cases stroke cmd <;> rfl

/-! ## Modes -/

/-- What switching a mode does to the enabled modes. -/
def switchIn (modes : Finset TerminalMode.Mode) : Option (TerminalMode.Mode × Bool) →
    Finset TerminalMode.Mode
  | some (mode, true) => insert mode modes
  | some (mode, false) => modes.erase mode
  | none => modes

def Item.modes : Item → Finset TerminalMode.Mode → Finset TerminalMode.Mode
  | .text _, modes => modes
  | .command cmd, modes => switchIn modes (switched cmd)

/-- The enabled modes after a list of texts and commands. -/
def modesAfter (items : List Item) (modes : Finset TerminalMode.Mode) :
    Finset TerminalMode.Mode :=
  items.foldl (fun modes item => item.modes modes) modes

/-! ## Writing -/

/-- What the handler puts on the screen when the sync buffer emits a signal. -/
def delivered : SynchronizedBuffer.Signal → List Signal
  | .dataReady items => items.map fun item => .renderData item.data item.type
  | _ => []

theorem screen_callSyncBuffer (op : Int64 → SynchronizedBuffer → SynchronizedBuffer.Step)
    (h : TerminalHandler) :
    view screen? (callSyncBuffer op h).2 =
      (acts (op (h.clock 0) h.syncBuffer).2).flatMap delivered := by
  unfold callSyncBuffer
  dsimp only
  generalize (op (h.clock 0) h.syncBuffer).2 = events
  induction events with
  | nil => rfl
  | cons e events ih =>
      rw [List.flatMap_cons, view_append, ih]
      cases e with
      | lock m => rfl
      | unlock m => rfl
      | act s =>
          have here : view screen? (onSyncBufferEvent (.act s)) = delivered s := by
            cases s with
            | dataReady items =>
                change view screen? (.act (.emit (.syncBuffer _)) :: onSyncDataReady items) = _
                rw [view_act]
                change view screen? (onSyncDataReady items) = _
                unfold onSyncDataReady delivered
                induction items with
                | nil => rfl
                | cons item items ih => rw [List.map_cons, view_act, ih]; rfl
            | synchronizedModeChanged on => rfl
            | bufferOverflow => rfl
          rw [here, acts_act, List.flatMap_cons]

/-- The handler with another mode manager. -/
def withModes (m : TerminalMode) (h : TerminalHandler) : TerminalHandler :=
  { h with modeManager := m }

section

variable [Platform]

/-- Handle an item. -/
def handleItem : Item → TerminalHandler → Step
  | .text t => handleText t
  | .command cmd => processCommand cmd

/-- Handle a list of items, first to last. -/
def handleItems : List Item → TerminalHandler → Step := feed handleItem

/-- Write an entry and emit its signal. -/
def writeEntry (e : Entry) (h : TerminalHandler) : Step :=
  (writeItem e.item h).andThen fun h => (h, e.signals.map fun signal => .act (.emit signal))

/-- Write a list of entries, first to last. -/
def writeEntries : List Entry → TerminalHandler → Step := feed writeEntry

/-- Writing does not look at the modes. -/
theorem writeEntries_withModes (es : List Entry) (m : TerminalMode) :
    Commutes (withModes m) (writeEntries es) :=
  Commutes.feed (fun _ _ => rfl) es

theorem writeEntries_text (es : List Entry) (h : TerminalHandler) :
    (writeEntries es h).1.pendingText = h.pendingText :=
  Library.feed_invariant (fun h' : TerminalHandler => h'.pendingText = h.pendingText)
    (fun _ _ kept => kept) es rfl

/-! ## Handling -/

/-- The step writes the entries and, apart from that, only leads to `modes`. -/
structure Handled (h : TerminalHandler) (es : List Entry) (modes : Finset TerminalMode.Mode)
    (r : Step) : Prop where
  settled : r.1.modeManager.Settled
  modes : r.1.modeManager.enabledModes = modes
  state : r.1 = withModes r.1.modeManager (writeEntries es h).1
  screen : view screen? r.2 = view screen? (writeEntries es h).2

theorem handleText_handled {h : TerminalHandler} (text : h.pendingText = [])
    (settled : h.modeManager.Settled) (t : QByteArray) :
    Handled h (textEntries t) h.modeManager.enabledModes (handleText t h) := by
  by_cases empty : t = []
  · subst empty
    rw [handleText_nil text]
    exact ⟨settled, rfl, rfl, rfl⟩
  · rcases h with ⟨m, b, p, pending, clock⟩
    subst text
    unfold textEntries handleText flushPendingText
    simp only [List.nil_append, empty, if_false]
    refine ⟨settled, rfl, rfl, ?_⟩
    simp only [writeEntries, feed_singleton, writeEntry, Traced.andThen_snd, Entry.signals,
      List.map_nil, List.append_nil]
    rfl

/-- Switching another mode than `SYNCHRONIZED_OUTPUT` writes nothing. -/
theorem callModeManager_quiet {h : TerminalHandler} (settled : h.modeManager.Settled)
    {op : TerminalMode → TerminalMode.Step} (announces : TerminalMode.Announces op)
    (same : (op h.modeManager).1.syncEnabled = h.modeManager.syncEnabled) :
    Handled h [] (op h.modeManager).1.enabledModes (callModeManager op h) := by
  rcases announces h.modeManager settled with ⟨settled', changes⟩
  rw [if_pos same] at changes
  rcases callModeManager_spec op h with ⟨state, seen⟩
  rw [changes, feed_nil] at state seen
  refine ⟨?_, ?_, ?_, seen screen_blind⟩
  all_goals rw [state]
  · exact settled'
  · rfl

theorem processCommand_handled {h : TerminalHandler} (text : h.pendingText = [])
    (settled : h.modeManager.Settled) {cmd : Command} (ordinary : Ordinary cmd) :
    Handled h ((stroke cmd).toList.map .drawing)
      (switchIn h.modeManager.enabledModes (switched cmd)) (processCommand cmd h) := by
  suffices executed : Handled h ((stroke cmd).toList.map .drawing)
      (switchIn h.modeManager.enabledModes (switched cmd)) ((effect cmd).run h) by
    rw [← executeCommand_eq] at executed
    exact ⟨executed.settled, executed.modes, executed.state, executed.screen⟩
  have known := effect_eq ordinary
  cases drawn : stroke cmd with
  | some s =>
      simp only [drawn] at known
      have nothing : h.flushPendingText = (h, []) := by
        unfold flushPendingText
        rw [if_pos text]
      have written : (effect cmd).run h = writeEntry (.drawing s) h := by
        rw [known]
        change drawItem s.item s.signal h = _
        unfold drawItem writeEntry
        rw [nothing]
        rfl
      have still : switched cmd = none := switched_of_stroke drawn
      rw [written, still]
      refine ⟨settled, rfl, ?_, ?_⟩
      · rw [Option.toList_some, List.map_singleton, writeEntries, feed_singleton]
        rfl
      · rw [Option.toList_some, List.map_singleton, writeEntries, feed_singleton]
  | none =>
      simp only [drawn] at known
      cases switches : switched cmd with
      | none =>
          simp only [switches] at known
          rw [known]
          exact ⟨settled, rfl, rfl, rfl⟩
      | some change =>
          rcases change with ⟨mode, on⟩
          simp only [switches] at known
          have other : mode ≠ .synchronizedOutput := by
            intro sync
            exact ordinary on (sync ▸ known)
          rw [known]
          rcases TerminalMode.syncEnabled_switch other h.modeManager with ⟨setSame, resetSame⟩
          cases on with
          | true =>
              have handled :=
                callModeManager_quiet settled (TerminalMode.setMode_announces mode) setSame
              rw [TerminalMode.setMode_enabledModes] at handled
              exact handled
          | false =>
              have handled :=
                callModeManager_quiet settled (TerminalMode.resetMode_announces mode) resetSame
              rw [TerminalMode.resetMode_enabledModes] at handled
              exact handled

/-- **Handling.** A list of texts and ordinary commands writes its entries in
order and switches the modes. -/
theorem handleItems_handled {items : List Item} {h : TerminalHandler} (text : h.pendingText = [])
    (settled : h.modeManager.Settled)
    (ordinary : ∀ cmd, Item.command cmd ∈ items → Ordinary cmd) :
    Handled h (entries items) (modesAfter items h.modeManager.enabledModes)
      (handleItems items h) := by
  induction items generalizing h with
  | nil => exact ⟨settled, rfl, rfl, rfl⟩
  | cons item items ih =>
      have first : Handled h item.entries (item.modes h.modeManager.enabledModes)
          (handleItem item h) := by
        cases item with
        | text t => exact handleText_handled text settled t
        | command cmd =>
            exact processCommand_handled text settled (ordinary cmd List.mem_cons_self)
      have text' : (handleItem item h).1.pendingText = [] := by
        rw [first.state]
        exact (writeEntries_text _ h).trans text
      have rest := ih text' first.settled fun cmd mem =>
        ordinary cmd (List.mem_cons_of_mem item mem)
      -- the modes the first item leaves can be put in before or after the rest is written
      have moved := writeEntries_withModes (entries items) (handleItem item h).1.modeManager
        (writeEntries item.entries h).1
      rw [← first.state] at moved
      have split : writeEntries (entries (item :: items)) h =
          (writeEntries item.entries h).andThen (writeEntries (entries items)) :=
        feed_append item.entries (entries items) h
      have state := rest.state
      have screen := rest.screen
      rw [moved] at state screen
      refine ⟨rest.settled, ?_, ?_, ?_⟩
      · have modes := rest.modes
        rw [first.modes] at modes
        exact modes
      · rw [split]
        exact state
      · rw [split]
        change view screen? ((handleItem item h).2 ++
          (handleItems items (handleItem item h).1).2) = _
        rw [Traced.andThen_snd, view_append, view_append, first.screen, screen]

/-! ## Within the limits -/

/-- What is shown of an entry that is written: the item, unless it is kept, and
the signal. -/
def shown (on : Bool) (es : List Entry) : List Signal :=
  es.flatMap fun e => (if on then [] else [.renderData e.item.data e.item.type]) ++ e.signals

/-- What is kept in the sync buffer. -/
def kept (on : Bool) (es : List Entry) : List BufferItem := if on then es.map Entry.item else []

/-- The handler is in normal mode, or the items can be written within the limits
of size and time. -/
def Steady (items : List BufferItem) (h : TerminalHandler) : Prop :=
  h.syncBuffer.synchronizedMode = true →
    h.syncBuffer.currentSize + (items.map itemSize).sum < h.syncBuffer.maxBufferSize ∧
      ∀ n < items.length, InTime (h.clock n) h.syncBuffer

theorem writeItem_steady {item : BufferItem} {items : List BufferItem} {h : TerminalHandler}
    (steady : Steady (item :: items) h) :
    let on := h.syncBuffer.synchronizedMode
    let r := writeItem item h
    view screen? r.2 = (if on then [] else [.renderData item.data item.type]) ∧
      r.1.syncBuffer.buffer = h.syncBuffer.buffer ++ (if on then [item] else []) ∧
      r.1.syncBuffer.synchronizedMode = on ∧ Steady items r.1 := by
  dsimp only
  rw [writeItem, screen_callSyncBuffer]
  cases sync : h.syncBuffer.synchronizedMode with
  | false =>
      have written := write_normal sync (h.clock 0) item
      unfold callSyncBuffer
      simp only [written]
      refine ⟨rfl, (List.append_nil _).symm, sync, fun on => ?_⟩
      cases sync.symm.trans on
  | true =>
      rcases steady sync with ⟨room, times⟩
      rw [List.map_cons, List.sum_cons] at room
      have fits : Fits item h.syncBuffer := by
        unfold Fits
        omega
      have written := write_within sync fits (times 0 (Nat.zero_lt_succ _))
      unfold callSyncBuffer
      simp only [written]
      refine ⟨rfl, rfl, sync, fun _ => ⟨?_, fun n below => ?_⟩⟩
      · dsimp only [keep]
        omega
      · exact times (n + 1) (Nat.succ_lt_succ below)

omit [Platform] in
/-- An entry shows its own signal. -/
theorem Entry.view_signals (e : Entry) :
    view screen? (e.signals.map fun signal => (.act (.emit signal) : Event Mutex Act)) =
      e.signals := by
  cases e with
  | text t => rfl
  | drawing s =>
      change view screen? [.act (.emit s.signal)] = [s.signal]
      rw [view_act, screen?, if_pos s.isScreen]
      rfl

/-- **Writing.** Within the limits every entry is shown in normal mode; in
synchronised mode its item is kept and only its signal is shown. -/
theorem writeEntries_steady {es : List Entry}
    {h : TerminalHandler} (steady : Steady (es.map Entry.item) h) :
    view screen? (writeEntries es h).2 = shown h.syncBuffer.synchronizedMode es ∧
      (writeEntries es h).1.syncBuffer.buffer =
        h.syncBuffer.buffer ++ kept h.syncBuffer.synchronizedMode es := by
  induction es generalizing h with
  | nil =>
      refine ⟨rfl, ?_⟩
      unfold kept
      cases h.syncBuffer.synchronizedMode with
      | false => exact (List.append_nil _).symm
      | true => exact (List.append_nil _).symm
  | cons e es ih =>
      rcases writeItem_steady steady with ⟨seen, buffer, same, steady'⟩
      have rest := ih steady'
      rw [same, buffer] at rest
      refine ⟨?_, ?_⟩
      · change view screen? ((writeItem e.item h).2 ++ e.signals.map _ ++
          (writeEntries es (writeItem e.item h).1).2) = _
        rw [view_append, view_append, seen, e.view_signals, rest.1]
        rfl
      · change (writeEntries es (writeItem e.item h).1).1.syncBuffer.buffer = _
        rw [rest.2, List.append_assoc]
        unfold kept
        cases h.syncBuffer.synchronizedMode with
        | false => rfl
        | true => rfl

end

end TerminalHandler

end WindTerm

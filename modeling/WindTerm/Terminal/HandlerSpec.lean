import WindTerm.Terminal.BufferSpec
import WindTerm.Terminal.CommandEffect
import WindTerm.Terminal.ModeSpec

/-!
# What a command does to a handler

Three facts hold of every effect (`Local`): it neither looks at the parser nor
changes it, it emits no signal of the parser, and it takes only the mutexes of
the mode manager and the sync buffer, each while free. A call of an operation
of the mode manager does to the handler what the announced changes of
`SYNCHRONIZED_OUTPUT` do (`callModeManager_spec`).
-/

namespace WindTerm

open Library CSIParser SynchronizedBuffer

namespace TerminalHandler

/-! ## What every effect respects -/

/-- Put the parser `p` in. -/
def withParser (p : CSIParser) (h : TerminalHandler) : TerminalHandler := { h with csiParser := p }

/-- What can be seen of an effect: signals, none of them the parser's. -/
def Internal : Act → Prop
  | .emit (.csiParser _) => False
  | .emit _ => True
  | .processCommand _ => False

/-- The step leaves the parser alone, emits none of its signals, and takes only
mutexes of `locks`, each while free. -/
structure Local (locks : Set Mutex) (f : TerminalHandler → Step) : Prop where
  parser : ∀ p, Commutes (withParser p) f
  internal : ∀ h a, Event.act a ∈ (f h).2 → Internal a
  clean : ∀ h, Clean locks (f h).2

variable {locks : Set Mutex}

theorem Local.csiParser {f : TerminalHandler → Step} (isLocal : Local locks f)
    (h : TerminalHandler) : (f h).1.csiParser = h.csiParser :=
  congrArg (fun r : Step => r.1.csiParser) (isLocal.parser h.csiParser h)

theorem Local.view {β : Type} {π : Act → Option β} {f : TerminalHandler → Step}
    (isLocal : Local locks f) (ignores : ∀ a, Internal a → π a = none) (h : TerminalHandler) :
    view π (f h).2 = [] :=
  view_eq_nil fun a mem => ignores a (isLocal.internal h a mem)

theorem Local.mono {locks' : Set Mutex} {f : TerminalHandler → Step} (isLocal : Local locks f)
    (sub : locks ⊆ locks') : Local locks' f :=
  ⟨isLocal.parser, isLocal.internal, fun h => (isLocal.clean h).mono sub⟩

theorem Local.silent {g : TerminalHandler → TerminalHandler}
    (parser : ∀ p h, g (withParser p h) = withParser p (g h)) :
    Local locks fun h => (g h, []) where
  parser p h := by
    dsimp only
    rw [parser]
  internal _ _ mem := (List.not_mem_nil mem).elim
  clean _ := .nil _

theorem Local.emit {s : Signal} (internal : Internal (.emit s)) : Local locks (emit s) where
  parser _ _ := rfl
  internal _ a mem := by
    rw [TerminalHandler.emit, List.mem_singleton] at mem
    cases mem
    exact internal
  clean _ := (Clean.nil _).act _

theorem Local.andThen {first next : TerminalHandler → Step} (left : Local locks first)
    (right : Local locks next) : Local locks fun h => (first h).andThen next where
  parser p := (left.parser p).andThen (right.parser p)
  internal h a mem := by
    rcases List.mem_append.mp mem with before | after
    · exact left.internal h a before
    · exact right.internal _ a after
  clean h := (left.clean h).append (right.clean _)

/-! ## The components -/

theorem Local.callSyncBuffer {op : Int64 → SynchronizedBuffer → SynchronizedBuffer.Step}
    (clean : ∀ now b, Clean {.syncBuffer} (op now b).2) :
    Local {.syncBuffer} (callSyncBuffer op) where
  parser _ _ := rfl
  internal h a mem := by
    obtain ⟨e, -, inside⟩ := List.mem_flatMap.mp mem
    cases e with
    | lock m => simp [onSyncBufferEvent] at inside
    | unlock m => simp [onSyncBufferEvent] at inside
    | act s =>
        cases s with
        | dataReady items =>
            simp only [onSyncBufferEvent, onSyncBufferSignal, onSyncDataReady, List.mem_cons,
              Event.act.injEq, List.mem_map] at inside
            rcases inside with rfl | ⟨item, -, rfl⟩
            · trivial
            · trivial
        | synchronizedModeChanged on =>
            simp only [onSyncBufferEvent, onSyncBufferSignal, List.mem_singleton,
              Event.act.injEq] at inside
            subst inside
            trivial
        | bufferOverflow =>
            simp only [onSyncBufferEvent, onSyncBufferSignal, List.mem_singleton,
              Event.act.injEq] at inside
            subst inside
            trivial
  clean h := by
    refine (clean (h.clock 0) h.syncBuffer).flatMap_answer (fun _ => rfl) (fun _ => rfl) ?_
    intro s
    cases s with
    | dataReady items =>
        have visible : onSyncDataReady items =
            (items.map fun item => Act.emit (.renderData item.data item.type)).map .act := by
          rw [List.map_map]
          rfl
        rw [onSyncBufferEvent, onSyncBufferSignal, visible]
        exact (Clean.map_act _ _).act _
    | synchronizedModeChanged on => exact (Clean.nil _).act _
    | bufferOverflow => exact (Clean.nil _).act _

/-- Switch the sync buffer. -/
def switchBuffer (on : Bool) : TerminalHandler → Step :=
  callSyncBuffer fun now b => (b.setSynchronizedMode now on).2

theorem Local.switchBuffer (on : Bool) : Local {.syncBuffer} (switchBuffer on) :=
  .callSyncBuffer fun now b => setSynchronizedMode_clean now on b

/-- What the handler does when the mode manager emits a signal. -/
theorem Local.onModeManagerSignal (s : TerminalMode.Signal) :
    Local {.syncBuffer} (onModeManagerEvent (.act s)) := by
  have emitted : Local {.syncBuffer} (TerminalHandler.emit (.modeManager s)) := .emit trivial
  refine emitted.andThen ?_
  cases s with
  | modeChanged mode enabled =>
      change Local {.syncBuffer} (onModeChanged mode enabled)
      unfold onModeChanged
      by_cases sync : mode = .synchronizedOutput
      · simp only [sync, if_true]
        exact .switchBuffer enabled
      · simp only [sync, if_false]
        exact .silent fun _ _ => rfl
  | synchronizedOutputChanged enabled => exact .emit trivial
  | flushRequested => exact .silent fun _ _ => rfl

theorem Local.callModeManager {op : TerminalMode → TerminalMode.Step}
    (clean : ∀ m, Clean {.modeManager} (op m).2) :
    Local {.modeManager, .syncBuffer} (callModeManager op) where
  parser p := by
    have each (e : Event Mutex TerminalMode.Signal) :
        Commutes (withParser p) (onModeManagerEvent e) := by
      cases e with
      | lock m => exact fun _ => rfl
      | unlock m => exact fun _ => rfl
      | act s => exact (Local.onModeManagerSignal s).parser p
    exact fun h =>
      Commutes.feed each (op h.modeManager).2 { h with modeManager := (op h.modeManager).1 }
  internal h a mem := by
    have visible : ∀ e ∈ (TerminalHandler.callModeManager op h).2,
        ∀ a, e = Event.act a → Internal a := by
      apply feed_forall_trace
      intro e _ s e' mem a same
      subst same
      cases e with
      | lock m => simp [onModeManagerEvent] at mem
      | unlock m => simp [onModeManagerEvent] at mem
      | act signal => exact (Local.onModeManagerSignal signal).internal s a mem
    exact visible _ mem a rfl
  clean h := by
    intro held unheld
    have apart : ∀ k, Event.lock k ∈ (op h.modeManager).2 → k ∉ ({.syncBuffer} : Set Mutex) := by
      intro k mem sync
      have own := (clean h.modeManager).owns mem
      cases own.symm.trans sync
    have copied : (GetsPast held (TerminalHandler.callModeManager op h).2 ↔
          GetsPast held (op h.modeManager).2) ∧
        heldAfter held (TerminalHandler.callModeManager op h).2 =
          heldAfter held (op h.modeManager).2 :=
      feed_locks (fun _ _ => rfl) (fun _ _ => rfl)
        (fun s h => (Local.onModeManagerSignal s).clean h) apart
        (fun m mem => unheld m (Or.inr mem)) _
    obtain ⟨past, same⟩ := clean h.modeManager held fun m mem => unheld m (Or.inl mem)
    exact ⟨copied.1.mpr past, copied.2.trans same⟩

/-- An observer that does not see the signals of the mode manager, nor the one
the handler repeats. -/
structure Blind {β : Type} (π : Act → Option β) : Prop where
  modeManager : ∀ s, π (.emit (.modeManager s)) = none
  repeated : ∀ on, π (.emit (.synchronizedOutputChanged on)) = none

theorem onModeManagerSignal_spec (s : TerminalMode.Signal) (h : TerminalHandler) :
    let switched := Library.feed switchBuffer (TerminalMode.syncChanges [s]) h
    (onModeManagerEvent (.act s) h).1 = switched.1 ∧
      ∀ {β : Type} {π : Act → Option β}, Blind π →
        Library.view π (onModeManagerEvent (.act s) h).2 = Library.view π switched.2 := by
  have signalled {β : Type} {π : Act → Option β} (blind : Blind π) (rest : List (Event Mutex Act)) :
      Library.view π (.act (.emit (.modeManager s)) :: rest) = Library.view π rest := by
    rw [view_act, blind.modeManager]
    rfl
  cases s with
  | modeChanged mode enabled =>
      by_cases sync : mode = .synchronizedOutput
      · subst sync
        have announced : TerminalMode.syncChanges [.modeChanged .synchronizedOutput enabled] =
            [enabled] := rfl
        rw [announced, feed_singleton]
        exact ⟨rfl, fun blind => signalled blind _⟩
      · have unheard : onModeManagerSignal (.modeChanged mode enabled) h = (h, []) := by
          simp [onModeManagerSignal, onModeChanged, sync]
        have unchanged : TerminalMode.syncChanges [.modeChanged mode enabled] = [] := by
          simp [TerminalMode.syncChanges, sync]
        rw [unchanged]
        simp only [onModeManagerEvent, TerminalHandler.emit, Traced.andThen, unheard]
        exact ⟨rfl, fun blind => signalled blind _⟩
  | synchronizedOutputChanged on =>
      refine ⟨rfl, fun {β π} blind => (signalled blind _).trans ?_⟩
      change Library.view π [.act (.emit (.synchronizedOutputChanged on))] = []
      rw [view_act, blind.repeated]
      rfl
  | flushRequested => exact ⟨rfl, fun blind => signalled blind _⟩

/-- A call of the mode manager does to the handler what switching the sync
buffer for every announced change does. -/
theorem callModeManager_spec (op : TerminalMode → TerminalMode.Step) (h : TerminalHandler) :
    let switched := Library.feed switchBuffer (TerminalMode.syncChanges (acts (op h.modeManager).2))
      { h with modeManager := (op h.modeManager).1 }
    (callModeManager op h).1 = switched.1 ∧
      ∀ {β : Type} {π : Act → Option β}, Blind π →
        Library.view π (callModeManager op h).2 = Library.view π switched.2 := by
  unfold callModeManager
  dsimp only
  generalize { h with modeManager := (op h.modeManager).1 } = h'
  generalize (op h.modeManager).2 = events
  induction events generalizing h' with
  | nil => exact ⟨rfl, fun _ => rfl⟩
  | cons e events ih =>
      cases e with
      | lock m => exact ih h'
      | unlock m => exact ih h'
      | act s =>
          obtain ⟨state, seen⟩ := onModeManagerSignal_spec s h'
          obtain ⟨state', seen'⟩ := ih (onModeManagerEvent (.act s) h').1
          have changes : TerminalMode.syncChanges (acts (.act s :: events)) =
              TerminalMode.syncChanges [s] ++ TerminalMode.syncChanges (acts events) :=
            TerminalMode.syncChanges_append [s] (acts events)
          rw [changes, feed_append, feed_cons, Traced.andThen_fst, Traced.andThen_fst, ← state]
          refine ⟨state', fun blind => ?_⟩
          rw [Traced.andThen_snd, Traced.andThen_snd, view_append, view_append, seen blind,
            seen' blind, state]

/-! ## Commands -/

theorem Local.setMode (mode : TerminalMode.Mode) :
    Local {.modeManager, .syncBuffer} (setMode mode) :=
  .callModeManager fun m => m.setMode_clean mode

theorem Local.resetMode (mode : TerminalMode.Mode) :
    Local {.modeManager, .syncBuffer} (resetMode mode) :=
  .callModeManager fun m => m.resetMode_clean mode

theorem internal_of_isScreen {s : Signal} (screen : isScreen s = true) : Internal (.emit s) := by
  cases s <;> trivial

/-- The invocations of `processCommand`. -/
def invoked? : Act → Option Command
  | .processCommand cmd => some cmd
  | _ => none

/-- The commands the parser completes. -/
def completed? : Act → Option Command
  | .emit (.csiParser (.commandParsed cmd)) => some cmd
  | _ => none

/-- What is put on the screen. -/
def screen? : Act → Option Signal
  | .emit s => if isScreen s then some s else none
  | _ => none

theorem screen_blind : Blind screen? := ⟨fun _ => rfl, fun _ => rfl⟩

theorem invoked_internal {a : Act} (internal : Internal a) : invoked? a = none := by
  cases a with
  | emit s => rfl
  | processCommand cmd => exact internal.elim

theorem completed_internal {a : Act} (internal : Internal a) : completed? a = none := by
  cases a with
  | emit s => cases s <;> first | rfl | exact internal.elim
  | processCommand cmd => rfl

theorem callModeManager_text (op : TerminalMode → TerminalMode.Step) (h : TerminalHandler) :
    (callModeManager op h).1.pendingText = h.pendingText := by
  rw [(callModeManager_spec op h).1]
  exact Library.feed_invariant (fun h' : TerminalHandler => h'.pendingText = h.pendingText)
    (fun _ _ kept => kept) _ rfl

section

variable [Platform]

theorem Local.writeItem (item : BufferItem) : Local {.syncBuffer} (writeItem item) :=
  .callSyncBuffer fun now b => write_clean now item b

theorem Local.flushPendingText : Local {.syncBuffer} flushPendingText where
  parser p h := by
    unfold TerminalHandler.flushPendingText
    by_cases empty : h.pendingText = []
    · rw [if_pos (show (withParser p h).pendingText = [] from empty), if_pos empty]
    · rw [if_neg (show ¬ (withParser p h).pendingText = [] from empty), if_neg empty]
      rfl
  internal h a mem := by
    unfold TerminalHandler.flushPendingText at mem
    split at mem
    · exact (List.not_mem_nil mem).elim
    · rw [Traced.andThen_snd, List.append_nil] at mem
      exact (Local.writeItem _).internal h a mem
  clean h := by
    unfold TerminalHandler.flushPendingText
    split
    · exact .nil _
    · exact ((Local.writeItem _).clean h).append (.nil _)

theorem Local.handleText (text : QByteArray) : Local {.syncBuffer} (handleText text) where
  parser p h := Local.flushPendingText.parser p { h with pendingText := h.pendingText ++ text }
  internal _ := Local.flushPendingText.internal _
  clean _ := Local.flushPendingText.clean _

theorem Local.drawItem {item : BufferItem} {signal : Signal} (internal : Internal (.emit signal)) :
    Local {.syncBuffer} (drawItem item signal) :=
  (Local.flushPendingText.andThen (.writeItem item)).andThen (.emit internal)

theorem Local.executeCommand (cmd : Command) :
    Local {.modeManager, .syncBuffer} (executeCommand cmd) := by
  have eq : TerminalHandler.executeCommand cmd = (effect cmd).run :=
    funext (executeCommand_eq cmd)
  rw [eq]
  cases done : effect cmd with
  | ignore => exact .silent fun _ _ => rfl
  | switch mode enabled =>
      cases enabled with
      | true => exact .setMode mode
      | false => exact .resetMode mode
  | draw item signal =>
      exact (Local.drawItem (internal_of_isScreen (effect_draw done).screen)).mono
        fun m mem => Or.inr mem

/-- `processCommand` does not look at the parser either. -/
theorem processCommand_oblivious (cmd : Command) (p : CSIParser) :
    Commutes (withParser p) (processCommand cmd) := by
  intro h
  unfold processCommand
  simp only [Traced.andThen, (Local.executeCommand cmd).parser p h]

theorem processCommand_clean (cmd : Command) (h : TerminalHandler) :
    Clean {.modeManager, .syncBuffer} (processCommand cmd h).2 :=
  ((Local.executeCommand cmd).clean h).act _

theorem flushPendingText_text (h : TerminalHandler) : h.flushPendingText.1.pendingText = [] := by
  unfold flushPendingText
  split
  · assumption
  · rfl

theorem handleText_text (text : QByteArray) (h : TerminalHandler) :
    (handleText text h).1.pendingText = [] := flushPendingText_text _

/-- A command leaves no text pending. -/
theorem processCommand_text (cmd : Command) {h : TerminalHandler} (text : h.pendingText = []) :
    (processCommand cmd h).1.pendingText = [] := by
  change (executeCommand cmd h).1.pendingText = []
  rw [executeCommand_eq]
  cases effect cmd with
  | ignore => exact text
  | switch mode enabled =>
      cases enabled with
      | true => exact (callModeManager_text _ h).trans text
      | false => exact (callModeManager_text _ h).trans text
  | draw item signal => exact flushPendingText_text h

/-- Run a list of commands, first to last. -/
def processCommands : List Command → TerminalHandler → Step := Library.feed processCommand

theorem processCommands_oblivious (cmds : List Command) (p : CSIParser) :
    Commutes (withParser p) (processCommands cmds) :=
  Commutes.feed (fun cmd => processCommand_oblivious cmd p) cmds

theorem processCommands_text (cmds : List Command) {h : TerminalHandler}
    (text : h.pendingText = []) : (processCommands cmds h).1.pendingText = [] :=
  Library.feed_invariant (fun h : TerminalHandler => h.pendingText = [])
    (fun cmd _ text => processCommand_text cmd text) cmds text

theorem invoked_processCommands (cmds : List Command) (h : TerminalHandler) :
    Library.view invoked? (processCommands cmds h).2 = cmds := by
  induction cmds generalizing h with
  | nil => rfl
  | cons cmd cmds ih =>
      have first : Library.view invoked? (processCommand cmd h).2 = [cmd] := by
        change Library.view invoked? (.act (.processCommand cmd) :: (executeCommand cmd h).2) = _
        rw [view_act, (Local.executeCommand cmd).view fun _ => invoked_internal]
        rfl
      change Library.view invoked? ((processCommand cmd h).2 ++
        (processCommands cmds (processCommand cmd h).1).2) = _
      rw [view_append, first, ih]
      rfl

theorem completed_processCommand (cmd : Command) (h : TerminalHandler) :
    Library.view completed? (processCommand cmd h).2 = [] := by
  change Library.view completed? (.act (.processCommand cmd) :: (executeCommand cmd h).2) = _
  rw [view_act, (Local.executeCommand cmd).view fun _ => completed_internal]
  rfl

theorem completed_processCommands (cmds : List Command) (h : TerminalHandler) :
    Library.view completed? (processCommands cmds h).2 = [] := by
  induction cmds generalizing h with
  | nil => rfl
  | cons cmd cmds ih =>
      change Library.view completed? ((processCommand cmd h).2 ++
        (processCommands cmds (processCommand cmd h).1).2) = _
      rw [view_append, completed_processCommand, ih]
      rfl

theorem handleText_nil {h : TerminalHandler} (text : h.pendingText = []) :
    handleText [] h = (h, []) := by
  have same : { h with pendingText := h.pendingText ++ [] } = h := by
    rw [List.append_nil]
  unfold handleText
  rw [same]
  unfold flushPendingText
  rw [if_pos text]

end

end TerminalHandler

end WindTerm

import WindTerm.Library.Along
import WindTerm.Terminal.CSIParserRuns
import WindTerm.Terminal.BufferSpec
import WindTerm.Terminal.ModeObserver

/-!
# Signals and locks

Every public operation of the three classes, with the `ThreadLocker` scopes its
signals are emitted in, up to where its thread waits for a mutex it holds. The mode
manager emits outside its scopes. The sync buffer emits inside the scope of `write`, in
normal mode and when it rejects an item. The parser would emit inside the scope of
`processByte`, but takes its mutex twice at the first byte and never gets there
(`emitsOutsideLocks_iff`).
-/

namespace WindTerm

open Library

/-! ## The parser -/

namespace CSIParser

/-- The public operations. -/
inductive Operation where
  | processByte (byte : UInt8)
  | processData (data : QByteArray)
  | hasCommand
  | takeCommand
  | takeAllCommands
  | reset
  | isIdle

/-- What a call of an operation does. -/
def Operation.run : Operation → CSIParser → Traced CSIParser (Event Mutex Signal)
  | .processByte byte, p => (p.processByte byte).2
  | .processData data, p => (p.processData data).2
  | .hasCommand, p => (p, p.hasCommand.2)
  | .takeCommand, p => p.takeCommand.2
  | .takeAllCommands, p => p.takeAllCommands.2
  | .reset, p => p.reset
  | .isIdle, p => (p, p.isIdle.2)

/-- The call comes back: its thread takes no mutex that it holds. -/
def Operation.Returns (o : Operation) (p : CSIParser) : Prop :=
  GetsPast (fun _ => false) (o.run p).2

/-- Calls on a new parser that come back. -/
structure ReturningCalls where
  calls : List Operation
  returns : EachMeets (fun o p => (o.run p).1) Operation.Returns calls {}

/-- What such calls make of a new parser. -/
def ReturningCalls.reached (r : ReturningCalls) : CSIParser :=
  runSteps (fun o p => (o.run p).1) r.calls {}

/-- `processByte` takes its mutex again in `hasCommand`. -/
theorem processByte_not_returns (byte : UInt8) (p : CSIParser) (rest : List (Event Mutex Signal)) :
    ¬ GetsPast (fun _ => false) ((p.processByte byte).2.2 ++ rest) := by
  have trace : (p.processByte byte).2.2 ++ rest = .lock .csiParser ::
      ((p.dispatch byte).2.map .act ++ .lock .csiParser ::
        ([.unlock .csiParser] ++ [.unlock .csiParser] ++ rest)) := by
    simp [processByte, hasCommand, critical]
  rw [trace]
  exact not_getsPast_relock (by simp)

/-- A byte that is given to a new parser is not answered by a signal. -/
theorem dispatch_new (byte : UInt8) : (dispatch byte {}).2 = [] := by
  change (handleGround byte {}).2 = []
  unfold handleGround
  split <;> rfl

theorem processData_cons (byte : UInt8) (data : QByteArray) (p : CSIParser) :
    ∃ rest, (p.processData (byte :: data)).2.2 = (p.processByte byte).2.2 ++ rest := by
  refine ⟨(processBytes data (p.processByte byte).2.1).2 ++ critical .csiParser [], ?_⟩
  rw [processData_trace, processBytes, feed_cons, Traced.andThen_snd, List.append_assoc]

/-- A call that comes back leaves a new parser new. -/
theorem Operation.returns_new {o : Operation} (returns : o.Returns {}) : (o.run {}).1 = {} := by
  cases o with
  | processByte byte =>
      refine (processByte_not_returns byte {} [] ?_).elim
      rw [List.append_nil]
      exact returns
  | processData data =>
      cases data with
      | nil => rfl
      | cons byte data =>
          rcases processData_cons byte data {} with ⟨rest, trace⟩
          refine (processByte_not_returns byte {} rest ?_).elim
          rw [← trace]
          exact returns
  | hasCommand => rfl
  | takeCommand => rfl
  | takeAllCommands => rfl
  | reset => rfl
  | isIdle => rfl

theorem ReturningCalls.reached_new (r : ReturningCalls) : r.reached = {} := by
  have keeps : ∀ (o : Operation) p, p = {} → o.Returns p → (o.run p).1 = {} := by
    intro o p new returns
    subst new
    exact o.returns_new returns
  exact EachMeets.last keeps r.returns rfl

theorem processByte_untilRelock (byte : UInt8) (rest : List (Event Mutex Signal)) :
    untilRelock (fun _ => false) ((CSIParser.processByte byte {}).2.2 ++ rest) =
      [.lock .csiParser] := by
  have trace : (CSIParser.processByte byte {}).2.2 ++ rest = .lock .csiParser ::
      .lock .csiParser :: ([.unlock .csiParser] ++ [.unlock .csiParser] ++ rest) := by
    simp [processByte, hasCommand, critical, dispatch_new]
  rw [trace, untilRelock, if_neg Bool.false_ne_true, untilRelock, if_pos (Function.update_self ..)]

/-- No operation emits anything: `processByte` stops at its mutex before a sequence can come
to its end. -/
theorem Operation.silent (o : Operation) :
    acts (untilRelock (fun _ => false) (o.run {}).2) = [] := by
  cases o with
  | processByte byte =>
      have cut := processByte_untilRelock byte []
      rw [List.append_nil] at cut
      change acts (untilRelock _ (CSIParser.processByte byte {}).2.2) = []
      rw [cut]
      rfl
  | processData data =>
      cases data with
      | nil => rfl
      | cons byte data =>
          rcases processData_cons byte data {} with ⟨rest, trace⟩
          change acts (untilRelock _ (CSIParser.processData (byte :: data) {}).2.2) = []
          rw [trace, processByte_untilRelock]
          rfl
  | hasCommand => rfl
  | takeCommand => rfl
  | takeAllCommands => rfl
  | reset => rfl
  | isIdle => rfl

end CSIParser

/-! ## The mode manager -/

namespace TerminalMode

/-- The public operations. -/
inductive Operation where
  | call (c : Call)
  | isEnabled (mode : Mode)
  | isSynchronizedOutputEnabled

/-- What a call of an operation does. -/
def Operation.run : Operation → TerminalMode → Step
  | .call c, m => c.run m
  | .isEnabled mode, m => (m, (m.isEnabled mode).2)
  | .isSynchronizedOutputEnabled, m => (m, (m.isEnabled .synchronizedOutput).2)

theorem emitModeChanges_outside (m : TerminalMode) :
    StaysOutside .modeManager m.emitModeChanges.2 :=
  (StaysOutside.scope _).append (.map_act _ _)

theorem setMode_outside (mode : Mode) (m : TerminalMode) :
    StaysOutside .modeManager (m.setMode mode).2.2 := by
  unfold setMode
  dsimp only
  split
  · exact (StaysOutside.scope _).append (emitModeChanges_outside _)
  · exact .scope _

theorem flushRequested_outside (requested : Prop) [Decidable requested] :
    StaysOutside Mutex.modeManager (if requested then [.act Signal.flushRequested] else []) := by
  split
  · exact (StaysOutside.nil _).act _
  · exact .nil _

theorem resetMode_outside (mode : Mode) (m : TerminalMode) :
    StaysOutside .modeManager (m.resetMode mode).2.2 := by
  unfold resetMode
  dsimp only
  split
  · refine ((StaysOutside.scope _).append (emitModeChanges_outside _)).append ?_
    exact flushRequested_outside _
  · exact .scope _

/-- No operation of the mode manager emits inside a scope. -/
theorem Operation.outside (o : Operation) (m : TerminalMode) :
    StaysOutside .modeManager (o.run m).2 := by
  cases o with
  | call c =>
      cases c with
      | setMode mode => exact setMode_outside mode m
      | resetMode mode => exact resetMode_outside mode m
      | toggleMode mode =>
          change StaysOutside .modeManager (m.toggleMode mode).2.2
          unfold toggleMode
          refine (StaysOutside.scope _).append ?_
          split
          · exact resetMode_outside mode m
          · exact setMode_outside mode m
      | saveModes => exact .scope _
      | restoreModes =>
          change StaysOutside .modeManager m.restoreModes.2
          unfold restoreModes
          split
          · exact .scope _
          · refine ((StaysOutside.scope _).append (emitModeChanges_outside _)).append ?_
            exact flushRequested_outside _
      | resetAllModes => exact (StaysOutside.scope _).append (flushRequested_outside _)
  | isEnabled mode => exact .scope _
  | isSynchronizedOutputEnabled => exact .scope _

theorem Operation.run_clean (o : Operation) (m : TerminalMode) :
    Clean {.modeManager} (o.run m).2 := by
  cases o with
  | call c =>
      cases c with
      | setMode mode => exact m.setMode_clean mode
      | resetMode mode => exact m.resetMode_clean mode
      | toggleMode mode => exact m.toggleMode_clean mode
      | saveModes => exact .scope_nil _
      | restoreModes => exact m.restoreModes_clean
      | resetAllModes => exact m.resetAllModes_clean
  | isEnabled mode => exact .scope_nil _
  | isSynchronizedOutputEnabled => exact .scope_nil _

end TerminalMode

/-! ## The sync buffer -/

namespace SynchronizedBuffer

/-- The public operations. -/
inductive Operation where
  | setSynchronizedMode (enabled : Bool)
  | isSynchronized
  | write (item : BufferItem)
  | writeData (data : QByteArray)
  | flush
  | clear
  | bufferSize
  | itemCount
  | setMaxBufferSize (maxSize : Nat)
  | maxBufferSize
  | needsFlush

section

variable [Platform]

/-- What a call of an operation does at the time `now`. -/
def Operation.run (now : Int64) : Operation → SynchronizedBuffer → Step
  | .setSynchronizedMode enabled, b => (b.setSynchronizedMode now enabled).2
  | .isSynchronized, b => (b, b.isSynchronized.2)
  | .write item, b => (b.write now item).2
  | .writeData data, b => (b.writeData now data).2
  | .flush, b => b.flush
  | .clear, b => b.clear
  | .bufferSize, b => (b, b.bufferSize.2)
  | .itemCount, b => (b, b.itemCount.2)
  | .setMaxBufferSize maxSize, b => b.setMaxBufferSize maxSize
  | .maxBufferSize, b => (b, [])
  | .needsFlush, b => (b, [])

/-- What calls, each at its time, make of a new buffer. -/
def reached (calls : List (Int64 × Operation)) : SynchronizedBuffer :=
  (feed (fun call => call.2.run call.1) calls {}).1

omit [Platform] in
theorem flush_outside (b : SynchronizedBuffer) : StaysOutside .syncBuffer b.flush.2 := by
  rcases Decidable.em (b.buffer = []) with empty | some
  · rw [flush_of_eq empty]
    exact .scope _
  · rw [flush_of_ne some]
    exact (StaysOutside.scope _).append ((StaysOutside.nil _).act _)

omit [Platform] in
theorem setSynchronizedMode_outside (now : Int64) (enabled : Bool) (b : SynchronizedBuffer) :
    StaysOutside .syncBuffer (b.setSynchronizedMode now enabled).2.2 := by
  have cases := setSynchronizedMode_cases now enabled b
  generalize (b.setSynchronizedMode now enabled).2 = r at cases ⊢
  have announced : StaysOutside Mutex.syncBuffer
      (critical .syncBuffer [] ++ [.act (Signal.synchronizedModeChanged enabled)]) :=
    (StaysOutside.scope _).append ((StaysOutside.nil _).act _)
  cases cases with
  | same => exact .scope _
  | on => exact announced
  | off => exact announced.append (flush_outside _)

/-- `write` keeps the item, below the maximal size in synchronised mode. -/
def Keeps (b : SynchronizedBuffer) : Prop :=
  b.synchronizedMode = true ∧ b.currentSize < b.maxBufferSize

theorem write_outside_iff (now : Int64) (item : BufferItem) (b : SynchronizedBuffer)
    (held : Mutex → Bool) :
    ActsOutside .syncBuffer held (b.write now item).2.2 ↔ b.Keeps := by
  have inside (signal : Signal) :
      ¬ ActsOutside Mutex.syncBuffer held (critical .syncBuffer [.act signal]) := by
    have scope : ActsOutside Mutex.syncBuffer held
        (critical .syncBuffer ([signal].map .act ++ [])) ↔ [signal] = [] := actsOutside_critical rfl
    intro outside
    exact List.cons_ne_nil signal [] (scope.mp outside)
  have silent : ActsOutside Mutex.syncBuffer held
      (critical .syncBuffer ([] : List (Event Mutex Signal))) := .of_silent rfl
  cases sync : b.synchronizedMode with
  | false =>
      rw [write_normal sync]
      exact iff_of_false (inside _) fun keeps => Bool.noConfusion (sync.symm.trans keeps.1)
  | true =>
      have cases := write_cases sync now item
      generalize b.write now item = r at cases ⊢
      rcases cases with full | ⟨room, -⟩ | ⟨room, -⟩
      · exact iff_of_false (inside _) fun keeps => absurd keeps.2 (Nat.not_lt.mpr full)
      · exact iff_of_true silent ⟨sync, room⟩
      · refine iff_of_true ?_ ⟨sync, room⟩
        rw [actsOutside_append]
        have after := heldAfter_critical Mutex.syncBuffer held ([] : List (Event Mutex Signal))
        exact ⟨silent, ((StaysOutside.scope _).append ((StaysOutside.nil _).act _) _ after).1⟩

/-- A write keeps its item. -/
def Operation.EmitsOutside : Operation → SynchronizedBuffer → Prop
  | .write _, b => b.Keeps
  | .writeData _, b => b.Keeps
  | _, _ => True

theorem Operation.outside_iff (o : Operation) (now : Int64) (b : SynchronizedBuffer)
    {held : Mutex → Bool} (free : held .syncBuffer = false) :
    ActsOutside .syncBuffer held (o.run now b).2 ↔ o.EmitsOutside b := by
  cases o with
  | setSynchronizedMode enabled =>
      exact iff_of_true (setSynchronizedMode_outside now enabled b held free).1 trivial
  | write item => exact write_outside_iff now item b held
  | writeData data => exact write_outside_iff now _ b held
  | flush => exact iff_of_true (flush_outside b held free).1 trivial
  | _ => exact iff_of_true (.of_silent rfl) trivial

theorem Operation.run_clean (o : Operation) (now : Int64) (b : SynchronizedBuffer) :
    Clean {.syncBuffer} (o.run now b).2 := by
  cases o with
  | setSynchronizedMode enabled => exact setSynchronizedMode_clean now enabled b
  | write item => exact write_clean now item b
  | writeData data => exact write_clean now _ b
  | flush => exact flush_clean b
  | maxBufferSize => exact .nil _
  | needsFlush => exact .nil _
  | _ => exact .scope_nil _

end

end SynchronizedBuffer

/-! ## The rule -/

section

variable [Platform]

/-- **Signals outside locks.** From every state that calls lead to, an operation of the
sync buffer emits no signal while its thread holds the mutex exactly when it keeps what it
writes; the operations of the mode manager never do, nor do those of the parser, which waits
for its own mutex before it emits anything. -/
theorem emitsOutsideLocks_iff :
    (∀ (r : CSIParser.ReturningCalls) (o : CSIParser.Operation),
        ActsOutside .csiParser (fun _ => false)
          (untilRelock (fun _ => false) (o.run r.reached).2)) ∧
      (∀ calls now (o : SynchronizedBuffer.Operation),
        ActsOutside .syncBuffer (fun _ => false)
            (untilRelock (fun _ => false) (o.run now (SynchronizedBuffer.reached calls)).2) ↔
          o.EmitsOutside (SynchronizedBuffer.reached calls)) ∧
      ∀ m (o : TerminalMode.Operation),
        ActsOutside .modeManager (fun _ => false) (untilRelock (fun _ => false) (o.run m).2) := by
  refine ⟨fun r o => ?_, fun calls now o => ?_, fun m o => ?_⟩
  · rw [r.reached_new]
    exact .of_silent o.silent
  · rw [(o.run_clean now _).getsPast.untilRelock_eq]
    exact o.outside_iff now _ rfl
  · rw [(o.run_clean m).getsPast.untilRelock_eq]
    exact (o.outside m _ rfl).1

omit [Platform] in
/-- A write in normal mode emits `dataReady` inside its scope. -/
theorem write_emits_inside :
    letI := Platform.qt6
    ¬ ∀ calls now (o : SynchronizedBuffer.Operation),
      ActsOutside .syncBuffer (fun _ => false)
        (untilRelock (fun _ => false) (o.run now (SynchronizedBuffer.reached calls)).2) := by
  let _ := Platform.qt6
  intro claim
  have outside := claim [] 0 (.write {})
  rw [((SynchronizedBuffer.Operation.write {}).run_clean 0 _).getsPast.untilRelock_eq] at outside
  have keeps := (SynchronizedBuffer.write_outside_iff 0 {} {} _).mp outside
  exact Bool.noConfusion keeps.1

end

end WindTerm

import WindTerm.Terminal.Calls
import WindTerm.Utility.Spin

/-!
# Lock order

Every public operation is run by a thread over the three spin mutexes, all
signals delivered by direct calls. The mode manager and the sync buffer release
their mutex before they call anything that takes it, and the slots of the
handler only go from the parser to the mode manager to the sync buffer.
`processByte` alone breaks the rule: it returns `hasCommand()` with its locker
still in scope. So the calls that hang are those that reach `processByte`
(`runGetsPast_iff`).
-/

namespace WindTerm

open Library CSIParser SynchronizedBuffer

/-! ## The parser -/

namespace CSIParser

/-- `processByte` takes its mutex a second time. -/
theorem processByte_relocks {held : Mutex → Bool} (byte : UInt8) (p : CSIParser)
    (rest : CSIParser.Trace) : ¬ GetsPast held ((p.processByte byte).2.2 ++ rest) := by
  have relock : (p.processByte byte).2.2 ++ rest =
      .lock .csiParser :: ((dispatch byte p).2.map .act ++
        .lock .csiParser :: (.unlock .csiParser :: .unlock .csiParser :: rest)) := by
    simp [processByte, hasCommand, critical]
  rw [relock]
  apply not_getsPast_relock
  simp

/-- So does `processData` on any byte. -/
theorem processData_relocks {held : Mutex → Bool} (byte : UInt8) (data : QByteArray)
    (p : CSIParser) : ¬ GetsPast held (p.processData (byte :: data)).2.2 := by
  rw [processData_trace, processBytes, feed_cons, Traced.andThen_snd, List.append_assoc]
  exact processByte_relocks byte p _

/-- The parser takes no mutex but its own. -/
theorem processByte_own (byte : UInt8) (p : CSIParser) {m : Mutex}
    (mem : Event.lock m ∈ (p.processByte byte).2.2) : m = .csiParser := by
  simpa [processByte, hasCommand, critical] using mem

theorem processData_own (data : QByteArray) (p : CSIParser) {m : Mutex}
    (mem : Event.lock m ∈ (p.processData data).2.2) : m = .csiParser := by
  have bytes : ∀ e ∈ (processBytes data p).2, e = Event.lock m → m = .csiParser := by
    apply feed_forall_trace
    intro byte _ p e mem same
    subst same
    exact processByte_own byte p mem
  have last : ∀ {e : Event Mutex CSIParser.Signal}, e ∈ critical Mutex.csiParser [] →
      e = Event.lock m → m = .csiParser := by
    intro e mem same
    subst same
    simpa [critical] using mem
  rw [processData_trace] at mem
  rcases List.mem_append.mp mem with inside | outside
  · exact bytes _ inside rfl
  · exact last outside rfl

end CSIParser

namespace TerminalHandler

section

variable [Platform]

/-- The slot of the parser takes the mutexes of the other two components only. -/
theorem deliverCSIParser_locks_iff {events : CSIParser.Trace}
    (own : ∀ m, Event.lock m ∈ events → m = .csiParser) {held : Mutex → Bool}
    (unheld : held .modeManager = false ∧ held .syncBuffer = false) (p : CSIParser)
    (h : TerminalHandler) :
    (GetsPast held (h.deliverCSIParser p events).2 ↔ GetsPast held events) ∧
      heldAfter held (h.deliverCSIParser p events).2 = heldAfter held events := by
  have answers (s : CSIParser.Signal) (h : TerminalHandler) :
      Clean {.modeManager, .syncBuffer} (onCSIParserEvent (.act s) h).2 := by
    cases s with
    | commandParsed cmd => exact (processCommand_clean cmd h).act _
    | parseError context => exact (Clean.nil _).act _
  apply feed_locks (fun _ _ => rfl) (fun _ _ => rfl) answers
  · intro m mem slot
    rw [own m mem] at slot
    rcases slot with same | same <;> cases same
  · intro m slot
    rcases slot with rfl | rfl
    · exact unheld.1
    · exact unheld.2

theorem deliverCSIParser_clean {events : CSIParser.Trace} (clean : Clean {.csiParser} events)
    (p : CSIParser) (h : TerminalHandler) : Clean Set.univ (h.deliverCSIParser p events).2 := by
  intro held unheld
  have free (m : Mutex) : held m = false := unheld m trivial
  obtain ⟨past, same⟩ := deliverCSIParser_locks_iff (fun m mem => clean.owns mem)
    ⟨free _, free _⟩ p h
  obtain ⟨past', same'⟩ := clean held fun m _ => free m
  exact ⟨past.mpr past', same.trans same'⟩

/-! ## The calls -/

/-- The call does not reach `processByte`. -/
def Call.AvoidsProcessByte : Call → Prop
  | .processInput data => ESC ∉ data
  | .operation (.processByte _) => False
  | .operation (.processData data) => data = []
  | .operation _ => True

omit [Platform] in
theorem Local.clean_univ {locks : Set Mutex} {f : TerminalHandler → Step} (isLocal : Local locks f)
    (h : TerminalHandler) : Clean Set.univ (f h).2 :=
  (isLocal.clean h).mono fun _ _ => trivial

/-- The other operations take each mutex only while it is free. -/
theorem Operation.run_clean {o : Operation} (avoids : Call.AvoidsProcessByte (.operation o))
    (h : TerminalHandler) : Clean Set.univ (o.run h).2 := by
  have scope (m : Mutex) : Clean {m} (critical m ([] : List (Event Mutex CSIParser.Signal))) :=
    .scope_nil m
  cases o with
  | forceFlush =>
      have flushed : Local {.syncBuffer} (callSyncBuffer fun _ b => b.flush) :=
        .callSyncBuffer fun _ b => flush_clean b
      exact (Local.flushPendingText.andThen flushed).clean_univ h
  | clearBuffer =>
      have cleared : Local {.syncBuffer} (callSyncBuffer fun _ b => b.clear) :=
        .callSyncBuffer fun _ _ => .scope_nil _
      exact cleared.clean_univ _
  | isSynchronizedOutputEnabled =>
      exact (Local.callModeManager fun _ => .scope_nil _).clean_univ h
  | setDebugEnabled _ => exact .nil _
  | setMode mode => exact (Local.setMode mode).clean_univ h
  | resetMode mode => exact (Local.resetMode mode).clean_univ h
  | toggleMode mode =>
      exact (Local.callModeManager fun m => m.toggleMode_clean mode).clean_univ h
  | isEnabled mode => exact (Local.callModeManager fun _ => .scope_nil _).clean_univ h
  | saveModes => exact (Local.callModeManager fun _ => .scope_nil _).clean_univ h
  | restoreModes => exact (Local.callModeManager fun m => m.restoreModes_clean).clean_univ h
  | resetAllModes => exact (Local.callModeManager fun m => m.resetAllModes_clean).clean_univ h
  | setSynchronizedMode enabled => exact (Local.switchBuffer enabled).clean_univ h
  | isSynchronized => exact (Local.callSyncBuffer fun _ _ => .scope_nil _).clean_univ h
  | write item => exact (Local.writeItem item).clean_univ h
  | writeData data =>
      exact (Local.callSyncBuffer fun now b => write_clean now _ b).clean_univ h
  | flush => exact (Local.callSyncBuffer fun _ b => flush_clean b).clean_univ h
  | clear => exact (Local.callSyncBuffer fun _ _ => .scope_nil _).clean_univ h
  | bufferSize => exact (Local.callSyncBuffer fun _ _ => .scope_nil _).clean_univ h
  | itemCount => exact (Local.callSyncBuffer fun _ _ => .scope_nil _).clean_univ h
  | setMaxBufferSize maxSize =>
      exact (Local.callSyncBuffer fun _ _ => .scope_nil _).clean_univ h
  | maxBufferSize => exact (Local.callSyncBuffer fun _ _ => .nil _).clean_univ h
  | needsFlush => exact (Local.callSyncBuffer fun _ _ => .nil _).clean_univ h
  | processByte byte => exact avoids.elim
  | processData data =>
      change data = [] at avoids
      subst avoids
      have trace : (h.csiParser.processData []).2.2 = critical .csiParser [] :=
        processData_trace [] h.csiParser
      have clean := scope .csiParser
      rw [← trace] at clean
      exact deliverCSIParser_clean clean _ h
  | hasCommand => exact deliverCSIParser_clean (scope _) _ h
  | takeCommand =>
      have clean := scope .csiParser
      rw [← takeCommand_trace h.csiParser] at clean
      exact deliverCSIParser_clean clean _ h
  | takeAllCommands => exact deliverCSIParser_clean (scope _) _ h
  | reset => exact deliverCSIParser_clean (scope _) _ h
  | isIdle => exact deliverCSIParser_clean (scope _) _ h
  | state => exact .nil _

/-! ## `processInput` -/

/-- What was done on the way into a loop state, or to the result. -/
def InputLoop.trace : InputLoop ⊕ Step → List (Event Mutex Act)
  | .inl l => l.step.2
  | .inr r => r.2

/-- What the thread has done of a call after `n` turns of its loop, if the call
has one. -/
def Call.traceAfter (n : Nat) (h : TerminalHandler) : Call → List (Event Mutex Act)
  | .processInput data => InputLoop.trace (Loop.run (processInputTurn data) n (inputLoop data h))
  | .operation o => (o.run h).2

/-- Without an `ESC` the call hands its text over and returns. -/
theorem traceAfter_text {h : TerminalHandler} (text : h.pendingText = []) {data : QByteArray}
    (noEsc : ESC ∉ data) (n : Nat) : Clean Set.univ (Call.traceAfter n h (.processInput data)) := by
  cases n with
  | zero => exact .nil _
  | succ n =>
      have turn := processInputTurn_text text (escPart_eq_nil.mpr noEsc)
      change Clean Set.univ (InputLoop.trace (Loop.run (processInputTurn data) (n + 1)
        (inputLoop data h)))
      rw [Loop.run_succ_of_inr turn]
      exact (Local.handleText _).clean_univ h

/-- With an `ESC` the first turn calls `processData`, and `processByte` there. -/
theorem traceAfter_esc {h : TerminalHandler} (text : h.pendingText = []) {data : QByteArray}
    (esc : ESC ∈ data) :
    ¬ GetsPast (fun _ => false) (Call.traceAfter 1 h (.processInput data)) := by
  have nonempty : escPart data ≠ [] := fun empty => escPart_eq_nil.mp empty esc
  obtain ⟨tail, starts⟩ := (escPart_cases data).resolve_left nonempty
  have turn := processInputTurn_esc data (h, []) nonempty text
  have trace : ∃ rest, Call.traceAfter 1 h (.processInput data) =
      (handleText (textPart data) h).2 ++
        (((handleText (textPart data) h).1.parseData (escPart data)).2.2 ++ rest) := by
    refine ⟨((handleText (textPart data) h).1.parseData (escPart data)).2.1.drainCommands
      ((handleText (textPart data) h).1.parseData (escPart data)).2.1.csiParser.completedCommands
      |>.2, ?_⟩
    change InputLoop.trace (Loop.run (processInputTurn data) 1 ⟨data, h, []⟩) = _
    rw [Loop.run_one, turn]
    split <;> rfl
  obtain ⟨rest, trace⟩ := trace
  have handed := (Local.handleText (textPart data)).clean h (fun _ => false) fun _ _ => rfl
  rw [trace, getsPast_append, handed.2, getsPast_append]
  intro past
  have parsed := (deliverCSIParser_locks_iff
    (fun m mem => processData_own (escPart data) _ mem) ⟨rfl, rfl⟩ _ _).1.mp past.2.1
  rw [starts] at parsed
  exact processData_relocks ESC tail _ parsed

/-! ## Runs -/

/-- Between two calls the thread holds no mutex. -/
def released : Mutex → SpinMutex := fun _ => ⟨false⟩

/-- One call, from released mutexes, gets past all its locks exactly when it
avoids `processByte`. -/
theorem getsPast_iff {h : TerminalHandler} (resting : Resting h) (c : Call) :
    (∀ n, ∃ s', ThreadRun released (c.traceAfter n h) s') ↔ c.AvoidsProcessByte := by
  have past (n : Nat) : (∃ s', ThreadRun released (c.traceAfter n h) s') ↔
      GetsPast (fun _ => false) (c.traceAfter n h) := exists_threadRun_iff
  simp only [past]
  cases c with
  | processInput data =>
      refine ⟨fun all esc => ?_, fun noEsc n => ?_⟩
      · exact traceAfter_esc resting.text esc (all 1)
      · exact (traceAfter_text resting.text noEsc n).getsPast
  | operation o =>
      refine ⟨fun all => ?_, fun avoids n => (Operation.run_clean avoids h).getsPast⟩
      have once := all 0
      cases o with
      | processByte byte =>
          have bare := (deliverCSIParser_locks_iff
            (fun m mem => processByte_own byte h.csiParser mem) ⟨rfl, rfl⟩ _ h).1.mp once
          rw [← List.append_nil (h.csiParser.processByte byte).2.2] at bare
          exact processByte_relocks byte h.csiParser [] bare
      | processData data =>
          cases data with
          | nil => rfl
          | cons byte data =>
              have bare := (deliverCSIParser_locks_iff
                (fun m mem => processData_own (byte :: data) h.csiParser mem) ⟨rfl, rfl⟩ _
                h).1.mp once
              exact (processData_relocks byte data h.csiParser bare).elim
      | _ => trivial

/-- The thread makes the calls one after the other: each gets past all its
locks, and so do the calls that follow, from whatever it returns with. -/
def RunGetsPast : (Mutex → SpinMutex) → TerminalHandler → List Call → Prop
  | _, _, [] => True
  | s, h, c :: calls =>
      (∀ n, ∃ s', ThreadRun s (c.traceAfter n h) s') ∧
        ∀ r s', c.Returns h r → ThreadRun s r.2 s' → RunGetsPast s' r.1 calls

/-- A call that avoids `processByte` returns, and leaves the mutexes released. -/
theorem Call.AvoidsProcessByte.returns {h : TerminalHandler} (resting : Resting h) {c : Call}
    (avoids : c.AvoidsProcessByte) :
    (∃ r, c.Returns h r) ∧ ∀ r, c.Returns h r → Clean Set.univ r.2 := by
  cases c with
  | processInput data =>
      have noEsc := escPart_eq_nil.mpr avoids
      have effect : inputEffect data h = handleText (textPart data) h := by
        rw [inputEffect, if_pos noEsc]
      have iff := processInput_iff resting.between resting.text data
      refine ⟨⟨_, (iff _).mpr ⟨Or.inl noEsc, rfl⟩⟩, fun r returns => ?_⟩
      rw [((iff r).mp returns).2, effect]
      exact (Local.handleText _).clean_univ h
  | operation o =>
      refine ⟨⟨_, rfl⟩, fun r returns => ?_⟩
      rw [show r = o.run h from returns]
      exact Operation.run_clean avoids h

omit [Platform] in
theorem released_of_clean {tr : List (Event Mutex Act)} (clean : Clean Set.univ tr)
    {s' : Mutex → SpinMutex} (run : ThreadRun released tr s') : s' = released := by
  have same := run.locked_eq.trans (clean (locked released) fun _ _ => rfl).2
  funext m
  have flag := congrFun same m
  unfold locked at flag
  rcases at_m : s' m with ⟨f⟩
  rw [at_m] at flag
  change f = false at flag
  rw [flag]
  rfl

/-- **Lock order.** From any reachable handler, a thread that makes a list of
public calls gets past all their locks exactly when none of them reaches
`processByte`. -/
theorem runGetsPast_iff {h : TerminalHandler} (reachable : Reachable (fun _ => True) h)
    (calls : List Call) :
    RunGetsPast released h calls ↔ ∀ c ∈ calls, c.AvoidsProcessByte := by
  induction calls generalizing h with
  | nil => simp [RunGetsPast]
  | cons c calls ih =>
      have first := getsPast_iff reachable.resting c
      rw [List.forall_mem_cons, RunGetsPast, first]
      refine and_congr_right fun avoids => ?_
      obtain ⟨⟨r, returns⟩, clean⟩ := Call.AvoidsProcessByte.returns reachable.resting avoids
      have next (r : Step) (returns : c.Returns h r) : Reachable (fun _ => True) r.1 :=
        .call reachable trivial returns
      constructor
      · intro rest
        obtain ⟨s', run⟩ := exists_threadRun_iff.mpr
          (show GetsPast (locked released) r.2 from (clean r returns).getsPast)
        have continued := rest r s' returns run
        rw [released_of_clean (clean r returns) run] at continued
        exact (ih (next r returns)).mp continued
      · intro others r' s' returns' run
        rw [released_of_clean (clean r' returns') run]
        exact (ih (next r' returns')).mpr others

omit [Platform] in
/-- Switching `SYNCHRONIZED_OUTPUT` runs slots that lock the sync buffer, and so does text
between. -/
theorem runGetsPast_iff_switches :
    letI := Platform.qt6
    RunGetsPast released (.new .newestFirst fun _ => 0)
      [.operation (.setMode .synchronizedOutput), .processInput [0x61, 0x62],
        .operation .forceFlush, .operation (.toggleMode .synchronizedOutput),
        .operation .hasCommand] := by
  let _ := Platform.qt6
  refine (runGetsPast_iff (.new .newestFirst fun _ => 0) _).mpr fun c mem => ?_
  simp only [List.mem_cons, List.not_mem_nil, or_false] at mem
  rcases mem with rfl | rfl | rfl | rfl | rfl
  · trivial
  · exact show ESC ∉ [0x61, 0x62] by decide
  · trivial
  · trivial
  · trivial

omit [Platform] in
/-- On a new handler `processInput` hangs on a single `ESC`. -/
theorem processInput_relocks :
    letI := Platform.qt6
    Reachable (fun _ => True) (.new .newestFirst fun _ => 0) ∧
      ¬ ∃ s', ThreadRun released
        (Call.traceAfter 1 (.new .newestFirst fun _ => 0) (.processInput [ESC])) s' := by
  let _ := Platform.qt6
  refine ⟨.new _ _, fun past => ?_⟩
  exact traceAfter_esc rfl List.mem_cons_self (exists_threadRun_iff.mp past)

end

end TerminalHandler

end WindTerm

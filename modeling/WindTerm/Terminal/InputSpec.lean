import WindTerm.Terminal.HandlerSpec
import Mathlib.Data.List.TakeWhile

/-!
# What `processInput` does

The loop of `processInput` makes at most two different turns. The first hands
the bytes before the first `ESC` over as text and the rest to the parser
(`inputEffect`). If the parser gives back an unfinished sequence that is not
the whole input, every further turn gives it back again and the loop never
ends; in all other cases it leaves at once (`processInput_iff`).

What the parser completes reaches `processCommand` twice: through the slot
while the bytes are read, and again when the queue is drained
(`parseAndDrain_spec`).
-/

namespace WindTerm

open Library CSIParser SynchronizedBuffer

namespace TerminalHandler

/-! ## Text and sequences -/

/-- The bytes before the first `ESC`. -/
def textPart (data : QByteArray) : QByteArray := data.takeWhile (· ≠ ESC)

/-- The bytes from the first `ESC` on. -/
def escPart (data : QByteArray) : QByteArray := data.dropWhile (· ≠ ESC)

theorem textPart_append_escPart (data : QByteArray) : textPart data ++ escPart data = data :=
  List.takeWhile_append_dropWhile

theorem idxOf?_esc (data : QByteArray) :
    data.idxOf? ESC = if escPart data = [] then none else some (textPart data).length := by
  induction data with
  | nil => rfl
  | cons b data ih =>
      by_cases esc : b = ESC
      · subst esc
        simp [textPart, escPart, List.idxOf?_cons]
      · simp only [textPart, escPart] at ih
        simp [textPart, escPart, List.idxOf?_cons, esc, ih]
        split <;> simp

theorem textPart_append {t : QByteArray} (text : ESC ∉ t) (s : QByteArray) :
    textPart (t ++ s) = t ++ textPart s ∧ escPart (t ++ s) = escPart s := by
  have bytes : ∀ b ∈ t, decide (b ≠ ESC) = true := by
    intro b mem
    rw [decide_eq_true_eq]
    exact fun same => text (same ▸ mem)
  exact ⟨List.takeWhile_append_of_pos bytes, List.dropWhile_append_of_pos bytes⟩

theorem esc_notMem_textPart (data : QByteArray) : ESC ∉ textPart data := by
  intro mem
  simpa using List.mem_takeWhile_imp mem

theorem escPart_eq_nil {data : QByteArray} : escPart data = [] ↔ ESC ∉ data := by
  unfold escPart
  rw [List.dropWhile_eq_nil_iff]
  refine ⟨fun text mem => by simpa using text ESC mem, fun text b mem => ?_⟩
  rw [decide_eq_true_eq]
  exact fun same => text (same ▸ mem)

/-- The part from the first `ESC` on starts with it. -/
theorem escPart_cases (data : QByteArray) : escPart data = [] ∨ ∃ s, escPart data = ESC :: s := by
  cases rest : escPart data with
  | nil => exact Or.inl rfl
  | cons b s =>
      have head := List.head?_dropWhile_not (fun b => decide (b ≠ ESC)) data
      rw [show data.dropWhile (fun b => decide (b ≠ ESC)) = b :: s from rest] at head
      have esc : b = ESC := by simpa using head
      exact Or.inr ⟨s, by rw [esc]⟩

variable [Platform]

/-! ## The parser and its slot -/

/-- Delivering events of the parser runs the commands they announce. -/
theorem feed_onCSIParserEvent (events : CSIParser.Trace) (h : TerminalHandler) :
    let ran := processCommands (announced (acts events)) h
    (feed onCSIParserEvent events h).1 = ran.1 ∧
      (∀ {β : Type} {π : Act → Option β}, (∀ s, π (.emit (.csiParser s)) = none) →
        view π (feed onCSIParserEvent events h).2 = view π ran.2) ∧
      view completed? (feed onCSIParserEvent events h).2 = announced (acts events) := by
  induction events generalizing h with
  | nil => exact ⟨rfl, fun _ => rfl, rfl⟩
  | cons e events ih =>
      cases e with
      | lock m => exact ih h
      | unlock m => exact ih h
      | act s =>
          cases s with
          | parseError context =>
              obtain ⟨state, seen, completed⟩ := ih h
              refine ⟨state, fun {β π} ignores => ?_, completed⟩
              change view π (.act (.emit (.csiParser (.parseError context))) ::
                (feed onCSIParserEvent events h).2) = _
              rw [view_act, ignores]
              exact seen ignores
          | commandParsed cmd =>
              obtain ⟨state, seen, completed⟩ := ih (processCommand cmd h).1
              refine ⟨state, fun {β π} ignores => ?_, ?_⟩
              · change view π (.act (.emit (.csiParser (.commandParsed cmd))) ::
                  ((processCommand cmd h).2 ++
                    (feed onCSIParserEvent events (processCommand cmd h).1).2)) =
                  view π ((processCommand cmd h).2 ++
                    (processCommands (announced (acts events)) (processCommand cmd h).1).2)
                rw [view_act, ignores, view_append, view_append, seen ignores]
                rfl
              · change view completed? (.act (.emit (.csiParser (.commandParsed cmd))) ::
                  ((processCommand cmd h).2 ++
                    (feed onCSIParserEvent events (processCommand cmd h).1).2)) =
                  cmd :: announced (acts events)
                rw [view_act, view_append, completed_processCommand, completed]
                rfl

/-- Locking alone runs nothing. -/
theorem deliverCSIParser_locks (p : CSIParser) (m : Mutex) (h : TerminalHandler) :
    h.deliverCSIParser p (critical m []) = (withParser p h, [.lock m, .unlock m]) := rfl

/-- Draining the queue runs its commands and leaves an empty queue. -/
theorem drainCommands_spec {queue : List Command} {h : TerminalHandler}
    (holds : h.csiParser = idle queue) :
    let ran := processCommands queue h
    (drainCommands queue h).1 = withParser (idle []) ran.1 ∧
      ∀ {β : Type} {π : Act → Option β}, view π (drainCommands queue h).2 = view π ran.2 := by
  induction queue generalizing h with
  | nil =>
      refine ⟨?_, rfl⟩
      change withParser h.csiParser h = withParser (idle []) h
      rw [holds]
  | cons cmd queue ih =>
      have same : withParser h.csiParser h = h := rfl
      have taken : h.csiParser.takeCommand = (cmd, idle queue, critical .csiParser []) := by
        rw [holds]
        rfl
      have run := processCommand_oblivious cmd (idle queue) h
      obtain ⟨state, seen⟩ :=
        ih (h := withParser (idle queue) (processCommand cmd h).1) rfl
      have later := processCommands_oblivious queue (idle queue) (processCommand cmd h).1
      rw [later] at state seen
      simp only [drainCommands, hasCommand, taken, deliverCSIParser_locks, same, Traced.andThen,
        run]
      refine ⟨state, fun {β π} => ?_⟩
      change view π (.lock _ :: .unlock _ :: .lock _ :: .unlock _ :: (processCommand cmd h).2 ++
        (drainCommands queue _).2) = view π ((processCommand cmd h).2 ++ _)
      rw [view_append, view_append, seen]
      rfl

/-- Parsing gives the unfinished rest back, runs every command it completes
once, and leaves the parser idle with these commands in its queue. -/
theorem parseData_spec {h : TerminalHandler} (between : Between h.csiParser)
    {data rest : QByteArray} {cmds : List Command}
    (read : Reads (h.csiParser.buffer ++ data) cmds rest) :
    let ran := processCommands cmds h
    (h.parseData data).1 = rest ∧
      (h.parseData data).2.1 =
        withParser (idle (h.csiParser.completedCommands ++ cmds)) ran.1 ∧
      (∀ {β : Type} {π : Act → Option β}, (∀ s, π (.emit (.csiParser s)) = none) →
        view π (h.parseData data).2.2 = view π ran.2) ∧
      view completed? (h.parseData data).2.2 = cmds := by
  obtain ⟨leftover, state, signals⟩ := between.processData data
  obtain ⟨cmds', read', completed, told⟩ := between.reads data
  obtain ⟨rfl, rfl⟩ := read.unique read'
  obtain ⟨parsed, seen, counted⟩ := feed_onCSIParserEvent (h.csiParser.processData data).2.2
    (withParser (h.csiParser.processData data).2.1 h)
  have ran := processCommands_oblivious cmds (h.csiParser.processData data).2.1 h
  rw [signals, told] at parsed seen counted
  rw [ran] at parsed seen
  have after : (h.csiParser.processData data).2.1 =
      idle (h.csiParser.completedCommands ++ cmds) := by
    rw [state, completed]
  exact ⟨leftover, parsed.trans (congrArg (fun p => withParser p _) after), seen, counted⟩

/-! ## One turn of the loop -/

/-- What one turn of the loop does with the bytes from the first `ESC` on. -/
def parseAndDrain (data : QByteArray) (h : TerminalHandler) : Step :=
  (h.parseData data).2.andThen fun h => h.drainCommands h.csiParser.completedCommands

/-- The commands one such turn runs, when the parser completes `cmds` behind
`queue`: once each while parsing, then the whole queue. -/
def turnCommands (queue cmds : List Command) : List Command := cmds ++ (queue ++ cmds)

/-- So a turn runs every command it completes twice. -/
theorem parseAndDrain_spec {h : TerminalHandler} (between : Between h.csiParser)
    {data rest : QByteArray} {cmds : List Command}
    (read : Reads (h.csiParser.buffer ++ data) cmds rest) :
    let ran := processCommands (turnCommands h.csiParser.completedCommands cmds) h
    (h.parseAndDrain data).1 = withParser (idle []) ran.1 ∧
      (∀ {β : Type} {π : Act → Option β}, (∀ s, π (.emit (.csiParser s)) = none) →
        view π (h.parseAndDrain data).2 = view π ran.2) ∧
      view completed? (h.parseAndDrain data).2 = cmds := by
  obtain ⟨-, state, seen, counted⟩ := parseData_spec between read
  have queue : (h.parseData data).2.1.csiParser =
      idle (h.csiParser.completedCommands ++ cmds) := by
    rw [state]
    rfl
  have turn : processCommands (turnCommands h.csiParser.completedCommands cmds) h =
      (processCommands cmds h).andThen
        (processCommands (h.csiParser.completedCommands ++ cmds)) :=
    feed_append _ _ _
  obtain ⟨drained, seen'⟩ := drainCommands_spec queue
  have later := processCommands_oblivious (h.csiParser.completedCommands ++ cmds)
    (idle (h.csiParser.completedCommands ++ cmds)) (processCommands cmds h).1
  rw [state, later] at drained seen'
  dsimp only
  unfold parseAndDrain
  rw [turn, Traced.andThen_fst, Traced.andThen_snd, Traced.andThen_fst, Traced.andThen_snd, queue,
    state]
  refine ⟨drained, fun ignores => ?_, ?_⟩
  · rw [view_append, view_append, seen ignores, ← seen']
    rfl
  · have silent := seen'.trans (completed_processCommands
      (h.csiParser.completedCommands ++ cmds) (processCommands cmds h).1)
    rw [view_append, counted]
    exact (congrArg (cmds ++ ·) silent).trans (List.append_nil cmds)

/-! ## The loop -/

/-- The first turn of `processInput`. -/
def inputEffect (data : QByteArray) (h : TerminalHandler) : Step :=
  if escPart data = [] then handleText (textPart data) h
  else (handleText (textPart data) h).andThen (parseAndDrain (escPart data))

/-- A turn over bytes that contain an `ESC`. -/
theorem processInputTurn_esc (data : QByteArray) {remaining : QByteArray} (step : Step)
    (esc : escPart remaining ≠ []) (text : step.1.pendingText = []) :
    let before := step.andThen (handleText (textPart remaining))
    processInputTurn data ⟨remaining, step⟩ =
      if (before.1.parseData (escPart remaining)).1 = data then
        .inr (before.andThen (parseAndDrain (escPart remaining)))
      else .inl ⟨(before.1.parseData (escPart remaining)).1,
        before.andThen (parseAndDrain (escPart remaining))⟩ := by
  have nonempty : remaining ≠ [] := by
    intro empty
    subst empty
    exact esc rfl
  have whole := textPart_append_escPart remaining
  have cut : (if 0 < (textPart remaining).length then
        step.andThen (handleText (remaining.take (textPart remaining).length)) else step) =
        step.andThen (handleText (textPart remaining)) ∧
      (if 0 < (textPart remaining).length then remaining.drop (textPart remaining).length
        else remaining) = escPart remaining := by
    by_cases before : 0 < (textPart remaining).length
    · rw [if_pos before, if_pos before]
      generalize textPart remaining = t at whole
      generalize escPart remaining = s at whole
      subst whole
      rw [List.take_left, List.drop_left]
      exact ⟨rfl, rfl⟩
    · rw [if_neg before, if_neg before]
      have none : textPart remaining = [] := List.length_eq_zero_iff.mp (by omega)
      rw [none] at whole ⊢
      refine ⟨?_, whole.symm⟩
      unfold Traced.andThen
      rw [handleText_nil text, List.append_nil]
  have turn (before : Step) :
      (before.andThen fun _ => (before.1.parseData (escPart remaining)).2).andThen
          (fun h => h.drainCommands h.csiParser.completedCommands) =
        before.andThen (parseAndDrain (escPart remaining)) := by
    simp only [Traced.andThen, parseAndDrain, List.append_assoc]
  unfold processInputTurn
  simp only [nonempty, if_false, idxOf?_esc, esc, cut.1, cut.2, turn]

/-- The first turn over bytes without `ESC` is the last one. -/
theorem processInputTurn_text {data : QByteArray} {h : TerminalHandler} (text : h.pendingText = [])
    (noEsc : escPart data = []) :
    processInputTurn data (inputLoop data h) = .inr (handleText (textPart data) h) := by
  have whole := textPart_append_escPart data
  rw [noEsc, List.append_nil] at whole
  unfold processInputTurn inputLoop
  by_cases empty : data = []
  · rw [whole, empty, handleText_nil text]
    rfl
  · simp only [empty, if_false, idxOf?_esc, noEsc, if_true, whole]
    rfl

/-- A handler whose parser is in its ground state with an empty queue, with no
text pending: what every turn leaves. -/
structure Ready (h : TerminalHandler) : Prop where
  idle : h.csiParser = idle []
  text : h.pendingText = []

omit [Platform] in
theorem Ready.between {h : TerminalHandler} (ready : Ready h) : Between h.csiParser := by
  rw [ready.idle]
  exact .idle []

theorem parseAndDrain_ready {h : TerminalHandler} (between : Between h.csiParser)
    (text : h.pendingText = []) (data : QByteArray) : Ready (h.parseAndDrain data).1 := by
  obtain ⟨cmds, rest, read⟩ := Reads.total (h.csiParser.buffer ++ data)
  rw [(parseAndDrain_spec between read).1]
  exact ⟨rfl, processCommands_text _ text⟩

/-- An unfinished sequence that is not the whole input is given back for ever. -/
theorem not_terminates_of_unfinished {data rest : QByteArray} (unfinished : Unfinished rest)
    (ne : rest ≠ data) {step : Step} (ready : Ready step.1) :
    ¬ Loop.Terminates (processInputTurn data) ⟨rest, step⟩ := by
  apply Loop.not_terminates_of_invariant fun l => l.remaining = rest ∧ Ready l.step.1
  · intro l stuck
    rcases l with ⟨remaining, step⟩
    obtain ⟨same, ready⟩ := stuck
    dsimp only at same ready
    subst same
    obtain ⟨tail, starts⟩ := unfinished.head
    have noText : textPart remaining = [] := by
      rw [starts]
      simp [textPart]
    have all : escPart remaining = remaining := by
      have whole := textPart_append_escPart remaining
      rwa [noText] at whole
    have nonempty : escPart remaining ≠ [] := by
      rw [all, starts]
      exact List.cons_ne_nil _ _
    have turn := processInputTurn_esc data step nonempty ready.text
    have before : step.andThen (handleText (textPart remaining)) = step := by
      unfold Traced.andThen
      rw [noText, handleText_nil ready.text, List.append_nil]
    have read : Reads (step.1.csiParser.buffer ++ remaining) [] remaining := by
      rw [ready.idle]
      exact .unfinished unfinished
    dsimp only at turn
    rw [before, all, (parseData_spec ready.between read).1, if_neg ne] at turn
    exact ⟨_, turn, rfl, parseAndDrain_ready ready.between ready.text remaining⟩
  · exact ⟨rfl, ready⟩

/-- The loop ends after the first turn: the bytes contain no `ESC`, or they leave
no unfinished sequence behind, or they are themselves the unfinished sequence
left behind. -/
def EndsAtOnce (data : QByteArray) (h : TerminalHandler) : Prop :=
  escPart data = [] ∨ ∃ cmds rest, Reads (h.csiParser.buffer ++ escPart data) cmds rest ∧
    (rest = [] ∨ rest = data)

/-- **`processInput`.** The call returns exactly when its loop ends after the
first turn, and has then done what the first turn does. -/
theorem processInput_iff {h : TerminalHandler} (between : Between h.csiParser)
    (text : h.pendingText = []) (data : QByteArray) (r : Step) :
    ProcessInput data h r ↔ EndsAtOnce data h ∧ r = inputEffect data h := by
  by_cases noEsc : escPart data = []
  · have ends : EndsAtOnce data h := Or.inl noEsc
    rw [ProcessInput, Loop.returns_iff_of_inr (processInputTurn_text text noEsc), inputEffect,
      if_pos noEsc]
    exact ⟨fun same => ⟨ends, same⟩, fun both => both.2⟩
  · obtain ⟨cmds, rest, read⟩ := Reads.total (h.csiParser.buffer ++ escPart data)
    have same := (Local.handleText (textPart data)).csiParser h
    rw [← same] at between read
    have effect : inputEffect data h =
        (Traced.andThen (h, []) (handleText (textPart data))).andThen
          (parseAndDrain (escPart data)) := by
      rw [inputEffect, if_neg noEsc]
      rfl
    have ready := parseAndDrain_ready between (handleText_text _ h) (escPart data)
    have ends : EndsAtOnce data h ↔ rest = [] ∨ rest = data := by
      unfold EndsAtOnce
      rw [← same]
      refine ⟨fun ends => ?_, fun cond => Or.inr ⟨cmds, rest, read, cond⟩⟩
      rcases ends with none | ⟨cmds', rest', read', cond⟩
      · exact (noEsc none).elim
      · rw [(read.unique read').2]
        exact cond
    have first := processInputTurn_esc data (h, []) noEsc text
    simp only [Traced.andThen_fst, (parseData_spec between read).1, ← effect] at first
    rw [ends, ProcessInput, inputLoop]
    by_cases whole : rest = data
    · rw [if_pos whole] at first
      rw [Loop.returns_iff_of_inr first]
      exact ⟨fun same => ⟨Or.inr whole, same⟩, fun both => both.2⟩
    · rw [if_neg whole] at first
      rw [Loop.returns_iff_of_inl first]
      rcases read.rest with empty | unfinished
      · have last :
            processInputTurn data ⟨rest, inputEffect data h⟩ = .inr (inputEffect data h) := by
          unfold processInputTurn
          rw [if_pos empty]
        rw [Loop.returns_iff_of_inr last]
        exact ⟨fun same => ⟨Or.inl empty, same⟩, fun both => both.2⟩
      · have ready' : Ready (inputEffect data h).1 := by
          rw [effect]
          exact ready
        have stuck := not_terminates_of_unfinished unfinished whole ready'
        refine ⟨fun returns => (stuck ⟨r, returns⟩).elim, fun both => ?_⟩
        rcases both.1 with empty | same
        · obtain ⟨tail, starts⟩ := unfinished.head
          rw [empty] at starts
          cases starts
        · exact (whole same).elim

end TerminalHandler

end WindTerm

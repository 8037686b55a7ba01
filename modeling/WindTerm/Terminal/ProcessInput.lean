import WindTerm.Terminal.InputItems

/-!
# `processInput`: termination, text, commands

Three facts about one call of `processInput`. It returns exactly when the input
ends outside a sequence or is one unfinished sequence itself. Of the text in an
input only the part before the first sequence is shown. And every command it
completes is run twice, so that commands take effect once only where there are
none.
-/

namespace WindTerm

open Library CSIParser SynchronizedBuffer

namespace TerminalHandler

/-- The calls a program makes that only drives the handler. -/
def Call.OfHandler : Call → Prop
  | .processInput _ => True
  | .operation .forceFlush => True
  | .operation .clearBuffer => True
  | _ => False

section

variable [Platform]

/-! ## Termination -/

theorem Reachable.ready {h : TerminalHandler} (reachable : Reachable Call.OfHandler h) :
    Ready h := by
  induction reachable with
  | new hashOrder clock => exact ⟨rfl, rfl⟩
  | @call h c r earlier allowed returns ih =>
      cases c with
      | processInput data =>
          obtain ⟨-, rfl⟩ := (processInput_iff ih.between ih.text data r).mp returns
          have same := (Local.handleText (textPart data)).csiParser h
          unfold inputEffect
          split
          · exact ⟨same.trans ih.idle, handleText_text _ h⟩
          · refine parseAndDrain_ready ?_ (handleText_text _ h) _
            rw [same]
            exact ih.between
      | operation o =>
          cases returns
          cases o with
          | forceFlush =>
              refine ⟨?_, earlier.resting.forceFlush.text⟩
              exact (Local.flushPendingText.csiParser h).trans ih.idle
          | clearBuffer => exact ⟨ih.idle, rfl⟩
          | _ => exact allowed.elim

/-- The call returns exactly when its loop ends after the first turn. -/
theorem terminates_iff_endsAtOnce {h : TerminalHandler} (between : Between h.csiParser)
    (text : h.pendingText = []) (data : QByteArray) :
    Loop.Terminates (processInputTurn data) (inputLoop data h) ↔ EndsAtOnce data h := by
  refine ⟨fun terminates => ?_, fun ends => ?_⟩
  · obtain ⟨r, returns⟩ := terminates
    exact ((processInput_iff between text data r).mp returns).1
  · exact ⟨_, (processInput_iff between text data _).mpr ⟨ends, rfl⟩⟩

omit [Platform] in
/-- With the parser idle, what matters is how the whole input ends. -/
theorem endsAtOnce_iff {h : TerminalHandler} (parser : h.csiParser = idle [])
    (data : QByteArray) :
    EndsAtOnce data h ↔ (∃ cmds, Reads data cmds []) ∨ Unfinished data := by
  have text := Reads.of_text (esc_notMem_textPart data)
  have whole := textPart_append_escPart data
  unfold EndsAtOnce
  rw [parser]
  constructor
  · intro ends
    rcases ends with noEsc | ⟨cmds, rest, read, empty | all⟩
    · rw [noEsc, List.append_nil] at whole
      rw [whole] at text
      exact Or.inl ⟨[], text⟩
    · have joined := text.append read
      change Reads (textPart data ++ escPart data) _ _ at joined
      rw [whole, empty] at joined
      exact Or.inl ⟨_, joined⟩
    · rcases read.rest with empty | unfinished
      · have joined := text.append read
        change Reads (textPart data ++ escPart data) _ _ at joined
        rw [whole, empty] at joined
        exact Or.inl ⟨_, joined⟩
      · rw [all] at unfinished
        exact Or.inr unfinished
  · intro ends
    obtain ⟨cmds, rest, read⟩ := Reads.total (escPart data)
    have joined := text.append read
    rw [whole] at joined
    refine Or.inr ⟨cmds, rest, read, ?_⟩
    rcases ends with ⟨cmds', closed⟩ | unfinished
    · exact Or.inl (joined.unique closed).2
    · exact Or.inr (joined.unique (.unfinished unfinished)).2

/-- **Termination.** On a handler driven by `processInput`, `forceFlush` and
`clearBuffer`, the loop of `processInput` ends exactly when the input ends
outside a sequence or is one unfinished sequence itself. -/
theorem processInput_terminates_iff {h : TerminalHandler}
    (reachable : Reachable Call.OfHandler h) (data : QByteArray) :
    Loop.Terminates (processInputTurn data) (inputLoop data h) ↔
      (∃ cmds, Reads data cmds []) ∨ Unfinished data := by
  have ready := reachable.ready
  rw [terminates_iff_endsAtOnce ready.between ready.text, endsAtOnce_iff ready.idle]

omit [Platform] in
/-- The loop ends on `a ESC [ 1 m b`, and on `ESC [ 1` alone. -/
theorem processInput_terminates_iff_sequence :
    letI := Platform.qt6
    Loop.Terminates (processInputTurn [0x61, ESC, CSI, 0x31, 0x6D, 0x62])
        (inputLoop [0x61, ESC, CSI, 0x31, 0x6D, 0x62] fresh) ∧
      Loop.Terminates (processInputTurn [ESC, CSI, 0x31]) (inputLoop [ESC, CSI, 0x31] fresh) := by
  let _ := Platform.qt6
  have started : WellFormed [0x31] [] := WellFormed.nil.param rfl
  have read : Reads [0x61, ESC, CSI, 0x31, 0x6D, 0x62] [sequenceCommand [0x31] [] 0x6D] [] :=
    .token (.text (by decide)) (.token (.sequence started rfl) (.token (.text (by decide)) .nil))
  exact ⟨(processInput_terminates_iff (.new .newestFirst fun _ => 0) _).mpr (Or.inl ⟨_, read⟩),
    (processInput_terminates_iff (.new .newestFirst fun _ => 0) _).mpr
      (Or.inr (.introduced started))⟩

/-- The text `a` followed by the unfinished sequence `ESC [ 1`. -/
def hanging : QByteArray := [0x61, ESC, CSI, 0x31]

omit [Platform] in
/-- A new handler hangs on it. -/
theorem processInput_hangs :
    letI := Platform.qt6
    Reachable Call.OfHandler fresh ∧
      ¬ Loop.Terminates (processInputTurn hanging) (inputLoop hanging fresh) := by
  let _ := Platform.qt6
  refine ⟨.new _ _, fun terminates => ?_⟩
  rw [terminates_iff_endsAtOnce (.idle []) rfl, endsAtOnce_iff rfl] at terminates
  have sequence : Unfinished (introduced [0x31] []) := .introduced (WellFormed.nil.param rfl)
  have read : Reads hanging [] (introduced [0x31] []) :=
    .token (.text (by decide)) (.unfinished sequence)
  rcases terminates with ⟨cmds, closed⟩ | unfinished
  · cases (read.unique closed).2
  · obtain ⟨tail, starts⟩ := unfinished.head
    injection starts with first
    exact absurd first (by decide)

/-! ## Commands -/

omit [Platform] in
theorem invoked_csiParser (s : CSIParser.Signal) : invoked? (.emit (.csiParser s)) = none := rfl

/-- What a call that returns runs and completes: nothing without an `ESC`, and
otherwise the commands of one turn. -/
theorem ProcessInput.commands {h : TerminalHandler} (resting : Resting h) {data : QByteArray}
    {r : Step} (returns : ProcessInput data h r) :
    (ESC ∉ data ∧ view invoked? r.2 = [] ∧ view completed? r.2 = []) ∨
      (ESC ∈ data ∧ ∃ cmds rest, Reads (h.csiParser.buffer ++ escPart data) cmds rest ∧
        view invoked? r.2 = turnCommands h.csiParser.completedCommands cmds ∧
        view completed? r.2 = cmds) := by
  obtain ⟨-, rfl⟩ := (processInput_iff resting.between resting.text data r).mp returns
  have text := Local.handleText (textPart data)
  unfold inputEffect
  by_cases noEsc : escPart data = []
  · rw [if_pos noEsc]
    exact Or.inl ⟨escPart_eq_nil.mp noEsc, text.view (fun _ => invoked_internal) h,
      text.view (fun _ => completed_internal) h⟩
  · rw [if_neg noEsc]
    obtain ⟨cmds, rest, read⟩ := Reads.total (h.csiParser.buffer ++ escPart data)
    refine Or.inr ⟨?_, cmds, rest, read, ?_⟩
    · by_contra none
      exact noEsc (escPart_eq_nil.mpr none)
    · have between := (resting.handleText (textPart data)).between
      rw [← text.csiParser h] at read ⊢
      obtain ⟨-, seen, counted⟩ := parseAndDrain_spec between read
      rw [Traced.andThen_snd, view_append, view_append, seen invoked_csiParser, counted,
        invoked_processCommands, text.view fun _ => invoked_internal,
        text.view fun _ => completed_internal]
      exact ⟨rfl, rfl⟩

omit [Platform] in
/-- A turn that runs exactly what it completes runs nothing. -/
theorem turnCommands_eq_iff {queue cmds : List Command} :
    turnCommands queue cmds = cmds ↔ queue = [] ∧ cmds = [] := by
  unfold turnCommands
  constructor
  · intro same
    have lengths := congrArg List.length same
    simp only [List.length_append] at lengths
    exact ⟨List.length_eq_zero_iff.mp (by omega), List.length_eq_zero_iff.mp (by omega)⟩
  · intro none
    obtain ⟨rfl, rfl⟩ := none
    rfl

/-- **Commands take effect twice.** In a call that returns, the invocations of
`processCommand` are the commands the parser completed exactly when the parser
was not used or no command was there: none completed, none waiting. -/
theorem ProcessInput.invoked_eq_completed_iff {h : TerminalHandler}
    (reachable : Reachable (fun _ => True) h) {data : QByteArray} {r : Step}
    (returns : ProcessInput data h r) :
    view invoked? r.2 = view completed? r.2 ↔
      ESC ∉ data ∨ h.csiParser.completedCommands = [] ∧
        ∃ rest, Reads (h.csiParser.buffer ++ escPart data) [] rest := by
  rcases ProcessInput.commands reachable.resting returns with
    ⟨noEsc, invoked, completed⟩ | ⟨esc, cmds, rest, read, invoked, completed⟩
  · rw [invoked, completed]
    exact ⟨fun _ => Or.inl noEsc, fun _ => rfl⟩
  · rw [invoked, completed, turnCommands_eq_iff]
    constructor
    · intro none
      rw [none.2] at read
      exact Or.inr ⟨none.1, rest, read⟩
    · intro cond
      rcases cond with noEsc | ⟨queue, rest', read'⟩
      · exact (noEsc esc).elim
      · exact ⟨queue, (read.unique read').1⟩

omit [Platform] in
/-- `ESC [ m` is a complete sequence. -/
theorem reads_sgr : Reads [ESC, CSI, 0x6D] [sequenceCommand [] [] 0x6D] [] :=
  Reads.of_sequence .nil rfl

omit [Platform] in
theorem processInput_sgr :
    letI := Platform.qt6
    ProcessInput [ESC, CSI, 0x6D] fresh (inputEffect [ESC, CSI, 0x6D] fresh) := by
  let _ := Platform.qt6
  exact (processInput_iff (.idle []) rfl _ _).mpr
    ⟨Or.inr ⟨_, [], reads_sgr, Or.inl rfl⟩, rfl⟩

omit [Platform] in
theorem ProcessInput.invoked_eq_completed_iff_sgr :
    letI := Platform.qt6
    view invoked? (inputEffect [ESC, CSI, 0x6D] fresh).2 =
        view completed? (inputEffect [ESC, CSI, 0x6D] fresh).2 ↔
      ESC ∉ [ESC, CSI, 0x6D] ∨ fresh.csiParser.completedCommands = [] ∧
        ∃ rest, Reads (fresh.csiParser.buffer ++ escPart [ESC, CSI, 0x6D]) [] rest :=
  letI := Platform.qt6
  ProcessInput.invoked_eq_completed_iff (.new .newestFirst fun _ => 0) processInput_sgr

omit [Platform] in
/-- On a new handler `ESC [ m` is completed once and run twice. -/
theorem processInput_runs_twice :
    letI := Platform.qt6
    Reachable (fun _ => True) fresh ∧ ∃ r, ProcessInput [ESC, CSI, 0x6D] fresh r ∧
      view completed? r.2 = [sequenceCommand [] [] 0x6D] ∧
      view invoked? r.2 = [sequenceCommand [] [] 0x6D, sequenceCommand [] [] 0x6D] := by
  let _ := Platform.qt6
  refine ⟨.new _ _, _, processInput_sgr, ?_⟩
  rcases ProcessInput.commands (new_resting _ _) processInput_sgr with
    ⟨noEsc, -⟩ | ⟨-, cmds, rest, read, invoked, completed⟩
  · exact absurd List.mem_cons_self noEsc
  · have same := (read.unique reads_sgr).1
    subst same
    exact ⟨completed, invoked⟩

/-! ## Text -/

/-- Text with complete sequences in between. -/
def mixedInput (before : Text) (items : List (SequenceText × Text)) : QByteArray :=
  before.1 ++ items.flatMap fun item => item.1.bytes ++ item.2.1

/-- The text among the signals put on the screen. -/
def textOf (signals : List Signal) : QByteArray :=
  signals.flatMap fun
    | .renderData data .textData => data
    | _ => []

omit [Platform] in
theorem textOf_append (signals signals' : List Signal) :
    textOf (signals ++ signals') = textOf signals ++ textOf signals' :=
  List.flatMap_append

omit [Platform] in
/-- The text shown in normal mode is that of the entries that are text. -/
theorem textOf_shown (es : List Entry) :
    textOf (shown false es) = (es.filterMap Entry.text?).flatten := by
  induction es with
  | nil => rfl
  | cons e es ih =>
      have first : textOf (shown false [e]) = e.text?.getD [] := by
        cases e with
        | text t => exact List.append_nil _
        | drawing s => cases s <;> rfl
      have split : shown false ([e] ++ es) = shown false [e] ++ shown false es :=
        List.flatMap_append
      rw [List.singleton_append] at split
      rw [split, textOf_append, first, ih]
      cases e <;> rfl

omit [Platform] in
/-- Behind its `ESC`, a complete sequence is text. -/
theorem esc_notMem_sequence (w : SequenceText) :
    ESC ∉ CSI :: (w.parameters ++ w.intermediate ++ [w.finalChar]) := by
  intro mem
  rcases List.mem_cons.mp mem with csi | inside
  · exact absurd csi (by decide)
  · rcases List.mem_append.mp inside with classes | final
    · rcases List.mem_append.mp classes with param | inter
      · exact absurd (w.wellFormed.1 ESC param) (by decide)
      · exact absurd (w.wellFormed.2 ESC inter) (by decide)
    · have isEsc := w.final
      rw [← List.mem_singleton.mp final] at isEsc
      exact absurd isEsc (by decide)

omit [Platform] in
theorem reads_sequences (items : List (SequenceText × Text)) :
    ∃ cmds, Reads (items.flatMap fun item => item.1.bytes ++ item.2.1) cmds [] := by
  induction items with
  | nil => exact ⟨[], .nil⟩
  | cons item items ih =>
      obtain ⟨cmds, read⟩ := ih
      have first := Reads.of_sequence item.1.wellFormed item.1.final
      have all := first.append ((Reads.of_text item.2.2).append read)
      rw [List.flatMap_cons, List.append_assoc]
      exact ⟨_, all⟩

omit [Platform] in
/-- Whatever the parser holds, such an input leaves no unfinished sequence: what
it holds is given up at the first `ESC`. -/
theorem reads_behind {p : CSIParser} (between : Between p) (item : SequenceText × Text)
    (items : List (SequenceText × Text)) :
    ∃ cmds, Reads (p.buffer ++ (item :: items).flatMap fun item => item.1.bytes ++ item.2.1)
      cmds [] := by
  rcases between.buffer with ⟨-, empty⟩ | ⟨-, -, unfinished⟩
  · rw [empty]
    exact reads_sequences (item :: items)
  · obtain ⟨cmds, read⟩ := reads_sequences items
    have behind := Reads.of_text (esc_notMem_sequence item.1)
    have all := Reads.token unfinished.esc
      (behind.append ((Reads.of_text item.2.2).append read))
    have bytes : p.buffer ++ (item :: items).flatMap (fun item => item.1.bytes ++ item.2.1) =
        p.buffer ++ [ESC] ++
          (CSI :: (item.1.parameters ++ item.1.intermediate ++ [item.1.finalChar]) ++
            (item.2.1 ++ items.flatMap fun item => item.1.bytes ++ item.2.1)) := by
      simp [SequenceText.bytes, introduced]
    rw [bytes]
    exact ⟨_, all⟩

/-- A call over such an input returns and shows the text before the first
sequence, and no other. -/
theorem processInput_mixed {h : TerminalHandler} (resting : Resting h)
    (normal : h.syncBuffer.synchronizedMode = false) (before : Text)
    (items : List (SequenceText × Text)) :
    ProcessInput (mixedInput before items) h (inputEffect (mixedInput before items) h) ∧
      textOf (view screen? (inputEffect (mixedInput before items) h).2) = before.1 := by
  have parts := textPart_append before.2 (items.flatMap fun item => item.1.bytes ++ item.2.1)
  have noText : textPart (items.flatMap fun item => item.1.bytes ++ item.2.1) = [] := by
    cases items with
    | nil => rfl
    | cons item items => rfl
  have ends : EndsAtOnce (mixedInput before items) h := by
    unfold mixedInput EndsAtOnce
    rw [parts.2]
    cases items with
    | nil => exact Or.inl rfl
    | cons item items =>
        obtain ⟨cmds, read⟩ := reads_behind resting.between item items
        exact Or.inr ⟨cmds, [], read, Or.inl rfl⟩
  refine ⟨(processInput_iff resting.between resting.text _ _).mpr ⟨ends, rfl⟩, ?_⟩
  have shows := inputEffect_steady resting (mixedInput before items)
    fun on => Bool.noConfusion (normal.symm.trans on)
  rw [shows, normal, textOf_shown, text?_inputItems, mixedInput, parts.1,
    noText, List.append_nil]

/-- **Text is lost.** One call in normal mode shows all the text of its input
exactly when no text follows a sequence. -/
theorem processInput_text_iff {h : TerminalHandler} (reachable : Reachable (fun _ => True) h)
    (normal : h.syncBuffer.synchronizedMode = false) (before : Text)
    (items : List (SequenceText × Text)) :
    (∃ r, ProcessInput (mixedInput before items) h r ∧
        textOf (view screen? r.2) = before.1 ++ items.flatMap fun item => item.2.1) ↔
      ∀ item ∈ items, item.2.1 = [] := by
  obtain ⟨returns, shown⟩ := processInput_mixed reachable.resting normal before items
  rw [← List.flatMap_eq_nil_iff]
  constructor
  · intro kept
    obtain ⟨r, returns', text⟩ := kept
    rw [Loop.Returns.unique returns' returns, shown] at text
    exact List.self_eq_append_right.mp text
  · intro none
    refine ⟨_, returns, ?_⟩
    rw [shown, none, List.append_nil]

/-- The sequence `ESC [ m`. -/
def sgrSequence : SequenceText := ⟨[], [], 0x6D, .nil, rfl⟩

omit [Platform] in
theorem processInput_text_iff_sgr :
    letI := Platform.qt6
    (∃ r, ProcessInput (mixedInput ⟨[0x61], by decide⟩ [(sgrSequence, ⟨[], by decide⟩)]) fresh r ∧
        textOf (view screen? r.2) =
          [0x61] ++ [(sgrSequence, (⟨[], by decide⟩ : Text))].flatMap fun item => item.2.1) ↔
      ∀ item ∈ [(sgrSequence, (⟨[], by decide⟩ : Text))], item.2.1 = [] :=
  letI := Platform.qt6
  processInput_text_iff (.new .newestFirst fun _ => 0) rfl ⟨[0x61], by decide⟩ _

omit [Platform] in
/-- A new handler loses the text `x` of `ESC [ m x`. -/
theorem processInput_loses_text :
    letI := Platform.qt6
    Reachable (fun _ => True) fresh ∧ fresh.syncBuffer.synchronizedMode = false ∧
      ¬ ∃ r, ProcessInput (mixedInput ⟨[], by decide⟩ [(sgrSequence, ⟨[0x78], by decide⟩)])
          fresh r ∧ textOf (view screen? r.2) = [0x78] := by
  let _ := Platform.qt6
  obtain ⟨returns, shown⟩ := processInput_mixed (new_resting .newestFirst fun _ => 0) rfl
    ⟨[], by decide⟩ [(sgrSequence, ⟨[0x78], by decide⟩)]
  refine ⟨.new _ _, rfl, fun kept => ?_⟩
  obtain ⟨r, returns', text⟩ := kept
  rw [Loop.Returns.unique returns' returns, shown] at text
  cases text

end

end TerminalHandler

end WindTerm

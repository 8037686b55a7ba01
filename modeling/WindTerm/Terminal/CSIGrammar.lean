import WindTerm.Terminal.CSIParser

/-!
# The language `CSIParser` reads

`Reads s cmds rest` is the grammar: the stream `s` is a sequence of tokens
followed by the unfinished sequence `rest`, and `cmds` are the commands of its
complete sequences. The second half connects it to the parser: in every state
between two bytes the parser is determined by the bytes it holds since `ESC`
(`Between`), and feeding `s` to a parser in its ground state does exactly what
`Reads` says (`reads_iff_feed`).
-/

namespace WindTerm

open Library

namespace CSIParser

/-! ## Sequences, tokens and streams -/

/-- A byte of the parameter part: a digit or `;`. -/
def isParameter (byte : UInt8) : Bool := isDigit byte || byte = semicolon

/-- The parameter list after one more byte of the parameter part. -/
def paramStep (params : List Int) (byte : UInt8) : List Int :=
  if byte = semicolon then params ++ [0]
  else if params = [] then [digitValue byte]
  else accumulate params byte

/-- The parameter list of a parameter part. -/
def readParams (ps : QByteArray) : List Int := ps.foldl paramStep []

/-- `ESC [`, a parameter part and intermediate bytes. -/
def introduced (ps is : QByteArray) : QByteArray := ESC :: CSI :: (ps ++ is)

/-- The parser after `introduced ps is`, with `queue` completed before. -/
def openCsi (ps is : QByteArray) (queue : List Command) : CSIParser where
  state := if is ≠ [] then .csiIntermediate else if ps ≠ [] then .csiParam else .csiEntry
  buffer := introduced ps is
  params := readParams ps
  intermediate := is
  completedCommands := queue

/-- The parser in its ground state. -/
def idle (queue : List Command) : CSIParser := { completedCommands := queue }

/-- The parser after an `ESC`. -/
def afterEscape (queue : List Command) : CSIParser :=
  { state := .escape, buffer := [ESC], completedCommands := queue }

/-- The command of the complete sequence `introduced ps is` with final byte
`fin`. -/
def sequenceCommand (ps is : QByteArray) (fin : UInt8) : Command :=
  (openCsi ps is []).buildCommand fin

/-- The byte cannot go on behind `introduced ps is` and does not complete it. -/
def Breaks (is : QByteArray) (byte : UInt8) : Prop :=
  isFinal byte = false ∧ isIntermediate byte = false ∧ (isParameter byte = true → is ≠ [])

/-- A parameter part and intermediate bytes of the right classes. -/
def WellFormed (ps is : QByteArray) : Prop :=
  (∀ b ∈ ps, isParameter b = true) ∧ ∀ b ∈ is, isIntermediate b = true

/-- What the parser reads in one go from its ground state, and the command
completed by it. -/
inductive Token : QByteArray → Option Command → Prop
  | text {b : UInt8} : b ≠ ESC → Token [b] none
  | escape {b : UInt8} : b ≠ CSI → Token [ESC, b] none
  | sequence {ps is : QByteArray} {fin : UInt8} :
      WellFormed ps is → isFinal fin = true →
      Token (introduced ps is ++ [fin]) (some (sequenceCommand ps is fin))
  | malformed {ps is : QByteArray} {b : UInt8} :
      WellFormed ps is → Breaks is b → Token (introduced ps is ++ [b]) none

/-- The bytes of a sequence that is not complete yet. -/
inductive Unfinished : QByteArray → Prop
  | escape : Unfinished [ESC]
  | introduced {ps is : QByteArray} : WellFormed ps is → Unfinished (introduced ps is)

/-- The stream is a sequence of tokens with the given commands, followed by the
given unfinished sequence, if any. -/
inductive Reads : QByteArray → List Command → QByteArray → Prop
  | nil : Reads [] [] []
  | unfinished {s : QByteArray} : Unfinished s → Reads s [] s
  | token {u s rest : QByteArray} {cmd : Option Command} {cmds : List Command} :
      Token u cmd → Reads s cmds rest → Reads (u ++ s) (cmd.toList ++ cmds) rest

theorem WellFormed.nil : WellFormed [] [] :=
  ⟨fun _ mem => (List.not_mem_nil mem).elim, fun _ mem => (List.not_mem_nil mem).elim⟩

theorem WellFormed.param {ps : QByteArray} {b : UInt8} (wf : WellFormed ps [])
    (param : isParameter b = true) : WellFormed (ps ++ [b]) [] := by
  refine ⟨fun c mem => ?_, wf.2⟩
  rcases List.mem_append.mp mem with before | last
  · exact wf.1 c before
  · rw [List.mem_singleton.mp last]
    exact param

theorem WellFormed.inter {ps is : QByteArray} {b : UInt8} (wf : WellFormed ps is)
    (inter : isIntermediate b = true) : WellFormed ps (is ++ [b]) := by
  refine ⟨wf.1, fun c mem => ?_⟩
  rcases List.mem_append.mp mem with before | last
  · exact wf.2 c before
  · rw [List.mem_singleton.mp last]
    exact inter

/-- A stream that ends between two sequences can be followed by any stream. -/
theorem Reads.append {s s' rest : QByteArray} {cmds cmds' : List Command}
    (first : Reads s cmds []) (second : Reads s' cmds' rest) :
    Reads (s ++ s') (cmds ++ cmds') rest := by
  generalize ended : ([] : QByteArray) = tail at first
  induction first with
  | nil => exact second
  | unfinished h =>
      subst ended
      cases h
  | token tok _ ih =>
      rw [List.append_assoc, List.append_assoc]
      exact .token tok (ih ended)

/-- Text without `ESC` is a sequence of tokens without commands. -/
theorem Reads.of_text {s : QByteArray} (text : ESC ∉ s) : Reads s [] [] := by
  induction s with
  | nil => exact .nil
  | cons b s ih =>
      have head : b ≠ ESC := fun same => text (same ▸ List.mem_cons_self)
      have tail : ESC ∉ s := fun mem => text (List.mem_cons_of_mem b mem)
      exact .token (.text head) (ih tail)

theorem Reads.of_sequence {ps is : QByteArray} {fin : UInt8} (wf : WellFormed ps is)
    (final : isFinal fin = true) :
    Reads (CSIParser.introduced ps is ++ [fin]) [sequenceCommand ps is fin] [] := by
  have read := Reads.token (.sequence wf final) .nil
  simpa using read

theorem Unfinished.head {s : QByteArray} (unfinished : Unfinished s) : ∃ s', s = ESC :: s' := by
  cases unfinished with
  | escape => exact ⟨[], rfl⟩
  | introduced => exact ⟨_, rfl⟩

/-- An `ESC` makes the parser drop the sequence it holds. -/
theorem Unfinished.esc {s : QByteArray} (unfinished : Unfinished s) : Token (s ++ [ESC]) none := by
  cases unfinished with
  | escape => exact .escape (by decide)
  | introduced wf => exact .malformed wf ⟨rfl, rfl, fun param => absurd param (by decide)⟩

/-- The rest of a stream is empty or an unfinished sequence. -/
theorem Reads.rest {s rest : QByteArray} {cmds : List Command} (read : Reads s cmds rest) :
    rest = [] ∨ Unfinished rest := by
  induction read with
  | nil => exact Or.inl rfl
  | unfinished h => exact Or.inr h
  | token _ _ ih => exact ih

/-! ## Byte classes -/

theorem ne_semicolon_of_isDigit {b : UInt8} (digit : isDigit b = true) : b ≠ semicolon := by
  intro same
  subst same
  exact absurd digit (by decide)

theorem isParameter_of_isDigit {b : UInt8} (digit : isDigit b = true) :
    isParameter b = true := by
  rw [isParameter, digit, Bool.true_or]

theorem isParameter_semicolon : isParameter semicolon = true := by decide

theorem isDigit_of_isIntermediate {b : UInt8} (inter : isIntermediate b = true) :
    isDigit b = false ∧ b ≠ semicolon := by
  simp only [isIntermediate, isDigit, semicolon, Bool.and_eq_true, decide_eq_true_eq,
    Bool.and_eq_false_iff, decide_eq_false_iff_not, UInt8.le_iff_toNat_le, ne_eq,
    ← UInt8.toNat_inj] at inter ⊢
  simp only [UInt8.reduceToNat] at inter ⊢
  omega

theorem isFinal_classes {b : UInt8} (final : isFinal b = true) :
    isDigit b = false ∧ b ≠ semicolon ∧ isIntermediate b = false := by
  simp only [isFinal, isIntermediate, isDigit, semicolon, Bool.and_eq_true, decide_eq_true_eq,
    Bool.and_eq_false_iff, decide_eq_false_iff_not, UInt8.le_iff_toNat_le, ne_eq,
    ← UInt8.toNat_inj] at final ⊢
  simp only [UInt8.reduceToNat] at final ⊢
  omega

/-! ## What one byte does -/

theorem dispatch_idle {b : UInt8} (text : b ≠ ESC) (queue : List Command) :
    dispatch b (idle queue) = (idle queue, []) := by
  simp [dispatch, idle, handleGround, text]

theorem dispatch_idle_esc (queue : List Command) :
    dispatch ESC (idle queue) = (afterEscape queue, []) := rfl

theorem dispatch_afterEscape {b : UInt8} (other : b ≠ CSI) (queue : List Command) :
    dispatch b (afterEscape queue) = (idle queue, []) := by
  simp [dispatch, afterEscape, handleEscape, other, clearState, idle]

theorem dispatch_afterEscape_csi (queue : List Command) :
    dispatch CSI (afterEscape queue) = (openCsi [] [] queue, []) := rfl

theorem readParams_snoc (ps : QByteArray) (b : UInt8) :
    readParams (ps ++ [b]) = paramStep (readParams ps) b := by
  rw [readParams, List.foldl_append]
  rfl

theorem paramStep_ne_nil (params : List Int) (b : UInt8) : paramStep params b ≠ [] := by
  unfold paramStep
  split
  · simp
  · split
    · simp
    · rename_i nonempty
      unfold accumulate
      split
      · exact nonempty
      · simp

theorem readParams_eq_nil {ps : QByteArray} : readParams ps = [] ↔ ps = [] := by
  refine ⟨fun empty => ?_, fun empty => empty ▸ rfl⟩
  rcases List.eq_nil_or_concat ps with nil | ⟨init, b, concat⟩
  · exact nil
  · rw [concat, List.concat_eq_append, readParams_snoc] at empty
    exact (paramStep_ne_nil _ _ empty).elim

/-- A parameter byte extends the parameter part. -/
theorem dispatch_openCsi_param {b : UInt8} (param : isParameter b = true) (ps : QByteArray)
    (queue : List Command) :
    dispatch b (openCsi ps [] queue) = (openCsi (ps ++ [b]) [] queue, []) := by
  have cases : isDigit b = true ∨ (isDigit b = false ∧ b = semicolon) := by
    unfold isParameter at param
    cases digit : isDigit b with
    | true => exact Or.inl rfl
    | false => exact Or.inr ⟨rfl, by simpa [digit] using param⟩
  by_cases empty : ps = []
  · subst empty
    rcases cases with digit | ⟨digit, rfl⟩
    · simp [dispatch, openCsi, handleCSIEntry, digit, introduced, readParams, paramStep,
        ne_semicolon_of_isDigit digit]
    · simp [dispatch, openCsi, handleCSIEntry, digit, introduced, readParams, paramStep]
  · have nonempty : readParams ps ≠ [] := fun nil => empty (readParams_eq_nil.mp nil)
    rcases cases with digit | ⟨digit, rfl⟩
    · simp [dispatch, openCsi, handleCSIParam, digit, introduced, readParams_snoc, paramStep,
        ne_semicolon_of_isDigit digit, empty, nonempty]
    · simp [dispatch, openCsi, handleCSIParam, digit, introduced, readParams_snoc, paramStep,
        empty]

/-- An intermediate byte extends the intermediate bytes. -/
theorem dispatch_openCsi_inter {b : UInt8} (inter : isIntermediate b = true)
    (ps is : QByteArray) (queue : List Command) :
    dispatch b (openCsi ps is queue) = (openCsi ps (is ++ [b]) queue, []) := by
  obtain ⟨digit, ne⟩ := isDigit_of_isIntermediate inter
  by_cases noInter : is = []
  · subst noInter
    by_cases noParam : ps = []
    · simp [dispatch, openCsi, handleCSIEntry, digit, ne, inter, introduced, noParam]
    · simp [dispatch, openCsi, handleCSIParam, digit, ne, inter, introduced, noParam]
  · simp [dispatch, openCsi, handleCSIIntermediate, inter, introduced, noInter]

/-- A final byte completes the sequence. -/
theorem dispatch_openCsi_final {b : UInt8} (final : isFinal b = true) (ps is : QByteArray)
    (queue : List Command) :
    dispatch b (openCsi ps is queue) =
      (idle (queue ++ [sequenceCommand ps is b]), [.commandParsed (sequenceCommand ps is b)]) := by
  obtain ⟨digit, ne, inter⟩ := isFinal_classes final
  have completes : completeCommand b (openCsi ps is queue) =
      (idle (queue ++ [sequenceCommand ps is b]),
        [.commandParsed (sequenceCommand ps is b)]) := rfl
  rw [← completes]
  by_cases noInter : is = []
  · subst noInter
    by_cases noParam : ps = []
    · simp [dispatch, openCsi, handleCSIEntry, digit, ne, inter, final, noParam]
    · simp [dispatch, openCsi, handleCSIParam, digit, ne, inter, final, noParam]
  · simp [dispatch, openCsi, handleCSIIntermediate, inter, final, noInter]

/-- Any other byte gives the sequence up. -/
theorem dispatch_openCsi_breaks {is : QByteArray} {b : UInt8} (breaks : Breaks is b)
    (ps : QByteArray) (queue : List Command) :
    dispatch b (openCsi ps is queue) = (idle queue, [.parseError (introduced ps is)]) := by
  obtain ⟨final, inter, param⟩ := breaks
  by_cases noInter : is = []
  · subst noInter
    have notParam : isParameter b = false := by
      cases isParam : isParameter b with
      | true => exact (param isParam rfl).elim
      | false => rfl
    simp only [isParameter, Bool.or_eq_false_iff, decide_eq_false_iff_not] at notParam
    by_cases noParam : ps = []
    · simp [dispatch, openCsi, handleCSIEntry, notParam, inter, final, noParam, clearState, idle]
    · simp [dispatch, openCsi, handleCSIParam, notParam, inter, final, noParam, clearState, idle]
  · simp [dispatch, openCsi, handleCSIIntermediate, inter, final, noInter, clearState, idle]

/-! ## The states between two bytes -/

/-- The states a parser can be in between two bytes: it is determined by the
bytes it holds and its queue. -/
inductive Between : CSIParser → Prop
  | idle (queue : List Command) : Between (idle queue)
  | afterEscape (queue : List Command) : Between (afterEscape queue)
  | openCsi {ps is : QByteArray} (wf : WellFormed ps is) (queue : List Command) :
      Between (openCsi ps is queue)

/-- What one byte does to a parser between two bytes: it is skipped as text,
extends the sequence held, completes it, or makes the parser drop it. -/
inductive Steps (b : UInt8) (p : CSIParser) : CSIParser → List Signal → Prop
  | extend {p' : CSIParser} :
      Between p' → p'.buffer = p.buffer ++ [b] → p'.completedCommands = p.completedCommands →
      Steps b p p' []
  | complete {cmd : Command} :
      Token (p.buffer ++ [b]) (some cmd) →
      Steps b p (CSIParser.idle (p.completedCommands ++ [cmd])) [.commandParsed cmd]
  | drop {signals : List Signal} :
      Token (p.buffer ++ [b]) none → (∀ s ∈ signals, s = .parseError p.buffer) →
      Steps b p (CSIParser.idle p.completedCommands) signals

/-- The inversion of `dispatch`. -/
theorem Between.steps {p : CSIParser} (between : Between p) (b : UInt8) :
    Steps b p (dispatch b p).1 (dispatch b p).2 := by
  cases between with
  | idle queue =>
      by_cases esc : b = ESC
      · subst esc
        rw [dispatch_idle_esc]
        exact .extend (.afterEscape queue) rfl rfl
      · rw [dispatch_idle esc]
        exact .drop (.text esc) fun _ mem => (List.not_mem_nil mem).elim
  | afterEscape queue =>
      by_cases csi : b = CSI
      · subst csi
        rw [dispatch_afterEscape_csi]
        exact .extend (.openCsi .nil queue) rfl rfl
      · rw [dispatch_afterEscape csi]
        exact .drop (.escape csi) fun _ mem => (List.not_mem_nil mem).elim
  | @openCsi ps is wf queue =>
      cases final : isFinal b with
      | true =>
          rw [dispatch_openCsi_final final]
          exact .complete (.sequence wf final)
      | false =>
          cases inter : isIntermediate b with
          | true =>
              rw [dispatch_openCsi_inter inter]
              refine .extend (.openCsi (wf.inter inter) queue) ?_ rfl
              simp [CSIParser.openCsi, introduced]
          | false =>
              by_cases goesOn : isParameter b = true ∧ is = []
              · obtain ⟨param, rfl⟩ := goesOn
                rw [dispatch_openCsi_param param]
                refine .extend (.openCsi (wf.param param) queue) ?_ rfl
                simp [CSIParser.openCsi, introduced]
              · have breaks : Breaks is b :=
                  ⟨final, inter, fun param noInter => goesOn ⟨param, noInter⟩⟩
                rw [dispatch_openCsi_breaks breaks]
                exact .drop (.malformed wf breaks) fun _ mem => List.mem_singleton.mp mem

theorem Steps.between {b : UInt8} {p p' : CSIParser} {signals : List Signal}
    (step : Steps b p p' signals) : Between p' := by
  cases step with
  | extend between _ _ => exact between
  | complete _ => exact .idle _
  | drop _ _ => exact .idle _

theorem Between.after {p : CSIParser} (between : Between p) (s : QByteArray) :
    Between (feed dispatch s p).1 :=
  feed_invariant Between (fun b _ here => (here.steps b).between) s between

/-- The bytes held are none, or an unfinished sequence. -/
theorem Between.buffer {p : CSIParser} (between : Between p) :
    (p.state = .ground ∧ p.buffer = []) ∨
      (p.state ≠ .ground ∧ p.buffer ≠ [] ∧ Unfinished p.buffer) := by
  cases between with
  | idle queue => exact Or.inl ⟨rfl, rfl⟩
  | afterEscape queue =>
      exact Or.inr ⟨ParseState.noConfusion, List.cons_ne_nil _ _, .escape⟩
  | @openCsi ps is wf queue =>
      refine Or.inr ⟨?_, List.cons_ne_nil _ _, .introduced wf⟩
      unfold CSIParser.openCsi
      dsimp only
      split
      · exact ParseState.noConfusion
      · split <;> exact ParseState.noConfusion

/-- The queue does not matter. -/
theorem Between.withQueue {p : CSIParser} (between : Between p) (queue : List Command) :
    Between { p with completedCommands := queue } := by
  cases between with
  | idle _ => exact .idle queue
  | afterEscape _ => exact .afterEscape queue
  | openCsi wf _ => exact .openCsi wf queue

/-! ## Replaying the bytes held -/

theorem feed_params {ps' : QByteArray} (params : ∀ b ∈ ps', isParameter b = true)
    (ps : QByteArray) (queue : List Command) :
    feed dispatch ps' (openCsi ps [] queue) = (openCsi (ps ++ ps') [] queue, []) := by
  induction ps' generalizing ps with
  | nil => rw [List.append_nil, feed_nil]
  | cons b ps' ih =>
      rw [feed_cons, dispatch_openCsi_param (params b List.mem_cons_self), Traced.andThen,
        ih (fun c mem => params c (List.mem_cons_of_mem b mem)), List.append_assoc]
      rfl

theorem feed_inters {is' : QByteArray} (inters : ∀ b ∈ is', isIntermediate b = true)
    (ps is : QByteArray) (queue : List Command) :
    feed dispatch is' (openCsi ps is queue) = (openCsi ps (is ++ is') queue, []) := by
  induction is' generalizing is with
  | nil => rw [List.append_nil, feed_nil]
  | cons b is' ih =>
      rw [feed_cons, dispatch_openCsi_inter (inters b List.mem_cons_self), Traced.andThen,
        ih (fun c mem => inters c (List.mem_cons_of_mem b mem)), List.append_assoc]
      rfl

theorem feed_introduced {ps is : QByteArray} (wf : WellFormed ps is) (queue : List Command) :
    feed dispatch (introduced ps is) (idle queue) = (openCsi ps is queue, []) := by
  have start : feed dispatch (introduced ps is) (idle queue) =
      feed dispatch (ps ++ is) (openCsi [] [] queue) := by
    rw [introduced, feed_cons, dispatch_idle_esc, Traced.andThen, feed_cons,
      dispatch_afterEscape_csi, Traced.andThen]
    rfl
  rw [start, feed_append, feed_params wf.1, Traced.andThen, feed_inters wf.2]
  rfl

/-- Feeding the bytes a parser holds to a parser in its ground state leads back
to it, and emits nothing on the way. -/
theorem Between.replay {p : CSIParser} (between : Between p) :
    feed dispatch p.buffer (CSIParser.idle p.completedCommands) = (p, []) := by
  cases between with
  | idle queue => rfl
  | afterEscape queue => rfl
  | openCsi wf queue => exact feed_introduced wf queue

/-- So it makes no difference to put the bytes held in front of what comes. -/
theorem Between.feed_buffer_append {p : CSIParser} (between : Between p) (s : QByteArray) :
    feed dispatch (p.buffer ++ s) (CSIParser.idle p.completedCommands) =
      feed dispatch s p := by
  rw [feed_append, between.replay]
  rfl

/-! ## The parser implements the grammar -/

/-- The commands announced by a list of signals. -/
def announced (signals : List Signal) : List Command :=
  signals.filterMap fun
    | .commandParsed cmd => some cmd
    | .parseError _ => none

theorem announced_append (signals signals' : List Signal) :
    announced (signals ++ signals') = announced signals ++ announced signals' :=
  List.filterMap_append

theorem announced_parseErrors {signals : List Signal} {context : QByteArray}
    (errors : ∀ s ∈ signals, s = .parseError context) : announced signals = [] := by
  rw [announced, List.filterMap_eq_nil_iff]
  intro s mem
  rw [errors s mem]

/-- Feeding `s` to a parser that holds `p.buffer` reads `p.buffer ++ s`. -/
theorem Between.reads {p : CSIParser} (between : Between p) (s : QByteArray) :
    ∃ cmds, Reads (p.buffer ++ s) cmds (feed dispatch s p).1.buffer ∧
      (feed dispatch s p).1.completedCommands = p.completedCommands ++ cmds ∧
      announced (feed dispatch s p).2 = cmds := by
  induction s generalizing p with
  | nil =>
      refine ⟨[], ?_, (List.append_nil _).symm, rfl⟩
      rw [List.append_nil, feed_nil]
      rcases between.buffer with ⟨-, empty⟩ | ⟨-, -, unfinished⟩
      · rw [empty]
        exact .nil
      · exact .unfinished unfinished
  | cons b s ih =>
      have step := between.steps b
      rw [feed_cons]
      simp only [Traced.andThen_fst, Traced.andThen_snd]
      generalize dispatch b p = next at step
      rcases next with ⟨p', signals⟩
      dsimp only at step ⊢
      have split : p.buffer ++ b :: s = (p.buffer ++ [b]) ++ s := by simp
      obtain ⟨cmds, read, queue, signalled⟩ := ih step.between
      cases step with
      | extend _ buffer same =>
          refine ⟨cmds, ?_, by rw [queue, same], by rw [List.nil_append, signalled]⟩
          rw [split, ← buffer]
          exact read
      | @complete cmd token =>
          refine ⟨cmd :: cmds, ?_, ?_, ?_⟩
          · rw [split]
            exact .token token read
          · rw [queue, CSIParser.idle, List.append_assoc]
            rfl
          · rw [announced_append, signalled]
            rfl
      | drop token errors =>
          refine ⟨cmds, ?_, queue, ?_⟩
          · rw [split]
            exact .token token read
          · rw [announced_append, announced_parseErrors errors, signalled, List.nil_append]

/-- The parser that has read a stream with the unfinished sequence `rest` at
its end. -/
theorem Between.eq_of_buffer {p p' : CSIParser} (between : Between p) (between' : Between p')
    (buffer : p.buffer = p'.buffer) (queue : p.completedCommands = p'.completedCommands) :
    p = p' := by
  have replayed := between.replay
  rw [buffer, queue, between'.replay] at replayed
  exact (congrArg Prod.fst replayed).symm

/-- A token leads from the ground state to the ground state. -/
theorem Token.run {u : QByteArray} {cmd : Option Command} (token : Token u cmd)
    (queue : List Command) :
    (feed dispatch u (idle queue)).1 = idle (queue ++ cmd.toList) ∧
      announced (feed dispatch u (idle queue)).2 = cmd.toList := by
  cases token with
  | text ne =>
      rw [feed_singleton, dispatch_idle ne]
      exact ⟨by rw [Option.toList_none, List.append_nil], rfl⟩
  | escape ne =>
      simp [Traced.andThen, dispatch_idle_esc, dispatch_afterEscape ne, announced]
  | sequence wf final =>
      rw [feed_append, feed_introduced wf, Traced.andThen, feed_singleton,
        dispatch_openCsi_final final]
      exact ⟨rfl, rfl⟩
  | malformed wf breaks =>
      rw [feed_append, feed_introduced wf, Traced.andThen, feed_singleton,
        dispatch_openCsi_breaks breaks]
      exact ⟨by rw [Option.toList_none, List.append_nil], rfl⟩

/-- Reading a stream from the ground state completes and announces its
commands and holds its rest. -/
theorem Reads.run {s rest : QByteArray} {cmds : List Command} (read : Reads s cmds rest)
    (queue : List Command) :
    (feed dispatch s (idle queue)).1.buffer = rest ∧
      (feed dispatch s (idle queue)).1.completedCommands = queue ++ cmds ∧
      announced (feed dispatch s (idle queue)).2 = cmds := by
  induction read generalizing queue with
  | nil => exact ⟨rfl, (List.append_nil queue).symm, rfl⟩
  | @unfinished s unfinished =>
      cases unfinished with
      | escape => exact ⟨rfl, (List.append_nil queue).symm, rfl⟩
      | introduced wf =>
          rw [feed_introduced wf]
          exact ⟨rfl, (List.append_nil queue).symm, rfl⟩
  | @token u s rest cmd cmds token _ ih =>
      obtain ⟨state, signals⟩ := token.run queue
      obtain ⟨buffer, completed, later⟩ := ih (queue ++ cmd.toList)
      rw [feed_append]
      simp only [Traced.andThen_fst, Traced.andThen_snd, state]
      refine ⟨buffer, ?_, ?_⟩
      · rw [completed, List.append_assoc]
      · rw [announced_append, signals, later]

/-- **The parser implements the grammar.** Feeding `s` to a parser in its
ground state completes the commands `cmds` and leaves it holding `rest`
exactly when the stream reads so. -/
theorem reads_iff_feed {s rest : QByteArray} {cmds queue : List Command} :
    Reads s cmds rest ↔
      (feed dispatch s (idle queue)).1.buffer = rest ∧
        (feed dispatch s (idle queue)).1.completedCommands = queue ++ cmds := by
  refine ⟨fun read => ⟨(read.run queue).1, (read.run queue).2.1⟩, fun fed => ?_⟩
  obtain ⟨cmds', read, completed, -⟩ := (Between.idle queue).reads s
  have same : cmds' = cmds := by
    rw [fed.2] at completed
    exact (List.append_cancel_left completed).symm
  rw [same, fed.1] at read
  exact read

/-- Every stream is read, -/
theorem Reads.total (s : QByteArray) : ∃ cmds rest, Reads s cmds rest := by
  obtain ⟨cmds, read, -⟩ := (Between.idle []).reads s
  exact ⟨cmds, _, read⟩

/-- and in one way only. -/
theorem Reads.unique {s rest rest' : QByteArray} {cmds cmds' : List Command}
    (read : Reads s cmds rest) (read' : Reads s cmds' rest') : cmds = cmds' ∧ rest = rest' := by
  obtain ⟨buffer, queue, -⟩ := read.run []
  obtain ⟨buffer', queue', -⟩ := read'.run []
  rw [List.nil_append] at queue queue'
  exact ⟨queue.symm.trans queue', buffer.symm.trans buffer'⟩

end CSIParser

end WindTerm

import WindTerm.Terminal.Entries

/-!
# What the rendering signals mean

`interpret` is the meaning of the cursor and erase commands: a cursor on a plane
of rows and columns and the list of erase operations so far. A `Consumer` only
sees the signals of a handler, and takes `cursorPositionChanged` for the target
of a move, `clearScreenRequested` for an erased display and a `RESIZE` item for
a resized window. What it makes of a command is `drawn`
(`processCommands_read`). `consumer_agrees_iff` compares the two over any list
of commands: the handler emits the distance of a relative move as if it were a
target, and an erased line as an erased display and a resized window.
-/

namespace WindTerm

open Library CSIParser SynchronizedBuffer

namespace TerminalHandler

/-! ## The meaning of the commands -/

/-- An erase operation, with its mode. -/
inductive Erase where
  | display (mode : Int)
  | line (mode : Int)
  deriving DecidableEq, Repr

/-- The row and the column of the cursor, and the erase operations so far. -/
structure Screen where
  cursor : Int × Int
  erases : List Erase := []
  deriving DecidableEq, Repr

/-- The nine cursor commands. -/
def isMove (cmd : Command) : Bool :=
  match cmd.type with
  | .cursorUp | .cursorDown | .cursorForward | .cursorBackward | .cursorNextLine
  | .cursorPrevLine | .cursorHorizontal | .cursorPosition | .horizontalPos => true
  | _ => false

/-- The two erase commands. -/
def isErase (cmd : Command) : Bool :=
  match cmd.type with
  | .eraseDisplay | .eraseLine => true
  | _ => false

/-- The cursor after a cursor command at `pos`. Rows and columns of parameters
are counted from 1. -/
def moved (pos : Int × Int) (cmd : Command) : Int × Int :=
  let n := cmd.params.head?.getD 1
  match cmd.type with
  | .cursorUp => (pos.1 - n, pos.2)
  | .cursorDown => (pos.1 + n, pos.2)
  | .cursorForward => (pos.1, pos.2 + n)
  | .cursorBackward => (pos.1, pos.2 - n)
  | .cursorNextLine => (pos.1 + n, 0)
  | .cursorPrevLine => (pos.1 - n, 0)
  | .cursorHorizontal => (pos.1, max n 1 - 1)
  | .cursorPosition | .horizontalPos =>
      (max (cmd.params[0]?.getD 1) 1 - 1, max (cmd.params[1]?.getD 1) 1 - 1)
  | _ => pos

/-- The erase operation of an erase command. -/
def erased (cmd : Command) : Erase :=
  let mode := cmd.params.head?.getD 0
  if cmd.type = .eraseLine then .line mode else .display mode

/-- The meaning of a command. -/
def interpret (s : Screen) (cmd : Command) : Screen :=
  if isMove cmd then { s with cursor := moved s.cursor cmd }
  else if isErase cmd then { s with erases := s.erases ++ [erased cmd] }
  else s

/-! ## The consumer -/

/-- What a consumer of the signals holds. -/
structure Consumer extends Screen where
  resizes : Nat := 0

/-- A consumer reads a signal. -/
def Consumer.read (c : Consumer) : Signal → Consumer
  | .cursorPositionChanged row column => { c with cursor := (row, column) }
  | .clearScreenRequested mode => { c with erases := c.erases ++ [.display mode] }
  | .renderData _ .resize => { c with resizes := c.resizes + 1 }
  | _ => c

/-- A consumer reads what a handler puts on the screen. -/
def Consumer.readAll (c : Consumer) (tr : List (Event Mutex Act)) : Consumer :=
  (view screen? tr).foldl read c

theorem Consumer.readAll_append (c : Consumer) (tr tr' : List (Event Mutex Act)) :
    c.readAll (tr ++ tr') = (c.readAll tr).readAll tr' := by
  rw [readAll, view_append, List.foldl_append]
  rfl

/-- What a consumer makes of a command. -/
def drawn (s : Screen) (cmd : Command) : Screen :=
  if isMove cmd then { s with cursor := cursorTarget cmd }
  else if isErase cmd then
    { s with erases := s.erases ++ [.display (cmd.params.head?.getD 0)] }
  else s

theorem effect_of_isMove {cmd : Command} (move : isMove cmd = true) :
    effect cmd =
      .draw { type := .cursorMove, param1 := (cursorTarget cmd).1, param2 := (cursorTarget cmd).2 }
        (.cursorPositionChanged (cursorTarget cmd).1 (cursorTarget cmd).2) := by
  rcases cmd with ⟨type, params, intermediate, finalChar, isPrivate⟩
  cases type <;> first | rfl | cases move

theorem effect_of_isErase {cmd : Command} (erase : isErase cmd = true) :
    effect cmd =
      .draw { type := if cmd.type = .eraseDisplay then .clearScreen else .resize
              param1 := cmd.params.head?.getD 0 }
        (.clearScreenRequested (cmd.params.head?.getD 0)) := by
  rcases cmd with ⟨type, params, intermediate, finalChar, isPrivate⟩
  cases type <;> first | rfl | cases erase

section

variable [Platform]

theorem writeItem_normal {h : TerminalHandler} (normal : h.syncBuffer.synchronizedMode = false)
    (item : BufferItem) :
    view screen? (writeItem item h).2 = [.renderData item.data item.type] ∧
      (writeItem item h).1.syncBuffer.synchronizedMode = false := by
  have steady : Steady [item] h := fun on => by cases normal.symm.trans on
  obtain ⟨seen, -, mode, -⟩ := writeItem_steady steady
  rw [normal] at seen mode
  exact ⟨seen, mode⟩

/-- Text on its way does not change what a consumer holds. -/
theorem flushPendingText_read {h : TerminalHandler}
    (normal : h.syncBuffer.synchronizedMode = false) (c : Consumer) :
    c.readAll h.flushPendingText.2 = c ∧
      h.flushPendingText.1.syncBuffer.synchronizedMode = false := by
  unfold flushPendingText
  split
  · exact ⟨rfl, normal⟩
  · obtain ⟨seen, mode⟩ :=
      writeItem_normal normal { type := .textData, data := h.pendingText }
    refine ⟨?_, mode⟩
    rw [Traced.andThen_snd, List.append_nil, Consumer.readAll, seen]
    rfl

theorem drawItem_read {h : TerminalHandler} (normal : h.syncBuffer.synchronizedMode = false)
    {item : BufferItem} {signal : Signal} (screen : isScreen signal = true) (c : Consumer) :
    c.readAll (drawItem item signal h).2 =
        (c.read (.renderData item.data item.type)).read signal ∧
      (drawItem item signal h).1.syncBuffer.synchronizedMode = false := by
  obtain ⟨flushed, normal'⟩ := flushPendingText_read normal c
  obtain ⟨seen, mode⟩ := writeItem_normal normal' item
  refine ⟨?_, mode⟩
  unfold drawItem
  rw [Traced.andThen_snd, Traced.andThen_snd, Consumer.readAll_append, Consumer.readAll_append,
    flushed, Consumer.readAll, Consumer.readAll, seen]
  change (view screen? [.act (.emit signal)]).foldl Consumer.read _ = _
  rw [view_act, screen?, if_pos screen]
  rfl

/-- What a consumer makes of one cursor or erase command in normal mode. -/
theorem processCommand_read {h : TerminalHandler}
    (normal : h.syncBuffer.synchronizedMode = false) {cmd : Command}
    (draws : isMove cmd = true ∨ isErase cmd = true) (c : Consumer) :
    (c.readAll (processCommand cmd h).2).toScreen = drawn c.toScreen cmd ∧
      (processCommand cmd h).1.syncBuffer.synchronizedMode = false := by
  have executed : (processCommand cmd h).1 = ((effect cmd).run h).1 ∧
      c.readAll (processCommand cmd h).2 = c.readAll ((effect cmd).run h).2 := by
    rw [← executeCommand_eq]
    exact ⟨rfl, rfl⟩
  rw [executed.1, executed.2]
  by_cases move : isMove cmd = true
  · rw [effect_of_isMove move]
    have screen : isScreen (.cursorPositionChanged (cursorTarget cmd).1 (cursorTarget cmd).2) =
        true := rfl
    obtain ⟨read, mode⟩ := drawItem_read normal screen c
    refine ⟨?_, mode⟩
    rw [Effect.run, read, drawn, if_pos move]
    rfl
  · have erase : isErase cmd = true := draws.resolve_left move
    rw [effect_of_isErase erase]
    have screen : isScreen (.clearScreenRequested (cmd.params.head?.getD 0)) = true := rfl
    obtain ⟨read, mode⟩ := drawItem_read normal screen c
    refine ⟨?_, mode⟩
    rw [Effect.run, read, drawn, if_neg move, if_pos erase]
    split <;> rfl

/-- What a consumer makes of a list of them. -/
theorem processCommands_read {h : TerminalHandler}
    (normal : h.syncBuffer.synchronizedMode = false) {cmds : List Command}
    (draws : ∀ cmd ∈ cmds, isMove cmd = true ∨ isErase cmd = true) (c : Consumer) :
    (c.readAll (processCommands cmds h).2).toScreen = cmds.foldl drawn c.toScreen := by
  induction cmds generalizing h c with
  | nil => rfl
  | cons cmd cmds ih =>
      obtain ⟨read, normal'⟩ := processCommand_read normal (draws cmd List.mem_cons_self) c
      have rest := ih normal' (fun cmd' mem => draws cmd' (List.mem_cons_of_mem cmd mem))
        (c.readAll (processCommand cmd h).2)
      rw [read] at rest
      change (c.readAll ((processCommand cmd h).2 ++ _)).toScreen = _
      rw [Consumer.readAll_append]
      exact rest

end

/-! ## Where the two agree -/

/-- The parameters are values of `int`, without the one that has no negation. -/
def InRange (cmd : Command) : Prop := ∀ n ∈ cmd.params, -2 ^ 31 < n ∧ n < 2 ^ 31

/-- At `pos`, what the handler emits for a cursor command is the target: the
command is an absolute one, or the cursor is where a distance is a target. -/
def EmitsTarget (pos : Int × Int) (cmd : Command) : Prop :=
  match cmd.type with
  | .cursorUp | .cursorDown | .cursorForward | .cursorBackward => pos = (0, 0)
  | .cursorNextLine | .cursorPrevLine => pos.1 = 0
  | .cursorHorizontal => pos.1 = 0 ∧ 1 ≤ cmd.params.head?.getD 1
  | _ => True

theorem InRange.head {cmd : Command} (inRange : InRange cmd) :
    -2 ^ 31 < cmd.params.head?.getD 1 ∧ cmd.params.head?.getD 1 < 2 ^ 31 := by
  cases first : cmd.params.head? with
  | none => exact ⟨by decide, by decide⟩
  | some n => exact inRange n (List.mem_of_mem_head? first)

theorem cursorTarget_eq_iff {cmd : Command} (move : isMove cmd = true) (inRange : InRange cmd)
    (pos : Int × Int) : cursorTarget cmd = moved pos cmd ↔ EmitsTarget pos cmd := by
  obtain ⟨low, high⟩ := inRange.head
  rcases pos with ⟨row, column⟩
  have negated : int32 (-(cmd.params.head?.getD 1)) = -(cmd.params.head?.getD 1) :=
    int32_of_range (by omega) (by omega)
  have counted : int32 (cmd.params.head?.getD 1 - 1) = cmd.params.head?.getD 1 - 1 :=
    int32_of_range (by omega) (by omega)
  have clamped (n : Int) : (if 0 < n then n - 1 else 0) = max n 1 - 1 := by
    split <;> omega
  rcases cmd with ⟨type, params, intermediate, finalChar, isPrivate⟩
  cases type
  case cursorHorizontal =>
    simp only [cursorTarget, moved, EmitsTarget, counted, Prod.mk.injEq]
    omega
  case cursorPosition | horizontalPos =>
    simp only [cursorTarget, moved, EmitsTarget, clamped]
  case cursorUp | cursorDown | cursorForward | cursorBackward | cursorNextLine | cursorPrevLine =>
    simp only [cursorTarget, moved, EmitsTarget, negated, Prod.mk.injEq, and_true]
    omega
  all_goals cases move

theorem erases_foldl {step : Screen → Command → Screen} {mark : Command → Erase}
    (each : ∀ s cmd, (step s cmd).erases = s.erases ++ if isErase cmd then [mark cmd] else [])
    (cmds : List Command) (s : Screen) :
    (cmds.foldl step s).erases = s.erases ++ (cmds.filter isErase).map mark := by
  induction cmds generalizing s with
  | nil => exact (List.append_nil _).symm
  | cons cmd cmds ih =>
      rw [List.foldl_cons, ih, each, List.append_assoc, List.filter_cons]
      split <;> rfl

theorem not_isErase_of_isMove {cmd : Command} (move : isMove cmd = true) : isErase cmd = false := by
  rcases cmd with ⟨type, params, intermediate, finalChar, isPrivate⟩
  cases type <;> first | rfl | cases move

/-- A command that moves adds no erase operation. -/
theorem step_erases (target : Screen → Command → Int × Int) (mark : Command → Erase) (s : Screen)
    (cmd : Command) :
    (if isMove cmd then { s with cursor := target s cmd }
      else if isErase cmd then { s with erases := s.erases ++ [mark cmd] }
      else s : Screen).erases = s.erases ++ if isErase cmd then [mark cmd] else [] := by
  by_cases move : isMove cmd = true
  · rw [if_pos move, not_isErase_of_isMove move]
    exact (List.append_nil _).symm
  · rw [if_neg move]
    split
    · rfl
    · exact (List.append_nil _).symm

theorem drawn_erases (s : Screen) (cmd : Command) :
    (drawn s cmd).erases =
      s.erases ++ if isErase cmd then [.display (cmd.params.head?.getD 0)] else [] :=
  step_erases (fun _ => cursorTarget) (fun cmd => .display (cmd.params.head?.getD 0)) s cmd

theorem interpret_erases (s : Screen) (cmd : Command) :
    (interpret s cmd).erases = s.erases ++ if isErase cmd then [erased cmd] else [] :=
  step_erases (fun s => moved s.cursor) erased s cmd

/-- The erase operations agree when none of them is that of a line. -/
theorem erases_agree_iff (cmds : List Command) (s : Screen) :
    (cmds.foldl drawn s).erases = (cmds.foldl interpret s).erases ↔
      ∀ cmd ∈ cmds, cmd.type ≠ .eraseLine := by
  rw [erases_foldl drawn_erases, erases_foldl interpret_erases, List.append_cancel_left_eq,
    List.map_inj_left]
  have each (cmd : Command) (erase : isErase cmd = true) :
      Erase.display (cmd.params.head?.getD 0) = erased cmd ↔ cmd.type ≠ .eraseLine := by
    unfold erased
    split
    · rename_i line
      exact iff_of_false nofun fun other => other line
    · rename_i other
      exact iff_of_true rfl other
  constructor
  · intro same cmd mem line
    have erase : isErase cmd = true := by
      unfold isErase
      rw [line]
    exact (each cmd erase).mp (same cmd (List.mem_filter.mpr ⟨mem, erase⟩)) line
  · intro none cmd mem
    obtain ⟨inside, erase⟩ := List.mem_filter.mp mem
    exact (each cmd erase).mpr (none cmd inside)

theorem cursor_foldl {step : Screen → Command → Screen}
    (each : ∀ s cmd, isMove cmd = false → (step s cmd).cursor = s.cursor) {cmds : List Command}
    (still : ∀ cmd ∈ cmds, isMove cmd = false) (s : Screen) :
    (cmds.foldl step s).cursor = s.cursor := by
  induction cmds generalizing s with
  | nil => rfl
  | cons cmd cmds ih =>
      rw [List.foldl_cons, ih fun c mem => still c (List.mem_cons_of_mem cmd mem)]
      exact each s cmd (still cmd List.mem_cons_self)

theorem step_cursor (target : Screen → Command → Int × Int) (mark : Command → Erase) (s : Screen)
    {cmd : Command} (still : isMove cmd = false) :
    (if isMove cmd then { s with cursor := target s cmd }
      else if isErase cmd then { s with erases := s.erases ++ [mark cmd] }
      else s : Screen).cursor = s.cursor := by
  rw [still, if_neg Bool.false_ne_true]
  split <;> rfl

theorem drawn_cursor (s : Screen) (cmd : Command) (still : isMove cmd = false) :
    (drawn s cmd).cursor = s.cursor :=
  step_cursor (fun _ => cursorTarget) (fun cmd => .display (cmd.params.head?.getD 0)) s still

theorem interpret_cursor (s : Screen) (cmd : Command) (still : isMove cmd = false) :
    (interpret s cmd).cursor = s.cursor :=
  step_cursor (fun s => moved s.cursor) erased s still

/-- The commands hold no cursor command, or a last one. -/
theorem lastMove_cases (cmds : List Command) :
    (∀ cmd ∈ cmds, isMove cmd = false) ∨
      ∃ before cmd after, cmds = before ++ cmd :: after ∧ isMove cmd = true ∧
        ∀ c ∈ after, isMove c = false := by
  induction cmds with
  | nil => exact Or.inl fun _ mem => (List.not_mem_nil mem).elim
  | cons cmd cmds ih =>
      rcases ih with still | ⟨before, last, after, split, move, still⟩
      · cases move : isMove cmd with
        | true => exact Or.inr ⟨[], cmd, cmds, rfl, move, still⟩
        | false => exact Or.inl (List.forall_mem_cons.mpr ⟨move, still⟩)
      · exact Or.inr ⟨cmd :: before, last, after, by rw [split]; rfl, move, still⟩

/-- The last cursor command, if there is one, moves the cursor to what the handler
emits for it. -/
def LastMoveIsTarget (s : Screen) (cmds : List Command) : Prop :=
  ∀ before cmd after, cmds = before ++ cmd :: after → isMove cmd = true →
    (∀ c ∈ after, isMove c = false) → EmitsTarget (before.foldl interpret s).cursor cmd

/-- The cursors agree when they agree after the last cursor command. -/
theorem cursors_agree_iff {cmds : List Command} (inRange : ∀ cmd ∈ cmds, InRange cmd) (s : Screen) :
    (cmds.foldl drawn s).cursor = (cmds.foldl interpret s).cursor ↔ LastMoveIsTarget s cmds := by
  have last (before : List Command) (cmd : Command) (after : List Command)
      (split : cmds = before ++ cmd :: after) (move : isMove cmd = true)
      (still : ∀ c ∈ after, isMove c = false) :
      (cmds.foldl drawn s).cursor = (cmds.foldl interpret s).cursor ↔
        EmitsTarget (before.foldl interpret s).cursor cmd := by
    have range : InRange cmd := inRange cmd (split ▸ List.mem_append_right _ List.mem_cons_self)
    rw [split, List.foldl_append, List.foldl_append, List.foldl_cons, List.foldl_cons,
      cursor_foldl drawn_cursor still, cursor_foldl interpret_cursor still, drawn, interpret,
      if_pos move, if_pos move]
    exact cursorTarget_eq_iff move range _
  constructor
  · intro same before cmd after split move still
    exact (last before cmd after split move still).mp same
  · intro target
    rcases lastMove_cases cmds with still | ⟨before, cmd, after, split, move, still⟩
    · rw [cursor_foldl drawn_cursor still, cursor_foldl interpret_cursor still]
    · exact (last before cmd after split move still).mpr
        (target before cmd after split move still)

section

variable [Platform]

/-- **What the rendering signals mean.** Over cursor and erase commands, each
processed once in normal mode, a consumer ends with the cursor and the erase
operations the commands mean exactly when none of them erases a line and the
last cursor command is emitted as the target it has. -/
theorem consumer_agrees_iff {h : TerminalHandler}
    (normal : h.syncBuffer.synchronizedMode = false) {cmds : List Command}
    (draws : ∀ cmd ∈ cmds, isMove cmd = true ∨ isErase cmd = true)
    (inRange : ∀ cmd ∈ cmds, InRange cmd) (start : Int × Int) :
    (Consumer.readAll { cursor := start } (processCommands cmds h).2).toScreen =
        cmds.foldl interpret { cursor := start } ↔
      (∀ cmd ∈ cmds, cmd.type ≠ .eraseLine) ∧ LastMoveIsTarget { cursor := start } cmds := by
  rw [processCommands_read normal draws, ← erases_agree_iff cmds { cursor := start },
    ← cursors_agree_iff inRange, Screen.mk.injEq, and_comm]

omit [Platform] in
/-- `ESC [ 5 ; 9 H`, processed by a new handler. -/
theorem consumer_agrees_iff_position :
    letI := Platform.qt6
    let cmds : List Command := [{ type := .cursorPosition, params := [5, 9] }]
    (Consumer.readAll { cursor := (0, 0) }
        (processCommands cmds (.new .newestFirst fun _ => 0)).2).toScreen =
        cmds.foldl interpret { cursor := (0, 0) } ↔
      (∀ cmd ∈ cmds, cmd.type ≠ .eraseLine) ∧ LastMoveIsTarget { cursor := (0, 0) } cmds :=
  letI := Platform.qt6
  consumer_agrees_iff rfl (List.forall_mem_singleton.mpr (Or.inl rfl))
    (List.forall_mem_singleton.mpr fun n mem =>
      (show ∀ n ∈ [(5 : Int), 9], -2 ^ 31 < n ∧ n < 2 ^ 31 by decide) n mem) (0, 0)

omit [Platform] in
/-- From row 5 and column 5, `ESC [ A` leads to row 4; a consumer goes to row -1
and column 0. -/
theorem cursorUp_misread :
    letI := Platform.qt6
    let cmds : List Command := [{ type := .cursorUp }]
    let h : TerminalHandler := .new .newestFirst fun _ => 0
    (Consumer.readAll { cursor := (5, 5) } (processCommands cmds h).2).cursor = (-1, 0) ∧
      (cmds.foldl interpret { cursor := (5, 5) }).cursor = (4, 5) := by
  let _ := Platform.qt6
  have read := processCommands_read (h := .new .newestFirst fun _ => 0) rfl
    (List.forall_mem_singleton.mpr (Or.inl rfl) : ∀ cmd ∈ [({ type := .cursorUp } : Command)],
      isMove cmd = true ∨ isErase cmd = true) { cursor := (5, 5) }
  constructor
  · rw [read]
    decide
  · decide

end

end TerminalHandler

end WindTerm

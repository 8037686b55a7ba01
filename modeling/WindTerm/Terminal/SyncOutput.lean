import WindTerm.Library.Batch
import WindTerm.Terminal.Entries
import WindTerm.Terminal.ModeAgreement

/-!
# Synchronised output

A list of texts and commands is handled once in synchronised mode and once in
normal mode. For texts the handler refines a batching channel
(`Represents.items`). Commands that draw are not batched: they emit their own
signal at once. `synchronized_output_iff` puts the two together.
-/

namespace WindTerm

open Library CSIParser SynchronizedBuffer

namespace TerminalHandler

/-- An effect that does not draw, as input of a batching channel. -/
def Effect.input : Effect → Batch.Input QByteArray
  | .switch .synchronizedOutput true => .enter
  | .switch .synchronizedOutput false => .leave
  | _ => .skip

/-- The item as input of a batching channel. -/
def Item.input : Item → Batch.Input QByteArray
  | .text t => if t = [] then .skip else .put t
  | .command cmd => (effect cmd).input

/-- The item is a command that draws. -/
def Item.Draws : Item → Prop
  | .text _ => False
  | .command cmd => ∃ item signal, effect cmd = .draw item signal

/-- The signals of texts put on the screen. -/
def shownTexts (texts : List QByteArray) : List Signal :=
  texts.map fun t => .renderData t .textData

theorem shownTexts_inj {texts texts' : List QByteArray} :
    shownTexts texts = shownTexts texts' ↔ texts = texts' := by
  refine ⟨fun same => ?_, fun same => same ▸ rfl⟩
  refine List.map_injective_iff.mpr (fun t t' same => ?_) same
  injection same

theorem shownTexts_append (texts texts' : List QByteArray) :
    shownTexts (texts ++ texts') = shownTexts texts ++ shownTexts texts' :=
  List.map_append

section

variable [Platform]

/-- The room the texts of a list take in the sync buffer. -/
def textSize (items : List Item) : Nat :=
  (items.map fun
    | .text t => if t = [] then 0 else itemSize (textItem t)
    | .command _ => 0).sum

/-! ## The refinement -/

/-- The readings `0` to `n` of the clock are in order and lie within the time
limit. -/
def Punctual (clock : Nat → Int64) (n : Nat) : Prop :=
  ∀ i j, i ≤ j → j ≤ n → (clock j).toUInt64 - (clock i).toUInt64 < syncTimeoutMs

omit [Platform] in
/-- A clock that stands still is within the limit. -/
theorem Punctual.still (now : Int64) (n : Nat) : Punctual (fun _ => now) n := by
  intro _ _ _ _
  rw [UInt64.sub_self]
  decide

/-- The handler is in the state of the channel: both switches stand the same, and
the texts held are the items buffered. `used` readings of the clock are gone,
and there is room for `room` more. -/
structure Represents (clock : Nat → Int64) (used room : Nat) (b : Batch QByteArray)
    (h : TerminalHandler) : Prop where
  text : h.pendingText = []
  inStep : InStep h
  on : h.syncBuffer.synchronizedMode = b.on
  held : h.syncBuffer.buffer = b.held.map textItem
  tidy : b.Tidy
  room : h.syncBuffer.currentSize + room < h.syncBuffer.maxBufferSize
  readings : h.clock = fun n => clock (n + used)
  started : b.on = true → ∃ i < used, h.syncBuffer.syncStartTime = (clock i).toUInt64

/-- The step shows what the channel passes on for the input, leads to the state
of the channel, and reads the clock at most once. -/
def Refines (clock : Nat → Int64) (used room : Nat) (i : Batch.Input QByteArray)
    (b : Batch QByteArray) (r : Step) : Prop :=
  view screen? r.2 = shownTexts (Batch.step i b).2 ∧
    ∃ used' ≤ used + 1, Represents clock used' room (Batch.step i b).1 r.1

omit [Platform] in
theorem Represents.reading {clock : Nat → Int64} {used room : Nat} {b : Batch QByteArray}
    {h : TerminalHandler} (represents : Represents clock used room b h) :
    h.clock 0 = clock used := by
  rw [represents.readings]
  exact congrArg clock (Nat.zero_add used)

omit [Platform] in
/-- The readings left after one more call of the sync buffer. -/
theorem Represents.next {clock : Nat → Int64} {used room : Nat} {b : Batch QByteArray}
    {h : TerminalHandler} (represents : Represents clock used room b h) :
    (fun n => h.clock (n + 1)) = fun n => clock (n + (used + 1)) := by
  rw [represents.readings]
  funext n
  dsimp only
  rw [Nat.add_assoc, Nat.add_comm 1 used]

theorem Represents.handleText {clock : Nat → Int64} {used room n : Nat} {b : Batch QByteArray}
    {h : TerminalHandler} {t : QByteArray} (nonempty : t ≠ [])
    (represents : Represents clock used (itemSize (textItem t) + room) b h)
    (punctual : Punctual clock n) (inTime : used ≤ n) :
    Refines clock used room (.put t) b (handleText t h) := by
  have tidy := Batch.step_tidy (.put t) represents.tidy
  have inStep := represents.inStep.handleText t
  have size := represents.room
  have handed : TerminalHandler.handleText t h =
      (writeItem (textItem t) { h with pendingText := t }).andThen fun h =>
        ({ h with pendingText := [] }, []) := by
    unfold TerminalHandler.handleText flushPendingText
    simp only [represents.text, List.nil_append, nonempty, if_false]
    rfl
  have shown := screen_callSyncBuffer (fun now b => (b.write now (textItem t)).2)
    { h with pendingText := t }
  rw [handed] at inStep ⊢
  unfold Refines
  rw [Traced.andThen_snd, List.append_nil, writeItem, shown]
  rcases b with ⟨on, held⟩
  cases on with
  | false =>
      have written := write_normal represents.on (h.clock 0) (textItem t)
      dsimp only
      rw [written]
      refine ⟨rfl, used + 1, Nat.le_refl _, rfl, inStep, ?_, ?_, tidy, ?_, represents.next,
        fun started => Bool.noConfusion started⟩
      · simp only [Traced.andThen_fst, callSyncBuffer, written]
        exact represents.on
      · simp only [Traced.andThen_fst, callSyncBuffer, written]
        exact represents.held
      · simp only [Traced.andThen_fst, callSyncBuffer, written]
        omega
  | true =>
      -- The text fits, and the reading the mode was entered with is not too long ago.
      obtain ⟨i, before, started⟩ := represents.started rfl
      have fits : Fits (textItem t) h.syncBuffer := by
        unfold Fits
        omega
      have now : InTime (h.clock 0) h.syncBuffer := by
        intro _
        rw [started, represents.reading]
        exact punctual i used (Nat.le_of_lt before) inTime
      have written := write_within represents.on fits now
      dsimp only
      rw [written]
      refine ⟨rfl, used + 1, Nat.le_refl _, rfl, inStep, ?_, ?_, tidy, ?_, represents.next, ?_⟩
      · simp only [Traced.andThen_fst, callSyncBuffer, written]
        exact represents.on
      · simp only [Traced.andThen_fst, callSyncBuffer, written, keep, represents.held]
        change held.map textItem ++ [textItem t] = (held ++ [t]).map textItem
        rw [List.map_append]
        rfl
      · simp only [Traced.andThen_fst, callSyncBuffer, written, keep]
        omega
      · intro _
        refine ⟨i, Nat.lt_succ_of_lt before, ?_⟩
        simp only [Traced.andThen_fst, callSyncBuffer, written, keep]
        exact started

omit [Platform] in
/-- An operation of the mode manager that does not switch the mode. -/
theorem Represents.unswitched {clock : Nat → Int64} {used room : Nat} {b : Batch QByteArray}
    {h : TerminalHandler} (represents : Represents clock used room b h)
    {op : TerminalMode → TerminalMode.Step} (announces : TerminalMode.Announces op)
    (same : (op h.modeManager).1.syncEnabled = h.modeManager.syncEnabled) :
    view screen? (callModeManager op h).2 = [] ∧
      Represents clock used room b (callModeManager op h).1 := by
  obtain ⟨settled, changes⟩ := announces h.modeManager represents.inStep.settled
  rw [if_pos same] at changes
  obtain ⟨state, seen⟩ := callModeManager_spec op h
  rw [changes] at state seen
  rw [state, seen screen_blind]
  exact ⟨rfl, represents.text, ⟨settled, same.trans represents.inStep.same⟩, represents.on,
    represents.held, represents.tidy, represents.room, represents.readings, represents.started⟩

omit [Platform] in
/-- An operation of the mode manager that switches the mode. -/
theorem Represents.switched {clock : Nat → Int64} {used room : Nat} {b : Batch QByteArray}
    {h : TerminalHandler} (represents : Represents clock used room b h)
    {op : TerminalMode → TerminalMode.Step} (announces : TerminalMode.Announces op)
    (other : (op h.modeManager).1.syncEnabled = !b.on) :
    Refines clock used room (if b.on then .leave else .enter) b (callModeManager op h) := by
  have inStep := represents.inStep.callModeManager announces
  have stood := represents.inStep.same.trans represents.on
  obtain ⟨-, changes⟩ := announces h.modeManager represents.inStep.settled
  rw [other, stood, if_neg (by cases b.on <;> decide)] at changes
  obtain ⟨state, seen⟩ := callModeManager_spec op h
  rw [changes, feed_singleton] at state seen
  have shown := seen screen_blind
  rw [switchBuffer, screen_callSyncBuffer] at shown
  rw [state] at inStep
  unfold Refines
  rw [state, shown]
  rcases b with ⟨on, held⟩
  cases on with
  | false =>
      have switchedOn := setSynchronizedMode_on represents.on (h.clock 0)
      simp only [Bool.not_false, if_false, Bool.false_eq_true, switchBuffer, callSyncBuffer,
        switchedOn] at inStep ⊢
      refine ⟨rfl, used + 1, Nat.le_refl _, represents.text, inStep, rfl, represents.held, nofun,
        represents.room, represents.next, fun _ => ⟨used, Nat.lt_succ_self used, ?_⟩⟩
      rw [represents.reading]
  | true =>
      obtain ⟨buffer, size, max, signals⟩ :=
        setSynchronizedMode_off represents.on (h.clock 0)
      have mode := setSynchronizedMode_mode (h.clock 0) false h.syncBuffer
      have room := represents.room
      -- Leaving the mode delivers what the channel holds.
      have delivers : (acts (h.syncBuffer.setSynchronizedMode (h.clock 0) false).2.2).flatMap
          delivered = shownTexts held := by
        rw [signals, represents.held]
        cases held with
        | nil => rfl
        | cons t held => simp [delivered, shownTexts, textItem, Function.comp_def]
      simp only [Bool.not_true, if_true, switchBuffer, callSyncBuffer] at inStep ⊢
      refine ⟨delivers, used + 1, Nat.le_refl _, represents.text, inStep, mode, buffer,
        fun _ => rfl, ?_, represents.next, nofun⟩
      dsimp only
      omega

omit [Platform] in
/-- An operation of the mode manager that leaves the mode on, or off. -/
theorem Represents.announced {clock : Nat → Int64} {used room : Nat} {b : Batch QByteArray}
    {h : TerminalHandler} (represents : Represents clock used room b h)
    {op : TerminalMode → TerminalMode.Step} (announces : TerminalMode.Announces op)
    {enabled : Bool} (now : (op h.modeManager).1.syncEnabled = enabled) :
    Refines clock used room (if enabled then .enter else .leave) b (callModeManager op h) := by
  have stood := represents.inStep.same.trans represents.on
  by_cases same : enabled = b.on
  · obtain ⟨shown, after⟩ :=
      represents.unswitched announces (now.trans (same.trans stood.symm))
    have unchanged : Batch.step (if enabled then .enter else .leave) b = (b, []) := by
      rcases b with ⟨on, held⟩
      subst same
      cases enabled with
      | true => rfl
      | false => rfl
    unfold Refines
    rw [unchanged]
    exact ⟨shown, used, Nat.le_succ used, after⟩
  · have other : enabled = !b.on := Bool.eq_not.mpr same
    have refines := represents.switched announces (now.trans other)
    have input : (if b.on then .leave else .enter : Batch.Input QByteArray) =
        if enabled then .enter else .leave := by
      rw [other]
      cases b.on with
      | true => rfl
      | false => rfl
    rw [input] at refines
    exact refines

omit [Platform] in
/-- `setMode(SYNCHRONIZED_OUTPUT)`. -/
theorem Represents.setSync {clock : Nat → Int64} {used room : Nat} {b : Batch QByteArray}
    {h : TerminalHandler} (represents : Represents clock used room b h) :
    Refines clock used room .enter b (h.setMode .synchronizedOutput) := by
  have now : (h.modeManager.setMode .synchronizedOutput).2.1.syncEnabled = true := by
    unfold TerminalMode.syncEnabled
    rw [TerminalMode.setMode_enabledModes]
    simp
  exact represents.announced (TerminalMode.setMode_announces .synchronizedOutput) now

omit [Platform] in
/-- `resetMode(SYNCHRONIZED_OUTPUT)`. -/
theorem Represents.resetSync {clock : Nat → Int64} {used room : Nat} {b : Batch QByteArray}
    {h : TerminalHandler} (represents : Represents clock used room b h) :
    Refines clock used room .leave b (h.resetMode .synchronizedOutput) := by
  have now : (h.modeManager.resetMode .synchronizedOutput).2.1.syncEnabled = false := by
    unfold TerminalMode.syncEnabled
    rw [TerminalMode.resetMode_enabledModes]
    simp
  exact represents.announced (TerminalMode.resetMode_announces .synchronizedOutput) now

omit [Platform] in
theorem Represents.less {clock : Nat → Int64} {used room room' : Nat} {b : Batch QByteArray}
    {h : TerminalHandler} (represents : Represents clock used room b h) (less : room' ≤ room) :
    Represents clock used room' b h := by
  have room : h.syncBuffer.currentSize + room' < h.syncBuffer.maxBufferSize :=
    Nat.lt_of_le_of_lt (Nat.add_le_add_left less _) represents.room
  exact { represents with room }

/-- One item that does not draw. -/
theorem Represents.item {clock : Nat → Int64} {used room n : Nat} {b : Batch QByteArray}
    {h : TerminalHandler} {item : Item} (quiet : ¬ item.Draws)
    (represents : Represents clock used (textSize [item] + room) b h)
    (punctual : Punctual clock n) (inTime : used ≤ n) :
    Refines clock used room item.input b (handleItem item h) := by
  have less := represents.less (Nat.le_add_left room (textSize [item]))
  have unchanged : Refines clock used room .skip b (h, []) :=
    ⟨rfl, used, Nat.le_succ used, less⟩
  cases item with
  | text t =>
      by_cases empty : t = []
      · have nothing : TerminalHandler.handleText [] h = (h, []) := handleText_nil represents.text
        subst empty
        rw [← nothing] at unchanged
        exact unchanged
      · have size : textSize [.text t] = itemSize (textItem t) := by
          simp [textSize, empty]
        rw [size] at represents
        have input : Item.input (.text t) = .put t := by
          simp [Item.input, empty]
        rw [input]
        exact represents.handleText empty punctual inTime
  | command cmd =>
      change Refines clock used room (effect cmd).input b (executeCommand cmd h)
      rw [executeCommand_eq]
      cases done : effect cmd with
      | ignore => exact unchanged
      | draw item signal => exact (quiet ⟨item, signal, done⟩).elim
      | switch mode enabled =>
          by_cases sync : mode = .synchronizedOutput
          · subst sync
            cases enabled with
            | true => exact less.setSync
            | false => exact less.resetSync
          · obtain ⟨setSame, resetSame⟩ := TerminalMode.syncEnabled_switch sync h.modeManager
            have other : (Effect.switch mode enabled).input = .skip := by
              unfold Effect.input
              split
              · rename_i same
                injection same with same
                exact (sync same).elim
              · rename_i same
                injection same with same
                exact (sync same).elim
              · rfl
            rw [other]
            cases enabled with
            | true =>
                obtain ⟨shown, after⟩ :=
                  less.unswitched (TerminalMode.setMode_announces mode) setSame
                exact ⟨shown, used, Nat.le_succ used, after⟩
            | false =>
                obtain ⟨shown, after⟩ :=
                  less.unswitched (TerminalMode.resetMode_announces mode) resetSame
                exact ⟨shown, used, Nat.le_succ used, after⟩

/-- **Refinement.** Handling a list of items without drawing commands shows what
the channel passes on, and ends in the state of the channel. -/
theorem Represents.items {clock : Nat → Int64} {n : Nat} (punctual : Punctual clock n)
    {items : List Item} (quiet : ∀ item ∈ items, ¬ item.Draws) {used : Nat}
    {b : Batch QByteArray} {h : TerminalHandler}
    (represents : Represents clock used (textSize items) b h)
    (inTime : used + items.length ≤ n + 1) :
    view screen? (handleItems items h).2 =
        shownTexts (feed Batch.step (items.map Item.input) b).2 ∧
      ∃ used', Represents clock used' 0 (feed Batch.step (items.map Item.input) b).1
        (handleItems items h).1 := by
  induction items generalizing used b h with
  | nil => exact ⟨rfl, used, represents⟩
  | cons item items ih =>
      have size : textSize (item :: items) = textSize [item] + textSize items := by
        simp [textSize]
      rw [List.length_cons] at inTime
      rw [size] at represents
      obtain ⟨shown, used', one, after⟩ :=
        represents.item (quiet item List.mem_cons_self) punctual (by omega)
      obtain ⟨rest, final⟩ := ih (fun i mem => quiet i (List.mem_cons_of_mem item mem)) after
        (by omega)
      refine ⟨?_, final⟩
      rw [List.map_cons, feed_cons, Traced.andThen_snd, shownTexts_append, ← shown, ← rest]
      exact view_append _ _

/-! ## The two runs -/

/-- Synchronised mode only delays what the list puts on the screen: nothing is
put there before the reset, and by the end the same as in normal mode. -/
def OnlyDelayed (items : List Item) (h : TerminalHandler) : Prop :=
  let on := h.setMode .synchronizedOutput
  let ran := handleItems items on.1
  let off := ran.1.resetMode .synchronizedOutput
  view screen? (on.2 ++ ran.2) = [] ∧
    view screen? (on.2 ++ ran.2 ++ off.2) = view screen? (handleItems items h).2

/-- The batch of texts is not left before its end, and no text comes behind an
inner `SYNCHRONIZED_OUTPUT`. -/
def WholeBatch (items : List Item) : Prop :=
  let inputs := items.map Item.input
  Batch.puts inputs = [] ∨ .leave ∉ inputs ∧ Batch.NothingBehind inputs

/-- A command that draws puts its own signal on the screen in either mode. -/
theorem screen_of_draws {items : List Item} {item : Item} (mem : item ∈ items)
    (draws : item.Draws) (h : TerminalHandler) : view screen? (handleItems items h).2 ≠ [] := by
  cases item with
  | text t => exact draws.elim
  | command cmd =>
      obtain ⟨written, signal, done⟩ := draws
      have leaves (h : TerminalHandler) :
          Event.act (.emit signal) ∈ (handleItem (.command cmd) h).2 := by
        change _ ∈ Event.act (.processCommand cmd) :: (executeCommand cmd h).2
        rw [executeCommand_eq, done]
        exact List.mem_cons_of_mem _ (List.mem_append_right _ List.mem_cons_self)
      have emitted := mem_feed_trace leaves mem h
      have shown : screen? (.emit signal) = some signal := if_pos (effect_draw done).screen
      intro none
      have gone : signal ∈ view screen? (handleItems items h).2 :=
        List.mem_filterMap.mpr ⟨_, mem_acts.mpr emitted, shown⟩
      rw [none] at gone
      exact List.not_mem_nil gone

/-- Without commands that draw, the two runs differ as those of the channel. -/
theorem onlyDelayed_of_quiet {items : List Item} (quiet : ∀ item ∈ items, ¬ item.Draws)
    {h : TerminalHandler} (represents : Represents h.clock 0 (textSize items) ⟨false, []⟩ h)
    (punctual : Punctual h.clock items.length) : OnlyDelayed items h ↔ WholeBatch items := by
  obtain ⟨silent, one, oneLe, entered⟩ := represents.setSync
  obtain ⟨inside, _, ran⟩ := entered.items punctual quiet (by omega)
  obtain ⟨ended, -⟩ := ran.resetSync
  obtain ⟨outside, -⟩ := represents.items punctual quiet (by omega)
  rw [Batch.step_leave ran.tidy] at ended
  unfold OnlyDelayed WholeBatch
  dsimp only
  rw [← Batch.transparent_iff, view_append, view_append, view_append, silent, inside, ended,
    outside]
  change shownTexts _ = [] ∧ shownTexts _ ++ shownTexts _ = shownTexts _ ↔ _
  rw [← shownTexts_append, shownTexts_inj]
  exact and_congr_left fun _ => List.map_eq_nil_iff

/-- **Synchronised output.** For a handler in normal mode and a list within the
limits of size and time, synchronised mode only delays what the list puts on the
screen exactly when no command of the list draws and its texts are one batch. -/
theorem synchronized_output_iff {h : TerminalHandler} (reachable : Reachable (fun _ => True) h)
    (normal : h.modeManager.syncEnabled = false ∧ h.syncBuffer.synchronizedMode = false)
    {items : List Item} (room : textSize items < h.syncBuffer.maxBufferSize)
    (punctual : Punctual h.clock items.length) :
    OnlyDelayed items h ↔ (∀ item ∈ items, ¬ item.Draws) ∧ WholeBatch items := by
  by_cases quiet : ∀ item ∈ items, ¬ item.Draws
  · have resting := reachable.resting
    have empty := resting.sound.tidy.empty normal.2
    have size : h.syncBuffer.currentSize = 0 := by
      rw [resting.sound.tidy.size, empty]
      rfl
    have represents : Represents h.clock 0 (textSize items) ⟨false, []⟩ h :=
      ⟨resting.text, ⟨resting.sound.settled, normal.1.trans normal.2.symm⟩, normal.2, empty,
        fun _ => rfl, by omega, rfl, nofun⟩
    rw [onlyDelayed_of_quiet quiet represents punctual]
    exact (and_iff_right quiet).symm
  · refine iff_of_false (fun delayed => ?_) fun both => quiet both.1
    push Not at quiet
    obtain ⟨item, mem, draws⟩ := quiet
    have none := delayed.1
    rw [view_append] at none
    exact screen_of_draws mem draws _ (List.append_eq_nil_iff.mp none).2

omit [Platform] in
/-- Two texts with `ESC [ 25 l` between them are only delayed. -/
theorem synchronized_output_iff_texts :
    letI := Platform.qt6
    OnlyDelayed [.text [0x78],
      .command { type := .decrst, params := [25], finalChar := 0x6C }, .text [0x79, 0x7A]]
      fresh := by
  let _ := Platform.qt6
  have reachable : Reachable (fun _ => True) fresh := .new _ _
  refine (synchronized_output_iff reachable ⟨rfl, rfl⟩ (by decide) ?_).mpr ⟨?_, ?_⟩
  · exact .still 0 3
  · intro item mem draws
    simp only [List.mem_cons, List.not_mem_nil, or_false] at mem
    rcases mem with rfl | rfl | rfl
    · exact draws
    · obtain ⟨item, signal, drawn⟩ := draws
      injection drawn
    · exact draws
  · refine Or.inr ⟨by decide, List.pairwise_of_forall_mem_list fun i mem _ _ enters => ?_⟩
    rw [enters] at mem
    exact absurd mem (by decide)

omit [Platform] in
/-- The text `x`, then `ESC [ 5 ; 9 H`: the cursor is moved before the reset, and
before the text is shown. -/
theorem cursorPosition_overtakes_text :
    letI := Platform.qt6
    let items := [Item.text [0x78],
      .command { type := .cursorPosition, params := [5, 9], finalChar := 0x48 }]
    Reachable (fun _ => True) fresh ∧ fresh.modeManager.syncEnabled = false ∧
      fresh.syncBuffer.synchronizedMode = false ∧
      textSize items < fresh.syncBuffer.maxBufferSize ∧ Punctual fresh.clock items.length ∧
      ¬ OnlyDelayed items fresh := by
  let _ := Platform.qt6
  refine ⟨.new _ _, rfl, rfl, by decide, .still 0 2, fun delayed => ?_⟩
  exact absurd delayed.1 (by decide)

end

end TerminalHandler

end WindTerm

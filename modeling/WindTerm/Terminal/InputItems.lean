import WindTerm.Terminal.Calls
import WindTerm.Terminal.Entries

/-!
# `processInput` as a list of texts and commands

What one call of `processInput` does is to handle one text and a list of
commands (`inputItems`): the bytes before the first `ESC`, then the commands
the parser completes and, once more, its queue. `inputEffect_items` says so.
-/

namespace WindTerm

open Library CSIParser SynchronizedBuffer

/-- The commands a new parser completes. -/
def CSIParser.commandsOf (s : QByteArray) : List Command :=
  (feed dispatch s (idle [])).1.completedCommands

theorem CSIParser.Reads.commandsOf_eq {s rest : QByteArray} {cmds : List Command}
    (read : Reads s cmds rest) : commandsOf s = cmds :=
  (read.run []).2.1

namespace TerminalHandler

/-- What a call with `data` handles when the parser is `p`. -/
def inputItems (p : CSIParser) (data : QByteArray) : List Item :=
  .text (textPart data) ::
    if escPart data = [] then []
    else (turnCommands p.completedCommands (commandsOf (p.buffer ++ escPart data))).map .command

/-- The parser the call leaves. -/
def parserAfter (p : CSIParser) (data : QByteArray) : CSIParser :=
  if escPart data = [] then p else idle []

theorem turnCommands_ordinary {queue cmds : List Command} (waiting : ∀ cmd ∈ queue, Ordinary cmd)
    (completed : ∀ cmd ∈ cmds, Ordinary cmd) : ∀ cmd ∈ turnCommands queue cmds, Ordinary cmd := by
  intro cmd mem
  rcases List.mem_append.mp mem with parsed | drained
  · exact completed cmd parsed
  · rcases List.mem_append.mp drained with old | new
    · exact waiting cmd old
    · exact completed cmd new

theorem inputItems_ordinary {p : CSIParser} (ordinary : ∀ cmd ∈ p.completedCommands, Ordinary cmd)
    (data : QByteArray) : ∀ cmd, Item.command cmd ∈ inputItems p data → Ordinary cmd := by
  intro cmd mem
  unfold inputItems at mem
  split at mem
  · cases List.mem_singleton.mp mem
  · obtain ⟨cmds, rest, read⟩ := Reads.total (p.buffer ++ escPart data)
    rw [read.commandsOf_eq] at mem
    rcases List.mem_cons.mp mem with text | command
    · cases text
    · obtain ⟨c, inside, same⟩ := List.mem_map.mp command
      cases same
      exact turnCommands_ordinary ordinary read.ordinary cmd inside

/-- The text of a call is what stands before the first `ESC`. -/
theorem text?_inputItems (p : CSIParser) (data : QByteArray) :
    ((entries (inputItems p data)).filterMap Entry.text?).flatten = textPart data := by
  have commands (cmds : List Command) :
      (entries (cmds.map .command)).filterMap Entry.text? = [] := by
    rw [entries_commands, List.filterMap_map]
    exact List.filterMap_eq_nil_iff.mpr fun _ _ => rfl
  have text : ((Item.text (textPart data)).entries.filterMap Entry.text?).flatten =
      textPart data := by
    unfold Item.entries textEntries
    by_cases empty : textPart data = []
    · simp [empty]
    · simp [empty, Entry.text?]
  have split : entries (inputItems p data) =
      (Item.text (textPart data)).entries ++ entries (inputItems p data).tail := rfl
  rw [split, List.filterMap_append, List.flatten_append, text]
  unfold inputItems
  by_cases noEsc : escPart data = []
  · simp [noEsc, entries]
  · simp only [noEsc, if_false, List.tail_cons]
    rw [commands, List.flatten_nil, List.append_nil]

theorem screen_csiParser (s : CSIParser.Signal) : screen? (.emit (.csiParser s)) = none := rfl

variable [Platform]

/-- Handling commands is running them. -/
theorem handleItems_commands (cmds : List Command) :
    handleItems (cmds.map .command) = processCommands cmds :=
  feed_map Item.command cmds

/-- **`processInput` handles its items.** -/
theorem inputEffect_items {h : TerminalHandler} (resting : Resting h) (data : QByteArray) :
    let handled := handleItems (inputItems h.csiParser data) h
    (inputEffect data h).1 = withParser (parserAfter h.csiParser data) handled.1 ∧
      view screen? (inputEffect data h).2 = view screen? handled.2 := by
  have same := (Local.handleText (textPart data)).csiParser h
  have split : handleItems (inputItems h.csiParser data) h =
      (handleText (textPart data) h).andThen
        (handleItems (inputItems h.csiParser data).tail) := rfl
  dsimp only
  rw [split]
  unfold inputEffect inputItems parserAfter
  by_cases noEsc : escPart data = []
  · simp only [noEsc, if_true, List.tail_cons]
    refine ⟨?_, ?_⟩
    · rw [← same]
      rfl
    · rw [Traced.andThen_snd, view_append]
      exact (List.append_nil _).symm
  · simp only [noEsc, if_false, List.tail_cons]
    obtain ⟨cmds, rest, read⟩ := Reads.total (h.csiParser.buffer ++ escPart data)
    rw [read.commandsOf_eq, handleItems_commands]
    rw [← same] at read
    obtain ⟨state, seen, -⟩ := parseAndDrain_spec (resting.handleText (textPart data)).between read
    rw [Traced.andThen_fst, Traced.andThen_snd, Traced.andThen_snd, view_append, view_append,
      state, seen screen_csiParser, same]
    exact ⟨rfl, rfl⟩

/-- Within the limits it writes their entries. -/
theorem inputEffect_steady {h : TerminalHandler} (resting : Resting h) (data : QByteArray)
    (steady : Steady ((entries (inputItems h.csiParser data)).map Entry.item) h) :
    view screen? (inputEffect data h).2 =
      shown h.syncBuffer.synchronizedMode (entries (inputItems h.csiParser data)) := by
  have handled := handleItems_handled resting.text resting.sound.settled
    (inputItems_ordinary resting.ordinary data)
  rw [(inputEffect_items resting data).2, handled.screen]
  exact (writeEntries_steady steady).1

end TerminalHandler

end WindTerm

import WindTerm.Terminal.CSIParserRuns

/-!
# Sequences the parser does not recognise

Two kinds of complete sequences go past a `CSIParser`. A private sequence,
`ESC [ ?`, is given up at the `?`, which belongs to no byte class of
`handleCSIEntry` (`processBytes_privateSequence`). And a sequence behind an
unfinished one is lost with its own `ESC`: that byte makes the parser drop the
sequence it holds and is not read a second time (`resynchronises_iff`).
-/

namespace WindTerm

open Library

namespace CSIParser

/-! ## Private sequences -/

/-- `ESC [ ? p1;...;pk h` when `enable` holds, and with `l` otherwise. -/
def privateSequence (params : List Nat) (enable : Bool) : QByteArray :=
  ESC :: CSI :: 0x3F :: (printParams params ++ [if enable then 0x68 else 0x6C])

/-- Feeding the private sequence to `p` completes exactly one command, the one
it stands for. -/
def RecognisesPrivate (p : CSIParser) (params : List Nat) (enable : Bool) : Prop :=
  ∃ cmd : Command,
    (processBytes (privateSequence params enable) p).1.completedCommands =
      p.completedCommands ++ [cmd] ∧
    cmd.isPrivate = true ∧
    cmd.type = (if enable then .decsetPrivate else .decrstPrivate) ∧
    cmd.params = params.map Int.ofNat ∧
    (params.head? = some 2026 → isSynchronizedOutputCommand cmd = some enable)

theorem ne_esc_of_isParameter {b : UInt8} (param : isParameter b = true) : b ≠ ESC := by
  intro same
  subst same
  exact absurd param (by decide)

theorem ne_esc_of_isIntermediate {b : UInt8} (inter : isIntermediate b = true) : b ≠ ESC := by
  intro same
  subst same
  exact absurd inter (by decide)

theorem ne_esc_of_isFinal {b : UInt8} (final : isFinal b = true) : b ≠ ESC := by
  intro same
  subst same
  exact absurd final (by decide)

theorem esc_not_mem_printParams (params : List Nat) : ESC ∉ printParams params :=
  fun mem => ne_esc_of_isParameter (isParameter_printParams params ESC mem) rfl

/-- The entry state gives up at the `?`. -/
theorem feed_question {p : CSIParser} (ground : p.state = .ground) :
    (feed dispatch [ESC, CSI, 0x3F] p).1 = idle p.completedCommands := by
  have entry : dispatch CSI { p with state := .escape, buffer := p.buffer ++ [ESC] } =
      ({ p with state := .csiEntry, buffer := p.buffer ++ [ESC] ++ [CSI] }, []) := rfl
  have gaveUp (q : CSIParser) (state : q.state = .csiEntry) :
      dispatch 0x3F q = (q.clearState, [.parseError q.buffer]) := by
    rw [dispatch, state]
    rfl
  rw [feed_cons, Traced.andThen_fst, dispatch, ground]
  change (feed dispatch [CSI, 0x3F] { p with state := .escape, buffer := p.buffer ++ [ESC] }).1 = _
  rw [feed_cons, Traced.andThen_fst, entry, feed_singleton, gaveUp _ rfl]
  rfl

/-- A stream without `ESC` does nothing to a parser in its ground state. -/
theorem feed_text {s : QByteArray} (text : ESC ∉ s) (queue : List Command) :
    (feed dispatch s (idle queue)).1 = idle queue := by
  obtain ⟨buffer, completed, -⟩ := (Reads.of_text text).run queue
  rw [List.append_nil] at completed
  exact ((Between.idle queue).after s).eq_of_buffer (.idle queue) buffer completed

/-- **No private sequence is recognised.** From the ground state, whatever the
parameters, the sequence completes no command at all. -/
theorem processBytes_privateSequence {p : CSIParser} (ground : p.state = .ground)
    (params : List Nat) (enable : Bool) :
    (processBytes (privateSequence params enable) p).1.completedCommands = p.completedCommands ∧
      ¬ RecognisesPrivate p params enable := by
  have text : ESC ∉ printParams params ++ [if enable then (0x68 : UInt8) else 0x6C] := by
    intro mem
    rcases List.mem_append.mp mem with param | final
    · exact esc_not_mem_printParams params param
    · revert final
      cases enable <;> decide
  have unchanged : (processBytes (privateSequence params enable) p).1.completedCommands =
      p.completedCommands := by
    have split : privateSequence params enable =
        [ESC, CSI, 0x3F] ++ (printParams params ++ [if enable then 0x68 else 0x6C]) := rfl
    have run := congrArg Prod.fst (processBytes_eq (privateSequence params enable) p)
    dsimp only at run
    rw [← run, split, feed_append, Traced.andThen_fst, feed_question ground, feed_text text]
    rfl
  refine ⟨unchanged, ?_⟩
  rintro ⟨cmd, completed, -⟩
  rw [unchanged] at completed
  exact List.cons_ne_nil cmd [] (List.self_eq_append_right.mp completed)

/-- Switching synchronised output on, fed to a new parser. -/
theorem processBytes_privateSequence_sync :
    (processBytes (privateSequence [2026] true) {}).1.completedCommands = [] ∧
      ¬ RecognisesPrivate {} [2026] true :=
  processBytes_privateSequence rfl [2026] true

/-- A new parser does not recognise `ESC [ ? 2026 h`. -/
theorem sync_not_recognised :
    ¬ ∀ p : CSIParser, p.state = .ground → ∀ params : List Nat, params ≠ [] →
      (∀ n ∈ params, n < 2 ^ 31) → ∀ enable, RecognisesPrivate p params enable := by
  intro claim
  obtain ⟨cmd, completed, -⟩ := claim {} rfl [2026] (List.cons_ne_nil _ _)
    (List.forall_mem_singleton.mpr (by decide)) true
  have none : (processBytes (privateSequence [2026] true) {}).1.completedCommands = [] := by
    decide +kernel
  rw [none] at completed
  exact List.cons_ne_nil cmd [] completed.symm

/-! ## Sequences behind an unfinished one -/

/-- A printed command without its final byte. -/
def Printable.opening (c : Printable) : QByteArray :=
  introduced (printParams c.params) c.intermediate

/-- Behind `u`, the last byte of the printed command completes a command with
its parameters, its intermediate bytes and its final byte. -/
def Resynchronises (u : QByteArray) (c : Printable) : Prop :=
  let before := (processBytes (u ++ c.opening) {}).1
  ∃ cmd : Command,
    (processByte c.finalChar before).2.1.completedCommands = before.completedCommands ++ [cmd] ∧
    cmd.params = c.params.map Int.ofNat ∧ cmd.intermediate = c.intermediate ∧
    cmd.finalChar = c.finalChar

/-- An `ESC` behind an unfinished sequence is used up dropping it. -/
theorem Reads.drop_unfinished {s rest : QByteArray} {cmds : List Command}
    (read : Reads s cmds rest) (unfinished : Unfinished rest) : Reads (s ++ [ESC]) cmds [] := by
  induction read with
  | nil => cases unfinished
  | unfinished _ =>
      have token := Reads.token unfinished.esc .nil
      rwa [List.append_nil] at token
  | token token _ ih =>
      rw [List.append_assoc]
      exact .token token (ih unfinished)

/-- The parser a stream leaves in its ground state. -/
theorem Reads.feed_idle {s : QByteArray} {cmds : List Command} (read : Reads s cmds [])
    (queue : List Command) : (feed dispatch s (idle queue)).1 = idle (queue ++ cmds) := by
  obtain ⟨buffer, completed, -⟩ := read.run queue
  exact ((Between.idle queue).after s).eq_of_buffer (.idle _) buffer completed

theorem Printable.opening_tail (c : Printable) :
    ∃ tail, c.opening = ESC :: tail ∧ ESC ∉ tail := by
  refine ⟨CSI :: (printParams c.params ++ c.intermediate), rfl, fun mem => ?_⟩
  rcases List.mem_cons.mp mem with csi | mem
  · exact absurd csi (by decide)
  · rcases List.mem_append.mp mem with param | inter
    · exact esc_not_mem_printParams c.params param
    · exact ne_esc_of_isIntermediate (c.inter ESC inter) rfl

/-- **The parser resynchronises exactly outside a sequence.** A complete
sequence behind `u` is recognised if and only if `u` leaves no sequence
unfinished. -/
theorem resynchronises_iff (u : QByteArray) (c : Printable) :
    Resynchronises u c ↔ ∃ cmds, Reads u cmds [] := by
  have before : (processBytes (u ++ c.opening) {}).1 =
      (feed dispatch c.opening (feed dispatch u (idle [])).1).1 := by
    have run := congrArg Prod.fst (processBytes_eq (u ++ c.opening) {})
    dsimp only at run
    rw [← run, feed_append]
    rfl
  unfold Resynchronises
  dsimp only
  rw [before, processByte_eq]
  constructor
  · rintro ⟨cmd, completed, -⟩
    obtain ⟨cmds, rest, read⟩ := Reads.total u
    rcases read.rest with empty | unfinished
    · exact ⟨cmds, empty ▸ read⟩
    · -- The `ESC` is used up, so the rest of the sequence is text.
      obtain ⟨tail, opening, text⟩ := c.opening_tail
      have swallowed : (feed dispatch c.opening (feed dispatch u (idle [])).1).1 = idle cmds := by
        have all := ((read.drop_unfinished unfinished).append (Reads.of_text text)).feed_idle []
        rw [List.append_nil, List.nil_append, List.append_assoc, List.singleton_append, ← opening,
          feed_append] at all
        exact all
      rw [swallowed, dispatch_idle (ne_esc_of_isFinal c.final)] at completed
      exact (List.cons_ne_nil cmd [] (List.self_eq_append_right.mp completed)).elim
  · rintro ⟨cmds, read⟩
    have opened : (feed dispatch c.opening (feed dispatch u (idle [])).1).1 =
        openCsi (printParams c.params) c.intermediate cmds := by
      rw [read.feed_idle [], List.nil_append, Printable.opening, feed_introduced c.wellFormed]
    rw [opened, dispatch_openCsi_final c.final]
    refine ⟨sequenceCommand (printParams c.params) c.intermediate c.finalChar, rfl, ?_⟩
    rw [c.sequenceCommand_eq]
    exact ⟨rfl, rfl, rfl⟩

theorem isFinal_sgr : isFinal 0x6D = true := rfl

/-- `ESC [ m`. -/
def resetGraphic : Printable where
  params := []
  intermediate := []
  finalChar := 0x6D
  bounded := fun _ mem => (List.not_mem_nil mem).elim
  inter := fun _ mem => (List.not_mem_nil mem).elim
  final := isFinal_sgr

/-- Behind a lone `ESC`, `ESC [ m` is not recognised. -/
theorem esc_swallows_sequence : ¬ ∀ u c, Resynchronises u c := by
  intro claim
  obtain ⟨cmd, completed, -⟩ := claim [ESC] resetGraphic
  have none : (processByte resetGraphic.finalChar
      (processBytes ([ESC] ++ resetGraphic.opening) {}).1).2.1.completedCommands = [] := by
    decide +kernel
  have none' : (processBytes ([ESC] ++ resetGraphic.opening) {}).1.completedCommands = [] := by
    decide +kernel
  rw [none, none'] at completed
  exact List.cons_ne_nil cmd [] completed.symm

end CSIParser

end WindTerm

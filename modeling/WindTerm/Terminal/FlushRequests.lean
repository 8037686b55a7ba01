import WindTerm.Terminal.ModeObserver

/-!
# Requests to flush

Three calls of the mode manager may switch `SYNCHRONIZED_OUTPUT` off, and each finds out in its
own way whether it has to request a flush. All of them request it exactly when the mode was on
before the call and is off after it (`flushRequested_count_run`).
-/

namespace WindTerm

open Library

namespace TerminalMode

/-- How often the signals request a flush. -/
def flushRequests (signals : List Signal) : Nat := signals.count .flushRequested

theorem flushRequests_append (signals signals' : List Signal) :
    flushRequests (signals ++ signals') = flushRequests signals + flushRequests signals' :=
  List.count_append

/-- Announcing changes requests nothing. -/
theorem flushRequests_emitModeChanges (m : TerminalMode) :
    flushRequests (acts m.emitModeChanges.2) = 0 := by
  rw [acts_emitModeChanges]
  apply List.count_eq_zero.mpr
  intro mem
  obtain ⟨change, -, inside⟩ := List.mem_flatMap.mp mem
  unfold changeSignals at inside
  split at inside <;> simp at inside

theorem flushRequests_if (requested : Prop) [Decidable requested] :
    flushRequests (acts (if requested then [Event.act Signal.flushRequested]
      else ([] : List (Event Mutex Signal)))) = if requested then 1 else 0 := by
  split <;> rfl

/-- The call leads from a state with the mode on to one with the mode off. -/
def Call.SwitchesOff (c : Call) (m : TerminalMode) : Prop :=
  .synchronizedOutput ∈ m.enabledModes ∧ .synchronizedOutput ∉ (c.run m).1.enabledModes

instance (c : Call) (m : TerminalMode) : Decidable (c.SwitchesOff m) :=
  inferInstanceAs (Decidable (_ ∧ _))

/-! ## Single calls -/

theorem flushRequests_setMode (mode : Mode) (m : TerminalMode) :
    flushRequests (acts (m.setMode mode).2.2) = 0 := by
  unfold setMode
  dsimp only
  split
  · rw [Traced.andThen_snd, acts_append, flushRequests_append, flushRequests_emitModeChanges]
    rfl
  · rfl

theorem flushRequests_resetMode (mode : Mode) (m : TerminalMode) :
    flushRequests (acts (m.resetMode mode).2.2) =
      if mode ∈ m.enabledModes ∧ mode = .synchronizedOutput then 1 else 0 := by
  unfold resetMode resetModeSection
  rcases Decidable.em (mode ∈ m.enabledModes) with on | off
  · rw [if_neg (not_not_intro on)]
    dsimp only
    rw [if_pos rfl, Traced.andThen_snd, Traced.andThen_snd, acts_append, acts_append,
      flushRequests_append, flushRequests_append, flushRequests_emitModeChanges,
      flushRequests_if]
    simp [on, flushRequests]
  · have neither : ¬ (mode ∈ m.enabledModes ∧ mode = .synchronizedOutput) := fun both => off both.1
    rw [if_pos off, if_neg neither]
    rfl

theorem flushRequests_restoreModes (m : TerminalMode) :
    flushRequests (acts m.restoreModes.2) = if .synchronizedOutput ∈ m.toDisable then 1 else 0 := by
  unfold restoreModes
  split
  case isTrue nothing =>
    rw [nothing.1, if_neg (Finset.notMem_empty _)]
    rfl
  case isFalse =>
    rw [Traced.andThen_snd, Traced.andThen_snd, acts_append, acts_append, flushRequests_append,
      flushRequests_append, flushRequests_emitModeChanges, flushRequests_if]
    exact Nat.zero_add _

theorem Call.switchesOff_setMode (mode : Mode) (m : TerminalMode) :
    ¬ (Call.setMode mode).SwitchesOff m := by
  rintro ⟨on, off⟩
  have still : .synchronizedOutput ∈ (m.setMode mode).2.1.enabledModes := by
    rw [setMode_enabledModes]
    exact Finset.mem_insert_of_mem on
  exact off still

theorem Call.switchesOff_resetMode (mode : Mode) (m : TerminalMode) :
    (Call.resetMode mode).SwitchesOff m ↔ mode ∈ m.enabledModes ∧ mode = .synchronizedOutput := by
  have enabled : ((Call.resetMode mode).run m).1.enabledModes = m.enabledModes.erase mode :=
    resetMode_enabledModes mode m
  unfold SwitchesOff
  rw [enabled, Finset.mem_erase]
  constructor
  · rintro ⟨on, off⟩
    have same : mode = .synchronizedOutput :=
      Decidable.byContradiction fun other => off ⟨Ne.symm other, on⟩
    exact ⟨same ▸ on, same⟩
  · rintro ⟨on, rfl⟩
    exact ⟨on, fun still => still.1 rfl⟩

/-- `toggleMode` does what one of the other two calls does, behind a scope of its own. -/
theorem Call.toggleMode_eq (mode : Mode) (m : TerminalMode) :
    ∃ c, (c = Call.setMode mode ∨ c = Call.resetMode mode) ∧
      ((Call.toggleMode mode).run m).1 = (c.run m).1 ∧
      acts ((Call.toggleMode mode).run m).2 = acts (c.run m).2 := by
  rcases Decidable.em (mode ∈ m.enabledModes) with on | off
  · refine ⟨.resetMode mode, Or.inr rfl, ?_⟩
    simp [run, TerminalMode.toggleMode, on]
  · refine ⟨.setMode mode, Or.inl rfl, ?_⟩
    simp [run, TerminalMode.toggleMode, off]

/-- A call requests a flush once if it switches the mode off, and not at all otherwise. -/
theorem Call.flushRequests_run (c : Call) (m : TerminalMode) :
    flushRequests (acts (c.run m).2) = if c.SwitchesOff m then 1 else 0 := by
  have set (mode : Mode) : flushRequests (acts ((Call.setMode mode).run m).2) =
      if (Call.setMode mode).SwitchesOff m then 1 else 0 :=
    (flushRequests_setMode mode m).trans (if_neg (switchesOff_setMode mode m)).symm
  have reset (mode : Mode) : flushRequests (acts ((Call.resetMode mode).run m).2) =
      if (Call.resetMode mode).SwitchesOff m then 1 else 0 :=
    (flushRequests_resetMode mode m).trans (if_congr (switchesOff_resetMode mode m).symm rfl rfl)
  cases c with
  | setMode mode => exact set mode
  | resetMode mode => exact reset mode
  | toggleMode mode =>
      obtain ⟨c, either, state, signals⟩ := toggleMode_eq mode m
      have same : c.SwitchesOff m ↔ (Call.toggleMode mode).SwitchesOff m := by
        unfold SwitchesOff
        rw [state]
      rw [signals]
      rcases either with rfl | rfl
      · exact (set mode).trans (if_congr same rfl rfl)
      · exact (reset mode).trans (if_congr same rfl rfl)
  | saveModes => exact (if_neg fun off => off.2 off.1).symm
  | restoreModes =>
      have enabled : (Call.restoreModes.run m).1.enabledModes = m.savedModes :=
        restoreModes_enabledModes m
      refine (flushRequests_restoreModes m).trans (if_congr ?_ rfl rfl)
      unfold SwitchesOff
      rw [enabled]
      exact Finset.mem_sdiff
  | resetAllModes =>
      have enabled : (Call.resetAllModes.run m).1.enabledModes = {.autoWrap} := rfl
      have requests := flushRequests_if (Mode.synchronizedOutput ∈ m.enabledModes)
      refine Eq.trans requests (if_congr ?_ rfl rfl)
      unfold SwitchesOff
      rw [enabled]
      exact (and_iff_left (by decide)).symm

/-! ## Runs -/

/-- How often the calls of a run switch the mode off. -/
def offTransitions : List Call → TerminalMode → Nat
  | [], _ => 0
  | c :: calls, m => (if c.SwitchesOff m then 1 else 0) + offTransitions calls (c.run m).1

theorem flushRequests_feed (calls : List Call) (m : TerminalMode) :
    flushRequests (acts (feed Call.run calls m).2) = offTransitions calls m := by
  induction calls generalizing m with
  | nil => rfl
  | cons c calls ih =>
      rw [feed_cons, Traced.andThen_snd, acts_append, flushRequests_append, c.flushRequests_run,
        ih]
      rfl

/-- **Requests to flush.** After any calls, the next one requests a flush exactly once if it
switches `SYNCHRONIZED_OUTPUT` off and never otherwise. In a run from a new manager there are as
many requests as calls that switch it off. -/
theorem flushRequested_count_run (hashOrder : HashOrder) (calls : List Call) :
    (∀ c : Call, (acts (c.run (reached hashOrder calls)).2).count .flushRequested =
        if .synchronizedOutput ∈ (reached hashOrder calls).enabledModes ∧
            .synchronizedOutput ∉ (c.run (reached hashOrder calls)).1.enabledModes then 1
        else 0) ∧
      (acts (feed Call.run calls (TerminalMode.new hashOrder)).2).count .flushRequested =
        offTransitions calls (TerminalMode.new hashOrder) :=
  ⟨fun c => c.flushRequests_run _, flushRequests_feed calls _⟩

end TerminalMode

end WindTerm

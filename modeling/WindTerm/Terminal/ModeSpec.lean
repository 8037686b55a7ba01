import WindTerm.Terminal.TerminalMode

/-!
# What the mode manager announces

The handler only listens to one mode, `SYNCHRONIZED_OUTPUT`. `syncChanges`
lists the values announced for it in a trace, and `Announces` says that an
operation announces exactly the change it makes to it: nothing when the mode
stays as it is, the new value once when it changes. The order in which a
`QHash` is visited does not matter for this, since a hash has one entry for a
mode. Every operation but `resetAllModes` announces its change.
-/

namespace WindTerm

open Library

namespace TerminalMode

/-- The values announced for `SYNCHRONIZED_OUTPUT`, in order. -/
def syncChanges (signals : List Signal) : List Bool :=
  signals.filterMap fun
    | .modeChanged mode enabled => if mode = .synchronizedOutput then some enabled else none
    | .synchronizedOutputChanged _ => none
    | .flushRequested => none

/-- `isEnabled(SYNCHRONIZED_OUTPUT)`. -/
def syncEnabled (m : TerminalMode) : Bool := decide (.synchronizedOutput ∈ m.enabledModes)

/-- No change of `SYNCHRONIZED_OUTPUT` waits to be announced. -/
def Settled (m : TerminalMode) : Prop := m.pendingChanges.lookup .synchronizedOutput = none

/-- The operation leaves no change of `SYNCHRONIZED_OUTPUT` waiting, and
announces the one it makes. -/
def Announces (op : TerminalMode → Step) : Prop :=
  ∀ m, m.Settled → (op m).1.Settled ∧
    syncChanges (acts (op m).2) =
      if (op m).1.syncEnabled = m.syncEnabled then [] else [(op m).1.syncEnabled]

theorem syncChanges_append (signals signals' : List Signal) :
    syncChanges (signals ++ signals') = syncChanges signals ++ syncChanges signals' :=
  List.filterMap_append

/-! ## `emitModeChanges` -/

/-- The values announced for a mode, in order. -/
def announcedValues (mode : Mode) (signals : List Signal) : List Bool :=
  signals.filterMap fun
    | .modeChanged changed enabled => if changed = mode then some enabled else none
    | .synchronizedOutputChanged _ => none
    | .flushRequested => none

theorem announcedValues_append (mode : Mode) (signals signals' : List Signal) :
    announcedValues mode (signals ++ signals') =
      announcedValues mode signals ++ announcedValues mode signals' :=
  List.filterMap_append

theorem announcedValues_changeSignals (mode : Mode)
    (changes : List (Sigma fun _ : Mode => Bool)) :
    announcedValues mode (changes.flatMap changeSignals) = changes.lookupAll mode := by
  induction changes with
  | nil => rfl
  | cons change changes ih =>
      rcases change with ⟨changed, value⟩
      have one : announcedValues mode (changeSignals ⟨changed, value⟩) =
          if changed = mode then [value] else [] := by
        unfold changeSignals announcedValues
        dsimp only
        split
        · by_cases same : changed = mode <;> simp [same]
        · by_cases same : changed = mode <;> simp [same]
      rw [List.flatMap_cons, announcedValues_append, ih, one]
      by_cases same : changed = mode
      · subst same
        rw [List.lookupAll_cons_eq]
        simp
      · rw [List.lookupAll_cons_ne _ _ (Ne.symm same)]
        simp [same]

/-- Whatever the order of the hash, the value recorded for a mode is announced
once. -/
theorem announcedValues_visit (hashOrder : HashOrder) (changes : Changes) (mode : Mode) :
    announcedValues mode ((hashOrder.visit changes).flatMap changeSignals) =
      (changes.lookup mode).toList := by
  have perm := hashOrder.perm changes
  have nodup : (hashOrder.visit changes).NodupKeys :=
    (List.perm_nodupKeys perm).mpr changes.nodupKeys
  rw [announcedValues_changeSignals, List.perm_lookupAll _ nodup perm,
    List.lookupAll_eq_dlookup _ changes.nodupKeys]
  rfl

theorem acts_emitModeChanges (m : TerminalMode) :
    acts m.emitModeChanges.2 = (m.hashOrder.visit m.pendingChanges).flatMap changeSignals := by
  unfold emitModeChanges
  dsimp only
  rw [acts_append, acts_critical, acts_nil, List.nil_append, acts_map_act]
  rfl

theorem emitModeChanges_spec (m : TerminalMode) :
    m.emitModeChanges.1 = { m with pendingChanges := ∅ } ∧
      syncChanges (acts m.emitModeChanges.2) =
        (m.pendingChanges.lookup .synchronizedOutput).toList := by
  refine ⟨rfl, ?_⟩
  rw [acts_emitModeChanges]
  exact announcedValues_visit m.hashOrder m.pendingChanges .synchronizedOutput

/-! ## The operations -/

theorem setMode_enabledModes (mode : Mode) (m : TerminalMode) :
    (m.setMode mode).2.1.enabledModes = insert mode m.enabledModes := by
  unfold setMode setModeSection
  by_cases on : mode ∈ m.enabledModes
  · simp [on]
  · simp [on, emitModeChanges_spec]

theorem resetMode_enabledModes (mode : Mode) (m : TerminalMode) :
    (m.resetMode mode).2.1.enabledModes = m.enabledModes.erase mode := by
  unfold resetMode resetModeSection
  by_cases on : mode ∈ m.enabledModes
  · simp [on, emitModeChanges_spec]
  · simp [on]

theorem setMode_announces (mode : Mode) : Announces fun m => (m.setMode mode).2 := by
  intro m settled
  dsimp only
  unfold syncEnabled
  rw [setMode_enabledModes]
  unfold setMode setModeSection
  by_cases on : mode ∈ m.enabledModes
  · simp only [on, if_true, Bool.false_eq_true, if_false, Finset.insert_eq_of_mem,
      acts_critical]
    exact ⟨settled, rfl⟩
  · simp only [on, if_false, if_true, Traced.andThen_fst, Traced.andThen_snd, acts_append,
      acts_critical, acts_nil, List.nil_append, emitModeChanges_spec]
    refine ⟨rfl, ?_⟩
    by_cases sync : Mode.synchronizedOutput = mode
    · subst sync
      simp [on]
    · rw [AList.lookup_insert_ne sync, settled]
      simp [sync]

theorem resetMode_announces (mode : Mode) : Announces fun m => (m.resetMode mode).2 := by
  intro m settled
  dsimp only
  unfold syncEnabled
  rw [resetMode_enabledModes]
  unfold resetMode resetModeSection
  by_cases on : mode ∈ m.enabledModes
  · have noChange : syncChanges
        (acts (if mode = .synchronizedOutput then [Event.act Signal.flushRequested]
          else ([] : List (Event Mutex Signal)))) = [] := by
      split <;> rfl
    simp only [on, not_true, if_false, if_true, Traced.andThen_fst, Traced.andThen_snd,
      acts_append, acts_critical, acts_nil, List.nil_append, emitModeChanges_spec,
      syncChanges_append, noChange, List.append_nil]
    refine ⟨rfl, ?_⟩
    by_cases sync : Mode.synchronizedOutput = mode
    · subst sync
      simp [on]
    · rw [AList.lookup_insert_ne sync, settled]
      simp [sync]
  · simp only [on, not_false_eq_true, if_true, Bool.false_eq_true, if_false, acts_critical,
      Finset.erase_eq_of_notMem]
    exact ⟨settled, rfl⟩

theorem toggleMode_announces (mode : Mode) : Announces fun m => (m.toggleMode mode).2 := by
  intro m settled
  unfold toggleMode
  by_cases on : mode ∈ m.enabledModes
  · simpa [on] using resetMode_announces mode m settled
  · simpa [on] using setMode_announces mode m settled

theorem saveModes_announces : Announces saveModes := by
  intro m settled
  refine ⟨settled, ?_⟩
  have same : m.saveModes.1.syncEnabled = m.syncEnabled := rfl
  rw [if_pos same]
  rfl

theorem lookup_recordChanges (modes : Finset Mode) (value : Bool) (changes : Changes)
    (key : Mode) :
    (recordChanges modes value changes).lookup key =
      if key ∈ modes then some value else changes.lookup key := by
  have recorded (list : List Mode) (changes : Changes) :
      (list.foldl (fun changes mode => changes.insert mode value) changes).lookup key =
        if key ∈ list then some value else changes.lookup key := by
    induction list generalizing changes with
    | nil => rfl
    | cons mode list ih =>
        rw [List.foldl_cons, ih]
        by_cases same : key = mode
        · subst same
          simp
        · simp [AList.lookup_insert_ne same, same]
  rw [recordChanges, recorded]
  simp [mem_allModes]

theorem restoreModes_announces : Announces restoreModes := by
  intro m settled
  unfold restoreModes
  by_cases nothing : m.toDisable = ∅ ∧ m.toEnable = ∅
  · rw [if_pos nothing]
    exact ⟨settled, by simp [syncChanges]⟩
  · rw [if_neg nothing]
    have noChange : syncChanges
        (acts (if Mode.synchronizedOutput ∈ m.toDisable then [Event.act Signal.flushRequested]
          else ([] : List (Event Mutex Signal)))) = [] := by
      split <;> rfl
    simp only [Traced.andThen_fst, Traced.andThen_snd, acts_append, acts_critical, acts_nil,
      List.nil_append, emitModeChanges_spec, syncChanges_append, noChange, List.append_nil]
    refine ⟨rfl, ?_⟩
    unfold Settled at settled
    unfold restoreModesSection syncEnabled
    simp only [lookup_recordChanges, settled, toEnable, toDisable, Finset.mem_sdiff]
    by_cases saved : Mode.synchronizedOutput ∈ m.savedModes <;>
      by_cases on : Mode.synchronizedOutput ∈ m.enabledModes <;> simp [saved, on]

/-- Switching another mode leaves this one as it is. -/
theorem syncEnabled_switch {mode : Mode} (other : mode ≠ .synchronizedOutput)
    (m : TerminalMode) :
    (m.setMode mode).2.1.syncEnabled = m.syncEnabled ∧
      (m.resetMode mode).2.1.syncEnabled = m.syncEnabled := by
  unfold syncEnabled
  rw [setMode_enabledModes, resetMode_enabledModes]
  simp [Ne.symm other]

/-- `resetAllModes` announces nothing. -/
theorem resetAllModes_silent (m : TerminalMode) :
    m.resetAllModes.1.Settled ∧ syncChanges (acts m.resetAllModes.2) = [] ∧
      m.resetAllModes.1.syncEnabled = false := by
  refine ⟨?_, ?_, rfl⟩
  · unfold Settled resetAllModes resetAllModesSection
    rw [AList.lookup_insert_ne (by decide)]
    rfl
  · unfold resetAllModes
    split <;> rfl

theorem new_settled (hashOrder : HashOrder) : (TerminalMode.new hashOrder).Settled :=
  (resetAllModes_silent _).1

/-! ## The lock -/

theorem emitModeChanges_clean (m : TerminalMode) : Clean {.modeManager} m.emitModeChanges.2 :=
  (Clean.scope_nil _).append (.map_act _ _)

theorem setMode_clean (mode : Mode) (m : TerminalMode) :
    Clean {.modeManager} (m.setMode mode).2.2 := by
  unfold setMode
  dsimp only
  split
  · exact (Clean.scope_nil _).append (emitModeChanges_clean _)
  · exact .scope_nil _

theorem resetMode_clean (mode : Mode) (m : TerminalMode) :
    Clean {.modeManager} (m.resetMode mode).2.2 := by
  unfold resetMode
  dsimp only
  split
  · refine ((Clean.scope_nil _).append (emitModeChanges_clean _)).append ?_
    split
    · exact (Clean.nil _).act _
    · exact .nil _
  · exact .scope_nil _

theorem toggleMode_clean (mode : Mode) (m : TerminalMode) :
    Clean {.modeManager} (m.toggleMode mode).2.2 := by
  unfold toggleMode
  refine (Clean.scope_nil _).append ?_
  split
  · exact resetMode_clean mode m
  · exact setMode_clean mode m

theorem restoreModes_clean (m : TerminalMode) : Clean {.modeManager} m.restoreModes.2 := by
  unfold restoreModes
  split
  · exact .scope_nil _
  · refine ((Clean.scope_nil _).append (emitModeChanges_clean _)).append ?_
    split
    · exact (Clean.nil _).act _
    · exact .nil _

theorem resetAllModes_clean (m : TerminalMode) : Clean {.modeManager} m.resetAllModes.2 := by
  unfold resetAllModes
  refine (Clean.scope_nil _).append ?_
  split
  · exact (Clean.nil _).act _
  · exact .nil _

end TerminalMode

end WindTerm

import WindTerm.Terminal.ModeSpec

/-!
# An observer of `modeChanged`

An observer keeps a set of modes and applies every `modeChanged` it receives.
`Coherent` is the invariant behind it: what waits in the pending changes agrees
with the enabled modes. From there, what an announcing call makes the observer
hold is the new set of enabled modes, whatever was pending (`Switching.announced`);
but an entry that was pending before and is not switched by the call reaches
the observer as a change that is none. The constructor and `resetAllModes` leave
such an entry, for `AUTO_WRAP`, and `resetAllModes` announces nothing at all.
`tracksAlong_iff` says which sequences of calls an observer can follow.
-/

namespace WindTerm

open Library

namespace TerminalMode

/-! ## Calls and observers -/

/-- The calls that change a mode manager. -/
inductive Call where
  | setMode (mode : Mode)
  | resetMode (mode : Mode)
  | toggleMode (mode : Mode)
  | saveModes
  | restoreModes
  | resetAllModes
  deriving DecidableEq, Repr

/-- What a call does. -/
def Call.run : Call → TerminalMode → Step
  | .setMode mode, m => (m.setMode mode).2
  | .resetMode mode, m => (m.resetMode mode).2
  | .toggleMode mode, m => (m.toggleMode mode).2
  | .saveModes, m => m.saveModes
  | .restoreModes, m => m.restoreModes
  | .resetAllModes, m => m.resetAllModes

theorem Call.run_settled (c : Call) {m : TerminalMode} (settled : m.Settled) :
    (c.run m).1.Settled := by
  cases c with
  | setMode mode => exact (setMode_announces mode m settled).1
  | resetMode mode => exact (resetMode_announces mode m settled).1
  | toggleMode mode => exact (toggleMode_announces mode m settled).1
  | saveModes => exact settled
  | restoreModes => exact (restoreModes_announces m settled).1
  | resetAllModes => exact m.resetAllModes_silent.1

/-- The set of an observer after one signal. -/
def observe (seen : Finset Mode) : Signal → Finset Mode
  | .modeChanged mode true => insert mode seen
  | .modeChanged mode false => seen.erase mode
  | .synchronizedOutputChanged _ => seen
  | .flushRequested => seen

/-- The set of an observer after some signals. -/
def observeAll (seen : Finset Mode) (signals : List Signal) : Finset Mode :=
  signals.foldl observe seen

/-- Every `modeChanged` among the signals changes the set of the observer. -/
def AllNews : Finset Mode → List Signal → Prop
  | _, [] => True
  | seen, .modeChanged mode enabled :: signals =>
      observe seen (.modeChanged mode enabled) ≠ seen ∧
        AllNews (observe seen (.modeChanged mode enabled)) signals
  | seen, .synchronizedOutputChanged _ :: signals => AllNews seen signals
  | seen, .flushRequested :: signals => AllNews seen signals

/-- Along the calls, an observer that starts from `seen` holds the enabled modes
after each call, and every `modeChanged` it receives changes its set. -/
def TracksAlong : Finset Mode → TerminalMode → List Call → Prop
  | _, _, [] => True
  | seen, m, c :: calls =>
      observeAll seen (acts (c.run m).2) = (c.run m).1.enabledModes ∧
        AllNews seen (acts (c.run m).2) ∧
        TracksAlong (observeAll seen (acts (c.run m).2)) (c.run m).1 calls

/-! ## What an observer makes of a batch of changes -/

theorem observeAll_append (seen : Finset Mode) (signals signals' : List Signal) :
    observeAll seen (signals ++ signals') = observeAll (observeAll seen signals) signals' :=
  List.foldl_append

theorem allNews_append (seen : Finset Mode) (signals signals' : List Signal) :
    AllNews seen (signals ++ signals') ↔
      AllNews seen signals ∧ AllNews (observeAll seen signals) signals' := by
  induction signals generalizing seen with
  | nil => exact (true_and _).to_iff.symm
  | cons s signals ih =>
      cases s with
      | modeChanged mode enabled => exact (and_congr_right fun _ => ih _).trans and_assoc.symm
      | synchronizedOutputChanged _ => exact ih seen
      | flushRequested => exact ih seen

/-- Signals that are not `modeChanged` pass an observer by. -/
theorem observeAll_flushRequested (seen : Finset Mode) (requested : Prop)
    [Decidable requested] :
    observeAll seen (acts (if requested then [Event.act Signal.flushRequested]
        else ([] : List (Event Mutex Signal)))) = seen ∧
      AllNews seen (acts (if requested then [Event.act Signal.flushRequested]
        else ([] : List (Event Mutex Signal)))) := by
  split <;> exact ⟨rfl, trivial⟩

theorem mem_observe (seen : Finset Mode) (mode key : Mode) (enabled : Bool) :
    key ∈ observe seen (.modeChanged mode enabled) ↔
      if key = mode then enabled = true else key ∈ seen := by
  by_cases same : key = mode
  · subst same
    cases enabled <;> simp [observe]
  · cases enabled <;> simp [observe, same]

/-- The signals of one change: only `modeChanged` matters to an observer. -/
theorem observeAll_changeSignals (seen : Finset Mode) (change : Sigma fun _ : Mode => Bool) :
    observeAll seen (changeSignals change) = observe seen (.modeChanged change.1 change.2) ∧
      (AllNews seen (changeSignals change) ↔ (change.2 = true ↔ change.1 ∉ seen)) := by
  rcases change with ⟨mode, enabled⟩
  have news : observe seen (.modeChanged mode enabled) ≠ seen ↔ (enabled = true ↔ mode ∉ seen) := by
    cases enabled with
    | true => simp [observe]
    | false => simp [observe]
  unfold changeSignals
  dsimp only
  split
  · exact ⟨rfl, (and_iff_left trivial).trans news⟩
  · exact ⟨rfl, (and_iff_left trivial).trans news⟩

/-- A batch of changes, one for a mode: the observer ends with the recorded
value of each mode in it, and each is news if it was not so before. -/
theorem observeAll_changes {changes : List (Sigma fun _ : Mode => Bool)}
    (nodup : changes.NodupKeys) (seen : Finset Mode) :
    (∀ key, key ∈ observeAll seen (changes.flatMap changeSignals) ↔
        (changes.dlookup key).getD (decide (key ∈ seen)) = true) ∧
      (AllNews seen (changes.flatMap changeSignals) ↔
        ∀ change ∈ changes, (change.2 = true ↔ change.1 ∉ seen)) := by
  induction changes generalizing seen with
  | nil => exact ⟨fun key => by simp [observeAll], by simp [AllNews]⟩
  | cons change changes ih =>
      rcases change with ⟨mode, enabled⟩
      obtain ⟨fresh, nodup'⟩ := List.nodupKeys_cons.mp nodup
      obtain ⟨state, first⟩ := observeAll_changeSignals seen ⟨mode, enabled⟩
      obtain ⟨members, later⟩ := ih nodup' (observe seen (.modeChanged mode enabled))
      rw [List.flatMap_cons, observeAll_append, allNews_append, state, first, later]
      constructor
      · intro key
        rw [members key]
        by_cases same : key = mode
        · subst same
          rw [List.dlookup_eq_none.mpr fresh, List.dlookup_cons_eq]
          simp [mem_observe]
        · rw [List.dlookup_cons_ne _ _ same]
          simp [mem_observe, same]
      · rw [List.forall_mem_cons]
        refine and_congr_right fun _ => ?_
        -- The later changes are of other modes, which the first one leaves alone.
        have apart : ∀ change ∈ changes, change.1 ≠ mode :=
          fun change mem same => fresh (same.subst (List.mem_keys_of_mem mem))
        constructor
        · intro news change mem
          have here := news change mem
          rwa [mem_observe, if_neg (apart change mem)] at here
        · intro news change mem
          rw [mem_observe, if_neg (apart change mem)]
          exact news change mem

/-! ## The invariant -/

/-- What waits in the pending changes agrees with the enabled modes. -/
def Coherent (m : TerminalMode) : Prop :=
  ∀ mode value, m.pendingChanges.lookup mode = some value → value = decide (mode ∈ m.enabledModes)

/-- A locked scope that switches modes records what it switches: the new value
of the modes that change, and nothing about the others. -/
structure Switching (m m' : TerminalMode) : Prop where
  changed : ∀ mode, ¬(mode ∈ m'.enabledModes ↔ mode ∈ m.enabledModes) →
    m'.pendingChanges.lookup mode = some (decide (mode ∈ m'.enabledModes))
  unchanged : ∀ mode, (mode ∈ m'.enabledModes ↔ mode ∈ m.enabledModes) →
    m'.pendingChanges.lookup mode = m.pendingChanges.lookup mode

theorem Switching.coherent {m m' : TerminalMode} (switching : Switching m m')
    (coherent : Coherent m) : Coherent m' := by
  intro mode value pending
  by_cases same : mode ∈ m'.enabledModes ↔ mode ∈ m.enabledModes
  · rw [switching.unchanged mode same] at pending
    rw [coherent mode value pending, decide_eq_decide.mpr same]
  · rw [switching.changed mode same] at pending
    exact (Option.some.inj pending).symm

/-- What is announced behind such a scope: the observer holds the new modes, and
everything is news exactly when all that was pending before was switched. -/
theorem Switching.announced {m m' : TerminalMode} (switching : Switching m m')
    (coherent : Coherent m) :
    observeAll m.enabledModes (acts m'.emitModeChanges.2) = m'.enabledModes ∧
      (AllNews m.enabledModes (acts m'.emitModeChanges.2) ↔
        ∀ mode ∈ m.pendingChanges, ¬(mode ∈ m'.enabledModes ↔ mode ∈ m.enabledModes)) := by
  have perm := m'.hashOrder.perm m'.pendingChanges
  have nodup : (m'.hashOrder.visit m'.pendingChanges).NodupKeys :=
    (List.perm_nodupKeys perm).mpr m'.pendingChanges.nodupKeys
  have recorded : ∀ mode, (m'.hashOrder.visit m'.pendingChanges).dlookup mode =
      m'.pendingChanges.lookup mode := fun mode => List.perm_dlookup mode nodup perm
  obtain ⟨members, news⟩ := observeAll_changes nodup m.enabledModes
  rw [acts_emitModeChanges, news]
  constructor
  · ext mode
    rw [members mode, recorded mode]
    by_cases same : mode ∈ m'.enabledModes ↔ mode ∈ m.enabledModes
    · cases pending : m'.pendingChanges.lookup mode with
      | none => simp [same]
      | some value =>
          rw [switching.coherent coherent mode value pending]
          simp
    · rw [switching.changed mode same]
      simp
  · constructor
    · intro allNews mode pending same
      obtain ⟨value, stored⟩ := Option.isSome_iff_exists.mp (AList.lookup_isSome.mpr pending)
      have value_eq := coherent mode value stored
      rw [← switching.unchanged mode same, ← recorded mode] at stored
      have here := allNews ⟨mode, value⟩ (List.of_mem_dlookup stored)
      dsimp only at here
      rw [value_eq, decide_eq_true_iff] at here
      exact (iff_not_self here).elim
    · intro switched change mem
      rcases change with ⟨mode, value⟩
      have stored : m'.pendingChanges.lookup mode = some value := by
        rw [← recorded mode]
        exact List.mem_dlookup nodup mem
      have differs : ¬(mode ∈ m'.enabledModes ↔ mode ∈ m.enabledModes) := by
        intro same
        refine switched mode ?_ same
        rw [switching.unchanged mode same] at stored
        exact AList.lookup_isSome.mp (Option.isSome_iff_exists.mpr ⟨value, stored⟩)
      have value_eq := switching.coherent coherent mode value stored
      dsimp only
      rw [value_eq, decide_eq_true_iff]
      tauto

theorem setModeSection_switching {mode : Mode} {m : TerminalMode} (off : mode ∉ m.enabledModes) :
    Switching m (m.setModeSection mode).2 := by
  unfold setModeSection
  rw [if_neg off]
  constructor
  · intro key differs
    have same : key = mode := by
      by_contra other
      exact differs (by simp [other])
    subst same
    simp
  · intro key same
    have other : key ≠ mode := by
      rintro rfl
      exact off (same.mp (Finset.mem_insert_self _ _))
    exact AList.lookup_insert_ne other

theorem resetModeSection_switching {mode : Mode} {m : TerminalMode} (on : mode ∈ m.enabledModes) :
    Switching m (m.resetModeSection mode).2 := by
  unfold resetModeSection
  rw [if_neg (not_not.mpr on)]
  constructor
  · intro key differs
    have same : key = mode := by
      by_contra other
      exact differs (by simp [other])
    subst same
    simp
  · intro key same
    have other : key ≠ mode := by
      rintro rfl
      exact Finset.notMem_erase _ _ (same.mpr on)
    exact AList.lookup_insert_ne other

theorem restoreModesSection_switching (m : TerminalMode) : Switching m m.restoreModesSection := by
  unfold restoreModesSection
  constructor
  · intro key differs
    simp only [lookup_recordChanges, toEnable, toDisable, Finset.mem_sdiff]
    by_cases saved : key ∈ m.savedModes
    · have off : key ∉ m.enabledModes := fun on => differs (iff_of_true saved on)
      simp [saved, off]
    · have on : key ∈ m.enabledModes := by
        by_contra off
        exact differs (iff_of_false saved off)
      simp [saved, on]
  · intro key same
    simp only [lookup_recordChanges, toEnable, toDisable, Finset.mem_sdiff]
    by_cases saved : key ∈ m.savedModes
    · simp [saved, same.mp saved]
    · have off : key ∉ m.enabledModes := fun on => saved (same.mpr on)
      simp [saved, off]

/-! ## Single calls -/

/-- The modes a call switches. -/
def Call.switches (m : TerminalMode) : Call → Finset Mode
  | .setMode mode => {mode} \ m.enabledModes
  | .resetMode mode => {mode} ∩ m.enabledModes
  | .toggleMode mode => {mode}
  | .saveModes => ∅
  | .restoreModes => m.toDisable ∪ m.toEnable
  | .resetAllModes => (m.enabledModes \ {.autoWrap}) ∪ ({.autoWrap} \ m.enabledModes)

theorem restoreModes_enabledModes (m : TerminalMode) :
    m.restoreModes.1.enabledModes = m.savedModes := by
  unfold restoreModes
  split
  case isTrue nothing =>
    rw [toDisable, toEnable, Finset.sdiff_eq_empty_iff_subset, Finset.sdiff_eq_empty_iff_subset]
      at nothing
    exact nothing.1.antisymm nothing.2
  case isFalse => rfl

theorem toggleMode_enabledModes (mode : Mode) (m : TerminalMode) :
    (m.toggleMode mode).2.1.enabledModes =
      if mode ∈ m.enabledModes then m.enabledModes.erase mode else insert mode m.enabledModes := by
  unfold toggleMode
  by_cases on : mode ∈ m.enabledModes
  · simp [on, resetMode_enabledModes]
  · simp [on, setMode_enabledModes]

theorem Call.mem_switches (c : Call) (m : TerminalMode) (mode : Mode) :
    mode ∈ c.switches m ↔ ¬(mode ∈ (c.run m).1.enabledModes ↔ mode ∈ m.enabledModes) := by
  cases c with
  | setMode other =>
      change _ ↔ ¬(mode ∈ (m.setMode other).2.1.enabledModes ↔ _)
      rw [setMode_enabledModes, switches, Finset.mem_sdiff, Finset.mem_singleton, Finset.mem_insert]
      tauto
  | resetMode other =>
      change _ ↔ ¬(mode ∈ (m.resetMode other).2.1.enabledModes ↔ _)
      rw [resetMode_enabledModes, switches, Finset.mem_inter, Finset.mem_singleton,
        Finset.mem_erase]
      tauto
  | toggleMode other =>
      change _ ↔ ¬(mode ∈ (m.toggleMode other).2.1.enabledModes ↔ _)
      rw [toggleMode_enabledModes, switches, Finset.mem_singleton]
      by_cases same : mode = other
      · subst same
        by_cases on : mode ∈ m.enabledModes <;> simp [on]
      · by_cases on : other ∈ m.enabledModes <;> simp [on, same]
  | saveModes => exact iff_of_false (Finset.notMem_empty _) (not_not.mpr Iff.rfl)
  | restoreModes =>
      change _ ↔ ¬(mode ∈ m.restoreModes.1.enabledModes ↔ _)
      rw [restoreModes_enabledModes, switches, toDisable, toEnable, Finset.mem_union,
        Finset.mem_sdiff, Finset.mem_sdiff]
      tauto
  | resetAllModes =>
      change _ ↔ ¬(mode ∈ ({.autoWrap} : Finset Mode) ↔ _)
      rw [switches, Finset.mem_union, Finset.mem_sdiff, Finset.mem_sdiff]
      tauto

theorem Call.switches_eq_empty {c : Call} {m : TerminalMode} :
    c.switches m = ∅ ↔ (c.run m).1.enabledModes = m.enabledModes := by
  constructor
  · intro none
    ext mode
    have unswitched : mode ∉ c.switches m := none ▸ Finset.notMem_empty mode
    exact not_not.mp ((c.mem_switches m mode).not.mp unswitched)
  · intro same
    rw [Finset.eq_empty_iff_forall_notMem]
    intro mode mem
    exact (c.mem_switches m mode).mp mem (by rw [same])

/-- What a call other than `resetAllModes` does: nothing an observer can see, or
a scope that switches modes and the announcement behind it. -/
inductive Outcome (m : TerminalMode) (r : Step) : Prop
  | quiet :
      r.1.enabledModes = m.enabledModes → r.1.pendingChanges = m.pendingChanges →
      acts r.2 = [] → Outcome m r
  | announcing {m' : TerminalMode} (requested : Prop) [Decidable requested] :
      Switching m m' → m'.enabledModes ≠ m.enabledModes →
      r.1.enabledModes = m'.enabledModes → r.1.pendingChanges = ∅ →
      acts r.2 = acts m'.emitModeChanges.2 ++
        acts (if requested then [Event.act Signal.flushRequested]
          else ([] : List (Event Mutex Signal))) →
      Outcome m r

theorem setMode_outcome (mode : Mode) (m : TerminalMode) : Outcome m (m.setMode mode).2 := by
  by_cases on : mode ∈ m.enabledModes
  · refine .quiet ?_ ?_ ?_ <;> simp [setMode, setModeSection, on]
  · refine .announcing False (setModeSection_switching on) ?_ ?_ ?_ ?_
    · simp [setModeSection, on]
    all_goals simp [setMode, setModeSection, on, emitModeChanges_spec]

theorem resetMode_outcome (mode : Mode) (m : TerminalMode) : Outcome m (m.resetMode mode).2 := by
  by_cases on : mode ∈ m.enabledModes
  · refine .announcing (mode = .synchronizedOutput) (resetModeSection_switching on) ?_ ?_ ?_ ?_
    · simp [resetModeSection, on]
    all_goals simp [resetMode, resetModeSection, on, emitModeChanges_spec]
  · refine .quiet ?_ ?_ ?_ <;> simp [resetMode, resetModeSection, on]

theorem restoreModes_outcome (m : TerminalMode) : Outcome m m.restoreModes := by
  unfold restoreModes
  by_cases nothing : m.toDisable = ∅ ∧ m.toEnable = ∅
  · rw [if_pos nothing]
    exact .quiet rfl rfl rfl
  · rw [if_neg nothing]
    refine .announcing (.synchronizedOutput ∈ m.toDisable) m.restoreModesSection_switching ?_ ?_ ?_
      ?_
    · intro same
      refine nothing ⟨?_, ?_⟩
      · rw [toDisable, Finset.sdiff_eq_empty_iff_subset]
        exact same.symm.subset
      · rw [toEnable, Finset.sdiff_eq_empty_iff_subset]
        exact same.subset
    all_goals simp [emitModeChanges_spec]

theorem toggleMode_outcome (mode : Mode) (m : TerminalMode) :
    Outcome m (m.toggleMode mode).2 := by
  have locked {r : Step} (outcome : Outcome m r) :
      Outcome m (r.1, critical .modeManager [] ++ r.2) := by
    have same : acts (critical Mutex.modeManager [] ++ r.2) = acts r.2 := by simp
    cases outcome with
    | quiet enabled pending silent => exact .quiet enabled pending (same.trans silent)
    | announcing requested switching differs enabled pending emitted =>
        exact .announcing requested switching differs enabled pending (same.trans emitted)
  unfold toggleMode
  dsimp only
  split
  · exact locked (resetMode_outcome mode m)
  · exact locked (setMode_outcome mode m)

theorem Call.outcome {c : Call} (announces : c ≠ .resetAllModes) (m : TerminalMode) :
    Outcome m (c.run m) := by
  cases c with
  | setMode mode => exact setMode_outcome mode m
  | resetMode mode => exact resetMode_outcome mode m
  | toggleMode mode => exact toggleMode_outcome mode m
  | saveModes => exact .quiet rfl rfl rfl
  | restoreModes => exact restoreModes_outcome m
  | resetAllModes => exact (announces rfl).elim

/-- An observer can follow the call: `resetAllModes` finds the modes as it
leaves them, and any other call that switches a mode also switches every mode
with an entry in the pending changes. -/
def Call.Followable (m : TerminalMode) (c : Call) : Prop :=
  if c = .resetAllModes then m.enabledModes = {.autoWrap}
  else c.switches m = ∅ ∨ ∀ mode ∈ m.pendingChanges, mode ∈ c.switches m

theorem Call.coherent (c : Call) {m : TerminalMode} (coherent : Coherent m) :
    Coherent (c.run m).1 := by
  by_cases announces : c = .resetAllModes
  · subst announces
    intro mode value pending
    change ((∅ : Changes).insert .autoWrap true).lookup mode = some value at pending
    by_cases same : mode = .autoWrap
    · subst same
      rw [AList.lookup_insert] at pending
      exact (Option.some.inj pending).symm
    · rw [AList.lookup_insert_ne same, AList.lookup_empty] at pending
      cases pending
  · intro mode value pending
    cases c.outcome announces m with
    | quiet enabled same _ =>
        rw [same] at pending
        rw [enabled]
        exact coherent mode value pending
    | announcing _ _ _ _ none _ =>
        rw [none, AList.lookup_empty] at pending
        cases pending

/-- One call, seen by an observer that holds the enabled modes. -/
theorem Call.tracks_iff (c : Call) {m : TerminalMode} (coherent : Coherent m) :
    observeAll m.enabledModes (acts (c.run m).2) = (c.run m).1.enabledModes ∧
        AllNews m.enabledModes (acts (c.run m).2) ↔ c.Followable m := by
  unfold Followable
  by_cases announces : c = .resetAllModes
  · subst announces
    obtain ⟨seen, news⟩ := observeAll_flushRequested m.enabledModes
      (.synchronizedOutput ∈ m.enabledModes)
    have silent : acts (Call.resetAllModes.run m).2 =
        acts (if Mode.synchronizedOutput ∈ m.enabledModes then [Event.act Signal.flushRequested]
          else ([] : List (Event Mutex Signal))) := by
      simp [run, TerminalMode.resetAllModes]
    rw [silent, seen, if_pos rfl]
    exact and_iff_left news
  · rw [if_neg announces]
    cases c.outcome announces m with
    | quiet enabled _ silent =>
        rw [silent]
        exact iff_of_true ⟨enabled.symm, trivial⟩ (Or.inl (switches_eq_empty.mpr enabled))
    | @announcing m' requested _ switching differs enabled _ emitted =>
        obtain ⟨seen, news⟩ := switching.announced coherent
        obtain ⟨seen', news'⟩ := observeAll_flushRequested m'.enabledModes requested
        have some : c.switches m ≠ ∅ := by
          rw [Ne, switches_eq_empty, enabled]
          exact differs
        rw [emitted, observeAll_append, allNews_append, seen, seen', news, enabled,
          and_iff_right rfl, and_iff_left news', or_iff_right some]
        refine forall₂_congr fun mode _ => ?_
        rw [mem_switches, enabled]

/-! ## Sequences of calls -/

/-- An observer can follow each of the calls. -/
def FollowableAlong : TerminalMode → List Call → Prop
  | _, [] => True
  | m, c :: calls => c.Followable m ∧ FollowableAlong (c.run m).1 calls

theorem Coherent.tracksAlong_iff {m : TerminalMode} (coherent : Coherent m) (calls : List Call) :
    TracksAlong m.enabledModes m calls ↔ FollowableAlong m calls := by
  induction calls generalizing m with
  | nil => exact Iff.rfl
  | cons c calls ih =>
      rw [TracksAlong, FollowableAlong, ← and_assoc, c.tracks_iff coherent]
      refine and_congr_right fun followable => ?_
      rw [((c.tracks_iff coherent).mpr followable).1]
      exact ih (c.coherent coherent)

theorem new_coherent (hashOrder : HashOrder) : Coherent (TerminalMode.new hashOrder) := by
  refine Call.coherent .resetAllModes (m := { enabledModes := ∅, savedModes := ∅, .. }) ?_
  intro mode value pending
  rw [AList.lookup_empty] at pending
  cases pending

/-- What calls make of a new manager. -/
def reached (hashOrder : HashOrder) (calls : List Call) : TerminalMode :=
  calls.foldl (fun m c => (c.run m).1) (TerminalMode.new hashOrder)

theorem reached_coherent (hashOrder : HashOrder) (calls : List Call) :
    Coherent (reached hashOrder calls) := by
  have all (m : TerminalMode) (coherent : Coherent m) :
      Coherent (calls.foldl (fun m c => (c.run m).1) m) := by
    induction calls generalizing m with
    | nil => exact coherent
    | cons c calls ih => exact ih _ (c.coherent coherent)
  exact all _ (new_coherent hashOrder)

/-- **What an observer can follow.** Starting from the modes of a newly
constructed manager, an observer of `modeChanged` holds the enabled modes after
every call, each notification being news to it, exactly when it can follow each
of the calls. -/
theorem tracksAlong_new_iff (hashOrder : HashOrder) (calls : List Call) :
    TracksAlong {.autoWrap} (TerminalMode.new hashOrder) calls ↔
      FollowableAlong (TerminalMode.new hashOrder) calls :=
  (new_coherent hashOrder).tracksAlong_iff calls

/-- The first call on a new manager tells an observer that `AUTO_WRAP` is on,
which it knew. -/
theorem setMode_repeats_autoWrap :
    ¬ ∀ hashOrder calls, TracksAlong {.autoWrap} (TerminalMode.new hashOrder) calls := by
  intro claim
  obtain ⟨-, news, -⟩ := claim .newestFirst [.setMode .showCursor]
  exact news.2.1 (by decide)

end TerminalMode

end WindTerm

import WindTerm.Terminal.Calls

/-!
# Commands with several modes

Of the parameters of a DECSET or DECRST, `processCommand` looks at the first one only: a command
does what it does with its other parameters taken away (`effect_first`). Run with one parameter at
a time, it switches the modes of all of them. So the two agree exactly when the other parameters
have nothing to switch (`mode_list_iff`).
-/

namespace WindTerm

open Library CSIParser

namespace TerminalHandler

/-! ## The mode of a parameter -/

/-- The value a command gives to modes: DECSET and DECRST, with or without `?`. -/
def switchValue : CommandType → Option Bool
  | .decset => some true
  | .decsetPrivate => some true
  | .decrst => some false
  | .decrstPrivate => some false
  | _ => none

/-- The command with one of its parameters. -/
def single (cmd : Command) (param : Int) : Command := { cmd with params := [param] }

/-- The mode that the command switches with a parameter. -/
def paramMode (cmd : Command) (param : Int) : Option TerminalMode.Mode :=
  if (cmd.type = .decsetPrivate ∨ cmd.type = .decrstPrivate) ∧ cmd.isPrivate = true ∧ param = 2026
  then some .synchronizedOutput
  else decMode param

/-- What giving a mode its value makes of the enabled modes. -/
def switchMode (on : Bool) (mode : Option TerminalMode.Mode)
    (enabled : Finset TerminalMode.Mode) : Finset TerminalMode.Mode :=
  match mode with
  | none => enabled
  | some m => if on then insert m enabled else enabled.erase m

theorem mem_switchMode (on : Bool) (mode : Option TerminalMode.Mode)
    (enabled : Finset TerminalMode.Mode) (m : TerminalMode.Mode) :
    m ∈ switchMode on mode enabled ↔ if mode = some m then on = true else m ∈ enabled := by
  cases mode with
  | none => exact Iff.rfl
  | some m' =>
      rcases Decidable.em (m' = m) with rfl | ne
      · cases on <;> simp [switchMode]
      · cases on <;> simp [switchMode, ne, Ne.symm ne]

/-- The effect of switching a mode, if there is one. -/
def modeEffect (on : Bool) : Option TerminalMode.Mode → Effect
  | none => .ignore
  | some m => .switch m on

theorem switchEffect_eq (param : Int) (on : Bool) :
    switchEffect param on = modeEffect on (decMode param) := by
  unfold switchEffect
  cases decMode param <;> rfl

/-- The effect of a command comes from its first parameter. -/
theorem effect_first {cmd : Command} {on : Bool} (switches : switchValue cmd.type = some on)
    {param : Int} {params : List Int} (first : cmd.params = param :: params) :
    effect cmd = modeEffect on (paramMode cmd param) := by
  rcases cmd with ⟨type, ps, intermediate, finalChar, isPrivate⟩
  dsimp only at first switches
  subst first
  cases type
  case decset | decrst =>
    cases switches
    exact switchEffect_eq param _
  case decsetPrivate | decrstPrivate =>
    cases switches
    unfold effect privateEffect isSynchronizedOutputCommand paramMode
    cases isPrivate with
    | false => simp [switchEffect_eq]
    | true =>
        rcases Decidable.em (param = 2026) with rfl | ne
        · simp [modeEffect]
        · simp [ne, switchEffect_eq]
  all_goals cases switches

theorem callModeManager_modeManager (op : TerminalMode → TerminalMode.Step) (h : TerminalHandler) :
    (callModeManager op h).1.modeManager = (op h.modeManager).1 := by
  rw [(callModeManager_spec op h).1]
  exact feed_invariant (fun h' : TerminalHandler => h'.modeManager = (op h.modeManager).1)
    (fun _ _ kept => kept) _ rfl

section

variable [Platform]

theorem modeEffect_enabledModes (on : Bool) (mode : Option TerminalMode.Mode)
    (h : TerminalHandler) :
    ((modeEffect on mode).run h).1.modeManager.enabledModes =
      switchMode on mode h.modeManager.enabledModes := by
  cases mode with
  | none => rfl
  | some m =>
      cases on with
      | true =>
          change (h.setMode m).1.modeManager.enabledModes = insert m _
          rw [TerminalHandler.setMode, callModeManager_modeManager]
          exact TerminalMode.setMode_enabledModes m h.modeManager
      | false =>
          change (h.resetMode m).1.modeManager.enabledModes = Finset.erase _ m
          rw [TerminalHandler.resetMode, callModeManager_modeManager]
          exact TerminalMode.resetMode_enabledModes m h.modeManager

/-! ## Commands and lists -/

theorem processCommand_enabledModes {cmd : Command} {on : Bool}
    (switches : switchValue cmd.type = some on) (h : TerminalHandler) :
    (processCommand cmd h).1.modeManager.enabledModes =
      switchMode on (cmd.params.head?.bind (paramMode cmd)) h.modeManager.enabledModes := by
  change (executeCommand cmd h).1.modeManager.enabledModes = _
  rw [executeCommand_eq]
  cases params : cmd.params with
  | nil =>
      have ignores : effect cmd = .ignore := by
        rcases cmd with ⟨type, ps, intermediate, finalChar, isPrivate⟩
        dsimp only at params switches
        subst params
        cases type
        case decset | decrst | decsetPrivate | decrstPrivate => rfl
        all_goals cases switches
      rw [ignores]
      rfl
  | cons param rest =>
      rw [effect_first switches params]
      exact modeEffect_enabledModes on (paramMode cmd param) h

theorem single_enabledModes {cmd : Command} {on : Bool}
    (switches : switchValue cmd.type = some on) (param : Int) (h : TerminalHandler) :
    (processCommand (single cmd param) h).1.modeManager.enabledModes =
      switchMode on (paramMode cmd param) h.modeManager.enabledModes :=
  @processCommand_enabledModes _ (single cmd param) on switches h

/-- One parameter at a time, the modes of all of them get the value. -/
theorem singles_enabledModes {cmd : Command} {on : Bool}
    (switches : switchValue cmd.type = some on) (params : List Int) (h : TerminalHandler)
    (m : TerminalMode.Mode) :
    m ∈ (processCommands (params.map (single cmd)) h).1.modeManager.enabledModes ↔
      if ∃ param ∈ params, paramMode cmd param = some m then on = true
      else m ∈ h.modeManager.enabledModes := by
  induction params generalizing h with
  | nil =>
      rw [if_neg (by simp)]
      exact Iff.rfl
  | cons param params ih =>
      change m ∈ (processCommands (params.map (single cmd))
        (processCommand (single cmd param) h).1).1.modeManager.enabledModes ↔ _
      rw [ih, single_enabledModes switches, mem_switchMode]
      rcases Decidable.em (∃ param ∈ params, paramMode cmd param = some m) with later | none
      · have here : ∃ p ∈ param :: params, paramMode cmd p = some m := by
          obtain ⟨p, mem, stands⟩ := later
          exact ⟨p, List.mem_cons_of_mem param mem, stands⟩
        rw [if_pos later, if_pos here]
      · rw [if_neg none]
        refine iff_of_eq (if_congr ?_ rfl rfl)
        constructor
        · intro stands
          exact ⟨param, List.mem_cons_self, stands⟩
        · rintro ⟨p, mem, stands⟩
          rcases List.mem_cons.mp mem with rfl | later
          · exact stands
          · exact absurd ⟨p, later, stands⟩ none

/-- **Lists of modes.** Processed as one command, a DECSET or DECRST leaves the same enabled modes
as one command for each of its parameters exactly when each mode of a parameter behind the first
has the value already, or is the mode of the first. -/
theorem mode_list_iff (h : TerminalHandler) (cmd : Command) (on : Bool)
    (switches : switchValue cmd.type = some on) :
    (processCommand cmd h).1.modeManager.enabledModes =
        (processCommands (cmd.params.map (single cmd)) h).1.modeManager.enabledModes ↔
      ∀ param ∈ cmd.params.tail, ∀ m, paramMode cmd param = some m →
        (m ∈ h.modeManager.enabledModes ↔ on = true) ∨
          cmd.params.head?.bind (paramMode cmd) = some m := by
  rw [processCommand_enabledModes switches, Finset.ext_iff]
  constructor
  · intro same param later m stands
    have here := same m
    have some : ∃ p ∈ cmd.params, paramMode cmd p = some m :=
      ⟨param, List.mem_of_mem_tail later, stands⟩
    rw [mem_switchMode, singles_enabledModes switches, if_pos some] at here
    rcases Decidable.em (cmd.params.head?.bind (paramMode cmd) = .some m) with first | other
    · exact Or.inr first
    · rw [if_neg other] at here
      exact Or.inl here
  · intro settled m
    rw [mem_switchMode, singles_enabledModes switches]
    rcases Decidable.em (cmd.params.head?.bind (paramMode cmd) = .some m) with first | other
    · have some : ∃ p ∈ cmd.params, paramMode cmd p = .some m := by
        obtain ⟨param, head, stands⟩ := Option.bind_eq_some_iff.mp first
        exact ⟨param, List.mem_of_head? head, stands⟩
      rw [if_pos first, if_pos some]
    · rw [if_neg other]
      rcases Decidable.em (∃ p ∈ cmd.params, paramMode cmd p = .some m) with some | none
      · rw [if_pos some]
        obtain ⟨param, mem, stands⟩ := some
        rcases params : cmd.params with _ | ⟨first, rest⟩
        · rw [params] at mem
          exact (List.not_mem_nil mem).elim
        · rw [params] at mem settled other
          rcases List.mem_cons.mp mem with rfl | later
          · exact absurd stands other
          · exact (settled param later m stands).resolve_right other
      · rw [if_neg none]

omit [Platform] in
/-- `ESC [ 25 ; 2004 h` does not switch bracketed paste on. -/
theorem mode_list_second_ignored :
    letI := Platform.qt6
    let cmd : Command := { type := .decset, params := [25, 2004], finalChar := 0x68 }
    (processCommand cmd fresh).1.modeManager.enabledModes ≠
      (processCommands (cmd.params.map (single cmd)) fresh).1.modeManager.enabledModes := by
  decide

omit [Platform] in
/-- The first mode once more, and a number that stands for no mode. -/
theorem mode_list_repeated :
    letI := Platform.qt6
    let cmd : Command := { type := .decset, params := [25, 25, 7], finalChar := 0x68 }
    (processCommand cmd fresh).1.modeManager.enabledModes =
      (processCommands (cmd.params.map (single cmd)) fresh).1.modeManager.enabledModes := by
  intro cmd
  refine (@mode_list_iff Platform.qt6 fresh cmd true rfl).mpr fun param later m stands => ?_
  rcases List.mem_cons.mp later with rfl | later
  · exact Or.inr stands
  · rw [List.mem_singleton.mp later] at stands
    cases stands

end

end TerminalHandler

end WindTerm

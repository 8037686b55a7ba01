import WindTerm.Terminal.ModeThreads

/-!
# `toggleMode` under any interleaving

`toggleMode` looks at its mode in one locked scope and switches it in another,
by `setMode` or `resetMode`. Between the two another thread may switch the mode;
then the second scope finds it where it wants it and does nothing (`Stale`).
Each call flips the mode but for these: `exec_parity` counts, for any schedule,
the calls begun, the switches still owed and the stale ones, and
`toggles_kept_iff` is what is left of it when all calls have returned.
-/

namespace WindTerm

open Library

namespace TerminalMode

/-- What is left of a `toggleMode`: all of it, or a `setMode` or `resetMode`. -/
inductive Toggle where
  | toggleMode (mode : Mode)
  | act (k : Pending)
  deriving DecidableEq, Repr

/-- The next step of a `toggleMode`. -/
def toggleNext : Atomic TerminalMode Toggle Happening
  | .toggleMode mode, m =>
      let currentlyEnabled := decide (mode ∈ m.enabledModes)
      (m, some (.act (if currentlyEnabled then .resetMode mode else .setMode mode)), [])
  | .act k, m =>
      let r := next k m
      (r.1, r.2.1.map .act, r.2.2)

/-- Threads that toggle on one mode manager. -/
abbrev Togglers (τ : Type*) := Pool τ TerminalMode Toggle Happening

/-- A step that is about to switch a mode and finds it switched. -/
def Toggle.Stale : Toggle → TerminalMode → Prop
  | .act (.setMode mode), m => mode ∈ m.enabledModes
  | .act (.resetMode mode), m => mode ∉ m.enabledModes
  | _, _ => False

instance (k : Toggle) (m : TerminalMode) : Decidable (k.Stale m) := by
  unfold Toggle.Stale
  split <;> infer_instance

/-- A call that has not switched its mode yet. -/
def owes : Option Toggle → Nat
  | some (.toggleMode _) => 1
  | some (.act (.setMode _)) => 1
  | some (.act (.resetMode _)) => 1
  | _ => 0

/-- The calls that toggle this mode, or have switched already. -/
def Toggle.On (mode : Mode) : Toggle → Prop
  | .toggleMode mode' => mode' = mode
  | .act (.setMode mode') => mode' = mode
  | .act (.resetMode mode') => mode' = mode
  | .act (.emitModeChanges _) => True
  | .act (.emit _ _) => True

section

variable {τ : Type*} [DecidableEq τ]

/-- The calls a schedule begins. -/
def begun : List (Move τ Toggle) → Nat
  | [] => 0
  | .enter _ _ :: moves => begun moves + 1
  | .advance _ :: moves => begun moves

/-- The stale steps of a schedule, each judged in the state it is made in. -/
def staleSteps : List (Move τ Toggle) → Togglers τ → Nat
  | [], _ => 0
  | .enter t k :: moves, p => staleSteps moves (p.enter t k)
  | .advance t :: moves, p =>
      match p.call t with
      | none => staleSteps moves p
      | some k =>
          (if k.Stale p.shared then 1 else 0) + staleSteps moves (p.advance toggleNext t k)

/-! ## What a step does -/

omit [DecidableEq τ] in
theorem iterate_not (n : Nat) (b : Bool) : not^[n] b = (b ^^ decide (n % 2 = 1)) := by
  induction n with
  | zero => simp
  | succ n ih =>
      rw [Function.iterate_succ_apply', ih, ← Bool.xor_not, ← decide_not]
      congr 2
      rw [eq_iff_iff]
      omega

omit [DecidableEq τ] in
/-- Only the parity counts. -/
theorem iterate_not_congr {n m : Nat} (parity : n % 2 = m % 2) (b : Bool) :
    not^[n] b = not^[m] b := by
  rw [iterate_not, iterate_not, parity]

omit [DecidableEq τ] in
theorem iterate_not_add_iff (n m : Nat) (b : Bool) :
    not^[n + m] b = not^[n] b ↔ Even m := by
  rw [iterate_not, iterate_not, Bool.xor_right_inj, decide_eq_decide, Nat.even_iff]
  omega

omit [DecidableEq τ] in
theorem owes_emitAll (signals : List Signal) : owes ((emitAll signals).map .act) = 0 := by
  cases signals <;> rfl

omit [DecidableEq τ] in
theorem on_emitAll {mode : Mode} (signals : List Signal) {l : Toggle}
    (left : (emitAll signals).map Toggle.act = some l) : l.On mode := by
  cases signals with
  | nil => cases left
  | cons s rest =>
      cases left
      exact trivial

omit [DecidableEq τ] in
/-- A step leaves a call that toggles the same mode. -/
theorem toggleNext_on {mode : Mode} {k l : Toggle} (on : k.On mode) {m : TerminalMode}
    (left : (toggleNext k m).2.1 = some l) : l.On mode := by
  cases k with
  | toggleMode mode' =>
      cases left
      split <;> exact on
  | act k =>
      cases k with
      | setMode mode' =>
          simp only [toggleNext, next] at left
          split at left
          · cases left
            exact trivial
          · cases left
      | resetMode mode' =>
          simp only [toggleNext, next] at left
          split at left
          · cases left
            exact trivial
          · cases left
      | emitModeChanges needFlush => exact on_emitAll _ left
      | emit s rest => exact on_emitAll _ left

omit [DecidableEq τ] in
/-- The step of a call that has to switch its mode flips it, unless it is stale;
no other step changes the mode. -/
theorem toggleNext_enabledModes {mode : Mode} {k : Toggle} (on : k.On mode) (m : TerminalMode) :
    decide (mode ∈ (toggleNext k m).1.enabledModes) =
      not^[owes (some k) + owes (toggleNext k m).2.1 + if k.Stale m then 1 else 0]
        (decide (mode ∈ m.enabledModes)) := by
  cases k with
  | toggleMode mode' =>
      have still : owes (toggleNext (.toggleMode mode') m).2.1 = 1 := by
        simp only [toggleNext]
        split <;> rfl
      rw [still, if_neg (show ¬ (Toggle.toggleMode mode').Stale m from id)]
      exact (Bool.not_not _).symm
  | act k =>
      cases k with
      | setMode mode' =>
          subst on
          rcases Decidable.em (mode' ∈ m.enabledModes) with stale | fresh
          · rw [if_pos (show (Toggle.act (.setMode mode')).Stale m from stale)]
            simp [toggleNext, next, setModeSection, stale, owes]
          · rw [if_neg (show ¬ (Toggle.act (.setMode mode')).Stale m from fresh)]
            simp [toggleNext, next, setModeSection, fresh, owes]
      | resetMode mode' =>
          subst on
          rcases Decidable.em (mode' ∈ m.enabledModes) with fresh | stale
          · rw [if_neg (show ¬ (Toggle.act (.resetMode mode')).Stale m from not_not.mpr fresh)]
            simp [toggleNext, next, resetModeSection, fresh, owes]
          · rw [if_pos (show (Toggle.act (.resetMode mode')).Stale m from stale)]
            simp [toggleNext, next, resetModeSection, stale, owes]
      | emitModeChanges needFlush =>
          have paid : owes (toggleNext (.act (.emitModeChanges needFlush)) m).2.1 = 0 :=
            owes_emitAll _
          rw [paid, if_neg (show ¬ (Toggle.act (.emitModeChanges needFlush)).Stale m from id)]
          rfl
      | emit s rest =>
          have paid : owes (toggleNext (.act (.emit s rest)) m).2.1 = 0 := owes_emitAll _
          rw [paid, if_neg (show ¬ (Toggle.act (.emit s rest)).Stale m from id)]
          rfl

/-! ## Schedules -/

omit [DecidableEq τ] in
theorem begun_cons (move : Move τ Toggle) (moves : List (Move τ Toggle)) :
    begun (move :: moves) = begun [move] + begun moves := by
  cases move with
  | enter t k => exact Nat.add_comm (begun moves) 1
  | advance t => exact (Nat.zero_add (begun moves)).symm

theorem staleSteps_cons {move : Move τ Toggle} (moves : List (Move τ Toggle)) {p q : Togglers τ}
    (moved : p.move toggleNext move = some q) :
    staleSteps (move :: moves) p = staleSteps [move] p + staleSteps moves q := by
  rcases Pool.move_cases moved with ⟨t, k, rfl, -, rfl⟩ | ⟨t, k, rfl, here, rfl⟩
  · exact (Nat.zero_add (staleSteps moves _)).symm
  · simp only [staleSteps, here, Nat.add_zero]

/-- A step of a schedule leaves calls that toggle the same mode. -/
theorem move_on {mode : Mode} {move : Move τ Toggle} {p q : Togglers τ}
    (toggles : ∀ t k, move = .enter t k → k = .toggleMode mode)
    (on : ∀ t k, p.call t = some k → k.On mode) (moved : p.move toggleNext move = some q) :
    ∀ t k, q.call t = some k → k.On mode := by
  rcases Pool.move_cases moved with ⟨t, k, isEnter, -, rfl⟩ | ⟨t, k, -, here, rfl⟩
  · apply Pool.each_call_enter on
    rw [toggles t k isEnter]
    exact rfl
  · apply Pool.each_call_advance on
    exact fun l left => toggleNext_on (on t k here) left

variable [Fintype τ]

/-- A step of a schedule flips the mode once if it begins a call, once if it is
stale, and as often as the switches owed before and behind it. -/
theorem move_parity {mode : Mode} {move : Move τ Toggle} {p q : Togglers τ}
    (toggles : ∀ t k, move = .enter t k → k = .toggleMode mode)
    (on : ∀ t k, p.call t = some k → k.On mode) (moved : p.move toggleNext move = some q) :
    decide (mode ∈ q.shared.enabledModes) =
      not^[begun [move] + staleSteps [move] p + ∑ t, owes (p.call t) + ∑ t, owes (q.call t)]
        (decide (mode ∈ p.shared.enabledModes)) := by
  rcases Pool.move_cases moved with ⟨t, k, isEnter, free, rfl⟩ | ⟨t, k, isAdvance, here, rfl⟩
  · have isToggle := toggles t k isEnter
    subst isEnter isToggle
    have owed := Pool.sum_enter owes free (.toggleMode mode)
    rw [iterate_not_congr (m := 0)]
    · rfl
    · simp only [begun, staleSteps, owes] at owed ⊢
      omega
  · subst isAdvance
    have owed := Pool.sum_advance owes toggleNext here
    change decide (mode ∈ (toggleNext k p.shared).1.enabledModes) = _
    rw [toggleNext_enabledModes (on t k here) p.shared]
    apply iterate_not_congr
    simp only [begun, staleSteps, here]
    omega

/-- Along any schedule the mode is flipped once for each call begun, less those
that still owe their switch and those that found it made. -/
theorem exec_parity {mode : Mode} {moves : List (Move τ Toggle)} {p q : Togglers τ}
    (toggles : ∀ t k, .enter t k ∈ moves → k = .toggleMode mode)
    (on : ∀ t k, p.call t = some k → k.On mode) (executed : p.exec toggleNext moves = some q) :
    decide (mode ∈ q.shared.enabledModes) =
      not^[begun moves + staleSteps moves p + ∑ t, owes (p.call t) + ∑ t, owes (q.call t)]
        (decide (mode ∈ p.shared.enabledModes)) := by
  induction moves generalizing p with
  | nil =>
      injection executed with same
      subst same
      rw [iterate_not_congr (m := 0)]
      · rfl
      · simp only [begun, staleSteps]
        omega
  | cons move moves ih =>
      obtain ⟨p', moved, rest⟩ := Option.bind_eq_some_iff.mp executed
      have first (t : τ) (k : Toggle) (isEnter : move = .enter t k) : k = .toggleMode mode :=
        toggles t k (isEnter ▸ List.mem_cons_self)
      have later (t : τ) (k : Toggle) (mem : .enter t k ∈ moves) : k = .toggleMode mode :=
        toggles t k (List.mem_cons_of_mem _ mem)
      rw [ih later (move_on first on moved) rest, move_parity first on moved,
        ← Function.iterate_add_apply]
      -- the switches owed between the two are counted twice
      apply iterate_not_congr
      rw [begun_cons move moves, staleSteps_cons moves moved]
      omega

/-- **When no toggle is lost.** Let any number of threads toggle one mode, in any
interleaving. When all calls have returned, the mode is the initial one flipped
once for each call, if and only if the number of calls that came to switch the
mode and found it switched is even. -/
theorem toggles_kept_iff (m : TerminalMode) (mode : Mode) (moves : List (Move τ Toggle))
    (toggles : ∀ t k, .enter t k ∈ moves → k = .toggleMode mode) (p : Togglers τ)
    (executed : (Pool.idle m).exec toggleNext moves = some p) (returned : p.AllReturned) :
    decide (mode ∈ p.shared.enabledModes) =
        not^[begun moves] (decide (mode ∈ m.enabledModes)) ↔
      Even (staleSteps moves (Pool.idle m)) := by
  have parity := exec_parity toggles (fun t k here => by cases here) executed
  have before : ∑ t, owes ((Pool.idle m : Togglers τ).call t) = 0 :=
    Finset.sum_eq_zero fun t _ => rfl
  have behind : ∑ t, owes (p.call t) = 0 := by
    refine Finset.sum_eq_zero fun t _ => ?_
    rw [returned t]
    rfl
  rw [parity, before, behind, Nat.add_zero]
  exact iterate_not_add_iff _ _ _

/-- Two threads look, and then both switch. -/
def bothLook (t u : τ) : List (Move τ Toggle) :=
  [.enter t (.toggleMode .showCursor), .enter u (.toggleMode .showCursor), .advance t, .advance u,
    .advance t, .advance t, .advance t, .advance t, .advance u]

omit [DecidableEq τ] [Fintype τ] in
/-- Both calls return, and the mode is on. -/
theorem exec_bothLook :
    ∃ p : Togglers (Fin 2), (Pool.idle (TerminalMode.new .newestFirst)).exec toggleNext
        (bothLook 0 1) = some p ∧ p.AllReturned ∧ .showCursor ∈ p.shared.enabledModes := by
  have executes : ((Pool.idle (TerminalMode.new .newestFirst) : Togglers (Fin 2)).exec toggleNext
      (bothLook 0 1)).isSome = true := by decide +kernel
  obtain ⟨p, executed, result⟩ := Pool.exec_result executes
  refine ⟨p, executed, ?_, ?_⟩
  · intro t
    match t with
    | 0 => exact Option.some.inj ((result (·.call 0)).trans (by decide +kernel))
    | 1 => exact Option.some.inj ((result (·.call 1)).trans (by decide +kernel))
  · have on := Option.some.inj ((result fun p => decide (.showCursor ∈ p.shared.enabledModes)).trans
      (show _ = some true by decide +kernel))
    exact of_decide_eq_true on

omit [DecidableEq τ] [Fintype τ] in
theorem toggles_kept_iff_bothLook :
    ∃ p : Togglers (Fin 2), (Pool.idle (TerminalMode.new .newestFirst)).exec toggleNext
        (bothLook 0 1) = some p ∧ p.AllReturned ∧
      (decide (.showCursor ∈ p.shared.enabledModes) =
          not^[begun (bothLook (0 : Fin 2) 1)]
            (decide (.showCursor ∈ (TerminalMode.new .newestFirst).enabledModes)) ↔
        Even (staleSteps (bothLook (0 : Fin 2) 1) (Pool.idle (TerminalMode.new .newestFirst)))) ∧
      staleSteps (bothLook (0 : Fin 2) 1) (Pool.idle (TerminalMode.new .newestFirst)) = 1 := by
  obtain ⟨p, executed, returned, -⟩ := exec_bothLook
  refine ⟨p, executed, returned,
    toggles_kept_iff _ .showCursor (bothLook 0 1) ?_ p executed returned, by decide +kernel⟩
  intro t k mem
  simp only [bothLook, List.mem_cons, Move.enter.injEq, reduceCtorEq, List.not_mem_nil,
    or_false] at mem
  rcases mem with ⟨-, rfl⟩ | ⟨-, rfl⟩ <;> rfl

omit [DecidableEq τ] [Fintype τ] in
/-- Two calls have returned, and the mode is flipped once. -/
theorem toggle_lost :
    ∃ p : Togglers (Fin 2), (Pool.idle (TerminalMode.new .newestFirst)).exec toggleNext
        (bothLook 0 1) = some p ∧ p.AllReturned ∧
      decide (.showCursor ∈ p.shared.enabledModes) ≠
        not^[begun (bothLook (0 : Fin 2) 1)]
          (decide (.showCursor ∈ (TerminalMode.new .newestFirst).enabledModes)) := by
  obtain ⟨p, executed, returned, on⟩ := exec_bothLook
  refine ⟨p, executed, returned, ?_⟩
  rw [decide_eq_true on]
  decide +kernel

end

end TerminalMode

end WindTerm

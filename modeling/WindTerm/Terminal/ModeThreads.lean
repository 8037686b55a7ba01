import WindTerm.Library.Threads
import WindTerm.Terminal.ModeObserver
import Mathlib.Data.Fintype.Basic

/-!
# The mode manager under any interleaving

Threads call `setMode` and `resetMode` on one `TerminalMode`. A call that switches
its mode is a locked scope, the snapshot of the pending changes and the signals,
each a step of its own; another thread may come in between. What is pending for a
mode, in a thread's hands and announced last is followed by `Current`, which
every step keeps (`Current.advance`) provided no `modeChanged` overtakes one for
the same mode from an earlier snapshot. Then the last announcement of each mode
is right when all calls have returned (`run_agrees`).
-/

namespace WindTerm

open Library

namespace TerminalMode

/-! ## Calls in progress -/

/-- What is left of a call: all of it, the snapshot, or signals. -/
inductive Pending where
  | setMode (mode : Mode)
  | resetMode (mode : Mode)
  | emitModeChanges (needFlush : Bool)
  | emit (s : Signal) (rest : List Signal)
  deriving DecidableEq, Repr

/-- A thread may enter these. -/
def Pending.Starts : Pending → Prop
  | .setMode _ => True
  | .resetMode _ => True
  | _ => False

/-- What a step does besides changing the state: a mode is switched, the pending
changes are taken, a signal is emitted. -/
inductive Happening where
  | switched (mode : Mode) (enabled : Bool)
  | took (changes : Changes)
  | emitted (s : Signal)

/-- A call that still has these signals to emit. -/
def emitAll : List Signal → Option Pending
  | [] => none
  | s :: rest => some (.emit s rest)

/-- The next step of a call. -/
def next : Atomic TerminalMode Pending Happening
  | .setMode mode, m =>
      let r := m.setModeSection mode
      if r.1 then (r.2, some (.emitModeChanges false), [.switched mode true])
      else (r.2, none, [])
  | .resetMode mode, m =>
      let r := m.resetModeSection mode
      if r.1 then
        (r.2, some (.emitModeChanges (mode = .synchronizedOutput)), [.switched mode false])
      else (r.2, none, [])
  | .emitModeChanges needFlush, m =>
      let r := m.emitModeChangesSection
      (r.2,
        emitAll ((m.hashOrder.visit r.1).flatMap changeSignals ++
          if needFlush then [.flushRequested] else []),
        [.took r.1])
  | .emit s rest, m => (m, emitAll rest, [.emitted s])

/-- Threads that share a mode manager. -/
abbrev Threads (τ : Type*) := Pool τ TerminalMode Pending Happening

/-- The signals emitted in some happenings. -/
def signalsIn (es : List Happening) : List Signal :=
  es.filterMap fun
    | .emitted s => some s
    | _ => none

theorem signalsIn_append (es es' : List Happening) :
    signalsIn (es ++ es') = signalsIn es ++ signalsIn es' := List.filterMap_append

/-- The signals a thread holds between the snapshot and the end of its call. -/
def unsent : Option Pending → List Signal
  | some (.emit s rest) => s :: rest
  | _ => []

theorem unsent_emitAll (signals : List Signal) : unsent (emitAll signals) = signals := by
  cases signals <;> rfl

/-! ## A call alone -/

theorem alone_emitAll (signals : List Signal) (m : TerminalMode) {k : Pending}
    (left : emitAll signals = some k) :
    ∃ es, Alone next k m m es ∧ signalsIn es = signals := by
  induction signals generalizing k with
  | nil => cases left
  | cons s rest ih =>
      cases left
      cases more : emitAll rest with
      | none =>
          have last : rest = [] := by rw [← unsent_emitAll rest, more]; rfl
          subst last
          exact ⟨[.emitted s], .last rfl, rfl⟩
      | some k' =>
          obtain ⟨es, alone, signals⟩ := ih more
          refine ⟨[.emitted s] ++ es, .more (l := k') (u := m) ?_ alone, ?_⟩
          · rw [next, more]
          · rw [signalsIn_append, signals]
            rfl

theorem alone_emitModeChanges (needFlush : Bool) (m : TerminalMode) :
    ∃ es, Alone next (.emitModeChanges needFlush) m m.emitModeChanges.1 es ∧
      signalsIn es = acts m.emitModeChanges.2 ++ if needFlush then [.flushRequested] else [] := by
  rw [acts_emitModeChanges]
  generalize signals : (m.hashOrder.visit m.pendingChanges).flatMap changeSignals ++
    (if needFlush then [Signal.flushRequested] else []) = all
  have step : next (.emitModeChanges needFlush) m =
      (m.emitModeChanges.1, emitAll all, [.took m.pendingChanges]) := by
    rw [← signals]
    rfl
  cases left : emitAll all with
  | none =>
      rw [left] at step
      refine ⟨_, .last step, ?_⟩
      rw [← unsent_emitAll all, left]
      rfl
  | some k =>
      obtain ⟨es, alone, sent⟩ := alone_emitAll all m.emitModeChanges.1 left
      rw [left] at step
      refine ⟨_, .more step alone, ?_⟩
      rw [signalsIn_append, sent]
      rfl

/-- A call that no other thread interrupts does what the operation does, with
the same signals in the same order. -/
theorem alone_setMode (mode : Mode) (m : TerminalMode) :
    ∃ es, Alone next (.setMode mode) m (m.setMode mode).2.1 es ∧
      signalsIn es = acts (m.setMode mode).2.2 := by
  obtain ⟨es, alone, signals⟩ := alone_emitModeChanges false (m.setModeSection mode).2
  cases changed : (m.setModeSection mode).1 with
  | false =>
      refine ⟨[], .last ?_, ?_⟩
      · simp [next, TerminalMode.setMode, changed]
      · simp [TerminalMode.setMode, changed, signalsIn]
  | true =>
      refine ⟨[.switched mode true] ++ es,
        .more (l := .emitModeChanges false) (u := (m.setModeSection mode).2) ?_ ?_, ?_⟩
      · simp [next, changed]
      · simpa [TerminalMode.setMode, changed] using alone
      · rw [signalsIn_append, signals]
        simp [TerminalMode.setMode, changed, signalsIn]

theorem alone_resetMode (mode : Mode) (m : TerminalMode) :
    ∃ es, Alone next (.resetMode mode) m (m.resetMode mode).2.1 es ∧
      signalsIn es = acts (m.resetMode mode).2.2 := by
  obtain ⟨es, alone, signals⟩ :=
    alone_emitModeChanges (mode = .synchronizedOutput) (m.resetModeSection mode).2
  cases changed : (m.resetModeSection mode).1 with
  | false =>
      refine ⟨[], .last ?_, ?_⟩
      · simp [next, TerminalMode.resetMode, changed]
      · simp [TerminalMode.resetMode, changed, signalsIn]
  | true =>
      refine ⟨[.switched mode false] ++ es,
        .more (l := .emitModeChanges (mode = .synchronizedOutput))
          (u := (m.resetModeSection mode).2) ?_ ?_, ?_⟩
      · simp [next, changed]
      · simpa [TerminalMode.resetMode, changed] using alone
      · rw [signalsIn_append, signals]
        by_cases sync : mode = .synchronizedOutput
        · subst sync
          simp [TerminalMode.resetMode, changed, signalsIn]
        · simp [TerminalMode.resetMode, changed, signalsIn, sync]

/-! ## What a step does -/

/-- The locked scope of a call: nothing changes, or a mode is switched and
recorded. -/
inductive Entered (k : Pending) (m : TerminalMode) : Prop
  | unchanged : next k m = (m, none, []) → Entered k m
  | switched {m' : TerminalMode} (needFlush : Bool) (mode : Mode) (enabled : Bool) :
      Switching m m' → m'.pendingChanges.lookup mode ≠ none →
      next k m = (m', some (.emitModeChanges needFlush), [.switched mode enabled]) → Entered k m

theorem entered {k : Pending} (starts : k.Starts) (m : TerminalMode) : Entered k m := by
  cases k with
  | setMode mode =>
      by_cases on : mode ∈ m.enabledModes
      · refine .unchanged ?_
        simp [next, setModeSection, on]
      · refine .switched false mode true (setModeSection_switching on) ?_ ?_
        · simp [setModeSection, on]
        · simp [next, setModeSection, on]
  | resetMode mode =>
      by_cases on : mode ∈ m.enabledModes
      · refine .switched (mode = .synchronizedOutput) mode false (resetModeSection_switching on)
          ?_ ?_
        · simp [resetModeSection, on]
        · simp [next, resetModeSection, on]
      · refine .unchanged ?_
        simp [next, resetModeSection, on]
  | emitModeChanges _ => exact starts.elim
  | emit _ _ => exact starts.elim

section

variable {τ : Type*} [DecidableEq τ]

/-- The threads that took a change of the mode in a snapshot and have not
announced it yet, after one more happening. -/
def waitStep (mode : Mode) (queue : List τ) : τ × Happening → List τ
  | (t, .took changes) => if changes.lookup mode = none then queue else queue ++ [t]
  | (t, .emitted s) => if announcedValues mode [s] = [] then queue else queue.erase t
  | _ => queue

/-- These threads, in the order of their snapshots. -/
def waiting (mode : Mode) (p : Threads τ) : List τ := p.history.foldl (waitStep mode) []

omit [DecidableEq τ] in
/-- The values of all `modeChanged` signals for the mode so far. -/
def announced (mode : Mode) (p : Threads τ) : List Bool :=
  announcedValues mode (signalsIn (p.history.map Prod.snd))

/-- The step overtakes nothing: a `modeChanged` is emitted before those for the
same mode that were taken in later snapshots. -/
def InTurn (p : Threads τ) (t : τ) : Pending → Prop
  | .emit (.modeChanged mode _) _ => (waiting mode p).head? = some t
  | _ => True

instance (p : Threads τ) (t : τ) (k : Pending) : Decidable (InTurn p t k) :=
  match k with
  | .emit (.modeChanged mode _) _ =>
      inferInstanceAs (Decidable ((waiting mode p).head? = some t))
  | .emit (.synchronizedOutputChanged _) _ | .emit .flushRequested _ | .setMode _
  | .resetMode _ | .emitModeChanges _ => isTrue trivial

theorem waiting_advance (mode : Mode) (p : Threads τ) (t : τ) (k : Pending) :
    waiting mode (p.advance next t k) =
      ((next k p.shared).2.2.map fun e => (t, e)).foldl (waitStep mode) (waiting mode p) := by
  rw [waiting, Pool.advance, List.foldl_append]
  rfl

theorem announced_advance (mode : Mode) (p : Threads τ) (t : τ) (k : Pending) :
    announced mode (p.advance next t k) =
      announced mode p ++ announcedValues mode (signalsIn (next k p.shared).2.2) := by
  rw [announced, Pool.history_advance, signalsIn_append, announcedValues_append, announced]

/-! ## The invariant of one mode -/

/-- The threads waiting for the mode are those with one announcement of it left;
and unless a change is pending, the latest one, taken last or announced last, is
right. -/
structure Current (mode : Mode) (p : Threads τ) : Prop where
  once : (waiting mode p).Nodup
  left : ∀ t, (announcedValues mode (unsent (p.call t))).length =
    if t ∈ waiting mode p then 1 else 0
  last : ∀ t, p.shared.pendingChanges.lookup mode = none → (waiting mode p).getLast? = some t →
    announcedValues mode (unsent (p.call t)) = [decide (mode ∈ p.shared.enabledModes)]
  told : ∀ value, p.shared.pendingChanges.lookup mode = none → waiting mode p = [] →
    (announced mode p).getLast? = some value → value = decide (mode ∈ p.shared.enabledModes)

theorem idle_current (mode : Mode) (m : TerminalMode) :
    Current mode (Pool.idle m : Threads τ) where
  once := List.nodup_nil
  left := fun _ => rfl
  last := fun _ _ last => by cases last
  told := fun _ _ _ told => by cases told

theorem Current.enter {mode : Mode} {p : Threads τ} (current : Current mode p) {t : τ}
    {k : Pending} (free : p.call t = none) (starts : k.Starts) : Current mode (p.enter t k) := by
  have same : ∀ u, unsent ((p.enter t k).call u) = unsent (p.call u) := by
    intro u
    by_cases mine : u = t
    · subst mine
      rw [Pool.call_enter_self, free]
      cases k with
      | emit _ _ => exact starts.elim
      | _ => rfl
    · rw [Pool.call_enter_of_ne mine]
  refine ⟨current.once, fun u => ?_, fun u none last => ?_, current.told⟩
  · rw [same]
    exact current.left u
  · rw [same]
    exact current.last u none last

/-- A step that does not touch the announcements of the mode. -/
theorem Current.advance_quiet {mode : Mode} {p : Threads τ} (current : Current mode p) {t : τ}
    {k : Pending} (here : p.call t = some k)
    (hands : announcedValues mode (unsent (next k p.shared).2.1) =
      announcedValues mode (unsent (some k)))
    (queue : waiting mode (p.advance next t k) = waiting mode p)
    (silent : announcedValues mode (signalsIn (next k p.shared).2.2) = [])
    (settled : (next k p.shared).1.pendingChanges.lookup mode = none →
      p.shared.pendingChanges.lookup mode = none ∧
        (mode ∈ (next k p.shared).1.enabledModes ↔ mode ∈ p.shared.enabledModes)) :
    Current mode (p.advance next t k) := by
  have same : ∀ u, announcedValues mode (unsent ((p.advance next t k).call u)) =
      announcedValues mode (unsent (p.call u)) := by
    intro u
    by_cases mine : u = t
    · subst mine
      rw [Pool.call_advance_self, here]
      exact hands
    · rw [Pool.call_advance_of_ne next mine]
  refine ⟨queue ▸ current.once, fun u => ?_, fun u none last => ?_, fun value none empty told => ?_⟩
  · rw [same, queue]
    exact current.left u
  · obtain ⟨none', members⟩ := settled none
    rw [queue] at last
    rw [same, current.last u none' last]
    exact congrArg (fun b => [b]) (decide_eq_decide.mpr members.symm)
  · obtain ⟨none', members⟩ := settled none
    rw [queue] at empty
    rw [announced_advance, silent, List.append_nil] at told
    rw [current.told value none' empty told]
    exact decide_eq_decide.mpr members.symm

/-- Between its snapshot and its announcement, and only then, a thread waits. -/
theorem Current.not_mem_waiting {mode : Mode} {p : Threads τ} (current : Current mode p) {t : τ}
    (none : announcedValues mode (unsent (p.call t)) = []) : t ∉ waiting mode p := by
  intro mem
  have one := current.left t
  rw [none, if_pos mem] at one
  cases one

theorem Current.advance_snapshot {mode : Mode} {p : Threads τ} (current : Current mode p) {t : τ}
    {needFlush : Bool} (coherent : Coherent p.shared)
    (here : p.call t = some (.emitModeChanges needFlush)) :
    Current mode (p.advance next t (.emitModeChanges needFlush)) := by
  have idle : announcedValues mode (unsent (p.call t)) = [] := by rw [here]; rfl
  have absent := current.not_mem_waiting idle
  have taken : announcedValues mode
      (unsent ((p.advance next t (.emitModeChanges needFlush)).call t)) =
        (p.shared.pendingChanges.lookup mode).toList := by
    rw [Pool.call_advance_self, next, unsent_emitAll, announcedValues_append,
      emitModeChangesSection, announcedValues_visit]
    cases needFlush <;> exact List.append_nil _
  have silent : announced mode (p.advance next t (.emitModeChanges needFlush)) =
      announced mode p := by
    rw [announced_advance]
    exact List.append_nil _
  have queue : waiting mode (p.advance next t (.emitModeChanges needFlush)) =
      if p.shared.pendingChanges.lookup mode = none then waiting mode p
      else waiting mode p ++ [t] := waiting_advance mode p t _
  cases pending : p.shared.pendingChanges.lookup mode with
  | none =>
      rw [if_pos pending] at queue
      rw [pending] at taken
      refine ⟨queue ▸ current.once, fun u => ?_, fun u _ last => ?_, fun value _ empty told => ?_⟩
      · rw [queue]
        by_cases mine : u = t
        · subst mine
          rw [taken, if_neg absent]
          rfl
        · rw [Pool.call_advance_of_ne next mine]
          exact current.left u
      · rw [queue] at last
        have other : u ≠ t := by
          rintro rfl
          exact absent (List.mem_of_getLast? last)
        rw [Pool.call_advance_of_ne next other]
        exact current.last u pending last
      · rw [queue] at empty
        rw [silent] at told
        exact current.told value pending empty told
  | some value =>
      rw [if_neg (by rw [pending]; exact Option.some_ne_none value)] at queue
      rw [pending] at taken
      refine ⟨?_, fun u => ?_, fun u _ last => ?_, fun _ _ empty => ?_⟩
      · rw [queue]
        exact List.nodup_append.mpr ⟨current.once, List.nodup_singleton t, fun a mem b last same =>
          absent (List.mem_singleton.mp last ▸ same ▸ mem)⟩
      · rw [queue]
        by_cases mine : u = t
        · subst mine
          rw [taken, if_pos (List.mem_append_right _ (List.mem_singleton_self u))]
          rfl
        · rw [Pool.call_advance_of_ne next mine, current.left u]
          simp [mine]
      · rw [queue, List.getLast?_concat] at last
        injection last with same
        subst same
        rw [taken, coherent mode value pending]
        rfl
      · rw [queue] at empty
        exact (List.append_ne_nil_of_right_ne_nil _ (List.cons_ne_nil t []) empty).elim

/-- The first thread that waits announces the mode. -/
theorem Current.advance_announce {mode : Mode} {p : Threads τ} (current : Current mode p) {t : τ}
    {value : Bool} {rest : List Signal}
    (here : p.call t = some (.emit (.modeChanged mode value) rest))
    (inTurn : InTurn p t (.emit (.modeChanged mode value) rest)) :
    Current mode (p.advance next t (.emit (.modeChanged mode value) rest)) := by
  obtain ⟨later, front⟩ := List.head?_eq_some_iff.mp inTurn
  have one : announcedValues mode [.modeChanged mode value] = [value] := by
    simp [announcedValues]
  have queue : waiting mode (p.advance next t (.emit (.modeChanged mode value) rest)) = later := by
    rw [waiting_advance, front]
    change (if announcedValues mode [.modeChanged mode value] = [] then t :: later
      else (t :: later).erase t) = later
    rw [one, if_neg (List.cons_ne_nil value []), List.erase_cons_head]
  have once := current.once
  rw [front, List.nodup_cons] at once
  have held : announcedValues mode (unsent (p.call t)) = value :: announcedValues mode rest := by
    rw [here]
    change announcedValues mode ([.modeChanged mode value] ++ rest) = _
    rw [announcedValues_append, one]
    rfl
  have nothing : announcedValues mode rest = [] := by
    have count := current.left t
    rw [held, front, if_pos List.mem_cons_self, List.length_cons] at count
    exact List.length_eq_zero_iff.mp (Nat.succ.inj count)
  refine ⟨queue ▸ once.2, fun u => ?_, fun u none last => ?_, fun value' none empty told => ?_⟩
  · rw [queue]
    by_cases same : u = t
    · subst same
      rw [Pool.call_advance_self, next, unsent_emitAll, nothing, if_neg once.1]
      rfl
    · rw [Pool.call_advance_of_ne next same, current.left u, front]
      simp [same]
  · rw [queue] at last
    have mem := List.mem_of_getLast? last
    have other : u ≠ t := by
      rintro rfl
      exact once.1 mem
    rw [Pool.call_advance_of_ne next other]
    refine current.last u none ?_
    rw [front, List.getLast?_cons_of_ne_nil (List.ne_nil_of_mem mem), last]
  · rw [queue] at empty
    subst empty
    have right := current.last t none (by rw [front]; rfl)
    rw [held, nothing] at right
    have sent : announced mode (p.advance next t (.emit (.modeChanged mode value) rest)) =
        announced mode p ++ [value] := by
      rw [announced_advance, ← one]
      rfl
    rw [sent, List.getLast?_concat] at told
    injection told with same
    rw [← same]
    exact List.cons.inj right |>.1

theorem Current.advance_emit {mode : Mode} {p : Threads τ} (current : Current mode p) {t : τ}
    {s : Signal} {rest : List Signal} (here : p.call t = some (.emit s rest))
    (inTurn : InTurn p t (.emit s rest)) : Current mode (p.advance next t (.emit s rest)) := by
  by_cases quiet : announcedValues mode [s] = []
  · refine current.advance_quiet here ?_ ?_ quiet fun none => ⟨none, Iff.rfl⟩
    · rw [next, unsent_emitAll]
      change _ = announcedValues mode ([s] ++ rest)
      rw [announcedValues_append, quiet]
      rfl
    · rw [waiting_advance]
      exact if_pos quiet
  · cases s with
    | modeChanged changed value =>
        by_cases same : changed = mode
        · subst same
          exact current.advance_announce here inTurn
        · exact (quiet (by simp [announcedValues, same])).elim
    | synchronizedOutputChanged _ => exact (quiet rfl).elim
    | flushRequested => exact (quiet rfl).elim

theorem Current.advance {mode : Mode} {p : Threads τ} (current : Current mode p) {t : τ}
    {k : Pending} (coherent : Coherent p.shared) (here : p.call t = some k)
    (inTurn : InTurn p t k) : Current mode (p.advance next t k) := by
  have locked (starts : k.Starts) : Current mode (p.advance next t k) := by
    have nothing : unsent (some k) = [] := by
      cases k with
      | emit _ _ => exact starts.elim
      | _ => rfl
    cases entered starts p.shared with
    | unchanged step =>
        refine current.advance_quiet here ?_ ?_ ?_ ?_
        · rw [nothing, step]
          rfl
        · rw [waiting_advance, step]
          rfl
        · rw [step]
          rfl
        · rw [step]
          exact fun none => ⟨none, Iff.rfl⟩
    | @switched m' needFlush changed enabled switching _ step =>
        refine current.advance_quiet here ?_ ?_ ?_ ?_
        · rw [nothing, step]
          rfl
        · rw [waiting_advance, step]
          rfl
        · rw [step]
          rfl
        · rw [step]
          intro none
          have same : mode ∈ m'.enabledModes ↔ mode ∈ p.shared.enabledModes := by
            by_contra differs
            rw [switching.changed mode differs] at none
            cases none
          exact ⟨switching.unchanged mode same ▸ none, same⟩
  cases k with
  | setMode _ => exact locked trivial
  | resetMode _ => exact locked trivial
  | emitModeChanges _ => exact current.advance_snapshot coherent here
  | emit _ _ => exact current.advance_emit here inTurn

/-! ## Nothing stays pending -/

omit [DecidableEq τ] in
/-- A pending change is to be announced by some thread, unless nothing was done
yet. -/
def Owed (p : Threads τ) : Prop :=
  p.shared.pendingChanges = ∅ ∨ (∃ t needFlush, p.call t = some (.emitModeChanges needFlush)) ∨
    p.history = [] ∧ ∀ t k, p.call t = some k → k.Starts

theorem Owed.enter {p : Threads τ} (owed : Owed p) {t : τ} {k : Pending}
    (free : p.call t = none) (starts : k.Starts) : Owed (p.enter t k) := by
  rcases owed with empty | ⟨u, needFlush, snapshot⟩ | ⟨untouched, all⟩
  · exact Or.inl empty
  · exact Or.inr (Or.inl ⟨u, needFlush, Pool.call_enter_of_free free snapshot k⟩)
  · exact Or.inr (Or.inr ⟨untouched, Pool.each_call_enter all starts⟩)

theorem Owed.advance {p : Threads τ} (owed : Owed p) {t : τ} {k : Pending}
    (here : p.call t = some k) : Owed (p.advance next t k) := by
  -- A step that keeps the pending changes and is no snapshot.
  have keeps (pending : (next k p.shared).1.pendingChanges = p.shared.pendingChanges)
      (noSnapshot : ∀ needFlush, k ≠ .emitModeChanges needFlush)
      (unseen : k.Starts → (next k p.shared).2.1 = none ∧ (next k p.shared).2.2 = []) :
      Owed (p.advance next t k) := by
    rcases owed with empty | ⟨u, needFlush, snapshot⟩ | ⟨untouched, all⟩
    · exact Or.inl (pending.trans empty)
    · exact Or.inr (Or.inl ⟨u, needFlush,
        Pool.call_advance_of_waits next here snapshot (noSnapshot needFlush)⟩)
    · obtain ⟨returns, silent⟩ := unseen (all t k here)
      refine Or.inr (Or.inr ⟨?_, Pool.each_call_advance all fun l left => ?_⟩)
      · simp [Pool.advance, untouched, silent]
      · rw [returns] at left
        cases left
  have locked (starts : k.Starts) : Owed (p.advance next t k) := by
    cases entered starts p.shared with
    | unchanged step =>
        refine keeps (by rw [step]) ?_ fun _ => by rw [step]; exact ⟨rfl, rfl⟩
        rintro needFlush rfl
        exact starts
    | switched needFlush _ _ _ _ step =>
        refine Or.inr (Or.inl ⟨t, needFlush, ?_⟩)
        rw [Pool.call_advance_self, step]
  cases k with
  | setMode _ => exact locked trivial
  | resetMode _ => exact locked trivial
  | emitModeChanges _ => exact Or.inl rfl
  | emit _ _ => exact keeps rfl (by simp) False.elim

/-- A mode that was switched is pending, in the hands of a thread or announced. -/
def Noted (mode : Mode) (p : Threads τ) : Prop :=
  ∀ t enabled, (t, .switched mode enabled) ∈ p.history →
    p.shared.pendingChanges.lookup mode ≠ none ∨ waiting mode p ≠ [] ∨ announced mode p ≠ []

theorem announced_ne_nil_advance {mode : Mode} {p : Threads τ} (some : announced mode p ≠ [])
    (t : τ) (k : Pending) : announced mode (p.advance next t k) ≠ [] := by
  rw [announced_advance]
  exact List.append_ne_nil_of_left_ne_nil some _

/-- A locked scope keeps what is pending, or replaces it. -/
theorem Noted.advance_locked {mode : Mode} {p : Threads τ} (noted : Noted mode p) (t : τ)
    {k : Pending} (starts : k.Starts) : Noted mode (p.advance next t k) := by
  intro u enabled mem
  have happened := Pool.mem_history_advance.mp mem
  cases entered starts p.shared with
  | unchanged step =>
      have queue : waiting mode (p.advance next t k) = waiting mode p := by
        rw [waiting_advance, step]
        rfl
      rw [step] at happened
      rw [queue]
      rcases happened with before | ⟨-, now⟩
      · rcases noted u enabled before with pending | rest
        · refine Or.inl ?_
          rwa [Pool.advance, step]
        · exact Or.inr (rest.imp id fun told => announced_ne_nil_advance told t k)
      · exact (List.not_mem_nil now).elim
  | @switched m' needFlush changed value switching recorded step =>
      have queue : waiting mode (p.advance next t k) = waiting mode p := by
        rw [waiting_advance, step]
        rfl
      have shared : (p.advance next t k).shared = m' := by
        rw [Pool.advance, step]
      rw [step] at happened
      rw [queue, shared]
      rcases happened with before | ⟨-, now⟩
      · rcases noted u enabled before with pending | rest
        · refine Or.inl ?_
          by_cases same : mode ∈ m'.enabledModes ↔ mode ∈ p.shared.enabledModes
          · rwa [switching.unchanged mode same]
          · rw [switching.changed mode same]
            exact Option.some_ne_none _
        · exact Or.inr (rest.imp id fun told => announced_ne_nil_advance told t k)
      · rw [List.mem_singleton] at now
        injection now with same _
        exact Or.inl (same ▸ recorded)

theorem Noted.advance {mode : Mode} {p : Threads τ} (noted : Noted mode p) (t : τ) (k : Pending) :
    Noted mode (p.advance next t k) := by
  cases k with
  | setMode _ => exact noted.advance_locked t trivial
  | resetMode _ => exact noted.advance_locked t trivial
  | emitModeChanges needFlush =>
      intro u enabled mem
      have before := (Pool.mem_history_advance.mp mem).resolve_right (by simp [next])
      rw [waiting_advance]
      change _ ∨ (if p.shared.pendingChanges.lookup mode = none then waiting mode p
        else waiting mode p ++ [t]) ≠ [] ∨ _
      rcases noted u enabled before with pending | wait | told
      · exact Or.inr (Or.inl (by simp [pending]))
      · refine Or.inr (Or.inl ?_)
        split
        · exact wait
        · exact List.append_ne_nil_of_left_ne_nil wait _
      · exact Or.inr (Or.inr (announced_ne_nil_advance told t _))
  | emit s rest =>
      intro u enabled mem
      have before := (Pool.mem_history_advance.mp mem).resolve_right (by simp [next])
      rcases noted u enabled before with pending | wait | told
      · exact Or.inl pending
      · refine Or.inr ?_
        by_cases quiet : announcedValues mode [s] = []
        · refine Or.inl ?_
          rw [waiting_advance]
          change (if announcedValues mode [s] = [] then waiting mode p
            else (waiting mode p).erase t) ≠ []
          rwa [if_pos quiet]
        · refine Or.inr ?_
          rw [announced_advance]
          exact List.append_ne_nil_of_right_ne_nil _ quiet
      · exact Or.inr (Or.inr (announced_ne_nil_advance told t _))

theorem advance_coherent {p : Threads τ} (coherent : Coherent p.shared) (t : τ) {k : Pending} :
    Coherent (p.advance next t k).shared := by
  have locked (starts : k.Starts) : Coherent (p.advance next t k).shared := by
    cases entered starts p.shared with
    | unchanged step =>
        rw [Pool.advance, step]
        exact coherent
    | switched _ _ _ switching _ step =>
        rw [Pool.advance, step]
        exact switching.coherent coherent
  cases k with
  | setMode _ => exact locked trivial
  | resetMode _ => exact locked trivial
  | emitModeChanges _ =>
      intro mode value pending
      change (∅ : Changes).lookup mode = some value at pending
      rw [AList.lookup_empty] at pending
      cases pending
  | emit _ _ => exact coherent

/-- **The last announcement is right, if nothing is overtaken.** Let any number of
threads set and reset modes on a manager, by steps that overtake nothing. When
all calls have returned, the last `modeChanged` of each mode tells whether the
mode is enabled, and each mode that was switched was announced. -/
theorem run_agrees (hashOrder : HashOrder) (calls : List Call) {p : Threads τ}
    (run : Pool.Run next Pending.Starts InTurn (Pool.idle (reached hashOrder calls)) p)
    (returned : p.AllReturned) :
    (∀ mode value, (announced mode p).getLast? = some value →
        value = decide (mode ∈ p.shared.enabledModes)) ∧
      ∀ t mode enabled, (t, .switched mode enabled) ∈ p.history → announced mode p ≠ [] := by
  have invariant : Coherent p.shared ∧ Owed p ∧ (∀ mode, Noted mode p) ∧
      ∀ mode, Current mode p := by
    clear returned
    induction run with
    | refl =>
        exact ⟨reached_coherent hashOrder calls, Or.inr (Or.inr ⟨rfl, nofun⟩), fun _ _ _ => nofun,
          fun mode => idle_current mode _⟩
    | enter _ free starts ih =>
        obtain ⟨coherent, owed, noted, current⟩ := ih
        exact ⟨coherent, owed.enter free starts, noted,
          fun mode => (current mode).enter free starts⟩
    | advance _ here inTurn ih =>
        obtain ⟨coherent, owed, noted, current⟩ := ih
        exact ⟨advance_coherent coherent _, owed.advance here, fun mode => (noted mode).advance _ _,
          fun mode => (current mode).advance coherent here inTurn⟩
  obtain ⟨-, owed, noted, current⟩ := invariant
  have free : ∀ mode, waiting mode p = [] := by
    intro mode
    rw [List.eq_nil_iff_forall_not_mem]
    intro t
    refine (current mode).not_mem_waiting ?_
    rw [returned t]
    rfl
  rcases owed with empty | ⟨t, needFlush, snapshot⟩ | ⟨untouched, -⟩
  · have settled : ∀ mode, p.shared.pendingChanges.lookup mode = none := by
      intro mode
      rw [empty, AList.lookup_empty]
    refine ⟨fun mode value => (current mode).told value (settled mode) (free mode), ?_⟩
    intro t mode enabled mem
    exact ((noted mode t enabled mem).resolve_left fun some => some (settled mode)).resolve_left
      fun some => some (free mode)
  · rw [returned t] at snapshot
    cases snapshot
  · constructor
    · intro mode value told
      rw [announced, untouched] at told
      cases told
    · intro t mode enabled mem
      rw [untouched] at mem
      exact (List.not_mem_nil mem).elim

/-- Thread `t` resets a mode and takes its snapshot; before it announces the mode,
thread `u` sets it and takes its own, which it announces behind `t`. -/
def takingTurns (t u : τ) : List (Move τ Pending) :=
  [.enter t (.resetMode .showCursor), .advance t, .advance t,
    .enter u (.setMode .showCursor), .advance u, .advance u, .advance t, .advance u]

omit [DecidableEq τ] in
/-- Both announce the mode, and the later one last. -/
theorem run_agrees_takingTurns :
    ∃ p : Threads (Fin 2), announced .showCursor p = [false, true] ∧
      (∀ mode value, (announced mode p).getLast? = some value →
          value = decide (mode ∈ p.shared.enabledModes)) ∧
        ∀ t mode enabled, (t, .switched mode enabled) ∈ p.history → announced mode p ≠ [] := by
  have allowed : ∀ t k, Move.enter t k ∈ takingTurns (0 : Fin 2) 1 → k.Starts := by
    intro t k mem
    simp only [takingTurns, List.mem_cons, Move.enter.injEq, reduceCtorEq, List.not_mem_nil,
      false_or, or_false] at mem
    rcases mem with ⟨-, rfl⟩ | ⟨-, rfl⟩ <;> exact trivial
  have executes : ((Pool.idle (reached .newestFirst [.setMode .showCursor]) :
      Threads (Fin 2)).execMeeting next InTurn (takingTurns 0 1)).isSome = true := by
    decide +kernel
  obtain ⟨p, run, result⟩ := Pool.Run.of_scheduleMeeting allowed executes
  have returned : p.AllReturned := by
    intro t
    match t with
    | 0 => exact Option.some.inj ((result (·.call 0)).trans (by decide +kernel))
    | 1 => exact Option.some.inj ((result (·.call 1)).trans (by decide +kernel))
  exact ⟨p, Option.some.inj ((result (announced .showCursor)).trans (by decide +kernel)),
    run_agrees .newestFirst [.setMode .showCursor] run returned⟩

/-- Thread `t` sets a mode and takes its snapshot; before it announces the mode,
thread `u` resets it and announces that. -/
def overtaking (t u : τ) : List (Move τ Pending) :=
  [.enter t (.setMode .showCursor), .advance t, .advance t,
    .enter u (.resetMode .showCursor), .advance u, .advance u, .advance u,
    .advance t, .advance t]

omit [DecidableEq τ] in
/-- The last announcement says that the mode is on, and it is off. -/
theorem earlier_snapshot_overtaken :
    ∃ p : Threads (Fin 2),
      Pool.Run next Pending.Starts Pool.anyStep (Pool.idle (TerminalMode.new .newestFirst)) p ∧
        p.AllReturned ∧ announced .showCursor p = [false, true] ∧
        .showCursor ∉ p.shared.enabledModes := by
  have allowed : ∀ t k, Move.enter t k ∈ overtaking (0 : Fin 2) 1 → k.Starts := by
    intro t k mem
    simp only [overtaking, List.mem_cons, Move.enter.injEq, reduceCtorEq, List.not_mem_nil,
      false_or, or_false] at mem
    rcases mem with ⟨-, rfl⟩ | ⟨-, rfl⟩ <;> exact trivial
  have executes : ((Pool.idle (TerminalMode.new .newestFirst) : Threads (Fin 2)).exec next
      (overtaking 0 1)).isSome = true := by decide +kernel
  obtain ⟨p, run, result⟩ := Pool.Run.of_schedule allowed executes
  refine ⟨p, run, ?_, ?_, ?_⟩
  · intro t
    match t with
    | 0 => exact Option.some.inj ((result (·.call 0)).trans (by decide +kernel))
    | 1 => exact Option.some.inj ((result (·.call 1)).trans (by decide +kernel))
  · exact Option.some.inj ((result (announced .showCursor)).trans (by decide +kernel))
  · have off := Option.some.inj
      ((result fun p => decide (.showCursor ∈ p.shared.enabledModes)).trans
        (show _ = some false by decide +kernel))
    exact of_decide_eq_false off

end

end TerminalMode

end WindTerm

import Mathlib.Algebra.BigOperators.Group.Finset.Piecewise

/-!
# Threads over a shared state

A call of a thread is a sequence of atomic steps, `Atomic`: a locked scope, or
an emission outside of all locks. A `Pool` is a number of threads with what each
still has to do of the call it is in, over the state they share, and
`Pool.Run` interleaves their steps in every way; `meets` restricts the steps a
run may take, so that a property of all runs that meet a condition can be
stated. `sum_update` is how a sum over the threads changes when one of them
moves. `Alone` is a call that no other thread interrupts, and `Pool.exec` runs a
given schedule.
-/

namespace WindTerm.Library

/-- Threads that share a state. `call t` is what thread `t` still has to do of
its call, `history` what was done so far, and by whom. -/
structure Pool (τ σ κ ω : Type*) where
  shared : σ
  call : τ → Option κ
  history : List (τ × ω)

/-- The next atomic step of a call: the state it leaves, what remains of the
call, and what the step does. -/
abbrev Atomic (σ κ ω : Type*) := κ → σ → σ × Option κ × List ω

/-- A step of a schedule. -/
inductive Move (τ κ : Type*) where
  | enter (t : τ) (k : κ)
  | advance (t : τ)

variable {τ σ κ ω : Type*}

namespace Pool

/-- No thread is in a call and nothing was done yet. -/
def idle (s : σ) : Pool τ σ κ ω := ⟨s, fun _ => none, []⟩

/-- No thread is in a call. -/
def AllReturned (p : Pool τ σ κ ω) : Prop := ∀ t, p.call t = none

variable [DecidableEq τ]

/-- Thread `t` enters the call `k`. -/
def enter (t : τ) (k : κ) (p : Pool τ σ κ ω) : Pool τ σ κ ω :=
  { p with call := Function.update p.call t (some k) }

/-- Thread `t` makes the step `k` is at. -/
def advance (next : Atomic σ κ ω) (t : τ) (k : κ) (p : Pool τ σ κ ω) : Pool τ σ κ ω where
  shared := (next k p.shared).1
  call := Function.update p.call t (next k p.shared).2.1
  history := p.history ++ (next k p.shared).2.2.map fun e => (t, e)

theorem call_enter_self (t : τ) (k : κ) (p : Pool τ σ κ ω) : (p.enter t k).call t = some k :=
  Function.update_self ..

theorem call_enter_of_ne {t u : τ} (other : u ≠ t) (k : κ) (p : Pool τ σ κ ω) :
    (p.enter t k).call u = p.call u :=
  Function.update_of_ne other ..

theorem call_advance_self (next : Atomic σ κ ω) (t : τ) (k : κ) (p : Pool τ σ κ ω) :
    (p.advance next t k).call t = (next k p.shared).2.1 :=
  Function.update_self ..

theorem call_advance_of_ne (next : Atomic σ κ ω) {t u : τ} (other : u ≠ t) (k : κ)
    (p : Pool τ σ κ ω) : (p.advance next t k).call u = p.call u :=
  Function.update_of_ne other ..

/-- A call another thread is in stays when a free thread enters one. -/
theorem call_enter_of_free {t u : τ} {l : κ} {p : Pool τ σ κ ω} (free : p.call t = none)
    (waits : p.call u = some l) (k : κ) : (p.enter t k).call u = some l := by
  have other : u ≠ t := by
    rintro rfl
    cases free.symm.trans waits
  rw [call_enter_of_ne other, waits]

/-- And when a thread makes a step of a different call. -/
theorem call_advance_of_waits (next : Atomic σ κ ω) {t u : τ} {k l : κ} {p : Pool τ σ κ ω}
    (here : p.call t = some k) (waits : p.call u = some l) (different : k ≠ l) :
    (p.advance next t k).call u = some l := by
  have other : u ≠ t := by
    rintro rfl
    exact different (Option.some.inj (here.symm.trans waits))
  rw [call_advance_of_ne next other, waits]

/-- What is true of every call of a pool stays so when a call of the kind is
entered. -/
theorem each_call_enter {P : κ → Prop} {t : τ} {k : κ} {p : Pool τ σ κ ω}
    (each : ∀ u l, p.call u = some l → P l) (this : P k) :
    ∀ u l, (p.enter t k).call u = some l → P l := by
  intro u l now
  rcases Decidable.em (u = t) with rfl | other
  · rw [call_enter_self] at now
    exact Option.some.inj now ▸ this
  · rw [call_enter_of_ne other] at now
    exact each u l now

/-- And when a step leaves a call of the kind, or none. -/
theorem each_call_advance {P : κ → Prop} {next : Atomic σ κ ω} {t : τ} {k : κ}
    {p : Pool τ σ κ ω} (each : ∀ u l, p.call u = some l → P l)
    (left : ∀ l, (next k p.shared).2.1 = some l → P l) :
    ∀ u l, (p.advance next t k).call u = some l → P l := by
  intro u l now
  rcases Decidable.em (u = t) with rfl | other
  · rw [call_advance_self] at now
    exact left l now
  · rw [call_advance_of_ne next other] at now
    exact each u l now

theorem mem_history_advance {next : Atomic σ κ ω} {t u : τ} {k : κ} {e : ω} {p : Pool τ σ κ ω} :
    (u, e) ∈ (p.advance next t k).history ↔
      (u, e) ∈ p.history ∨ u = t ∧ e ∈ (next k p.shared).2.2 := by
  simp [advance, and_comm, eq_comm]

theorem history_advance (next : Atomic σ κ ω) (t : τ) (k : κ) (p : Pool τ σ κ ω) :
    (p.advance next t k).history.map Prod.snd =
      p.history.map Prod.snd ++ (next k p.shared).2.2 := by
  simp [advance, Function.comp_def]

/-- What leads from `p` by any interleaving of calls that start with a call of
`starts` and make only steps that meet the condition. -/
inductive Run (next : Atomic σ κ ω) (starts : κ → Prop) (meets : Pool τ σ κ ω → τ → κ → Prop)
    (p : Pool τ σ κ ω) : Pool τ σ κ ω → Prop
  | refl : Run next starts meets p p
  | enter {q : Pool τ σ κ ω} {t : τ} {k : κ} :
      Run next starts meets p q → q.call t = none → starts k →
      Run next starts meets p (q.enter t k)
  | advance {q : Pool τ σ κ ω} {t : τ} {k : κ} :
      Run next starts meets p q → q.call t = some k → meets q t k →
      Run next starts meets p (q.advance next t k)

/-- Every step meets this condition. -/
def anyStep (_ : Pool τ σ κ ω) (_ : τ) (_ : κ) : Prop := True

/-! ## Schedules -/

/-- One step of a schedule, if it can be made. -/
def move (next : Atomic σ κ ω) (p : Pool τ σ κ ω) : Move τ κ → Option (Pool τ σ κ ω)
  | .enter t k =>
      match p.call t with
      | none => some (p.enter t k)
      | some _ => none
  | .advance t =>
      match p.call t with
      | none => none
      | some k => some (p.advance next t k)

/-- A whole schedule. -/
def exec (next : Atomic σ κ ω) : List (Move τ κ) → Pool τ σ κ ω → Option (Pool τ σ κ ω)
  | [], p => some p
  | m :: moves, p => (p.move next m).bind (exec next moves)

/-- A step of a schedule enters a call on a thread that is in none, or makes the
step a thread is at. -/
theorem move_cases {next : Atomic σ κ ω} {m : Move τ κ} {p q : Pool τ σ κ ω}
    (moved : p.move next m = some q) :
    (∃ t k, m = .enter t k ∧ p.call t = none ∧ q = p.enter t k) ∨
      ∃ t k, m = .advance t ∧ p.call t = some k ∧ q = p.advance next t k := by
  cases m with
  | enter t k =>
      cases free : p.call t with
      | none =>
          rw [move, free] at moved
          injection moved with same
          exact Or.inl ⟨t, k, rfl, free, same.symm⟩
      | some other =>
          rw [move, free] at moved
          cases moved
  | advance t =>
      cases here : p.call t with
      | none =>
          rw [move, here] at moved
          cases moved
      | some k =>
          rw [move, here] at moved
          injection moved with same
          exact Or.inr ⟨t, k, rfl, here, same.symm⟩

/-- A schedule that can be made is a run. -/
theorem Run.of_exec {next : Atomic σ κ ω} {starts : κ → Prop} {moves : List (Move τ κ)}
    (allowed : ∀ t k, Move.enter t k ∈ moves → starts k) {p q r : Pool τ σ κ ω}
    (run : Run next starts anyStep p q) (executed : exec next moves q = some r) :
    Run next starts anyStep p r := by
  induction moves generalizing q with
  | nil =>
      injection executed with same
      exact same ▸ run
  | cons m moves ih =>
      obtain ⟨q', moved, rest⟩ := Option.bind_eq_some_iff.mp executed
      refine ih (fun t k mem => allowed t k (List.mem_cons_of_mem m mem)) ?_ rest
      rcases move_cases moved with ⟨t, k, rfl, free, rfl⟩ | ⟨t, k, rfl, here, rfl⟩
      · exact run.enter free (allowed t k List.mem_cons_self)
      · exact run.advance here trivial

/-- What a schedule that can be made computes. -/
theorem exec_result {next : Atomic σ κ ω} {moves : List (Move τ κ)} {p : Pool τ σ κ ω}
    (executes : (p.exec next moves).isSome = true) :
    ∃ q, p.exec next moves = some q ∧
      ∀ ⦃α : Type⦄ (f : Pool τ σ κ ω → α), some (f q) = (p.exec next moves).map f := by
  obtain ⟨q, executed⟩ := Option.isSome_iff_exists.mp executes
  refine ⟨q, executed, fun α f => ?_⟩
  rw [executed]
  rfl

/-- A schedule that can be made leads to a run, whose end is what the schedule
computes. -/
theorem Run.of_schedule {next : Atomic σ κ ω} {starts : κ → Prop} {moves : List (Move τ κ)}
    (allowed : ∀ t k, Move.enter t k ∈ moves → starts k) {p : Pool τ σ κ ω}
    (executes : (p.exec next moves).isSome = true) :
    ∃ q, Run next starts anyStep p q ∧
      ∀ ⦃α : Type⦄ (f : Pool τ σ κ ω → α), some (f q) = (p.exec next moves).map f := by
  obtain ⟨q, executed, result⟩ := exec_result executes
  exact ⟨q, of_exec allowed .refl executed, result⟩

/-- A whole schedule whose steps have to meet a condition. -/
def execMeeting (next : Atomic σ κ ω) (meets : Pool τ σ κ ω → τ → κ → Prop)
    [∀ p t k, Decidable (meets p t k)] : List (Move τ κ) → Pool τ σ κ ω → Option (Pool τ σ κ ω)
  | [], p => some p
  | .enter t k :: moves, p =>
      match p.call t with
      | none => execMeeting next meets moves (p.enter t k)
      | some _ => none
  | .advance t :: moves, p =>
      match p.call t with
      | none => none
      | some k => if meets p t k then execMeeting next meets moves (p.advance next t k) else none

theorem Run.of_execMeeting {next : Atomic σ κ ω} {starts : κ → Prop}
    {meets : Pool τ σ κ ω → τ → κ → Prop} [∀ p t k, Decidable (meets p t k)]
    {moves : List (Move τ κ)} (allowed : ∀ t k, Move.enter t k ∈ moves → starts k)
    {p q r : Pool τ σ κ ω} (run : Run next starts meets p q)
    (executed : execMeeting next meets moves q = some r) : Run next starts meets p r := by
  induction moves generalizing q with
  | nil =>
      injection executed with same
      exact same ▸ run
  | cons m moves ih =>
      have later : ∀ t k, Move.enter t k ∈ moves → starts k :=
        fun t k mem => allowed t k (List.mem_cons_of_mem m mem)
      cases m with
      | enter t k =>
          cases free : q.call t with
          | none =>
              rw [execMeeting, free] at executed
              exact ih later (run.enter free (allowed t k List.mem_cons_self)) executed
          | some other =>
              rw [execMeeting, free] at executed
              cases executed
      | advance t =>
          cases here : q.call t with
          | none =>
              rw [execMeeting, here] at executed
              cases executed
          | some k =>
              rw [execMeeting, here] at executed
              dsimp only at executed
              split at executed
              case isTrue meeting => exact ih later (run.advance here meeting) executed
              case isFalse => cases executed

/-- A schedule whose steps meet the condition leads to a run, whose end is what the
schedule computes. -/
theorem Run.of_scheduleMeeting {next : Atomic σ κ ω} {starts : κ → Prop}
    {meets : Pool τ σ κ ω → τ → κ → Prop} [∀ p t k, Decidable (meets p t k)]
    {moves : List (Move τ κ)} (allowed : ∀ t k, Move.enter t k ∈ moves → starts k)
    {p : Pool τ σ κ ω} (executes : (p.execMeeting next meets moves).isSome = true) :
    ∃ q, Run next starts meets p q ∧
      ∀ ⦃α : Type⦄ (f : Pool τ σ κ ω → α), some (f q) = (p.execMeeting next meets moves).map f := by
  obtain ⟨q, executed⟩ := Option.isSome_iff_exists.mp executes
  refine ⟨q, of_execMeeting allowed .refl executed, fun α f => ?_⟩
  rw [executed]
  rfl

end Pool

/-- The sum over the threads of something that depends on their calls, when one
thread moves. -/
theorem sum_update [DecidableEq τ] [Fintype τ] {M : Type*} [AddCommMonoid M]
    (f : Option κ → M) (call : τ → Option κ) (t : τ) (k : Option κ) :
    ∑ u, f (Function.update call t k u) + f (call t) = ∑ u, f (call u) + f k := by
  have moved : ∑ u, f (Function.update call t k u) =
      f k + ∑ u ∈ Finset.univ \ {t}, f (call u) := by
    rw [← Finset.sum_update_of_mem (Finset.mem_univ t) (fun u => f (call u)) (f k)]
    refine Finset.sum_congr rfl fun u _ => ?_
    by_cases same : u = t
    · subst same
      rw [Function.update_self, Function.update_self]
    · rw [Function.update_of_ne same, Function.update_of_ne same]
  have before : ∑ u, f (call u) = f (call t) + ∑ u ∈ Finset.univ \ {t}, f (call u) := by
    rw [← Finset.sum_update_of_mem (Finset.mem_univ t) (fun u => f (call u)) (f (call t)),
      Function.update_eq_self]
  rw [moved, before, add_assoc, add_comm, add_comm (∑ u ∈ _, _)]

section

variable [DecidableEq τ] [Fintype τ] {M : Type*} [AddCommMonoid M]

theorem Pool.sum_enter (f : Option κ → M) {t : τ} {p : Pool τ σ κ ω} (free : p.call t = none)
    (k : κ) : ∑ u, f ((p.enter t k).call u) + f none = ∑ u, f (p.call u) + f (some k) := by
  rw [← free]
  exact sum_update f p.call t (some k)

theorem Pool.sum_advance (f : Option κ → M) (next : Atomic σ κ ω) {t : τ} {k : κ}
    {p : Pool τ σ κ ω} (here : p.call t = some k) :
    ∑ u, f ((p.advance next t k).call u) + f (some k) =
      ∑ u, f (p.call u) + f (next k p.shared).2.1 := by
  rw [← here]
  exact sum_update f p.call t (next k p.shared).2.1

end

/-- The call `k` made from `s` without interruption leaves `s'` and does `es`. -/
inductive Alone (next : Atomic σ κ ω) : κ → σ → σ → List ω → Prop
  | last {k : κ} {s s' : σ} {es : List ω} :
      next k s = (s', none, es) → Alone next k s s' es
  | more {k l : κ} {s u v : σ} {es es' : List ω} :
      next k s = (u, some l, es) → Alone next l u v es' → Alone next k s v (es ++ es')

end WindTerm.Library

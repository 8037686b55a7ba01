import WindTerm.Library.Loop
import WindTerm.Library.LockTrace

/-!
# `Spin.h`: the spin mutex and its scoped lock

`SpinMutex::lock` is the loop of the source: it calls `try_lock` until that
succeeds. `ThreadRun` runs a trace of one thread over spin mutexes, each
`lock` entry being a whole such loop; `exists_threadRun_iff` shows that the
thread reaches the end of its trace exactly when it never takes a mutex it
holds.
-/

namespace WindTerm

open Library

/-- `SpinMutex`: the atomic flag, set while the mutex is locked. -/
structure SpinMutex where
  flag : Bool
  deriving DecidableEq, Repr

/-- `unlock`: clear the flag. -/
def SpinMutex.unlock (_ : SpinMutex) : SpinMutex := ⟨false⟩

/-- `try_lock`: set the flag and tell whether it was clear. -/
def SpinMutex.tryLock (m : SpinMutex) : Bool × SpinMutex := (m.flag == false, ⟨true⟩)

/-- One turn of the loop of `lock`; `yield` only passes time. -/
def SpinMutex.lockTurn (m : SpinMutex) : SpinMutex ⊕ SpinMutex :=
  let r := m.tryLock
  if r.1 then .inr r.2 else .inl r.2

/-- `lock` returns exactly on a mutex whose flag is clear, and sets it. -/
theorem SpinMutex.lock_returns_iff {m m' : SpinMutex} :
    Loop.Returns SpinMutex.lockTurn m m' ↔ m.flag = false ∧ m' = ⟨true⟩ := by
  rcases m with ⟨flag⟩
  cases flag with
  | false =>
      rw [Loop.returns_iff_of_inr (show SpinMutex.lockTurn ⟨false⟩ = .inr ⟨true⟩ from rfl)]
      simp
  | true =>
      have spins : ¬ Loop.Terminates SpinMutex.lockTurn ⟨true⟩ :=
        Loop.not_terminates_of_invariant (· = ⟨true⟩)
          (by rintro _ rfl; exact ⟨_, rfl, rfl⟩) rfl
      constructor
      · exact fun returns => (spins ⟨m', returns⟩).elim
      · rintro ⟨set, -⟩
        cases set

section

variable {μ α : Type*} [DecidableEq μ]

/-- A thread runs a trace over spin mutexes that no other thread touches. -/
inductive ThreadRun : (μ → SpinMutex) → List (Event μ α) → (μ → SpinMutex) → Prop
  | nil {s} : ThreadRun s [] s
  | lock {s s' m m' tr} :
      Loop.Returns SpinMutex.lockTurn (s m) m' →
      ThreadRun (Function.update s m m') tr s' → ThreadRun s (.lock m :: tr) s'
  | unlock {s s' m tr} :
      ThreadRun (Function.update s m (s m).unlock) tr s' → ThreadRun s (.unlock m :: tr) s'
  | act {s s' a tr} : ThreadRun s tr s' → ThreadRun s (.act a :: tr) s'

/-- The mutexes whose flag is set. -/
def locked (s : μ → SpinMutex) (m : μ) : Bool := (s m).flag

theorem locked_update (s : μ → SpinMutex) (m : μ) (m' : SpinMutex) :
    locked (Function.update s m m') = Function.update (locked s) m m'.flag := by
  funext k
  by_cases same : k = m
  · subst same
    simp [locked]
  · simp [locked, Function.update_of_ne same]

/-- The thread reaches the end of its trace exactly when it never takes a mutex
it already holds. -/
theorem exists_threadRun_iff {s : μ → SpinMutex} {tr : List (Event μ α)} :
    (∃ s', ThreadRun s tr s') ↔ GetsPast (locked s) tr := by
  induction tr generalizing s with
  | nil => exact ⟨fun _ => trivial, fun _ => ⟨s, .nil⟩⟩
  | cons e tr ih =>
      cases e with
      | lock m =>
          constructor
          · rintro ⟨s', run⟩
            cases run with
            | lock returns rest =>
                obtain ⟨clear, rfl⟩ := SpinMutex.lock_returns_iff.mp returns
                have past := ih.mp ⟨s', rest⟩
                rw [locked_update] at past
                exact ⟨clear, past⟩
          · rintro ⟨clear, past⟩
            obtain ⟨s', rest⟩ := ih.mpr (show GetsPast
              (locked (Function.update s m ⟨true⟩)) tr by rw [locked_update]; exact past)
            exact ⟨s', .lock (SpinMutex.lock_returns_iff.mpr ⟨clear, rfl⟩) rest⟩
      | unlock m =>
          constructor
          · rintro ⟨s', run⟩
            cases run with
            | unlock rest =>
                have past := ih.mp ⟨s', rest⟩
                rwa [locked_update] at past
          · intro past
            obtain ⟨s', rest⟩ := ih.mpr (show GetsPast
              (locked (Function.update s m (s m).unlock)) tr by rw [locked_update]; exact past)
            exact ⟨s', .unlock rest⟩
      | act a =>
          constructor
          · rintro ⟨s', run⟩
            cases run with
            | act rest => exact ih.mp ⟨s', rest⟩
          · intro past
            obtain ⟨s', rest⟩ := ih.mpr past
            exact ⟨s', .act rest⟩

/-- The mutexes whose flag is set at the end are those held after the trace. -/
theorem ThreadRun.locked_eq {s s' : μ → SpinMutex} {tr : List (Event μ α)}
    (run : ThreadRun s tr s') : locked s' = heldAfter (locked s) tr := by
  induction run with
  | nil => rfl
  | lock returns _ ih =>
      obtain ⟨-, rfl⟩ := SpinMutex.lock_returns_iff.mp returns
      rw [ih, locked_update]
      rfl
  | unlock _ ih =>
      rw [ih, locked_update]
      rfl
  | act _ ih => exact ih

end

end WindTerm

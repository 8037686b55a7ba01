import WindTerm.Library.Along
import WindTerm.Utility.ThreadLocal

/-!
# `ThreadLocal.cpp`: watching the threads that own an entry

A `ThreadLocal` connects itself to `QThread::finished` of the thread that calls
`watchCurrentThread`, and `stopWatchCurrentThread` drops all connections of the
thread that calls it. Both go by the thread that executes a call, also in
`clear`, which may be executed for another thread. `Attended` says that the
threads with an entry, the main thread apart, are the ones with a connection,
and one each; `attended_along_iff` says which runs keep it.
-/

namespace WindTerm

open Library

namespace ThreadLocal

variable {Id Ptr : Type*} [DecidableEq Id]

/-- A `ThreadLocal` and, for each thread, the connections of its `finished`
signal to it. -/
structure Watched (Id Ptr : Type*) where
  threadLocal : ThreadLocal Id Ptr
  connections : Id → Nat

/-- A call, with the thread that executes it. -/
inductive Execution (Id Ptr : Type*) where
  | reset (executor : Id) (t : Option Ptr)
  | clear (executor : Id) (id : Id)
  | clearAll (executor : Id)
  deriving DecidableEq, Repr

def Execution.executor : Execution Id Ptr → Id
  | .reset executor _ => executor
  | .clear executor _ => executor
  | .clearAll executor => executor

/-- A call into `ThreadLocalWatcher`, executed by a thread. -/
def Watch.run (executor : Id) (connections : Id → Nat) : Watch → Id → Nat
  | .watchCurrentThread => Function.update connections executor (connections executor + 1)
  | .stopWatchCurrentThread => Function.update connections executor 0

/-- What a call does to the entries, and the calls it makes into the watcher. -/
def Execution.effect : Execution Id Ptr → ThreadLocal Id Ptr → Traced (ThreadLocal Id Ptr) Watch
  | .reset executor t, s => s.reset executor t
  | .clear _ id, s => s.clear id
  | .clearAll _, s => (s.clearAll, [])

def Execution.run (e : Execution Id Ptr) (w : Watched Id Ptr) : Watched Id Ptr where
  threadLocal := (e.effect w.threadLocal).1
  connections := (e.effect w.threadLocal).2.foldl (Watch.run e.executor) w.connections

/-- A new `ThreadLocal` is connected to nothing. -/
def Watched.new (mainThreadId : Id) : Watched Id Ptr := ⟨.new mainThreadId, fun _ => 0⟩

/-- The thread owns an entry. -/
def Owns (s : ThreadLocal Id Ptr) (id : Id) : Prop := ∃ entry ∈ s.locals, entry.id = id

instance (s : ThreadLocal Id Ptr) (id : Id) : Decidable (s.Owns id) :=
  inferInstanceAs (Decidable (∃ entry ∈ s.locals, entry.id = id))

/-- Each thread but the main thread has one connection if it owns an entry, and
none if it does not. -/
def Attended (w : Watched Id Ptr) : Prop :=
  ∀ id, id ≠ w.threadLocal.mainThreadId →
    (w.threadLocal.Owns id → w.connections id = 1) ∧
      (¬ w.threadLocal.Owns id → w.connections id = 0)

/-! ## Owners after a call -/

theorem owns_iff_get (s : ThreadLocal Id Ptr) (id : Id) : s.Owns id ↔ s.get id ≠ none := by
  obtain ⟨sound, complete⟩ := s.get_spec id
  constructor
  · rintro ⟨entry, mem, isId⟩ none
    exact complete none entry mem isId
  · intro some
    obtain ⟨ptr, found⟩ := Option.ne_none_iff_exists'.mp some
    exact ⟨_, sound ptr found, rfl⟩

variable {s : ThreadLocal Id Ptr}

theorem owns_reset (unique : s.Unique) (executor id : Id) (t : Option Ptr) :
    (s.reset executor t).1.Owns id ↔ if id = executor then t ≠ none else s.Owns id := by
  rw [owns_iff_get, get_reset unique, owns_iff_get]
  split <;> rfl

theorem owns_clear (unique : s.Unique) (target id : Id) :
    (s.clear target).1.Owns id ↔ id ≠ target ∧ s.Owns id := by
  rw [owns_iff_get, get_clear unique, owns_iff_get]
  split
  case isTrue same => simp [same]
  case isFalse other => simp [other]

omit [DecidableEq Id] in
theorem not_owns_clearAll (s : ThreadLocal Id Ptr) (id : Id) : ¬ s.clearAll.Owns id := by
  rintro ⟨entry, mem, -⟩
  rw [locals_clearAll] at mem
  exact List.not_mem_nil mem

theorem removeLocal_fst_eq (id : Id) (s : ThreadLocal Id Ptr) :
    (s.removeLocal id).1 = decide (s.Owns id) := by
  rw [Bool.eq_iff_iff, removeLocal_fst, decide_eq_true_iff]
  rfl

theorem mainThreadId_removeLocal (id : Id) (s : ThreadLocal Id Ptr) :
    (s.removeLocal id).2.mainThreadId = s.mainThreadId := by
  unfold removeLocal
  split
  · rfl
  · split
    · rfl
    · split <;> rfl

omit [DecidableEq Id] in
theorem mainThreadId_addLocal (id : Id) (t : Option Ptr) (s : ThreadLocal Id Ptr) :
    (s.addLocal id t).2.mainThreadId = s.mainThreadId := by
  cases t with
  | none => rfl
  | some ptr =>
      unfold addLocal
      dsimp only
      split <;> rfl

theorem Execution.effect_mainThreadId (e : Execution Id Ptr) (s : ThreadLocal Id Ptr) :
    (e.effect s).1.mainThreadId = s.mainThreadId := by
  cases e with
  | reset executor t =>
      exact (mainThreadId_addLocal _ _ _).trans (mainThreadId_removeLocal _ _)
  | clear executor id => exact mainThreadId_removeLocal _ _
  | clearAll executor => rfl

theorem Execution.effect_unique (e : Execution Id Ptr) (unique : s.Unique) :
    (e.effect s).1.Unique := by
  cases e with
  | reset executor t => exact unique.reset executor t
  | clear executor id => exact unique.clear id
  | clearAll executor => exact unique_clearAll s

/-! ## Connections after a call -/

/-- Only the connections of the thread that executes a call change. -/
theorem Execution.run_connections_of_ne (e : Execution Id Ptr) {id : Id} (other : id ≠ e.executor)
    (w : Watched Id Ptr) : (e.run w).connections id = w.connections id := by
  unfold Execution.run
  generalize (e.effect w.threadLocal).2 = watches
  change watches.foldl (Watch.run e.executor) w.connections id = w.connections id
  generalize w.connections = connections
  induction watches generalizing connections with
  | nil => rfl
  | cons watch watches ih =>
      rw [List.foldl_cons, ih]
      cases watch <;> exact Function.update_of_ne other _ _

/-- A `reset` leaves the calling thread with one connection if it is given a
pointer, and with none if not. -/
theorem reset_connections {w : Watched Id Ptr} (attended : Attended w) {executor : Id}
    (notMain : executor ≠ w.threadLocal.mainThreadId) (t : Option Ptr) :
    ((Execution.reset executor t).run w).connections executor = if t.isSome then 1 else 0 := by
  have before := attended executor notMain
  simp only [Execution.run, Execution.effect, Execution.executor, ThreadLocal.reset, if_pos notMain,
    removeLocal_fst_eq, addLocal_fst]
  rcases Decidable.em (w.threadLocal.Owns executor) with owns | lacks
  · have one := before.1 owns
    cases t with
    | none => simp [owns, Watch.run]
    | some ptr => simp [owns, one]
  · have zero := before.2 lacks
    cases t with
    | none => simp [lacks, zero]
    | some ptr => simp [lacks, zero, Watch.run]

theorem attended_reset {w : Watched Id Ptr} (unique : w.threadLocal.Unique)
    (attended : Attended w) (executor : Id) (t : Option Ptr) :
    Attended ((Execution.reset executor t).run w) := by
  intro id notMain
  have main : ((Execution.reset executor t).run w).threadLocal.mainThreadId =
      w.threadLocal.mainThreadId := Execution.effect_mainThreadId (.reset executor t) _
  rw [main] at notMain
  have owns := owns_reset unique executor id t
  change ((Execution.reset executor t).run w).threadLocal.Owns id ↔ _ at owns
  rw [owns]
  rcases Decidable.em (id = executor) with rfl | other
  · rw [reset_connections attended notMain, if_pos rfl]
    cases t <;> simp
  · rw [Execution.run_connections_of_ne _ other, if_neg other]
    exact attended id notMain

theorem clear_connections (w : Watched Id Ptr) (executor id : Id) :
    ((Execution.clear executor id).run w).connections =
      if w.threadLocal.Owns id then Function.update w.connections executor 0
      else w.connections := by
  simp only [Execution.run, Execution.effect, Execution.executor, ThreadLocal.clear,
    removeLocal_fst_eq]
  rcases Decidable.em (w.threadLocal.Owns id) with owns | lacks
  · simp [owns, Watch.run]
  · simp [lacks]

/-- `clear` may be executed for a thread that owns nothing, for the thread that
executes it, and for the main thread by one that owns nothing. -/
theorem attended_clear_iff {w : Watched Id Ptr} (unique : w.threadLocal.Unique)
    (attended : Attended w) (executor id : Id) :
    Attended ((Execution.clear executor id).run w) ↔ ¬ w.threadLocal.Owns id ∨ executor = id ∨
      id = w.threadLocal.mainThreadId ∧ ¬ w.threadLocal.Owns executor := by
  have main : ((Execution.clear executor id).run w).threadLocal.mainThreadId =
      w.threadLocal.mainThreadId := Execution.effect_mainThreadId (.clear executor id) _
  have owners (other : Id) : ((Execution.clear executor id).run w).threadLocal.Owns other ↔
      other ≠ id ∧ w.threadLocal.Owns other := owns_clear unique id other
  unfold Attended
  simp only [main, owners, clear_connections]
  rcases Decidable.em (w.threadLocal.Owns id) with owns | lacks
  · simp only [if_pos owns]
    constructor
    · intro kept
      rcases Decidable.em (executor = id) with same | other
      · exact Or.inr (Or.inl same)
      -- a thread that lost its entry must not stay connected
      have isMain : id = w.threadLocal.mainThreadId := by
        refine Decidable.byContradiction fun notMain => ?_
        have still := (kept id notMain).2 fun ownsStill => ownsStill.1 rfl
        rw [Function.update_of_ne (Ne.symm other), (attended id notMain).1 owns] at still
        cases still
      refine Or.inr (Or.inr ⟨isMain, fun ownsToo => ?_⟩)
      -- nor must one that still owns its entry lose the connection
      have still := (kept executor fun same => other (same.trans isMain.symm)).1 ⟨other, ownsToo⟩
      rw [Function.update_self] at still
      cases still
    · rintro (lacks | rfl | ⟨isMain, lacks⟩) other notMain
      · exact (lacks owns).elim
      · rcases Decidable.em (other = executor) with rfl | different
        · rw [Function.update_self]
          exact ⟨fun ownsStill => (ownsStill.1 rfl).elim, fun _ => rfl⟩
        · rw [Function.update_of_ne different, and_iff_right different]
          exact attended other notMain
      · have different : other ≠ id := fun same => notMain (same.trans isMain)
        rw [and_iff_right different]
        rcases Decidable.em (other = executor) with rfl | apart
        · rw [Function.update_self]
          exact ⟨fun ownsStill => (lacks ownsStill).elim, fun _ => rfl⟩
        · rw [Function.update_of_ne apart]
          exact attended other notMain
  · refine iff_of_true ?_ (Or.inl lacks)
    intro other notMain
    have same : other ≠ id ∧ w.threadLocal.Owns other ↔ w.threadLocal.Owns other := by
      refine and_iff_right_of_imp fun owns equal => ?_
      exact lacks (equal ▸ owns)
    rw [if_neg lacks, same]
    exact attended other notMain

/-- `clearAll` may be executed while no thread but the main thread owns an entry. -/
theorem attended_clearAll_iff {w : Watched Id Ptr} (attended : Attended w) (executor : Id) :
    Attended ((Execution.clearAll executor).run w) ↔
      ∀ id, w.threadLocal.Owns id → id = w.threadLocal.mainThreadId := by
  constructor
  · intro kept id owns
    refine Decidable.byContradiction fun notMain => ?_
    have still := (kept id notMain).2 (not_owns_clearAll _ id)
    have connected := (attended id notMain).1 owns
    change w.connections id = 0 at still
    rw [connected] at still
    cases still
  · intro onlyMain id notMain
    refine ⟨fun owns => (not_owns_clearAll _ id owns).elim, fun _ => ?_⟩
    exact (attended id notMain).2 fun owns => notMain (onlyMain id owns)

/-! ## Runs -/

/-- A call that keeps the connections with the owners of entries. -/
def Execution.Minds : Execution Id Ptr → Watched Id Ptr → Prop
  | .reset _ _, _ => True
  | .clear executor id, w => ¬ w.threadLocal.Owns id ∨ executor = id ∨
      id = w.threadLocal.mainThreadId ∧ ¬ w.threadLocal.Owns executor
  | .clearAll _, w => ∀ id, w.threadLocal.Owns id → id = w.threadLocal.mainThreadId

/-- **Which threads are watched.** In a run of calls on a new `ThreadLocal`, executed
by any threads, after every call each thread but the main thread has exactly one
connection if it owns an entry and none if not, if and only if each call minds
the owners: a `clear` of an entry is executed by its owner (or is one of the main
thread's, executed by a thread without an entry), and `clearAll` finds no entry
but the main thread's. -/
theorem attended_along_iff (mainThreadId : Id) (calls : List (Execution Id Ptr)) :
    EveryState Execution.run Attended calls (.new mainThreadId) ↔
      EachMeets Execution.run Execution.Minds calls (.new mainThreadId) := by
  refine @everyState_iff_of_exact _ _ _ _ (fun w => w.threadLocal.Unique) _ ?_ ?_ calls _
    (new_unique mainThreadId) ?_
  · exact fun e w unique => e.effect_unique unique
  · intro e w unique attended
    cases e with
    | reset executor t => exact iff_of_true (attended_reset unique attended executor t) trivial
    | clear executor id => exact attended_clear_iff unique attended executor id
    | clearAll executor => exact attended_clearAll_iff attended executor
  · intro id _
    refine ⟨fun owns => ?_, fun _ => rfl⟩
    obtain ⟨entry, mem, -⟩ := owns
    exact (List.not_mem_nil mem).elim

/-- The thread that made the object clears the entry of another thread, which
stays connected without one. -/
theorem cleared_stays_connected :
    ¬ EveryState Execution.run Attended
      [.reset (1 : Fin 2) (some "pointer"), .clear 0 1] (.new 0) := by
  rintro ⟨-, -, attended⟩
  have none := (attended 1 (by decide)).2 (by decide)
  revert none
  decide

end ThreadLocal

end WindTerm

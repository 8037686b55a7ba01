import WindTerm.Library.Traced
import Mathlib.Data.Set.Basic
import Mathlib.Logic.Function.Basic

/-!
# Traces of one thread over non-reentrant locks

A trace lists what a thread does: it takes and gives back mutexes and does
visible things in between. `GetsPast held tr` says that the thread, holding
`held` at the start, never takes a mutex it already holds; with locks that are
not reentrant this is what lets it reach the end of the trace.

`Clean free tr` is the compositional form: the trace takes only mutexes of
`free` and gives each back. Clean traces compose (`Clean.append`), and a scope
that takes one more mutex around a clean trace is clean (`Clean.critical`).
`feed_locks` is the rule for callbacks: a trace whose actions set off clean
traces of other mutexes behaves like the trace itself. `not_getsPast_relock` is
the rule for the other direction.
-/

namespace WindTerm.Library

/-- One entry of a thread's trace. -/
inductive Event (μ α : Type*) where
  | lock (m : μ)
  | unlock (m : μ)
  | act (a : α)

variable {μ α : Type*}

/-- The visible action of an entry, if it is one. -/
def Event.act? : Event μ α → Option α
  | .act a => some a
  | _ => none

/-- The visible actions of a trace, in order. -/
def acts (tr : List (Event μ α)) : List α := tr.filterMap Event.act?

/-- A scope that holds `m` while `body` runs. -/
def critical (m : μ) (body : List (Event μ α)) : List (Event μ α) :=
  .lock m :: (body ++ [.unlock m])

@[simp] theorem acts_nil : acts ([] : List (Event μ α)) = [] := rfl

@[simp] theorem acts_append (tr tr' : List (Event μ α)) :
    acts (tr ++ tr') = acts tr ++ acts tr' := List.filterMap_append

@[simp] theorem acts_act (a : α) (tr : List (Event μ α)) :
    acts (.act a :: tr) = a :: acts tr := rfl

@[simp] theorem acts_lock (m : μ) (tr : List (Event μ α)) :
    acts (.lock m :: tr) = acts tr := rfl

@[simp] theorem acts_unlock (m : μ) (tr : List (Event μ α)) :
    acts (.unlock m :: tr) = acts tr := rfl

@[simp] theorem acts_critical (m : μ) (body : List (Event μ α)) :
    acts (critical m body) = acts body := by
  simp [critical]

@[simp] theorem acts_map_act (as : List α) :
    acts (as.map (Event.act : α → Event μ α)) = as := by
  induction as with
  | nil => rfl
  | cons a as ih => simp [ih]

theorem mem_acts {a : α} {tr : List (Event μ α)} : a ∈ acts tr ↔ Event.act a ∈ tr := by
  induction tr with
  | nil => simp
  | cons e tr ih => cases e <;> simp [ih]

/-- The part of a trace that `π` picks out of its visible actions. -/
def view {β : Type*} (π : α → Option β) (tr : List (Event μ α)) : List β :=
  (acts tr).filterMap π

section

variable {β : Type*} {π : α → Option β}

@[simp] theorem view_append (tr tr' : List (Event μ α)) :
    view π (tr ++ tr') = view π tr ++ view π tr' := by
  simp [view]

theorem view_eq_nil {tr : List (Event μ α)} (none : ∀ a, Event.act a ∈ tr → π a = none) :
    view π tr = [] :=
  List.filterMap_eq_nil_iff.mpr fun a mem => none a (mem_acts.mp mem)

theorem view_act (a : α) (tr : List (Event μ α)) :
    view π (.act a :: tr) = (π a).toList ++ view π tr := by
  rw [view, acts_act, List.filterMap_cons]
  cases π a <;> rfl

end

variable [DecidableEq μ]

/-- The mutexes held after a trace. -/
def heldAfter (held : μ → Bool) : List (Event μ α) → μ → Bool
  | [] => held
  | .lock m :: tr => heldAfter (Function.update held m true) tr
  | .unlock m :: tr => heldAfter (Function.update held m false) tr
  | .act _ :: tr => heldAfter held tr

/-- The thread never takes a mutex it already holds. -/
def GetsPast (held : μ → Bool) : List (Event μ α) → Prop
  | [] => True
  | .lock m :: tr => held m = false ∧ GetsPast (Function.update held m true) tr
  | .unlock m :: tr => GetsPast (Function.update held m false) tr
  | .act _ :: tr => GetsPast held tr

theorem heldAfter_append (held : μ → Bool) (tr tr' : List (Event μ α)) :
    heldAfter held (tr ++ tr') = heldAfter (heldAfter held tr) tr' := by
  induction tr generalizing held with
  | nil => rfl
  | cons e tr ih => cases e <;> exact ih _

theorem getsPast_append (held : μ → Bool) (tr tr' : List (Event μ α)) :
    GetsPast held (tr ++ tr') ↔ GetsPast held tr ∧ GetsPast (heldAfter held tr) tr' := by
  induction tr generalizing held with
  | nil => simp [GetsPast, heldAfter]
  | cons e tr ih => cases e <;> simp [GetsPast, heldAfter, ih, and_assoc]

/-- What a thread really does of a trace: at a mutex it already holds it waits for ever. -/
def untilRelock (held : μ → Bool) : List (Event μ α) → List (Event μ α)
  | [] => []
  | .lock m :: tr =>
      if held m then [] else .lock m :: untilRelock (Function.update held m true) tr
  | .unlock m :: tr => .unlock m :: untilRelock (Function.update held m false) tr
  | .act a :: tr => .act a :: untilRelock held tr

/-- A trace that a thread gets past is done to its end. -/
theorem GetsPast.untilRelock_eq {held : μ → Bool} {tr : List (Event μ α)}
    (past : GetsPast held tr) : untilRelock held tr = tr := by
  induction tr generalizing held with
  | nil => rfl
  | cons e tr ih =>
      cases e with
      | lock m =>
          obtain ⟨free, rest⟩ := past
          rw [untilRelock, free, if_neg Bool.false_ne_true, ih rest]
      | unlock m => rw [untilRelock, ih past]
      | act a => rw [untilRelock, ih past]

/-! ## Clean traces -/

/-- A trace that takes only mutexes of `free`, each of them only while it is
not held, and gives every one back. -/
def Clean (free : Set μ) (tr : List (Event μ α)) : Prop :=
  ∀ held : μ → Bool, (∀ m ∈ free, held m = false) →
    GetsPast held tr ∧ heldAfter held tr = held

theorem Clean.getsPast {free : Set μ} {tr : List (Event μ α)} (clean : Clean free tr) :
    GetsPast (fun _ => false) tr :=
  (clean _ fun _ _ => rfl).1

theorem Clean.nil (free : Set μ) : Clean free ([] : List (Event μ α)) :=
  fun _ _ => ⟨trivial, rfl⟩

theorem Clean.append {free : Set μ} {tr tr' : List (Event μ α)} (left : Clean free tr)
    (right : Clean free tr') : Clean free (tr ++ tr') := by
  intro held unheld
  obtain ⟨pastLeft, same⟩ := left held unheld
  obtain ⟨pastRight, same'⟩ := right held unheld
  rw [getsPast_append, heldAfter_append, same]
  exact ⟨⟨pastLeft, pastRight⟩, same'⟩

theorem Clean.act {free : Set μ} {tr : List (Event μ α)} (a : α) (rest : Clean free tr) :
    Clean free (.act a :: tr) :=
  rest

theorem Clean.map_act (free : Set μ) (as : List α) : Clean free (as.map Event.act) := by
  induction as with
  | nil => exact Clean.nil free
  | cons a as ih => exact ih.act a

theorem Clean.mono {free free' : Set μ} {tr : List (Event μ α)} (clean : Clean free tr)
    (sub : free ⊆ free') : Clean free' tr :=
  fun held unheld => clean held fun m mem => unheld m (sub mem)

/-- A scope around a trace that does not take the scope's mutex. -/
theorem Clean.critical {free : Set μ} {m : μ} {body : List (Event μ α)} (mem : m ∈ free)
    (inside : Clean (free \ {m}) body) : Clean free (critical m body) := by
  intro held unheld
  obtain ⟨past, same⟩ := inside (Function.update held m true) (by
    rintro m' ⟨mem', ne⟩
    rw [Function.update_of_ne ne]
    exact unheld m' mem')
  have unlocked : Function.update (Function.update held m true) m false = held := by
    rw [Function.update_idem, ← unheld m mem, Function.update_eq_self]
  constructor
  · refine ⟨unheld m mem, ?_⟩
    rw [getsPast_append]
    exact ⟨past, trivial⟩
  · change heldAfter (Function.update held m true) (body ++ [.unlock m]) = held
    rw [heldAfter_append, same]
    exact unlocked

/-- A scope in which only visible things happen. -/
theorem Clean.scope (m : μ) (as : List α) :
    Clean {m} (Library.critical m (as.map Event.act)) :=
  .critical (show m ∈ ({m} : Set μ) from rfl) (.map_act _ as)

theorem Clean.scope_nil (m : μ) :
    Clean {m} (Library.critical m ([] : List (Event μ α))) :=
  .critical (show m ∈ ({m} : Set μ) from rfl) (.nil _)

/-- A trace that gets past taking `m`, held at its start, gives `m` back before;
so it makes no difference that `m` was held. -/
theorem heldAfter_of_lock_mem {held : μ → Bool} {m : μ} {tr : List (Event μ α)}
    (taken : held m = true) (past : GetsPast held tr) (mem : Event.lock m ∈ tr) :
    heldAfter held tr = heldAfter (Function.update held m false) tr := by
  induction tr generalizing held with
  | nil => exact (List.not_mem_nil mem).elim
  | cons e tr ih =>
      cases e with
      | lock k =>
          have other : k ≠ m := by
            intro same
            subst same
            exact Bool.false_ne_true (past.1.symm.trans taken)
          have later : Event.lock m ∈ tr := by
            rcases List.mem_cons.mp mem with here | later
            · injection here with same
              exact (other same.symm).elim
            · exact later
          have taken' : Function.update held k true m = true := by
            rw [Function.update_of_ne other.symm, taken]
          have same := ih taken' past.2 later
          rw [Function.update_comm other] at same
          exact same
      | unlock k =>
          by_cases same : k = m
          · subst same
            change heldAfter (Function.update held k false) tr =
              heldAfter (Function.update (Function.update held k false) k false) tr
            rw [Function.update_idem]
          · have later : Event.lock m ∈ tr := (List.mem_cons.mp mem).resolve_left nofun
            have taken' : Function.update held k false m = true := by
              rw [Function.update_of_ne (Ne.symm same), taken]
            have same' := ih taken' past later
            rw [Function.update_comm same] at same'
            exact same'
      | act a => exact ih taken past ((List.mem_cons.mp mem).resolve_left nofun)

/-- A clean trace takes no other mutex. -/
theorem Clean.owns {free : Set μ} {tr : List (Event μ α)} (clean : Clean free tr) {m : μ}
    (mem : Event.lock m ∈ tr) : m ∈ free := by
  by_contra outside
  have taken : Function.update (fun _ => false) m true m = true := by
    rw [Function.update_self]
  have unheld : ∀ k ∈ free, Function.update (fun _ => false) m true k = false := by
    intro k inside
    have other : k ≠ m := fun same => outside (same ▸ inside)
    rw [Function.update_of_ne other]
  have restored : Function.update (Function.update (fun _ => false) m true) m false =
      fun _ => false := by
    rw [Function.update_idem, Function.update_eq_self_iff]
  obtain ⟨past, same⟩ := clean _ unheld
  have after := heldAfter_of_lock_mem taken past mem
  rw [same, restored, (clean (fun _ => false) fun _ _ => rfl).2] at after
  exact Bool.false_ne_true ((congrFun after m).symm.trans taken)

/-! ## Callbacks -/

/-- A machine fed with the entries of a trace copies the locking and answers
each action with a trace of its own. When those take and give back mutexes the
outer trace does not use, they do not matter. -/
theorem feed_locks {σ β : Type*} {step : Event μ α → σ → Traced σ (Event μ β)} {inner : Set μ}
    (lock : ∀ m s, (step (.lock m) s).2 = [.lock m])
    (unlock : ∀ m s, (step (.unlock m) s).2 = [.unlock m])
    (answer : ∀ a s, Clean inner (step (.act a) s).2) {tr : List (Event μ α)}
    (outer : ∀ m, Event.lock m ∈ tr → m ∉ inner) {held : μ → Bool}
    (unheld : ∀ m ∈ inner, held m = false) (s : σ) :
    (GetsPast held (feed step tr s).2 ↔ GetsPast held tr) ∧
      heldAfter held (feed step tr s).2 = heldAfter held tr := by
  induction tr generalizing held s with
  | nil => exact ⟨Iff.rfl, rfl⟩
  | cons e tr ih =>
      have outer' := fun m mem => outer m (List.mem_cons_of_mem e mem)
      rw [feed_cons, Traced.andThen_snd, getsPast_append, heldAfter_append]
      cases e with
      | lock m =>
          have unheld' : ∀ m' ∈ inner, Function.update held m true m' = false := by
            intro m' mem
            have ne : m' ≠ m := fun same => outer m List.mem_cons_self (same ▸ mem)
            rw [Function.update_of_ne ne]
            exact unheld m' mem
          obtain ⟨past, after⟩ := ih outer' unheld' (step (.lock m) s).1
          rw [lock]
          refine ⟨?_, after⟩
          show (held m = false ∧ True) ∧ _ ↔ held m = false ∧ _
          rw [and_true]
          exact and_congr_right fun _ => past
      | unlock m =>
          have unheld' : ∀ m' ∈ inner, Function.update held m false m' = false := by
            intro m' mem
            by_cases same : m' = m
            · rw [same, Function.update_self]
            · rw [Function.update_of_ne same]
              exact unheld m' mem
          obtain ⟨past, after⟩ := ih outer' unheld' (step (.unlock m) s).1
          rw [unlock]
          exact ⟨(true_and _).to_iff.trans past, after⟩
      | act a =>
          obtain ⟨slot, same⟩ := answer a s held unheld
          obtain ⟨past, after⟩ := ih outer' unheld (step (.act a) s).1
          rw [same]
          exact ⟨(and_iff_right slot).trans past, after⟩

/-- The rule for answers that are visible things only. -/
theorem Clean.flatMap_answer {β : Type*} {answer : Event μ α → List (Event μ β)} {free : Set μ}
    {tr : List (Event μ α)} (lock : ∀ m, answer (.lock m) = [.lock m])
    (unlock : ∀ m, answer (.unlock m) = [.unlock m])
    (visible : ∀ a, Clean ∅ (answer (.act a))) (clean : Clean free tr) :
    Clean free (tr.flatMap answer) := by
  intro held unheld
  have fed : feed (fun e (s : Unit) => (s, answer e)) tr () = ((), tr.flatMap answer) := by
    clear clean
    induction tr with
    | nil => rfl
    | cons e tr ih => rw [feed_cons, Traced.andThen, ih, List.flatMap_cons]
  have copied : (GetsPast held (feed (fun e (s : Unit) => (s, answer e)) tr ()).2 ↔
        GetsPast held tr) ∧
      heldAfter held (feed (fun e (s : Unit) => (s, answer e)) tr ()).2 = heldAfter held tr :=
    feed_locks (fun m _ => lock m) (fun m _ => unlock m) (fun a _ => visible a)
      (fun _ _ none => none) (fun _ none => none.elim) ()
  rw [fed] at copied
  obtain ⟨past, same⟩ := clean held unheld
  exact ⟨copied.1.mpr past, copied.2.trans same⟩

/-! ## Acting outside a scope -/

/-- Whatever the thread does on the way, it does while it does not hold `m`. -/
def ActsOutside (m : μ) : (μ → Bool) → List (Event μ α) → Prop
  | _, [] => True
  | held, .lock k :: tr => ActsOutside m (Function.update held k true) tr
  | held, .unlock k :: tr => ActsOutside m (Function.update held k false) tr
  | held, .act _ :: tr => held m = false ∧ ActsOutside m held tr

theorem actsOutside_append {m : μ} {held : μ → Bool} {tr tr' : List (Event μ α)} :
    ActsOutside m held (tr ++ tr') ↔
      ActsOutside m held tr ∧ ActsOutside m (heldAfter held tr) tr' := by
  induction tr generalizing held with
  | nil => exact (and_iff_right trivial).symm
  | cons e tr ih =>
      cases e with
      | lock k => exact ih
      | unlock k => exact ih
      | act a => exact (and_congr_right fun _ => ih).trans and_assoc.symm

theorem ActsOutside.of_silent {m : μ} {held : μ → Bool} {tr : List (Event μ α)}
    (silent : acts tr = []) : ActsOutside m held tr := by
  induction tr generalizing held with
  | nil => trivial
  | cons e tr ih =>
      cases e with
      | lock k => exact ih silent
      | unlock k => exact ih silent
      | act a => cases silent

/-- A scope that begins with some actions acts outside itself only if there are none. -/
theorem actsOutside_critical {m : μ} {held : μ → Bool} {as : List α} {tr : List (Event μ α)}
    (silent : acts tr = []) : ActsOutside m held (critical m (as.map .act ++ tr)) ↔ as = [] := by
  constructor
  · intro outside
    cases as with
    | nil => rfl
    | cons a as =>
        obtain ⟨free, -⟩ := outside
        rw [Function.update_self] at free
        cases free
  · rintro rfl
    refine .of_silent ?_
    rw [acts_critical]
    exact silent

/-- Begun while `m` is not held, the trace acts outside `m` and ends outside it. -/
def StaysOutside (m : μ) (tr : List (Event μ α)) : Prop :=
  ∀ held : μ → Bool, held m = false → ActsOutside m held tr ∧ heldAfter held tr m = false

theorem StaysOutside.nil (m : μ) : StaysOutside m ([] : List (Event μ α)) :=
  fun _ free => ⟨trivial, free⟩

theorem StaysOutside.append {m : μ} {tr tr' : List (Event μ α)} (left : StaysOutside m tr)
    (right : StaysOutside m tr') : StaysOutside m (tr ++ tr') := by
  intro held free
  obtain ⟨outside, free'⟩ := left held free
  rw [actsOutside_append, heldAfter_append]
  exact ⟨⟨outside, (right _ free').1⟩, (right _ free').2⟩

theorem StaysOutside.act {m : μ} {tr : List (Event μ α)} (a : α) (rest : StaysOutside m tr) :
    StaysOutside m (.act a :: tr) :=
  fun held free => ⟨⟨free, (rest held free).1⟩, (rest held free).2⟩

theorem StaysOutside.map_act (m : μ) (as : List α) : StaysOutside m (as.map Event.act) := by
  induction as with
  | nil => exact .nil m
  | cons a as ih => exact ih.act a

/-- A scope ends outside itself. -/
theorem heldAfter_critical (m : μ) (held : μ → Bool) (body : List (Event μ α)) :
    heldAfter held (critical m body) m = false := by
  change heldAfter (Function.update held m true) (body ++ [.unlock m]) m = false
  rw [heldAfter_append]
  change Function.update (heldAfter (Function.update held m true) body) m false m = false
  rw [Function.update_self]

/-- A scope in which nothing happens. -/
theorem StaysOutside.scope (m : μ) : StaysOutside m (critical m ([] : List (Event μ α))) :=
  fun held _ => ⟨.of_silent rfl, heldAfter_critical m held []⟩

/-! ## Taking a held mutex -/

/-- A mutex stays held over a trace that does not give it back. -/
theorem heldAfter_of_not_unlock {held : μ → Bool} {m : μ} {tr : List (Event μ α)}
    (taken : held m = true) (keeps : Event.unlock m ∉ tr) : heldAfter held tr m = true := by
  induction tr generalizing held with
  | nil => exact taken
  | cons e tr ih =>
      have rest : Event.unlock m ∉ tr := fun mem => keeps (List.mem_cons_of_mem e mem)
      cases e with
      | lock m' =>
          refine ih ?_ rest
          by_cases same : m = m'
          · rw [same, Function.update_self]
          · rw [Function.update_of_ne same, taken]
      | unlock m' =>
          refine ih ?_ rest
          have ne : m ≠ m' := by
            rintro rfl
            exact keeps List.mem_cons_self
          rw [Function.update_of_ne ne, taken]
      | act a => exact ih taken rest

/-- Taking a mutex twice without giving it back in between stops the thread. -/
theorem not_getsPast_relock {held : μ → Bool} {m : μ} {body rest : List (Event μ α)}
    (keeps : Event.unlock m ∉ body) :
    ¬ GetsPast held (.lock m :: (body ++ .lock m :: rest)) := by
  rintro ⟨-, past⟩
  rw [getsPast_append] at past
  have taken := heldAfter_of_not_unlock (Function.update_self m true held) keeps
  exact Bool.false_ne_true (past.2.1.symm.trans taken)

end WindTerm.Library

import WindTerm.Library.Threads
import WindTerm.Terminal.BufferSpec
import Mathlib.Data.Fintype.Basic
import Mathlib.Tactic.Abel

/-!
# The sync buffer under any interleaving

Threads call `write`, `flush`, `setSynchronizedMode` and `setMaxBufferSize` on
one `SynchronizedBuffer`. Each `ThreadLocker` scope is one step, and so is each
emission behind it; a signal that `write` emits inside its scope belongs to that
scope. `next_accounts` says what one step does to the items, and from it every
reachable state accounts for all of them (`run_accounted`). The order is another
matter: lists taken by `flush` and items written in normal mode are delivered in
the order they were accepted as long as no thread overtakes a list that is still
in another one's hands (`run_inOrder`).
-/

namespace WindTerm

open Library

namespace SynchronizedBuffer

/-! ## Calls in progress -/

/-- What is left of a call: all of it, or what comes behind a locked scope. -/
inductive Pending where
  | write (now : Int64) (item : BufferItem)
  | flush
  | setSynchronizedMode (now : Int64) (enabled : Bool)
  | setMaxBufferSize (maxSize : Nat)
  | emitSynchronizedModeChanged (enabled : Bool)
  | emitDataReady (items : List BufferItem)
  deriving DecidableEq, Repr

/-- A thread may enter these. -/
def Pending.Starts : Pending → Prop
  | .emitSynchronizedModeChanged _ => False
  | .emitDataReady _ => False
  | _ => True

/-- What a step does besides changing the state: `write` accepts an item, kept
here in its stored form, `flush` takes the items of the buffer, a signal is
emitted. -/
inductive Happening where
  | accepted (item : BufferItem)
  | took (items : List BufferItem)
  | emitted (s : Signal)
  deriving DecidableEq, Repr

section

variable [Platform]

/-- The next step of a call. -/
def next : Atomic SynchronizedBuffer Pending Happening
  | .write now item, b =>
      let r := b.writeSection now item
      match r.1 with
      | .delivered => (r.2.1, none, .accepted item :: r.2.2.map .emitted)
      | .rejected => (r.2.1, none, r.2.2.map .emitted)
      | .kept => (r.2.1, none, .accepted (b.storedItem item) :: r.2.2.map .emitted)
      | .flushNeeded => (r.2.1, some .flush, .accepted (b.storedItem item) :: r.2.2.map .emitted)
  | .flush, b =>
      let r := b.flushSection
      if r.1 = [] then (r.2, none, []) else (r.2, some (.emitDataReady r.1), [.took r.1])
  | .setSynchronizedMode now enabled, b =>
      let r := b.setSynchronizedModeSection now enabled
      (r.2, if r.1 then some (.emitSynchronizedModeChanged enabled) else none, [])
  | .setMaxBufferSize maxSize, b => ((b.setMaxBufferSize maxSize).1, none, [])
  | .emitSynchronizedModeChanged enabled, b =>
      (b, if enabled then none else some .flush, [.emitted (.synchronizedModeChanged enabled)])
  | .emitDataReady items, b => (b, none, [.emitted (.dataReady items)])

end

/-- Threads that share a sync buffer. -/
abbrev Threads (τ : Type*) := Pool τ SynchronizedBuffer Pending Happening

/-- The items accepted in some happenings, in order. -/
def acceptedIn (es : List Happening) : List BufferItem :=
  es.filterMap fun
    | .accepted item => some item
    | _ => none

/-- The items delivered by `dataReady`, in order. -/
def deliveredIn (es : List Happening) : List BufferItem :=
  es.flatMap fun
    | .emitted (.dataReady items) => items
    | _ => []

/-- The signals emitted. -/
def signalsIn (es : List Happening) : List Signal :=
  es.filterMap fun
    | .emitted s => some s
    | _ => none

section

variable {τ : Type*}

/-- The items accepted so far, in the order of the scopes that accepted them. -/
def accepted (p : Threads τ) : List BufferItem := acceptedIn (p.history.map Prod.snd)

/-- The items of all `dataReady` signals so far. -/
def delivered (p : Threads τ) : List BufferItem := deliveredIn (p.history.map Prod.snd)

/-- The items a thread holds between the scope of `flush` and its signal. -/
def inHand : Option Pending → List BufferItem
  | some (.emitDataReady items) => items
  | _ => []

theorem acceptedIn_append (es es' : List Happening) :
    acceptedIn (es ++ es') = acceptedIn es ++ acceptedIn es' := List.filterMap_append

theorem deliveredIn_append (es es' : List Happening) :
    deliveredIn (es ++ es') = deliveredIn es ++ deliveredIn es' := List.flatMap_append

theorem signalsIn_append (es es' : List Happening) :
    signalsIn (es ++ es') = signalsIn es ++ signalsIn es' := List.filterMap_append

variable [Platform] [DecidableEq τ]

theorem accepted_advance (p : Threads τ) (t : τ) (k : Pending) :
    accepted (p.advance next t k) = accepted p ++ acceptedIn (next k p.shared).2.2 := by
  rw [accepted, Pool.history_advance, acceptedIn_append, accepted]

theorem delivered_advance (p : Threads τ) (t : τ) (k : Pending) :
    delivered (p.advance next t k) = delivered p ++ deliveredIn (next k p.shared).2.2 := by
  rw [delivered, Pool.history_advance, deliveredIn_append, delivered]

end

section

variable [Platform]

/-- The ways through the locked scope of `write`. -/
inductive Written (now : Int64) (item : BufferItem) (b : SynchronizedBuffer) : Prop
  | delivered :
      b.synchronizedMode = false →
      next (.write now item) b = (b, none, [.accepted item, .emitted (.dataReady [item])]) →
      Written now item b
  | rejected :
      b.synchronizedMode = true →
      next (.write now item) b = (b, none, [.emitted .bufferOverflow]) → Written now item b
  | kept (rest : Option Pending) :
      b.synchronizedMode = true → rest = none ∨ rest = some .flush →
      next (.write now item) b =
        (b.keep (b.storedItem item), rest, [.accepted (b.storedItem item)]) →
      Written now item b

theorem written (now : Int64) (item : BufferItem) (b : SynchronizedBuffer) :
    Written now item b := by
  cases sync : b.synchronizedMode with
  | false =>
      refine .delivered sync ?_
      simp [next, writeSection, sync]
  | true =>
      by_cases full : b.maxBufferSize ≤ b.currentSize
      · refine .rejected sync ?_
        simp [next, writeSection, sync, appendItem_full full]
      · have append := appendItem_room (Nat.lt_of_not_le full) item
        cases needs : (b.keep (b.storedItem item)).needsFlush now with
        | false =>
            refine .kept none sync (Or.inl rfl) ?_
            simp [next, writeSection, sync, append, needs]
        | true =>
            refine .kept (some .flush) sync (Or.inr rfl) ?_
            simp [next, writeSection, sync, append, needs]

theorem next_flush_of_eq {b : SynchronizedBuffer} (empty : b.buffer = []) :
    next .flush b = (b, none, []) := by
  simp [next, flushSection, empty]

theorem next_flush_of_ne {b : SynchronizedBuffer} (kept : b.buffer ≠ []) :
    next .flush b = ({ b with buffer := [], currentSize := 0 },
      some (.emitDataReady b.buffer), [.took b.buffer]) := by
  simp [next, flushSection, kept]

theorem next_switch_same {b : SynchronizedBuffer} {enabled : Bool}
    (same : b.synchronizedMode = enabled) (now : Int64) :
    next (.setSynchronizedMode now enabled) b = (b, none, []) := by
  simp [next, setSynchronizedModeSection, same]

theorem next_switch_other {b : SynchronizedBuffer} {enabled : Bool}
    (other : b.synchronizedMode ≠ enabled) (now : Int64) :
    next (.setSynchronizedMode now enabled) b =
      ({ b with synchronizedMode := enabled
                syncStartTime := if enabled then now.toUInt64 else 0 },
        some (.emitSynchronizedModeChanged enabled), []) := by
  simp [next, setSynchronizedModeSection, other]

/-! ## A call alone -/

theorem alone_flush (b : SynchronizedBuffer) :
    ∃ es, Alone next .flush b b.flush.1 es ∧ signalsIn es = acts b.flush.2 ∧
      acceptedIn es = [] := by
  by_cases empty : b.buffer = []
  · rw [flush_of_eq empty]
    exact ⟨[], .last (next_flush_of_eq empty), rfl, rfl⟩
  · rw [flush_of_ne empty]
    exact ⟨[.took b.buffer] ++ [.emitted (.dataReady b.buffer)],
      .more (next_flush_of_ne empty) (.last rfl), rfl, rfl⟩

/-- A call that no other thread interrupts does what the operation does, with
the same signals in the same order. It accepts one item if it returns `true`, and
none if it returns `false`. -/
theorem alone_write (now : Int64) (item : BufferItem) (b : SynchronizedBuffer) :
    ∃ es, Alone next (.write now item) b (b.write now item).2.1 es ∧
      signalsIn es = acts (b.write now item).2.2 ∧
      (acceptedIn es).length = (b.write now item).1.toNat := by
  obtain ⟨flushed, alone, signals, nothing⟩ := alone_flush (b.writeSection now item).2.1
  have emits (signals : List Signal) : acceptedIn (signals.map .emitted) = [] := by
    rw [acceptedIn, List.filterMap_map]
    exact List.filterMap_eq_nil_iff.mpr fun _ _ => rfl
  have inside (es : List Happening) (none : signalsIn es = []) :
      signalsIn (es ++ (b.writeSection now item).2.2.map .emitted) =
        (b.writeSection now item).2.2 := by
    rw [signalsIn_append, none, List.nil_append, signalsIn, List.filterMap_map]
    exact List.filterMap_some
  cases outcome : (b.writeSection now item).1 with
  | delivered =>
      refine ⟨[.accepted item] ++ (b.writeSection now item).2.2.map .emitted, .last ?_, ?_, ?_⟩
      · simp [next, write, outcome]
      · rw [inside [.accepted item] rfl]
        simp [write, outcome]
      · rw [acceptedIn_append, emits]
        simp [write, outcome, acceptedIn]
  | rejected =>
      refine ⟨[] ++ (b.writeSection now item).2.2.map .emitted, .last ?_, ?_, ?_⟩
      · simp [next, write, outcome]
      · rw [inside [] rfl]
        simp [write, outcome]
      · rw [List.nil_append, emits]
        simp [write, outcome]
  | kept =>
      refine ⟨[.accepted (b.storedItem item)] ++ (b.writeSection now item).2.2.map .emitted,
        .last ?_, ?_, ?_⟩
      · simp [next, write, outcome]
      · rw [inside [.accepted (b.storedItem item)] rfl]
        simp [write, outcome]
      · rw [acceptedIn_append, emits]
        simp [write, outcome, acceptedIn]
  | flushNeeded =>
      have taken : (b.write now item).2.1 = (b.writeSection now item).2.1.flush.1 := by
        simp [write, outcome]
      refine ⟨[.accepted (b.storedItem item)] ++ (b.writeSection now item).2.2.map .emitted ++
        flushed, ?_, ?_, ?_⟩
      · rw [taken]
        refine .more (l := .flush) (u := (b.writeSection now item).2.1) ?_ alone
        simp [next, outcome]
      · rw [signalsIn_append, inside [.accepted (b.storedItem item)] rfl, signals]
        simp [write, outcome]
      · rw [acceptedIn_append, acceptedIn_append, emits, nothing]
        simp [write, outcome, acceptedIn]

theorem alone_setSynchronizedMode (now : Int64) (enabled : Bool) (b : SynchronizedBuffer) :
    ∃ es, Alone next (.setSynchronizedMode now enabled) b
        (b.setSynchronizedMode now enabled).2.1 es ∧
      signalsIn es = acts (b.setSynchronizedMode now enabled).2.2 := by
  obtain ⟨flushed, alone, signals, -⟩ := alone_flush (b.setSynchronizedModeSection now enabled).2
  cases changed : (b.setSynchronizedModeSection now enabled).1 with
  | false =>
      refine ⟨[], .last ?_, ?_⟩
      · simp [next, setSynchronizedMode, changed]
      · simp [setSynchronizedMode, changed, signalsIn]
  | true =>
      have first : next (.setSynchronizedMode now enabled) b =
          ((b.setSynchronizedModeSection now enabled).2,
            some (.emitSynchronizedModeChanged enabled), []) := by
        simp [next, changed]
      cases enabled with
      | true =>
          refine ⟨[] ++ [.emitted (.synchronizedModeChanged true)], .more first (.last ?_), ?_⟩
          · simp [next, setSynchronizedMode, changed]
          · simp [setSynchronizedMode, changed, signalsIn]
      | false =>
          refine ⟨[] ++ ([.emitted (.synchronizedModeChanged false)] ++ flushed),
            .more first (.more (l := .flush) rfl ?_), ?_⟩
          · simpa [setSynchronizedMode, changed] using alone
          · rw [List.nil_append, signalsIn_append, signals]
            simp [setSynchronizedMode, changed, signalsIn]

/-! ## Every item is accounted for -/

/-- The call still has to flush the buffer. -/
def OwesFlush (call : Option Pending) : Prop :=
  call = some .flush ∨ call = some (.emitSynchronizedModeChanged false)

/-- The size is that of the items kept. -/
def Sized (b : SynchronizedBuffer) : Prop := b.currentSize = (b.buffer.map itemSize).sum

/-- What one step does to the items: those accepted, kept and in the hands of
the thread before are those delivered, kept and in its hands after. -/
theorem next_accounts (k : Pending) (b : SynchronizedBuffer) :
    (acceptedIn (next k b).2.2 : Multiset BufferItem) + b.buffer + inHand (some k) =
      (deliveredIn (next k b).2.2 : Multiset BufferItem) + (next k b).1.buffer +
        inHand (next k b).2.1 := by
  cases k with
  | write now item =>
      cases written now item b with
      | delivered _ step => simp [step, acceptedIn, deliveredIn, inHand]
      | rejected _ step => simp [step, acceptedIn, deliveredIn, inHand]
      | kept rest _ flushes step =>
          have empty : inHand rest = [] := by rcases flushes with rfl | rfl <;> rfl
          rw [step, empty]
          simpa [acceptedIn, deliveredIn, inHand, keep] using
            (List.perm_append_singleton (b.storedItem item) b.buffer).symm
  | flush =>
      by_cases empty : b.buffer = []
      · simp [next_flush_of_eq empty, acceptedIn, deliveredIn, inHand]
      · simp [next_flush_of_ne empty, acceptedIn, deliveredIn, inHand]
  | setSynchronizedMode now enabled =>
      by_cases same : b.synchronizedMode = enabled
      · simp [next_switch_same same, acceptedIn, deliveredIn, inHand]
      · simp [next_switch_other same, acceptedIn, deliveredIn, inHand]
  | setMaxBufferSize maxSize => simp [next, setMaxBufferSize, acceptedIn, deliveredIn, inHand]
  | emitSynchronizedModeChanged enabled =>
      cases enabled <;> simp [next, acceptedIn, deliveredIn, inHand]
  | emitDataReady items => simp [next, acceptedIn, deliveredIn, inHand, add_comm]

theorem next_sized {b : SynchronizedBuffer} (sized : Sized b) (k : Pending) :
    Sized (next k b).1 := by
  unfold Sized at *
  cases k with
  | write now item =>
      cases written now item b with
      | delivered _ step => rw [step, sized]
      | rejected _ step => rw [step, sized]
      | kept _ _ _ step =>
          rw [step]
          simp [keep, sized]
  | flush =>
      by_cases empty : b.buffer = []
      · rw [next_flush_of_eq empty, sized]
      · rw [next_flush_of_ne empty]
        rfl
  | setSynchronizedMode now enabled =>
      by_cases same : b.synchronizedMode = enabled
      · rw [next_switch_same same, sized]
      · rw [next_switch_other same, sized]
  | setMaxBufferSize maxSize => exact sized
  | emitSynchronizedModeChanged enabled => exact sized
  | emitDataReady items => exact sized

/-- Items kept in normal mode after a step are to be flushed by the thread that
made it, or were kept before and are to be flushed by another. -/
theorem next_owed (k : Pending) (b : SynchronizedBuffer)
    (normal : (next k b).1.synchronizedMode = false) (kept : (next k b).1.buffer ≠ []) :
    OwesFlush (next k b).2.1 ∨
      ¬ OwesFlush (some k) ∧ b.synchronizedMode = false ∧ b.buffer ≠ [] := by
  cases k with
  | write now item =>
      refine Or.inr ⟨by simp [OwesFlush], ?_⟩
      cases written now item b with
      | delivered _ step =>
          rw [step] at normal kept
          exact ⟨normal, kept⟩
      | rejected _ step =>
          rw [step] at normal kept
          exact ⟨normal, kept⟩
      | kept _ sync _ step =>
          rw [step] at normal
          exact Bool.noConfusion (sync.symm.trans normal)
  | flush =>
      by_cases empty : b.buffer = []
      · rw [next_flush_of_eq empty] at kept
        exact absurd empty kept
      · rw [next_flush_of_ne empty] at kept
        exact absurd rfl kept
  | setSynchronizedMode now enabled =>
      by_cases same : b.synchronizedMode = enabled
      · rw [next_switch_same same] at normal kept
        exact Or.inr ⟨by simp [OwesFlush], normal, kept⟩
      · have off : enabled = false := by
          rwa [next_switch_other same] at normal
        subst off
        rw [next_switch_other same]
        exact Or.inl (Or.inr rfl)
  | setMaxBufferSize maxSize => exact Or.inr ⟨by simp [OwesFlush], normal, kept⟩
  | emitSynchronizedModeChanged enabled =>
      cases enabled with
      | true => exact Or.inr ⟨by simp [OwesFlush], normal, kept⟩
      | false => exact Or.inl (Or.inl rfl)
  | emitDataReady items => exact Or.inr ⟨by simp [OwesFlush], normal, kept⟩

variable {τ : Type*} [DecidableEq τ] [Fintype τ]

/-- Every item accepted is delivered, kept or in some thread's hands, the size is
that of the items kept, and items kept in normal mode are to be flushed by some
thread. -/
structure Accounted (p : Threads τ) : Prop where
  items : (accepted p : Multiset BufferItem) =
    delivered p + p.shared.buffer + ∑ t, (inHand (p.call t) : Multiset BufferItem)
  sized : Sized p.shared
  owed : p.shared.synchronizedMode = false → p.shared.buffer ≠ [] → ∃ t, OwesFlush (p.call t)

theorem Accounted.enter {p : Threads τ} (accounted : Accounted p) {t : τ} {k : Pending}
    (free : p.call t = none) (starts : k.Starts) : Accounted (p.enter t k) where
  items := by
    have moved := Pool.sum_enter (fun call => (inHand call : Multiset BufferItem)) free k
    have nothing : inHand (some k) = [] := by
      cases k with
      | emitDataReady items => exact starts.elim
      | _ => rfl
    rw [nothing, show inHand none = [] from rfl, add_left_inj] at moved
    rw [moved]
    exact accounted.items
  sized := accounted.sized
  owed := by
    intro normal kept
    obtain ⟨u, owes⟩ := accounted.owed normal kept
    refine ⟨u, ?_⟩
    have other : u ≠ t := by
      rintro rfl
      rw [free] at owes
      rcases owes with flush | flush <;> cases flush
    rwa [Pool.call_enter_of_ne other]

theorem Accounted.advance {p : Threads τ} (accounted : Accounted p) {t : τ} {k : Pending}
    (here : p.call t = some k) : Accounted (p.advance next t k) where
  items := by
    have step := next_accounts k p.shared
    have moved := Pool.sum_advance (fun call => (inHand call : Multiset BufferItem)) next here
    rw [accepted_advance, delivered_advance, ← Multiset.coe_add, ← Multiset.coe_add,
      accounted.items]
    apply add_right_cancel (b := (inHand (some k) : Multiset BufferItem))
    calc (delivered p : Multiset BufferItem) + p.shared.buffer + ∑ t, ↑(inHand (p.call t)) +
          acceptedIn (next k p.shared).2.2 + inHand (some k)
        = delivered p + (acceptedIn (next k p.shared).2.2 + p.shared.buffer + inHand (some k)) +
            ∑ t, ↑(inHand (p.call t)) := by abel
      _ = delivered p + (deliveredIn (next k p.shared).2.2 + (next k p.shared).1.buffer) +
            (∑ t, ↑(inHand (p.call t)) + inHand (next k p.shared).2.1) := by rw [step]; abel
      _ = delivered p + deliveredIn (next k p.shared).2.2 + (next k p.shared).1.buffer +
            ∑ u, ↑(inHand ((p.advance next t k).call u)) + inHand (some k) := by
          rw [add_assoc _ _ (inHand (some k) : Multiset BufferItem), moved]; abel
  sized := next_sized accounted.sized k
  owed := by
    intro normal kept
    rcases next_owed k p.shared normal kept with owes | ⟨notOwed, normal', kept'⟩
    · refine ⟨t, ?_⟩
      rwa [Pool.call_advance_self]
    · obtain ⟨u, owes⟩ := accounted.owed normal' kept'
      refine ⟨u, ?_⟩
      have other : u ≠ t := by
        rintro rfl
        exact notOwed (here ▸ owes)
      rwa [Pool.call_advance_of_ne next other]

end

/-! ## Delivery in order -/

section

variable {τ : Type*} [DecidableEq τ]

/-- The lists taken by `flush` whose signal is still to come, after one more
happening; a thread holds at most one. -/
def waitStep (queue : List (τ × List BufferItem)) :
    τ × Happening → List (τ × List BufferItem)
  | (t, .took items) => queue ++ [(t, items)]
  | (t, .emitted (.dataReady _)) => queue.filter (·.1 ≠ t)
  | _ => queue

/-- The lists still in the hands of threads, in the order they were taken. -/
def waiting (p : Threads τ) : List (τ × List BufferItem) := p.history.foldl waitStep []

/-- The step overtakes nothing: an item written in normal mode finds nothing kept
and no list in the hands of a thread, and a list is delivered before those taken
after it. -/
def InTurn (p : Threads τ) (t : τ) : Pending → Prop
  | .write _ _ =>
      p.shared.synchronizedMode = false → p.shared.buffer = [] ∧ waiting p = []
  | .emitDataReady _ => (waiting p).head?.map Prod.fst = some t
  | _ => True

instance (p : Threads τ) (t : τ) (k : Pending) : Decidable (InTurn p t k) :=
  match k with
  | .write .. =>
      inferInstanceAs (Decidable
        (p.shared.synchronizedMode = false → p.shared.buffer = [] ∧ waiting p = []))
  | .emitDataReady _ => inferInstanceAs (Decidable ((waiting p).head?.map Prod.fst = some t))
  | .flush | .setSynchronizedMode .. | .setMaxBufferSize _ | .emitSynchronizedModeChanged _ =>
      isTrue trivial

/-- What is in whose hands, and that everything accepted is delivered, in some
thread's hands or kept, in this order. -/
structure InOrder (p : Threads τ) : Prop where
  once : ((waiting p).map Prod.fst).Nodup
  holds : ∀ t items, (t, items) ∈ waiting p ↔ p.call t = some (.emitDataReady items)
  order : accepted p = delivered p ++ (waiting p).flatMap Prod.snd ++ p.shared.buffer

theorem idle_inOrder : InOrder (Pool.idle {} : Threads τ) where
  once := List.nodup_nil
  holds := fun t items => by simp [waiting, Pool.idle]
  order := rfl

theorem InOrder.enter {p : Threads τ} (inOrder : InOrder p) {t : τ} {k : Pending}
    (free : p.call t = none) (starts : k.Starts) : InOrder (p.enter t k) where
  once := inOrder.once
  holds := by
    intro u items
    change _ ∈ waiting p ↔ _
    rw [inOrder.holds u items]
    by_cases same : u = t
    · subst same
      rw [free, Pool.call_enter_self]
      refine iff_of_false nofun fun emits => ?_
      injection emits with emits
      subst emits
      exact starts
    · rw [Pool.call_enter_of_ne same]
  order := inOrder.order

variable [Platform]

theorem waiting_advance (p : Threads τ) (t : τ) (k : Pending) :
    waiting (p.advance next t k) =
      ((next k p.shared).2.2.map fun e => (t, e)).foldl waitStep (waiting p) := by
  rw [waiting, Pool.advance, List.foldl_append]
  rfl

/-- A step that neither takes nor delivers a list of `flush`. -/
theorem InOrder.advance_quiet {p : Threads τ} (inOrder : InOrder p) {t : τ} {k : Pending}
    (here : p.call t = some k) (before : ∀ items, k ≠ .emitDataReady items)
    (after : ∀ items, (next k p.shared).2.1 ≠ some (.emitDataReady items))
    (same : waiting (p.advance next t k) = waiting p)
    (order : acceptedIn (next k p.shared).2.2 =
        deliveredIn (next k p.shared).2.2 ∧ waiting p = [] ∧ p.shared.buffer = [] ∧
          (next k p.shared).1.buffer = [] ∨
      deliveredIn (next k p.shared).2.2 = [] ∧
        p.shared.buffer ++ acceptedIn (next k p.shared).2.2 = (next k p.shared).1.buffer) :
    InOrder (p.advance next t k) where
  once := same ▸ inOrder.once
  holds := by
    intro u items
    rw [same, inOrder.holds u items]
    by_cases mine : u = t
    · subst mine
      rw [here, Pool.call_advance_self]
      exact iff_of_false (fun emits => before items (Option.some.inj emits)) (after items)
    · rw [Pool.call_advance_of_ne next mine]
  order := by
    rw [accepted_advance, delivered_advance, same, inOrder.order]
    change _ = _ ++ (next k p.shared).1.buffer
    rcases order with ⟨delivers, none, empty, empty'⟩ | ⟨nothing, kept⟩
    · simp [delivers, none, empty, empty']
    · rw [← kept, nothing]
      simp

/-- `flush` takes what is kept. -/
theorem InOrder.advance_take {p : Threads τ} (inOrder : InOrder p) {t : τ}
    (here : p.call t = some .flush) (kept : p.shared.buffer ≠ []) :
    InOrder (p.advance next t .flush) := by
  have step := next_flush_of_ne kept
  have queue : waiting (p.advance next t .flush) =
      waiting p ++ [(t, p.shared.buffer)] := by
    rw [waiting_advance, step]
    rfl
  have absent : ∀ items, (t, items) ∉ waiting p := by
    intro items mem
    have emits := (inOrder.holds t items).mp mem
    rw [here] at emits
    cases emits
  refine ⟨?_, fun u items => ?_, ?_⟩
  · rw [queue, List.map_append, List.nodup_append]
    refine ⟨inOrder.once, List.nodup_singleton t, ?_⟩
    intro u mem v last
    obtain ⟨⟨u', items⟩, held, rfl⟩ := List.mem_map.mp mem
    rw [List.map_singleton, List.mem_singleton] at last
    intro same
    have isMine : u' = t := same.trans last
    exact absent items (isMine ▸ held)
  · rw [queue, List.mem_append, List.mem_singleton, inOrder.holds u items]
    by_cases mine : u = t
    · subst mine
      rw [here, Pool.call_advance_self, step]
      simp [eq_comm]
    · rw [Pool.call_advance_of_ne next mine]
      simp [mine]
  · rw [accepted_advance, delivered_advance, queue, inOrder.order]
    simp [step, acceptedIn, deliveredIn, Pool.advance]

/-- The list taken first is delivered. -/
theorem InOrder.advance_deliver {p : Threads τ} (inOrder : InOrder p) {t : τ}
    {items : List BufferItem} (here : p.call t = some (.emitDataReady items))
    (inTurn : InTurn p t (.emitDataReady items)) :
    InOrder (p.advance next t (.emitDataReady items)) := by
  have mine := (inOrder.holds t items).mpr here
  obtain ⟨first, front, isFirst⟩ := Option.map_eq_some_iff.mp inTurn
  obtain ⟨rest, split⟩ := List.head?_eq_some_iff.mp front
  have once := inOrder.once
  rw [split, List.map_cons, List.nodup_cons, isFirst] at once
  have isMine : first = (t, items) := by
    rw [split] at mine
    refine ((List.mem_cons.mp mine).resolve_right fun later => ?_).symm
    exact once.1 (List.mem_map.mpr ⟨_, later, rfl⟩)
  have others : ∀ entry ∈ rest, decide (entry.1 ≠ t) = true := by
    intro entry mem
    refine decide_eq_true fun same => once.1 ?_
    exact List.mem_map.mpr ⟨entry, mem, same⟩
  have queue : waiting (p.advance next t (.emitDataReady items)) = rest := by
    rw [waiting_advance, split, isMine]
    change ((t, items) :: rest).filter (·.1 ≠ t) = rest
    rw [List.filter_cons_of_neg (by simp), List.filter_eq_self.mpr others]
  refine ⟨?_, fun u items' => ?_, ?_⟩
  · rw [queue]
    exact once.2
  · rw [queue]
    by_cases same : u = t
    · subst same
      rw [Pool.call_advance_self]
      refine iff_of_false (fun mem => ?_) (Option.some_ne_none _).symm
      exact once.1 (List.mem_map.mpr ⟨_, mem, rfl⟩)
    · rw [Pool.call_advance_of_ne next same, ← inOrder.holds u items', split, isMine,
        List.mem_cons]
      simp [same]
  · rw [accepted_advance, delivered_advance, queue, inOrder.order, split, isMine]
    simp [next, acceptedIn, deliveredIn, Pool.advance]

theorem InOrder.advance {p : Threads τ} (inOrder : InOrder p) {t : τ} {k : Pending}
    (here : p.call t = some k) (inTurn : InTurn p t k) : InOrder (p.advance next t k) := by
  cases k with
  | write now item =>
      cases written now item p.shared with
      | delivered normal step =>
          obtain ⟨empty, none⟩ := inTurn normal
          refine inOrder.advance_quiet here (by simp) (by simp [step]) ?_ (Or.inl ?_)
          · rw [waiting_advance, step, none]
            rfl
          · simp [step, acceptedIn, deliveredIn, none, empty]
      | rejected _ step =>
          refine inOrder.advance_quiet here (by simp) (by simp [step]) ?_ (Or.inr ?_)
          · rw [waiting_advance, step]
            rfl
          · simp [step, acceptedIn, deliveredIn]
      | kept rest _ flushes step =>
          have quiet : ∀ items, rest ≠ some (.emitDataReady items) := by
            rcases flushes with rfl | rfl
            · simp
            · simp
          refine inOrder.advance_quiet here (by simp) (by simpa [step] using quiet) ?_ (Or.inr ?_)
          · rw [waiting_advance, step]
            rfl
          · simp [step, acceptedIn, deliveredIn, keep]
  | flush =>
      by_cases empty : p.shared.buffer = []
      · have step := next_flush_of_eq empty
        refine inOrder.advance_quiet here (by simp) (by simp [step]) ?_ (Or.inr ?_)
        · rw [waiting_advance, step]
          rfl
        · simp [step, acceptedIn, deliveredIn]
      · exact inOrder.advance_take here empty
  | setSynchronizedMode now enabled =>
      by_cases same : p.shared.synchronizedMode = enabled
      · have step := next_switch_same same now
        refine inOrder.advance_quiet here (by simp) (by simp [step]) ?_ (Or.inr ?_)
        · rw [waiting_advance, step]
          rfl
        · simp [step, acceptedIn, deliveredIn]
      · have step := next_switch_other same now
        refine inOrder.advance_quiet here (by simp) (by simp [step]) ?_ (Or.inr ?_)
        · rw [waiting_advance, step]
          rfl
        · simp [step, acceptedIn, deliveredIn]
  | setMaxBufferSize maxSize =>
      refine inOrder.advance_quiet here (by simp) (by simp [next]) ?_ (Or.inr ?_)
      · rw [waiting_advance]
        rfl
      · simp [next, setMaxBufferSize, acceptedIn, deliveredIn]
  | emitSynchronizedModeChanged enabled =>
      refine inOrder.advance_quiet here (by simp) ?_ ?_ (Or.inr ?_)
      · cases enabled <;> simp [next]
      · rw [waiting_advance]
        rfl
      · simp [next, acceptedIn, deliveredIn]
  | emitDataReady items => exact inOrder.advance_deliver here inTurn

/-- **In order, if nothing is overtaken.** In every state that any number of threads
reach on a new sync buffer by steps that overtake nothing, the items delivered
are the first of the items accepted, in the order of the scopes that accepted
them; and when no call is in progress, only the items kept are still missing. -/
theorem run_inOrder {p : Threads τ}
    (run : Pool.Run next Pending.Starts InTurn (Pool.idle {}) p) :
    delivered p <+: accepted p ∧
      (p.AllReturned → accepted p = delivered p ++ p.shared.buffer) := by
  have inOrder : InOrder p := by
    induction run with
    | refl => exact idle_inOrder
    | enter _ free starts ih => exact ih.enter free starts
    | advance _ here inTurn ih => exact ih.advance here inTurn
  have order := inOrder.order
  rw [List.append_assoc] at order
  refine ⟨⟨_, order.symm⟩, fun returned => ?_⟩
  have none : waiting p = [] := by
    rw [List.eq_nil_iff_forall_not_mem]
    rintro ⟨t, items⟩ mem
    have emits := (inOrder.holds t items).mp mem
    rw [returned t] at emits
    cases emits
  rw [order, none]
  rfl

/-- Thread `t` takes an item with `flush`; before it delivers it, thread `u` writes
another one, and takes and delivers that behind it. In normal mode `u` writes a third. -/
def takingTurns (t u : τ) (first second third : BufferItem) : List (Move τ Pending) :=
  [.enter t (.setSynchronizedMode 0 true), .advance t, .advance t,
    .enter t (.write 0 first), .advance t, .enter t .flush, .advance t,
    .enter u (.write 0 second), .advance u, .enter u .flush, .advance u,
    .advance t, .advance u,
    .enter t (.setSynchronizedMode 0 false), .advance t, .advance t, .advance t,
    .enter u (.write 0 third), .advance u]

omit [Platform] [DecidableEq τ] in
/-- Two lists are delivered in turn, and an item behind them. -/
theorem run_inOrder_takingTurns :
    letI := Platform.qt6
    let first : BufferItem := { data := [0x61] }
    let second : BufferItem := { data := [0x62] }
    let third : BufferItem := { data := [0x63] }
    ∃ p : Threads (Fin 2), p.AllReturned ∧ delivered p = [first, second, third] ∧
      delivered p <+: accepted p ∧
        (p.AllReturned → accepted p = delivered p ++ p.shared.buffer) := by
  let _ := Platform.qt6
  let first : BufferItem := { data := [0x61] }
  let second : BufferItem := { data := [0x62] }
  let third : BufferItem := { data := [0x63] }
  have allowed : ∀ t k, Move.enter t k ∈ takingTurns (0 : Fin 2) 1 first second third →
      k.Starts := by
    intro t k mem
    simp only [takingTurns, List.mem_cons, Move.enter.injEq, reduceCtorEq, List.not_mem_nil,
      false_or, or_false] at mem
    rcases mem with ⟨-, rfl⟩ | ⟨-, rfl⟩ | ⟨-, rfl⟩ | ⟨-, rfl⟩ | ⟨-, rfl⟩ | ⟨-, rfl⟩ | ⟨-, rfl⟩ <;>
      exact trivial
  have executes : ((Pool.idle {} : Threads (Fin 2)).execMeeting next InTurn
      (takingTurns 0 1 first second third)).isSome = true := by decide +kernel
  obtain ⟨p, run, result⟩ := Pool.Run.of_scheduleMeeting allowed executes
  refine ⟨p, ?_, ?_, run_inOrder run⟩
  · intro t
    match t with
    | 0 => exact Option.some.inj ((result (·.call 0)).trans (by decide +kernel))
    | 1 => exact Option.some.inj ((result (·.call 1)).trans (by decide +kernel))
  · exact Option.some.inj ((result delivered).trans (by decide +kernel))

/-- Thread `t` takes a list with `flush`; before it delivers it, thread `u` switches
synchronised output off and writes. -/
def overtaking (t u : τ) (first second : BufferItem) : List (Move τ Pending) :=
  [.enter t (.setSynchronizedMode 0 true), .advance t, .advance t,
    .enter t (.write 0 first), .advance t, .enter t .flush, .advance t,
    .enter u (.setSynchronizedMode 0 false), .advance u, .advance u, .advance u,
    .enter u (.write 0 second), .advance u, .advance t]

omit [Platform] [DecidableEq τ] in
/-- The item written later is delivered first. -/
theorem later_item_overtakes :
    letI := Platform.qt6
    let first : BufferItem := { data := [0x61] }
    let second : BufferItem := { data := [0x62] }
    ∃ p : Threads (Fin 2), Pool.Run next Pending.Starts Pool.anyStep (Pool.idle {}) p ∧
      p.AllReturned ∧ accepted p = [first, second] ∧ delivered p = [second, first] := by
  let _ := Platform.qt6
  let first : BufferItem := { data := [0x61] }
  let second : BufferItem := { data := [0x62] }
  have allowed : ∀ t k, Move.enter t k ∈ overtaking (0 : Fin 2) 1 first second → k.Starts := by
    intro t k mem
    simp only [overtaking, List.mem_cons, Move.enter.injEq, reduceCtorEq, List.not_mem_nil,
      false_or, or_false] at mem
    rcases mem with ⟨-, rfl⟩ | ⟨-, rfl⟩ | ⟨-, rfl⟩ | ⟨-, rfl⟩ | ⟨-, rfl⟩ <;> exact trivial
  have executes : ((Pool.idle {} : Threads (Fin 2)).exec next
      (overtaking 0 1 first second)).isSome = true := by decide +kernel
  obtain ⟨p, run, result⟩ := Pool.Run.of_schedule allowed executes
  refine ⟨p, run, ?_, ?_, ?_⟩
  · intro t
    match t with
    | 0 => exact Option.some.inj ((result (·.call 0)).trans (by decide +kernel))
    | 1 => exact Option.some.inj ((result (·.call 1)).trans (by decide +kernel))
  · exact Option.some.inj ((result accepted).trans (by decide +kernel))
  · exact Option.some.inj ((result delivered).trans (by decide +kernel))

end

end SynchronizedBuffer

end WindTerm

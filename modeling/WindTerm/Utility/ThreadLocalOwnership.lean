import WindTerm.Library.Along
import WindTerm.Library.Ledger
import WindTerm.Utility.ThreadLocal

/-!
# `ThreadLocal.h`: owning the pointers

A `ThreadLocal` deletes the object behind an entry it takes out. The objects
handed over and those deleted are recorded in `books`, and as long as a `reset`
is not given the pointer its thread already holds, the books balance against the
entries (`Owns`): no entry points to a deleted object, and none is deleted twice.
`owned_soundly_iff` is the result for runs that end with the destructor.
-/

namespace WindTerm

open Library

namespace ThreadLocal

variable {Id Ptr : Type*} [DecidableEq Id]

/-- A `ThreadLocal` with the objects it was handed and those it deleted. -/
structure Owning (Id Ptr : Type*) where
  threadLocal : ThreadLocal Id Ptr
  books : Ledger Ptr

def Owning.new (mainThreadId : Id) : Owning Id Ptr := ⟨.new mainThreadId, .empty⟩

/-- The objects a call deletes. The loops of `removeLocal` stop at the entry
those of `get` stop at, and `~Local` deletes its pointer. -/
def Call.deleted : Call Id Ptr → ThreadLocal Id Ptr → List Ptr
  | .reset caller _, s => (s.get caller).toList
  | .clear id, s => (s.get id).toList
  | .clearAll, s => s.locals.map Local.ptr

/-- The pointer a call is given. -/
def Call.given : Call Id Ptr → Option Ptr
  | .reset _ t => t
  | .clear _ => none
  | .clearAll => none

section

variable [DecidableEq Ptr]

/-- An object is handed over, unless it was before. -/
def handOver (books : Ledger Ptr) : Option Ptr → Ledger Ptr
  | none => books
  | some ptr => if ptr ∈ books.acquired then books else books.acquire ptr

/-- A call, with what it deletes. -/
def Call.apply (call : Call Id Ptr) (o : Owning Id Ptr) : Owning Id Ptr where
  threadLocal := call.run o.threadLocal
  books := handOver (o.books.releaseAll (call.deleted o.threadLocal)) call.given

/-- A `reset` is given null, an object never handed over, or what `get` returns
to the calling thread. -/
def Call.Admissible : Call Id Ptr → Owning Id Ptr → Prop
  | .reset caller t, o =>
      t = none ∨ (∃ ptr, t = some ptr ∧ ptr ∉ o.books.acquired) ∨ t = o.threadLocal.get caller
  | .clear _, _ => True
  | .clearAll, _ => True

/-- A `reset` is not given the object its thread holds. -/
def Call.Replaces : Call Id Ptr → Owning Id Ptr → Prop
  | .reset caller t, o => t = none ∨ t ≠ o.threadLocal.get caller
  | .clear _, _ => True
  | .clearAll, _ => True

/-- No entry points to a deleted object, and none was deleted twice. -/
def Owning.Sound (o : Owning Id Ptr) : Prop :=
  (∀ entry ∈ o.threadLocal.locals, entry.ptr ∉ o.books.released) ∧
    ∀ ptr, o.books.released.count ptr ≤ 1

/-! ## The invariant -/

omit [DecidableEq Ptr] in
/-- Each object handed over is behind one entry or was deleted once. -/
structure Owning.Balanced (o : Owning Id Ptr) : Prop where
  unique : o.threadLocal.Unique
  once : o.books.acquired.Nodup
  balanced : o.books.Balanced (o.threadLocal.locals.map Local.ptr)

omit [DecidableEq Ptr] in
/-- `removeLocal` takes out the entry that `get` finds. -/
theorem locals_perm_removeLocal {s : ThreadLocal Id Ptr} (unique : s.Unique) (id : Id) :
    s.locals.Perm ((s.get id).toList.map (Local.mk id) ++ (s.removeLocal id).2.locals) := by
  rw [locals_removeLocal]
  obtain ⟨sound, complete⟩ := s.get_spec id
  cases found : s.get id with
  | none =>
      have others : ∀ entry ∈ s.locals, ¬ decide (entry.id = id) = true := by
        simpa using complete found
      rw [List.eraseP_of_forall_not others]
      exact .refl _
  | some ptr =>
      have mem := sound ptr found
      obtain ⟨entry, before, after, -, isId, split, erased⟩ :=
        List.exists_of_eraseP (p := fun entry => decide (entry.id = id)) mem (by simp)
      have here : entry ∈ s.locals := split ▸ by simp
      have same : entry = ⟨id, ptr⟩ :=
        List.inj_on_of_nodup_map unique here mem (of_decide_eq_true isId)
      rw [erased, split, same]
      exact List.perm_middle

omit [DecidableEq Id] [DecidableEq Ptr] in
theorem map_ptr_mk (id : Id) (ptrs : List Ptr) : (ptrs.map (Local.mk id)).map Local.ptr = ptrs := by
  rw [List.map_map]
  exact List.map_id ptrs

omit [DecidableEq Ptr] in
/-- The pointers behind the entries, before and after an entry is taken out. -/
theorem ptrs_perm_removeLocal {s : ThreadLocal Id Ptr} (unique : s.Unique) (id : Id) :
    (s.locals.map Local.ptr).Perm
      ((s.get id).toList ++ (s.removeLocal id).2.locals.map Local.ptr) := by
  have perm := (locals_perm_removeLocal unique id).map Local.ptr
  rwa [List.map_append, map_ptr_mk] at perm

omit [DecidableEq Id] [DecidableEq Ptr] in
theorem ptrs_perm_addLocal (id : Id) (t : Option Ptr) (s : ThreadLocal Id Ptr) :
    ((s.addLocal id t).2.locals.map Local.ptr).Perm (t.toList ++ s.locals.map Local.ptr) := by
  have perm := (locals_addLocal id t s).map Local.ptr
  rwa [List.map_append, map_ptr_mk] at perm

omit [DecidableEq Id] [DecidableEq Ptr] in
theorem Owning.Balanced.nodup {o : Owning Id Ptr} (balanced : o.Balanced) :
    (o.books.released ++ o.threadLocal.locals.map Local.ptr).Nodup :=
  balanced.balanced.nodup_iff.mp balanced.once

omit [DecidableEq Id] in
theorem Owning.Balanced.sound {o : Owning Id Ptr} (balanced : o.Balanced) : o.Sound := by
  obtain ⟨once, -, apart⟩ := List.nodup_append.mp balanced.nodup
  refine ⟨fun entry mem deleted => ?_, List.nodup_iff_count_le_one.mp once⟩
  exact apart _ deleted _ (List.mem_map_of_mem mem) rfl

omit [DecidableEq Id] [DecidableEq Ptr] in
theorem new_balanced (mainThreadId : Id) :
    (Owning.new mainThreadId : Owning Id Ptr).Balanced where
  unique := new_unique mainThreadId
  once := .nil
  balanced := .refl []

omit [DecidableEq Ptr] in
/-- What a call deletes and what it leaves are the objects that were there. -/
theorem Call.deletes (call : Call Id Ptr) {s : ThreadLocal Id Ptr} (unique : s.Unique) :
    ∃ kept, (s.locals.map Local.ptr).Perm (call.deleted s ++ kept) ∧
      ((call.run s).locals.map Local.ptr).Perm (call.given.toList ++ kept) := by
  cases call with
  | reset caller t =>
      exact ⟨_, ptrs_perm_removeLocal unique caller, ptrs_perm_addLocal caller t _⟩
  | clear id => exact ⟨_, ptrs_perm_removeLocal unique id, .refl _⟩
  | clearAll =>
      refine ⟨[], by rw [List.append_nil]; exact .refl _, ?_⟩
      change (s.clearAll.locals.map Local.ptr).Perm []
      rw [locals_clearAll]
      exact .refl _

/-- A call that is given nothing or something new keeps the balance. -/
theorem Call.balanced_apply {o : Owning Id Ptr} (balanced : o.Balanced) (call : Call Id Ptr)
    (fresh : ∀ ptr, call.given = some ptr → ptr ∉ o.books.acquired) :
    (call.apply o).Balanced := by
  obtain ⟨kept, before, after⟩ := call.deletes balanced.unique
  have rest : (o.books.releaseAll (call.deleted o.threadLocal)).Balanced kept := by
    rw [Ledger.balanced_releaseAll_iff]
    exact balanced.balanced.trans (before.append_left _)
  cases given : call.given with
  | none =>
      have books : (call.apply o).books = o.books.releaseAll (call.deleted o.threadLocal) := by
        rw [Call.apply, given]
        rfl
      refine ⟨balanced.unique.run call, books ▸ balanced.once, ?_⟩
      rw [given] at after
      rw [books]
      exact rest.perm after.symm
  | some ptr =>
      have unseen := fresh ptr given
      have books : (call.apply o).books =
          (o.books.releaseAll (call.deleted o.threadLocal)).acquire ptr := by
        rw [Call.apply, given]
        exact if_neg unseen
      refine ⟨balanced.unique.run call, ?_, ?_⟩
      · rw [books]
        refine List.nodup_append.mpr ⟨balanced.once, List.nodup_singleton ptr, ?_⟩
        rintro other old _ mem rfl
        rw [List.mem_singleton] at mem
        exact unseen (mem ▸ old)
      · rw [given] at after
        rw [books]
        exact (rest.acquire ptr).perm after.symm

/-! ## Runs -/

omit [DecidableEq Ptr] in
theorem Call.Admissible.fresh {o : Owning Id Ptr} {call : Call Id Ptr}
    (admissible : call.Admissible o) (replaces : call.Replaces o) :
    ∀ ptr, call.given = some ptr → ptr ∉ o.books.acquired := by
  intro ptr given
  cases call with
  | clear id => cases given
  | clearAll => cases given
  | reset caller t =>
      change t = some ptr at given
      subst given
      rcases admissible with none | ⟨other, same, unseen⟩ | held
      · cases none
      · cases same
        exact unseen
      · rcases replaces with none | other
        · cases none
        · exact (other held).elim

/-- A thread that is given back the object it holds keeps it deleted. -/
theorem Call.not_sound_apply {o : Owning Id Ptr} {call : Call Id Ptr}
    (keeps : ¬ call.Replaces o) (unique : o.threadLocal.Unique) : ¬ (call.apply o).Sound := by
  rintro ⟨alive, -⟩
  cases call with
  | clear id => exact keeps trivial
  | clearAll => exact keeps trivial
  | reset caller t =>
      change ¬ (t = none ∨ t ≠ o.threadLocal.get caller) at keeps
      rw [not_or, ne_eq, not_not] at keeps
      obtain ⟨ptr, rfl⟩ := Option.ne_none_iff_exists'.mp keeps.1
      have stored : Local.mk caller ptr ∈
          ((Call.reset caller (some ptr)).apply o).threadLocal.locals := by
        refine (get_eq_some_iff (unique.run (.reset caller (some ptr))) caller ptr).mp ?_
        exact (get_reset unique caller caller (some ptr)).trans (if_pos rfl)
      refine alive _ stored ?_
      have deleted : ptr ∈ (Call.reset caller (some ptr)).deleted o.threadLocal := by
        rw [Call.deleted, ← keeps.2]
        exact List.mem_singleton_self ptr
      simp only [Call.apply, Call.given, handOver]
      split
      · exact List.mem_append_right _ deleted
      · exact List.mem_append_right _ deleted

/-- **When the pointers are owned soundly.** Let threads make calls on a new
`ThreadLocal`, each `reset` with null, a new object, or what `get` returns to the
thread, and let it be destroyed at the end. No entry ever points to a deleted
object, no object is deleted twice, and each object handed over is deleted once
in the end, if and only if no `reset` is given the object its thread holds. -/
theorem owned_soundly_iff (mainThreadId : Id) (calls : List (Call Id Ptr))
    (admissible : EachMeets Call.apply Call.Admissible calls (.new mainThreadId)) :
    (EveryState Call.apply Owning.Sound (calls ++ [.clearAll]) (.new mainThreadId) ∧
        (runSteps Call.apply (calls ++ [.clearAll]) (.new mainThreadId)).books.Settled) ↔
      EachMeets Call.apply Call.Replaces calls (.new mainThreadId) := by
  have admissible' : EachMeets Call.apply Call.Admissible (calls ++ [.clearAll])
      (.new mainThreadId) := (eachMeets_append _ _ _).mpr ⟨admissible, trivial, trivial⟩
  have replaces : EachMeets Call.apply Call.Replaces (calls ++ [.clearAll]) (.new mainThreadId) ↔
      EachMeets Call.apply Call.Replaces calls (.new mainThreadId) := by
    rw [eachMeets_append]
    exact and_iff_left ⟨trivial, trivial⟩
  have keeps : ∀ (call : Call Id Ptr) (o : Owning Id Ptr), o.Balanced → call.Admissible o →
      call.Replaces o → (call.apply o).Balanced := fun call o balanced admissible replaces =>
    call.balanced_apply balanced (admissible.fresh replaces)
  have sound := everyState_iff_eachMeets (fun o => Owning.Balanced.sound) keeps
    (fun call o balanced _ same => Call.not_sound_apply same balanced.unique)
    (new_balanced mainThreadId) admissible'
  rw [sound, replaces]
  refine and_iff_left_of_imp fun each => ?_
  have last := (admissible.and each).last (fun call o balanced met =>
    keeps call o balanced met.1 met.2) (new_balanced mainThreadId)
  have ending := Call.balanced_apply last .clearAll fun ptr given => by cases given
  have none := locals_clearAll (runSteps Call.apply calls (.new mainThreadId)).threadLocal
  rw [runSteps, List.foldl_append]
  refine (Ledger.settled_iff ending.once).mpr ?_
  have balanced := ending.balanced
  change Ledger.Balanced _ (List.map Local.ptr (ThreadLocal.clearAll _).locals) at balanced
  rwa [none] at balanced

end

/-- A thread replaces its object, another clears its own. -/
theorem owned_soundly_replaced :
    (EveryState Call.apply Owning.Sound
          ([.reset 1 (some "first"), .reset 1 (some "second"), .clear 1] ++ [.clearAll])
          (.new (0 : Fin 2)) ∧
        (runSteps Call.apply
          ([.reset 1 (some "first"), .reset 1 (some "second"), .clear 1] ++ [.clearAll])
          (.new (0 : Fin 2))).books.Settled) ↔
      EachMeets Call.apply Call.Replaces
        [.reset 1 (some "first"), .reset 1 (some "second"), .clear 1] (.new (0 : Fin 2)) :=
  owned_soundly_iff 0 [.reset 1 (some "first"), .reset 1 (some "second"), .clear 1]
    ⟨Or.inr (Or.inl ⟨"first", rfl, by decide⟩), Or.inr (Or.inl ⟨"second", rfl, by decide⟩), trivial,
      trivial⟩

/-- A thread hands over an object, and again what `get` returns to it. -/
theorem kept_object_deleted :
    EachMeets Call.apply Call.Admissible [.reset 1 (some "object"), .reset 1 (some "object")]
        (.new (0 : Fin 2)) ∧
      ¬ EveryState Call.apply Owning.Sound [.reset 1 (some "object"), .reset 1 (some "object")]
        (.new (0 : Fin 2)) := by
  refine ⟨⟨Or.inr (Or.inl ⟨"object", rfl, by decide⟩), Or.inr (Or.inr (by decide)), trivial⟩, ?_⟩
  rintro ⟨-, -, alive, -⟩
  exact alive ⟨1, "object"⟩ (by decide) (by decide)

end ThreadLocal

end WindTerm

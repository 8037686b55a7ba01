import WindTerm.Library.Traced
import Mathlib.Data.List.Nodup
import Mathlib.Data.List.ReduceOption
import Mathlib.Data.List.Induction

/-!
# `ThreadLocal.h`: pointers kept by thread id

A `ThreadLocal` keeps its entries in two stores, six static slots and a vector
made when they are full. Each locked scope of the source is one step here, and
a run is the list of the calls in the order of their steps. The abstraction is
the list of all entries, `locals`: over a list without two entries of one thread
(`Unique`) a look-up is membership (`get_eq_some_iff`), and the stores only
matter through what they do to that list. `get_runCalls` is the map the class
stands for.
-/

namespace WindTerm

open Library

/-- `STATIC_LOCAL_COUNT`. -/
def staticLocalCount : Nat := 6

/-- `ThreadLocal::Local`; its pointer is never null. -/
structure ThreadLocal.Local (Id Ptr : Type*) where
  id : Id
  ptr : Ptr
  deriving DecidableEq, Repr

/-- The fields of `ThreadLocal`. `none` is a null pointer. -/
structure ThreadLocal (Id Ptr : Type*) where
  staticLocals : List (Option (ThreadLocal.Local Id Ptr))
  staticLength : staticLocals.length = staticLocalCount
  dynamicLocals : Option (List (ThreadLocal.Local Id Ptr))
  mainThreadId : Id

/-- The calls into `ThreadLocalWatcher`. -/
inductive ThreadLocal.Watch where
  | watchCurrentThread
  | stopWatchCurrentThread
  deriving DecidableEq, Repr

namespace ThreadLocal

variable {Id Ptr : Type*} [DecidableEq Id]

/-- The constructor, run by the thread `mainThreadId`. -/
def new (mainThreadId : Id) : ThreadLocal Id Ptr where
  staticLocals := List.replicate staticLocalCount none
  staticLength := List.length_replicate
  dynamicLocals := none
  mainThreadId := mainThreadId

/-! ## The static slots -/

/-- The loop of `removeLocal` over the static slots: the slots without the first
entry of the thread, if there is one. -/
def removeStatic (id : Id) : List (Option (Local Id Ptr)) → Option (List (Option (Local Id Ptr)))
  | [] => none
  | none :: slots => (removeStatic id slots).map (none :: ·)
  | some entry :: slots =>
      if entry.id = id then some (none :: slots)
      else (removeStatic id slots).map (some entry :: ·)

/-- The loop of `addLocal` over the static slots: the slots with the entry in the
first free one, if there is one. -/
def addStatic (entry : Local Id Ptr) :
    List (Option (Local Id Ptr)) → Option (List (Option (Local Id Ptr)))
  | [] => none
  | none :: slots => some (some entry :: slots)
  | some other :: slots => (addStatic entry slots).map (some other :: ·)

theorem length_removeStatic {id : Id} {slots slots' : List (Option (Local Id Ptr))}
    (removed : removeStatic id slots = some slots') : slots'.length = slots.length := by
  induction slots generalizing slots' with
  | nil => cases removed
  | cons slot slots ih =>
      cases slot with
      | none =>
          obtain ⟨rest, removed', rfl⟩ := Option.map_eq_some_iff.mp removed
          rw [List.length_cons, List.length_cons, ih removed']
      | some entry =>
          unfold removeStatic at removed
          split at removed
          · injection removed with same
            rw [← same]
            rfl
          · obtain ⟨rest, removed', rfl⟩ := Option.map_eq_some_iff.mp removed
            rw [List.length_cons, List.length_cons, ih removed']

omit [DecidableEq Id] in
theorem length_addStatic {entry : Local Id Ptr} {slots slots' : List (Option (Local Id Ptr))}
    (added : addStatic entry slots = some slots') : slots'.length = slots.length := by
  induction slots generalizing slots' with
  | nil => cases added
  | cons slot slots ih =>
      cases slot with
      | none =>
          injection added with same
          rw [← same]
          rfl
      | some other =>
          obtain ⟨rest, added', rfl⟩ := Option.map_eq_some_iff.mp added
          rw [List.length_cons, List.length_cons, ih added']

/-! ## The operations -/

/-- `removeLocal`. -/
def removeLocal (id : Id) (s : ThreadLocal Id Ptr) : Bool × ThreadLocal Id Ptr :=
  match removed : removeStatic id s.staticLocals with
  | some slots =>
      (true, { s with staticLocals := slots
                      staticLength := (length_removeStatic removed).trans s.staticLength })
  | none =>
      match s.dynamicLocals with
      | none => (false, s)
      | some entries =>
          if entries.any (·.id = id) then
            (true, { s with dynamicLocals := some (entries.eraseP (·.id = id)) })
          else (false, s)

omit [DecidableEq Id] in
/-- `addLocal`. -/
def addLocal (id : Id) (t : Option Ptr) (s : ThreadLocal Id Ptr) : Bool × ThreadLocal Id Ptr :=
  match t with
  | none => (false, s)
  | some ptr =>
      match added : addStatic ⟨id, ptr⟩ s.staticLocals with
      | some slots =>
          (true, { s with staticLocals := slots
                          staticLength := (length_addStatic added).trans s.staticLength })
      | none => (true, { s with dynamicLocals := some (s.dynamicLocals.getD [] ++ [⟨id, ptr⟩]) })

/-- `clear`. -/
def clear (id : Id) (s : ThreadLocal Id Ptr) : Traced (ThreadLocal Id Ptr) Watch :=
  let r := s.removeLocal id
  (r.2, if r.1 then [.stopWatchCurrentThread] else [])

omit [DecidableEq Id] in
/-- `clearAll`. -/
def clearAll (s : ThreadLocal Id Ptr) : ThreadLocal Id Ptr where
  staticLocals := s.staticLocals.map fun _ => none
  staticLength := (List.length_map _).trans s.staticLength
  dynamicLocals := none
  mainThreadId := s.mainThreadId

/-- The loops of `get`. -/
def scan (id : Id) (slots : List (Option (Local Id Ptr))) : Option Ptr :=
  slots.findSome? fun
    | some entry => if entry.id = id then some entry.ptr else none
    | none => none

/-- `get`, called by the thread `id`. -/
def get (id : Id) (s : ThreadLocal Id Ptr) : Option Ptr :=
  match scan id s.staticLocals with
  | some ptr => some ptr
  | none =>
      match s.dynamicLocals with
      | some entries => scan id (entries.map some)
      | none => none

/-- `reset`, called by the thread `id`. -/
def reset (id : Id) (t : Option Ptr) (s : ThreadLocal Id Ptr) :
    Traced (ThreadLocal Id Ptr) Watch :=
  let removed := s.removeLocal id
  let added := removed.2.addLocal id t
  (added.2,
    if id ≠ s.mainThreadId then
      if removed.1 then if added.1 then [] else [.stopWatchCurrentThread]
      else if added.1 then [.watchCurrentThread] else []
    else [])

/-! ## The entries of both stores -/

omit [DecidableEq Id] in
/-- All entries, the static ones first. -/
def locals (s : ThreadLocal Id Ptr) : List (Local Id Ptr) :=
  s.staticLocals.reduceOption ++ s.dynamicLocals.getD []

omit [DecidableEq Id] in
/-- No thread has two entries. -/
def Unique (s : ThreadLocal Id Ptr) : Prop := (s.locals.map Local.id).Nodup

/-- Removing from the slots is removing from the list of their entries. -/
theorem removeStatic_spec (id : Id) (slots : List (Option (Local Id Ptr))) :
    match removeStatic id slots with
    | some slots' =>
        (∃ entry ∈ slots.reduceOption, entry.id = id) ∧
          slots'.reduceOption = slots.reduceOption.eraseP (·.id = id)
    | none => ∀ entry ∈ slots.reduceOption, entry.id ≠ id := by
  induction slots with
  | nil => exact fun _ mem => (List.not_mem_nil mem).elim
  | cons slot slots ih =>
      cases slot with
      | none =>
          unfold removeStatic
          revert ih
          cases removeStatic id slots with
          | some slots' => exact fun removed => removed
          | none => exact fun absent => absent
      | some entry =>
          unfold removeStatic
          by_cases same : entry.id = id
          · rw [if_pos same, List.reduceOption_cons_of_some]
            refine ⟨⟨entry, List.mem_cons_self, same⟩, ?_⟩
            rw [List.eraseP_cons_of_pos (by simpa using same)]
            rfl
          · rw [if_neg same, List.reduceOption_cons_of_some]
            revert ih
            cases removeStatic id slots with
            | some slots' =>
                rintro ⟨⟨found, mem, isId⟩, erased⟩
                refine ⟨⟨found, List.mem_cons_of_mem _ mem, isId⟩, ?_⟩
                rw [List.eraseP_cons_of_neg (by simpa using same), ← erased]
                rfl
            | none => exact fun absent => List.forall_mem_cons.mpr ⟨same, absent⟩

omit [DecidableEq Id] in
/-- Adding to the slots is adding to the entries, at some place. -/
theorem addStatic_perm {entry : Local Id Ptr} {slots slots' : List (Option (Local Id Ptr))}
    (added : addStatic entry slots = some slots') :
    slots'.reduceOption.Perm (entry :: slots.reduceOption) := by
  induction slots generalizing slots' with
  | nil => cases added
  | cons slot slots ih =>
      cases slot with
      | none =>
          injection added with same
          rw [← same]
          exact .refl _
      | some other =>
          obtain ⟨rest, added', rfl⟩ := Option.map_eq_some_iff.mp added
          rw [List.reduceOption_cons_of_some, List.reduceOption_cons_of_some]
          exact ((ih added').cons other).trans (.swap entry other _)

/-- `removeLocal` takes the first entry of the thread out. -/
theorem locals_removeLocal (id : Id) (s : ThreadLocal Id Ptr) :
    (s.removeLocal id).2.locals = s.locals.eraseP (·.id = id) := by
  have spec := removeStatic_spec id s.staticLocals
  unfold removeLocal locals
  split
  case h_1 slots removed =>
    rw [removed] at spec
    obtain ⟨⟨entry, mem, isId⟩, erased⟩ := spec
    rw [List.eraseP_append_left (by simpa using isId) _ mem]
    exact congrArg (· ++ s.dynamicLocals.getD []) erased
  case h_2 absent =>
    rw [absent] at spec
    have apart : ∀ entry ∈ s.staticLocals.reduceOption, ¬ decide (entry.id = id) = true := by
      simpa using spec
    rw [List.eraseP_append_right _ apart]
    cases dynamic : s.dynamicLocals with
    | none => simp [dynamic]
    | some entries =>
        by_cases found : entries.any (·.id = id) = true
        · simp only [found, if_true, Option.getD_some]
        · have others : ∀ entry ∈ entries, ¬ decide (entry.id = id) = true :=
            fun entry mem isId => found (List.any_eq_true.mpr ⟨entry, mem, isId⟩)
          simp only [found, Bool.false_eq_true, if_false, dynamic, Option.getD_some,
            List.eraseP_of_forall_not others]

/-- `removeLocal` tells whether the thread had an entry. -/
theorem removeLocal_fst (id : Id) (s : ThreadLocal Id Ptr) :
    (s.removeLocal id).1 = true ↔ ∃ entry ∈ s.locals, entry.id = id := by
  have spec := removeStatic_spec id s.staticLocals
  unfold removeLocal locals
  split
  case h_1 slots removed =>
    rw [removed] at spec
    obtain ⟨⟨entry, mem, isId⟩, -⟩ := spec
    exact iff_of_true rfl ⟨entry, List.mem_append_left _ mem, isId⟩
  case h_2 absent =>
    rw [absent] at spec
    cases dynamic : s.dynamicLocals with
    | none =>
        refine iff_of_false Bool.false_ne_true ?_
        rintro ⟨entry, mem, isId⟩
        exact spec entry ((List.mem_append.mp mem).resolve_right List.not_mem_nil) isId
    | some entries =>
        have found : entries.any (·.id = id) = true ↔
            ∃ entry ∈ s.staticLocals.reduceOption ++ entries, entry.id = id := by
          rw [List.any_eq_true]
          constructor
          · rintro ⟨entry, mem, isId⟩
            exact ⟨entry, List.mem_append_right _ mem, of_decide_eq_true isId⟩
          · rintro ⟨entry, mem, isId⟩
            have dynamic := (List.mem_append.mp mem).resolve_left fun static =>
              spec entry static isId
            exact ⟨entry, dynamic, decide_eq_true isId⟩
        rw [Option.getD_some, ← found]
        dsimp only
        split
        case isTrue present => exact iff_of_true rfl present
        case isFalse missing => exact iff_of_false Bool.false_ne_true missing

omit [DecidableEq Id] in
theorem addLocal_fst (id : Id) (t : Option Ptr) (s : ThreadLocal Id Ptr) :
    (s.addLocal id t).1 = t.isSome := by
  cases t with
  | none => rfl
  | some ptr =>
      unfold addLocal
      dsimp only
      split <;> rfl

omit [DecidableEq Id] in
/-- `addLocal` puts the entry of a pointer that is not null somewhere. -/
theorem locals_addLocal (id : Id) (t : Option Ptr) (s : ThreadLocal Id Ptr) :
    (s.addLocal id t).2.locals.Perm (t.toList.map (Local.mk id) ++ s.locals) := by
  cases t with
  | none => exact .refl _
  | some ptr =>
      unfold addLocal
      dsimp only
      split
      case h_1 slots added => exact (addStatic_perm added).append_right _
      case h_2 =>
        change
          (s.staticLocals.reduceOption ++ (s.dynamicLocals.getD [] ++ [Local.mk id ptr])).Perm _
        rw [← List.append_assoc]
        exact List.perm_append_singleton _ _

omit [DecidableEq Id] in
theorem locals_clearAll (s : ThreadLocal Id Ptr) : s.clearAll.locals = [] := by
  change (s.staticLocals.map fun _ => (none : Option (Local Id Ptr))).reduceOption ++ [] = []
  rw [List.map_const', List.reduceOption_replicate_none, List.append_nil]

/-- Erasing the entry of a thread from a list that has at most one. -/
theorem mem_eraseP_iff {entries : List (Local Id Ptr)} (unique : (entries.map Local.id).Nodup)
    (id : Id) (entry : Local Id Ptr) :
    entry ∈ entries.eraseP (·.id = id) ↔ entry ∈ entries ∧ entry.id ≠ id := by
  induction entries with
  | nil => simp
  | cons first entries ih =>
      rw [List.map_cons, List.nodup_cons] at unique
      have apart : ∀ entry ∈ entries, entry.id ≠ first.id := fun entry mem same =>
        unique.1 (List.mem_map.mpr ⟨entry, mem, same⟩)
      by_cases same : first.id = id
      · subst same
        rw [List.eraseP_cons_of_pos (by simp)]
        constructor
        · exact fun mem => ⟨List.mem_cons_of_mem _ mem, apart entry mem⟩
        · rintro ⟨mem, differs⟩
          refine (List.mem_cons.mp mem).resolve_left fun here => ?_
          exact differs (congrArg Local.id here)
      · rw [List.eraseP_cons_of_neg (by simpa using same), List.mem_cons, ih unique.2,
          List.mem_cons]
        constructor
        · rintro (rfl | ⟨mem, differs⟩)
          · exact ⟨Or.inl rfl, same⟩
          · exact ⟨Or.inr mem, differs⟩
        · rintro ⟨rfl | mem, differs⟩
          · exact Or.inl rfl
          · exact Or.inr ⟨mem, differs⟩

theorem scan_eq_none_iff (id : Id) (slots : List (Option (Local Id Ptr))) :
    scan id slots = none ↔ ∀ entry ∈ slots.reduceOption, entry.id ≠ id := by
  induction slots with
  | nil => simp [scan]
  | cons slot slots ih =>
      cases slot with
      | none => exact ih
      | some entry =>
          rw [List.reduceOption_cons_of_some, List.forall_mem_cons, ← ih]
          by_cases same : entry.id = id
          · simp [scan, same]
          · simp [scan, same]

theorem mem_of_scan {id : Id} {slots : List (Option (Local Id Ptr))} {ptr : Ptr}
    (found : scan id slots = some ptr) : Local.mk id ptr ∈ slots.reduceOption := by
  induction slots with
  | nil => cases found
  | cons slot slots ih =>
      cases slot with
      | none => exact ih found
      | some entry =>
          rw [List.reduceOption_cons_of_some]
          by_cases same : entry.id = id
          · rcases entry with ⟨entryId, entryPtr⟩
            dsimp only at same
            subst same
            have here : entryPtr = ptr := by simpa [scan] using found
            rw [here]
            exact List.mem_cons_self
          · refine List.mem_cons_of_mem _ (ih ?_)
            simpa [scan, same] using found

/-- What `get` finds is an entry of the thread, and it finds one if there is one. -/
theorem get_spec (id : Id) (s : ThreadLocal Id Ptr) :
    (∀ ptr, s.get id = some ptr → ⟨id, ptr⟩ ∈ s.locals) ∧
      (s.get id = none → ∀ entry ∈ s.locals, entry.id ≠ id) := by
  unfold get locals
  cases static : scan id s.staticLocals with
  | some ptr =>
      refine ⟨fun ptr' same => ?_, nofun⟩
      cases same
      exact List.mem_append_left _ (mem_of_scan static)
  | none =>
      have absent := (scan_eq_none_iff id _).mp static
      cases s.dynamicLocals with
      | none =>
          refine ⟨fun _ => nofun, fun _ entry mem => ?_⟩
          exact absent entry ((List.mem_append.mp mem).resolve_right List.not_mem_nil)
      | some entries =>
          have all : (entries.map some).reduceOption = entries := by
            simp [List.reduceOption]
          dsimp only
          rw [scan_eq_none_iff, all]
          constructor
          · intro ptr found
            exact List.mem_append_right _ (all ▸ mem_of_scan found)
          · intro absent' entry mem
            rcases List.mem_append.mp mem with static | dynamic
            · exact absent entry static
            · exact absent' entry dynamic

/-- Without two entries of one thread, `get` is membership. -/
theorem get_eq_some_iff {s : ThreadLocal Id Ptr} (unique : s.Unique) (id : Id) (ptr : Ptr) :
    s.get id = some ptr ↔ ⟨id, ptr⟩ ∈ s.locals := by
  obtain ⟨sound, complete⟩ := s.get_spec id
  refine ⟨sound ptr, fun mem => ?_⟩
  cases found : s.get id with
  | none => exact (complete found _ mem rfl).elim
  | some other =>
      have same := List.inj_on_of_nodup_map unique mem (sound other found) rfl
      rw [(Local.mk.inj same).2]

/-! ## What the operations do to the map -/

theorem Unique.removeLocal {s : ThreadLocal Id Ptr} (unique : s.Unique) (id : Id) :
    (s.removeLocal id).2.Unique := by
  unfold Unique
  rw [locals_removeLocal]
  exact unique.sublist (List.eraseP_sublist.map _)

theorem Unique.reset {s : ThreadLocal Id Ptr} (unique : s.Unique) (id : Id) (t : Option Ptr) :
    (s.reset id t).1.Unique := by
  have entries := (locals_addLocal id t (s.removeLocal id).2).map Local.id
  have removed := unique.removeLocal id
  refine entries.nodup_iff.mpr ?_
  cases t with
  | none => exact removed
  | some ptr =>
      refine List.nodup_cons.mpr ⟨fun mem => ?_, removed⟩
      obtain ⟨entry, mem, same⟩ := List.mem_map.mp mem
      rw [locals_removeLocal] at mem
      exact ((mem_eraseP_iff unique id entry).mp mem).2 same

theorem Unique.clear {s : ThreadLocal Id Ptr} (unique : s.Unique) (id : Id) :
    (s.clear id).1.Unique :=
  unique.removeLocal id

omit [DecidableEq Id] in
theorem unique_clearAll (s : ThreadLocal Id Ptr) : s.clearAll.Unique := by
  unfold Unique
  rw [locals_clearAll]
  exact List.nodup_nil

theorem get_clear {s : ThreadLocal Id Ptr} (unique : s.Unique) (id other : Id) :
    (s.clear id).1.get other = if other = id then none else s.get other := by
  ext ptr
  rw [get_eq_some_iff (unique.clear id)]
  change _ ∈ (s.removeLocal id).2.locals ↔ _
  rw [locals_removeLocal, mem_eraseP_iff unique]
  by_cases same : other = id
  · simp [same]
  · rw [if_neg same, get_eq_some_iff unique]
    exact and_iff_left same

theorem get_reset {s : ThreadLocal Id Ptr} (unique : s.Unique) (id other : Id) (t : Option Ptr) :
    (s.reset id t).1.get other = if other = id then t else s.get other := by
  ext ptr
  rw [get_eq_some_iff (unique.reset id t)]
  change _ ∈ ((s.removeLocal id).2.addLocal id t).2.locals ↔ _
  rw [(locals_addLocal id t (s.removeLocal id).2).mem_iff, List.mem_append, locals_removeLocal,
    mem_eraseP_iff unique]
  by_cases same : other = id
  · subst same
    simp
  · rw [if_neg same, get_eq_some_iff unique]
    simp [same, Ne.symm same]

theorem get_clearAll (s : ThreadLocal Id Ptr) (id : Id) : s.clearAll.get id = none := by
  cases found : s.clearAll.get id with
  | none => rfl
  | some ptr =>
      have mem := (s.clearAll.get_spec id).1 ptr found
      rw [locals_clearAll] at mem
      exact (List.not_mem_nil mem).elim

/-! ## Runs -/

/-- A call by some thread. -/
inductive Call (Id Ptr : Type*) where
  | reset (caller : Id) (t : Option Ptr)
  | clear (id : Id)
  | clearAll
  deriving DecidableEq, Repr

/-- The locked scope of a call. -/
def Call.run : Call Id Ptr → ThreadLocal Id Ptr → ThreadLocal Id Ptr
  | .reset caller t, s => (s.reset caller t).1
  | .clear id, s => (s.clear id).1
  | .clearAll, s => s.clearAll

/-- The calls, by any threads, in the order of their locked scopes. -/
def runCalls (calls : List (Call Id Ptr)) (s : ThreadLocal Id Ptr) : ThreadLocal Id Ptr :=
  calls.foldl (fun s call => call.run s) s

/-- The pointer of the thread's most recent `reset`, unless its entry was cleared
since; the newest call comes first. -/
def heldBy (id : Id) : List (Call Id Ptr) → Option Ptr
  | [] => none
  | .reset caller t :: older => if caller = id then t else heldBy id older
  | .clear target :: older => if target = id then none else heldBy id older
  | .clearAll :: _ => none

omit [DecidableEq Id] in
theorem new_unique (mainThreadId : Id) : (new mainThreadId : ThreadLocal Id Ptr).Unique :=
  List.nodup_nil

theorem Unique.run {s : ThreadLocal Id Ptr} (unique : s.Unique) (call : Call Id Ptr) :
    (call.run s).Unique := by
  cases call with
  | reset caller t => exact unique.reset caller t
  | clear id => exact unique.clear id
  | clearAll => exact unique_clearAll s

theorem runCalls_append (calls : List (Call Id Ptr)) (call : Call Id Ptr)
    (s : ThreadLocal Id Ptr) : runCalls (calls ++ [call]) s = call.run (runCalls calls s) := by
  rw [runCalls, List.foldl_append]
  rfl

theorem runCalls_spec (mainThreadId : Id) (calls : List (Call Id Ptr)) :
    (runCalls calls (new mainThreadId)).Unique ∧
      ∀ id, (runCalls calls (new mainThreadId)).get id = heldBy id calls.reverse := by
  induction calls using List.reverseRecOn with
  | nil => exact ⟨new_unique mainThreadId, fun id => rfl⟩
  | append_singleton calls call ih =>
      obtain ⟨unique, held⟩ := ih
      rw [runCalls_append, List.reverse_append, List.reverse_singleton, List.singleton_append]
      refine ⟨unique.run call, fun id => ?_⟩
      cases call with
      | reset caller t =>
          change ((runCalls calls (new mainThreadId)).reset caller t).1.get id = _
          rw [get_reset unique, heldBy, held]
          simp only [eq_comm]
      | clear target =>
          change ((runCalls calls (new mainThreadId)).clear target).1.get id = _
          rw [get_clear unique, heldBy, held]
          simp only [eq_comm]
      | clearAll => exact get_clearAll _ id

/-- **`ThreadLocal` is a map from thread ids to pointers.** After any calls by
any threads no thread has two entries, a thread gets the pointer of its most
recent `reset` unless it was cleared since, and a further `reset` or `clear`
changes nothing for any other thread. -/
theorem get_runCalls (mainThreadId : Id) (calls : List (Call Id Ptr)) :
    let s := runCalls calls (new mainThreadId)
    (∀ id, (s.locals.filter (·.id = id)).length ≤ 1) ∧
      (∀ id, s.get id = heldBy id calls.reverse) ∧
      (∀ caller t id, id ≠ caller → (s.reset caller t).1.get id = s.get id) ∧
      ∀ target id, id ≠ target → (s.clear target).1.get id = s.get id := by
  obtain ⟨unique, held⟩ := runCalls_spec mainThreadId calls
  refine ⟨fun id => ?_, held, fun caller t id other => ?_, fun target id other => ?_⟩
  · have once := List.nodup_iff_count_le_one.mp unique id
    rw [List.count_eq_countP, List.countP_map, List.countP_eq_length_filter] at once
    exact once
  · rw [get_reset unique, if_neg other]
  · rw [get_clear unique, if_neg other]

end ThreadLocal

end WindTerm

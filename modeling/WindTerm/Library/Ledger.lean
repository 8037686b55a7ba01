import Mathlib.Data.List.Perm.Basic
import Mathlib.Data.List.Count
import Mathlib.Data.List.Nodup

/-!
# Things acquired and released

A `Ledger` has what was acquired and what was released. It is `Settled` when each
thing acquired was released once and nothing else was, and `Balanced` for the
things still held when releasing those would settle it (`settled_iff`). The
rules say how a balance changes when something is acquired or released;
`perm_turn_iff` is for a turn that releases all that is held and then may hold
on to some of it.
-/

namespace WindTerm.Library

/-- What was acquired and what was released, in order. -/
structure Ledger (α : Type*) where
  acquired : List α
  released : List α

variable {α : Type*}

namespace Ledger

def empty : Ledger α := ⟨[], []⟩

def acquire (a : α) (l : Ledger α) : Ledger α := { l with acquired := l.acquired ++ [a] }

def release (a : α) (l : Ledger α) : Ledger α := { l with released := l.released ++ [a] }

def releaseAll (as : List α) (l : Ledger α) : Ledger α := { l with released := l.released ++ as }

/-- Everything acquired was released once or is held, and nothing else is. -/
def Balanced (l : Ledger α) (held : List α) : Prop := l.acquired.Perm (l.released ++ held)

/-- Everything acquired was released once, and nothing else was released. -/
def Settled [DecidableEq α] (l : Ledger α) : Prop :=
  (∀ a ∈ l.acquired, l.released.count a = 1) ∧ ∀ a ∈ l.released, a ∈ l.acquired

instance [DecidableEq α] (l : Ledger α) : Decidable l.Settled :=
  inferInstanceAs (Decidable (_ ∧ _))

@[simp] theorem releaseAll_nil (l : Ledger α) : l.releaseAll [] = l := by
  simp [releaseAll]

theorem releaseAll_cons (a : α) (as : List α) (l : Ledger α) :
    l.releaseAll (a :: as) = (l.release a).releaseAll as := by
  simp [releaseAll, release]

theorem releaseAll_append (as bs : List α) (l : Ledger α) :
    l.releaseAll (as ++ bs) = (l.releaseAll as).releaseAll bs := by
  simp [releaseAll]

variable {l : Ledger α} {held held' : List α} {a : α}

theorem Balanced.acquire (balanced : l.Balanced held) (a : α) :
    (l.acquire a).Balanced (a :: held) := by
  have perm : (l.acquired ++ [a]).Perm (l.released ++ held ++ [a]) := balanced.append_right [a]
  rw [List.append_assoc] at perm
  exact perm.trans ((List.perm_append_singleton a held).append_left l.released)

theorem Balanced.perm (balanced : l.Balanced held) (same : held.Perm held') :
    l.Balanced held' :=
  List.Perm.trans balanced (same.append_left l.released)

theorem balanced_releaseAll_iff (as : List α) :
    (l.releaseAll as).Balanced held ↔ l.Balanced (as ++ held) := by
  rw [Balanced, Balanced, releaseAll, List.append_assoc]

theorem settled_iff [DecidableEq α] (once : l.acquired.Nodup) :
    l.Settled ↔ l.Balanced [] := by
  rw [Balanced, List.append_nil, List.perm_iff_count]
  constructor
  · rintro ⟨each, only⟩ a
    rcases Decidable.em (a ∈ l.acquired) with mem | absent
    · rw [each a mem, List.count_eq_one_of_mem once mem]
    · rw [List.count_eq_zero_of_not_mem absent,
        List.count_eq_zero_of_not_mem fun mem => absent (only a mem)]
  · intro counts
    refine ⟨fun a mem => ?_, fun a mem => ?_⟩
    · rw [← counts a, List.count_eq_one_of_mem once mem]
    · rw [← List.count_pos_iff, counts a]
      exact List.count_pos_iff.mpr mem

end Ledger

/-- A turn acquires `new` and leaves `stale` and `stored` to be released, of
which `stale` is to be released already. What is balanced behind it was balanced
before, nothing is stale, and what is stored is what is new. -/
theorem perm_turn_iff [DecidableEq α] {acquired released new stale stored : List α}
    (once : acquired.Nodup) (again : stale ⊆ released)
    (freshAcquired : ∀ a ∈ new, a ∉ acquired) (freshReleased : ∀ a ∈ new, a ∉ released)
    (other : ∀ a ∈ stored, a ∉ acquired) :
    (acquired ++ new).Perm (released ++ (stale ++ stored)) ↔
      acquired.Perm released ∧ stale = [] ∧ new.Perm stored := by
  constructor
  · intro whole
    have counts (a : α) : acquired.count a + new.count a =
        released.count a + (stale.count a + stored.count a) := by
      simpa only [List.count_append] using whole.count_eq a
    have old (a : α) : acquired.count a = released.count a + stale.count a ∧
        new.count a = stored.count a := by
      have sum := counts a
      rcases Decidable.em (a ∈ new) with mem | notNew
      · have notAcquired := List.count_eq_zero_of_not_mem (freshAcquired a mem)
        have notReleased := List.count_eq_zero_of_not_mem (freshReleased a mem)
        have notStale := List.count_eq_zero_of_not_mem
          fun stales => freshReleased a mem (again stales)
        omega
      · have none := List.count_eq_zero_of_not_mem notNew
        rcases Decidable.em (a ∈ stored) with mem | notStored
        · have notAcquired := List.count_eq_zero_of_not_mem (other a mem)
          have some := List.count_pos_iff.mpr mem
          omega
        · have notHere := List.count_eq_zero_of_not_mem notStored
          omega
    have nothing : stale = [] := by
      rw [List.eq_nil_iff_forall_not_mem]
      intro a mem
      have twice := List.count_pos_iff.mpr (again mem)
      have thrice := List.count_pos_iff.mpr mem
      have atMost := List.nodup_iff_count_le_one.mp once a
      have sum := (old a).1
      omega
    subst nothing
    refine ⟨List.perm_iff_count.mpr fun a => ?_, rfl, List.perm_iff_count.mpr fun a => (old a).2⟩
    simpa using (old a).1
  · rintro ⟨balanced, rfl, same⟩
    exact balanced.append same

end WindTerm.Library

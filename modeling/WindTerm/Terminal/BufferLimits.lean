import WindTerm.Library.Conservation
import WindTerm.Terminal.Frames

/-!
# The size limit of the sync buffer

A write that finds the buffer full is rejected (`write_rejected`). A write that fills the buffer
empties it again, so what makes a buffer full for a write is a smaller limit set before it
(`below_after_writes_iff`). An item larger than the limit is cut to half the
limit without a signal (`announces_loss_iff`).
-/

namespace WindTerm

open Library

namespace SynchronizedBuffer

/-- The buffer is below its maximal size. -/
def Below (b : SynchronizedBuffer) : Prop := b.currentSize < b.maxBufferSize

instance (b : SynchronizedBuffer) : Decidable b.Below := inferInstanceAs (Decidable (_ < _))

/-- A buffer that is not due to be flushed is below its maximal size. -/
theorem below_of_not_due {b : SynchronizedBuffer} {now : Int64} (due : b.needsFlush now = false) :
    b.Below := by
  rcases Nat.lt_or_ge b.currentSize b.maxBufferSize with below | full
  · exact below
  · have flushes : b.needsFlush now = true := if_pos full
    exact Bool.noConfusion (due.symm.trans flushes)

/-- The data of some items, one after the other. -/
def bytes (items : List BufferItem) : QByteArray := items.flatMap (·.data)

theorem bytes_append (items items' : List BufferItem) :
    bytes (items ++ items') = bytes items ++ bytes items' := List.flatMap_append

theorem bytes_singleton (item : BufferItem) : bytes [item] = item.data := List.append_nil _

/-- The data a signal delivers. -/
def Signal.delivered : Signal → QByteArray
  | .dataReady items => bytes items
  | _ => []

/-- The item an operation writes. -/
def Operation.written : Operation → Option BufferItem
  | .write item => some item
  | .writeData data => some { type := .textData, data := data }
  | _ => none

/-- The operation sets no limit but a positive one. -/
def Operation.Positive : Operation → Prop
  | .setMaxBufferSize maxSize => 0 < maxSize
  | _ => True

section

variable [Platform]

theorem Operation.run_written {o : Operation} {item : BufferItem} (writes : o.written = some item)
    (now : Int64) (b : SynchronizedBuffer) : o.run now b = (b.write now item).2 := by
  cases o
  case write | writeData =>
      cases writes
      rfl
  all_goals cases writes

/-! ## Full buffers -/

/-- The limit is positive, and the buffer tidy. -/
structure Limited (b : SynchronizedBuffer) : Prop where
  tidy : b.Tidy
  positive : 0 < b.maxBufferSize

theorem Limited.new : Limited {} := ⟨.new, by decide⟩

theorem Operation.run_limited {o : Operation} (positive : o.Positive) (now : Int64)
    {b : SynchronizedBuffer} (limited : Limited b) : Limited (o.run now b).1 := by
  refine ⟨o.run_tidy now limited.tidy, ?_⟩
  cases o with
  | setSynchronizedMode enabled =>
      exact (setSynchronizedMode_maxBufferSize now enabled b).symm ▸ limited.positive
  | write item => exact (write_settings now item b).2.1.symm ▸ limited.positive
  | writeData data => exact (write_settings now _ b).2.1.symm ▸ limited.positive
  | flush => exact (flush_settings b).2.1.symm ▸ limited.positive
  | setMaxBufferSize maxSize => exact positive
  | clear => exact limited.positive
  | isSynchronized | bufferSize | itemCount | maxBufferSize | needsFlush => exact limited.positive

theorem reached_limited {calls : List (Int64 × Operation)}
    (positive : ∀ call ∈ calls, call.2.Positive) : Limited (reached calls) := by
  have run (b : SynchronizedBuffer) (limited : Limited b) :
      Limited (feed (fun call => call.2.run call.1) calls b).1 := by
    induction calls generalizing b with
    | nil => exact limited
    | cons call calls ih =>
        obtain ⟨first, rest⟩ := List.forall_mem_cons.mp positive
        exact ih rest _ (call.2.run_limited first call.1 limited)
  exact run {} .new

/-- Behind a write the buffer is below its limit exactly when it was before. -/
theorem Limited.below_after_write_iff {b : SynchronizedBuffer} (limited : Limited b) (now : Int64)
    (item : BufferItem) : (b.write now item).2.1.Below ↔ b.Below := by
  cases sync : b.synchronizedMode with
  | false => rw [write_normal sync]
  | true =>
      have cases := write_cases sync now item
      generalize b.write now item = r at cases ⊢
      rcases cases with _ | ⟨room, due⟩ | ⟨room, -⟩
      · exact Iff.rfl
      · -- What is left in the buffer without a flush is below the limit.
        exact iff_of_true (below_of_not_due due) room
      · exact iff_of_true limited.positive room

/-- **No starvation.** In a run that sets positive limits, the buffer is below its limit after
every write exactly when it is before every write. -/
theorem below_after_writes_iff (calls : List (Int64 × Operation))
    (positive : ∀ call ∈ calls, call.2.Positive) :
    (∀ before call after item, calls = before ++ call :: after → call.2.written = some item →
        (call.2.run call.1 (reached before)).1.Below) ↔
      ∀ before call after item, calls = before ++ call :: after → call.2.written = some item →
        (reached before).Below := by
  have each (before : List (Int64 × Operation)) (call : Int64 × Operation)
      (after : List (Int64 × Operation)) (item : BufferItem)
      (split : calls = before ++ call :: after) (writes : call.2.written = some item) :
      (call.2.run call.1 (reached before)).1.Below ↔ (reached before).Below := by
    have limited : Limited (reached before) :=
      reached_limited fun c mem => positive c (split ▸ List.mem_append_left _ mem)
    rw [Operation.run_written writes]
    exact limited.below_after_write_iff call.1 item
  constructor
  · intro below before call after item split writes
    exact (each before call after item split writes).mp (below before call after item split writes)
  · intro below before call after item split writes
    exact (each before call after item split writes).mpr (below before call after item split writes)

omit [Platform] in
/-- Once the limit is set below what is kept, the next write leaves the buffer full. -/
theorem full_after_resize :
    letI := Platform.qt6
    let before := [(0, .setSynchronizedMode true), (0, .write {}), (0, .setMaxBufferSize 10)]
    (∀ call ∈ before, call.2.Positive) ∧
      ¬ (Operation.run 0 (.write {}) (reached before)).1.Below := by
  let _ := Platform.qt6
  refine ⟨?_, by decide⟩
  simp [Operation.Positive]

omit [Platform] in
/-- The first write of a new buffer. -/
theorem below_after_first_write :
    letI := Platform.qt6
    (Operation.run 0 (.write {}) (reached [])).1.Below := by
  let _ := Platform.qt6
  have below := (below_after_writes_iff [(0, .write {})] (by simp [Operation.Positive])).mpr
  refine below (fun before call after item split _ => ?_) [] (0, .write {}) [] {} rfl rfl
  have first : before = [] := by
    rcases before with _ | ⟨c, before⟩
    · rfl
    · simp at split
  rw [first]
  decide

/-! ## Items larger than the limit -/

/-- The data kept before a write and its item's are delivered and kept after it, but for what a
full buffer rejects and what the limit cuts off. -/
theorem write_bytes {b : SynchronizedBuffer} (sync : b.synchronizedMode = true) (now : Int64)
    (item : BufferItem) :
    (acts (b.write now item).2.2).flatMap Signal.delivered ++ bytes (b.write now item).2.1.buffer =
      bytes b.buffer ++ if b.Below then (b.storedItem item).data else [] := by
  have cases := write_cases sync now item
  generalize b.write now item = r at cases ⊢
  rcases cases with full | ⟨room, -⟩ | ⟨room, -⟩
  · have notBelow : ¬ b.Below := Nat.not_lt.mpr full
    rw [if_neg notBelow, List.append_nil]
    rfl
  · have below : b.Below := room
    rw [if_pos below, ← bytes_singleton (b.storedItem item), ← bytes_append]
    rfl
  · have below : b.Below := room
    rw [if_pos below, ← bytes_singleton (b.storedItem item), ← bytes_append]
    exact (List.append_nil _).trans (List.append_nil _)

/-- A write announces an overflow when the buffer is full, and only then. -/
theorem write_overflow_iff {b : SynchronizedBuffer} (sync : b.synchronizedMode = true)
    (now : Int64) (item : BufferItem) :
    .bufferOverflow ∈ acts (b.write now item).2.2 ↔ ¬ b.Below := by
  have cases := write_cases sync now item
  generalize b.write now item = r at cases ⊢
  rcases cases with full | ⟨room, -⟩ | ⟨room, -⟩
  · exact iff_of_true (List.mem_singleton_self _) (Nat.not_lt.mpr full)
  · exact iff_of_false List.not_mem_nil (not_not_intro room)
  · refine iff_of_false ?_ (not_not_intro room)
    change ¬ _ ∈ [Signal.dataReady _]
    simp

/-- What is stored of an item is all of its data exactly when the item or at least its data fits
the limit. -/
theorem storedItem_data_iff (b : SynchronizedBuffer) (item : BufferItem) :
    (b.storedItem item).data = item.data ↔
      itemSize item ≤ b.maxBufferSize ∨ item.data.length ≤ b.maxBufferSize / 2 := by
  unfold storedItem
  rcases Nat.lt_or_ge b.maxBufferSize (itemSize item) with larger | fits
  · rw [if_pos larger, or_iff_right (Nat.not_le.mpr larger)]
    exact List.take_eq_self_iff _
  · rw [if_neg (Nat.not_lt.mpr fits)]
    exact iff_of_true rfl (Or.inl fits)

/-- **No silent loss.** A write in synchronised mode that loses data of its item, neither
delivering it nor keeping it, announces an overflow exactly if the buffer is full, or the item
fits the limit, or its data fits half the limit. -/
theorem announces_loss_iff (b : SynchronizedBuffer) (sync : b.synchronizedMode = true)
    (now : Int64) (item : BufferItem) :
    let r := b.write now item
    ((acts r.2.2).flatMap Signal.delivered ++ bytes r.2.1.buffer ≠ bytes b.buffer ++ item.data →
        .bufferOverflow ∈ acts r.2.2) ↔
      b.maxBufferSize ≤ b.currentSize ∨ itemSize item ≤ b.maxBufferSize ∨
        item.data.length ≤ b.maxBufferSize / 2 := by
  intro r
  rw [write_bytes sync now item, write_overflow_iff sync now item, ← storedItem_data_iff]
  rcases Decidable.em b.Below with room | full
  · have notFull : ¬ b.maxBufferSize ≤ b.currentSize := Nat.not_le.mpr room
    rw [if_pos room, or_iff_right notFull, Ne, List.append_right_inj]
    constructor
    · intro announces
      exact Decidable.byContradiction fun lost => announces lost room
    · intro whole lost
      exact absurd whole lost
  · have isFull : b.maxBufferSize ≤ b.currentSize := Nat.not_lt.mp full
    exact iff_of_true (fun _ => full) (Or.inl isFull)

omit [Platform] in
/-- Thirty bytes against a limit of fifty: five are lost and nothing is announced. -/
theorem loses_silently :
    letI := Platform.qt6
    let b := reached [(0, .setMaxBufferSize 50), (0, .setSynchronizedMode true)]
    let r := b.write 0 { data := List.replicate 30 65 }
    b.synchronizedMode = true ∧
      ¬ ((acts r.2.2).flatMap Signal.delivered ++ bytes r.2.1.buffer ≠
          bytes b.buffer ++ List.replicate 30 65 → .bufferOverflow ∈ acts r.2.2) := by
  decide

omit [Platform] in
/-- A full buffer announces what it rejects. -/
theorem announces_loss_full :
    letI := Platform.qt6
    let b := reached [(0, .setSynchronizedMode true), (0, .write {}), (0, .setMaxBufferSize 10)]
    .bufferOverflow ∈ acts (b.write 0 { data := [65] }).2.2 := by
  intro b
  have announces := (@announces_loss_iff Platform.qt6 b rfl 0 { data := [65] }).mpr
  exact announces (Or.inl (by decide)) (by decide)

end

end SynchronizedBuffer

end WindTerm

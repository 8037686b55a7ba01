import WindTerm.Terminal.SynchronizedBuffer

/-!
# What the sync buffer does

In normal mode `write` delivers its item at once and keeps the state
(`write_normal`); in synchronised mode, within the limits of size and time, it
keeps the item and delivers nothing (`write_within`). `Tidy` is the invariant
of the buffer: nothing is kept in normal mode, and the size is that of the
items kept.
-/

namespace WindTerm

open Library

namespace SynchronizedBuffer

/-- At `now` the buffer has not been synchronised for too long. -/
def InTime (now : Int64) (b : SynchronizedBuffer) : Prop :=
  0 < b.syncStartTime → now.toUInt64 - b.syncStartTime < syncTimeoutMs

theorem needsFlush_eq_false {now : Int64} {b : SynchronizedBuffer}
    (below : b.currentSize < b.maxBufferSize) (inTime : InTime now b) :
    b.needsFlush now = false := by
  unfold needsFlush
  rw [if_neg (Nat.not_le.mpr below)]
  by_cases started : 0 < b.syncStartTime
  · rw [if_pos started, decide_eq_false_iff_not, UInt64.not_le]
    exact inTime started
  · rw [if_neg started]

/-- `flush` delivers what is kept. -/
theorem flush_of_ne {b : SynchronizedBuffer} (some : b.buffer ≠ []) :
    b.flush = ({ b with buffer := [], currentSize := 0 },
      critical .syncBuffer [] ++ [.act (.dataReady b.buffer)]) := by
  unfold SynchronizedBuffer.flush flushSection
  rw [if_neg some]
  exact congrArg (Prod.mk _) (congrArg _ (if_neg some))

theorem flush_of_eq {b : SynchronizedBuffer} (empty : b.buffer = []) :
    b.flush = (b, critical .syncBuffer []) := by
  unfold SynchronizedBuffer.flush flushSection
  rw [if_pos empty]
  rfl

/-- `flush` leaves nothing in the buffer. -/
theorem flush_buffer (b : SynchronizedBuffer) : b.flush.1.buffer = [] := by
  rcases Decidable.em (b.buffer = []) with empty | some
  · rw [flush_of_eq empty]
    exact empty
  · rw [flush_of_ne some]

/-- A flush changes the items and their size only. -/
theorem flush_settings (b : SynchronizedBuffer) :
    b.flush.1.synchronizedMode = b.synchronizedMode ∧
      b.flush.1.maxBufferSize = b.maxBufferSize ∧ b.flush.1.syncStartTime = b.syncStartTime := by
  rcases Decidable.em (b.buffer = []) with empty | some
  · rw [flush_of_eq empty]
    exact ⟨rfl, rfl, rfl⟩
  · rw [flush_of_ne some]
    exact ⟨rfl, rfl, rfl⟩

theorem flush_synchronizedMode (b : SynchronizedBuffer) :
    b.flush.1.synchronizedMode = b.synchronizedMode := (flush_settings b).1

/-- The signals of a flush. -/
theorem flush_signals (b : SynchronizedBuffer) :
    acts b.flush.2 = if b.buffer = [] then [] else [.dataReady b.buffer] := by
  rcases Decidable.em (b.buffer = []) with empty | some
  · rw [flush_of_eq empty, if_pos empty]
    rfl
  · rw [flush_of_ne some, if_neg some]
    rfl

theorem setSynchronizedMode_same {b : SynchronizedBuffer} {on : Bool}
    (same : b.synchronizedMode = on) (now : Int64) :
    (b.setSynchronizedMode now on).2 = (b, critical .syncBuffer []) := by
  simp [setSynchronizedMode, setSynchronizedModeSection, same]

/-- Switching on starts the clock. -/
theorem setSynchronizedMode_on {b : SynchronizedBuffer} (normal : b.synchronizedMode = false)
    (now : Int64) :
    (b.setSynchronizedMode now true).2 =
      ({ b with synchronizedMode := true, syncStartTime := now.toUInt64 },
        critical .syncBuffer [] ++ [.act (.synchronizedModeChanged true)]) := by
  simp [setSynchronizedMode, setSynchronizedModeSection, normal, Traced.andThen]

/-- The buffer with the mode switched off, before it is flushed. -/
def switchedOff (b : SynchronizedBuffer) : SynchronizedBuffer :=
  { b with synchronizedMode := false, syncStartTime := 0 }

/-- Switching off flushes. -/
theorem setSynchronizedMode_leave {b : SynchronizedBuffer} (sync : b.synchronizedMode = true)
    (now : Int64) :
    (b.setSynchronizedMode now false).2 = (b.switchedOff.flush.1,
      critical .syncBuffer [] ++ [.act (.synchronizedModeChanged false)] ++
        b.switchedOff.flush.2) := by
  simp [setSynchronizedMode, setSynchronizedModeSection, sync, Traced.andThen, switchedOff]

/-- What `setSynchronizedMode` can do. -/
inductive Switches (now : Int64) (b : SynchronizedBuffer) : Bool → Step → Prop
  | same {on : Bool} : b.synchronizedMode = on → Switches now b on (b, critical .syncBuffer [])
  | on : b.synchronizedMode = false →
      Switches now b true ({ b with synchronizedMode := true, syncStartTime := now.toUInt64 },
        critical .syncBuffer [] ++ [.act (.synchronizedModeChanged true)])
  | off : b.synchronizedMode = true →
      Switches now b false (b.switchedOff.flush.1,
        critical .syncBuffer [] ++ [.act (.synchronizedModeChanged false)] ++
          b.switchedOff.flush.2)

theorem setSynchronizedMode_cases (now : Int64) (on : Bool) (b : SynchronizedBuffer) :
    Switches now b on (b.setSynchronizedMode now on).2 := by
  rcases Decidable.em (b.synchronizedMode = on) with same | other
  · rw [setSynchronizedMode_same same]
    exact .same same
  · cases on with
    | true =>
        have normal : b.synchronizedMode = false := Bool.eq_false_iff.mpr other
        rw [setSynchronizedMode_on normal]
        exact .on normal
    | false =>
        have sync : b.synchronizedMode = true := Bool.not_eq_false _ ▸ other
        rw [setSynchronizedMode_leave sync]
        exact .off sync

theorem setSynchronizedMode_mode (now : Int64) (on : Bool) (b : SynchronizedBuffer) :
    (b.setSynchronizedMode now on).2.1.synchronizedMode = on := by
  have cases := setSynchronizedMode_cases now on b
  generalize (b.setSynchronizedMode now on).2 = r at cases ⊢
  cases cases with
  | same same => exact same
  | on => rfl
  | off => exact flush_synchronizedMode b.switchedOff

/-- Switching the mode keeps the limit. -/
theorem setSynchronizedMode_maxBufferSize (now : Int64) (on : Bool) (b : SynchronizedBuffer) :
    (b.setSynchronizedMode now on).2.1.maxBufferSize = b.maxBufferSize := by
  have cases := setSynchronizedMode_cases now on b
  generalize (b.setSynchronizedMode now on).2 = r at cases ⊢
  cases cases with
  | same => rfl
  | on => rfl
  | off => exact (flush_settings b.switchedOff).2.1

/-- Switching off delivers what is kept. -/
theorem setSynchronizedMode_off {b : SynchronizedBuffer} (sync : b.synchronizedMode = true)
    (now : Int64) :
    let r := (b.setSynchronizedMode now false).2
    r.1.buffer = [] ∧ r.1.currentSize ≤ b.currentSize ∧ r.1.maxBufferSize = b.maxBufferSize ∧
      acts r.2 = .synchronizedModeChanged false ::
        if b.buffer = [] then [] else [.dataReady b.buffer] := by
  intro r
  have left : r = _ := setSynchronizedMode_leave sync now
  have smaller : b.switchedOff.flush.1.currentSize ≤ b.currentSize := by
    rcases Decidable.em (b.switchedOff.buffer = []) with empty | some
    · rw [flush_of_eq empty]
      exact Nat.le_refl _
    · rw [flush_of_ne some]
      exact Nat.zero_le _
  rw [left]
  refine ⟨flush_buffer _, smaller, (flush_settings _).2.1, ?_⟩
  rw [acts_append, flush_signals]
  rfl

/-! ## The lock -/

theorem flush_clean (b : SynchronizedBuffer) : Clean {.syncBuffer} b.flush.2 := by
  rcases Decidable.em (b.buffer = []) with empty | some
  · rw [flush_of_eq empty]
    exact .scope_nil _
  · rw [flush_of_ne some]
    exact (Clean.scope_nil _).append ((Clean.nil _).act _)

theorem setSynchronizedMode_clean (now : Int64) (on : Bool) (b : SynchronizedBuffer) :
    Clean {.syncBuffer} (b.setSynchronizedMode now on).2.2 := by
  have cases := setSynchronizedMode_cases now on b
  generalize (b.setSynchronizedMode now on).2 = r at cases ⊢
  have announced : Clean {Mutex.syncBuffer}
      (critical .syncBuffer [] ++ [.act (Signal.synchronizedModeChanged on)]) :=
    (Clean.scope_nil _).append ((Clean.nil _).act _)
  cases cases with
  | same => exact .scope_nil _
  | on => exact announced
  | off => exact announced.append (flush_clean _)

section

variable [Platform]

/-- The signals of `write` come from inside its lock; the flush comes after. -/
theorem write_clean (now : Int64) (item : BufferItem) (b : SynchronizedBuffer) :
    Clean {.syncBuffer} (b.write now item).2.2 := by
  unfold SynchronizedBuffer.write
  dsimp only
  split
  · exact .scope _ _
  · exact .scope _ _
  · exact .scope _ _
  · exact (Clean.scope _ _).append (flush_clean _)

/-! ## Normal and synchronised mode -/

theorem write_normal {b : SynchronizedBuffer} (normal : b.synchronizedMode = false) (now : Int64)
    (item : BufferItem) :
    b.write now item = (true, b, critical .syncBuffer [.act (.dataReady [item])]) := by
  simp [write, writeSection, normal]

/-- The item leaves the buffer below its maximal size. -/
def Fits (item : BufferItem) (b : SynchronizedBuffer) : Prop :=
  b.currentSize + itemSize item < b.maxBufferSize

/-- The buffer with the item kept. -/
def keep (item : BufferItem) (b : SynchronizedBuffer) : SynchronizedBuffer :=
  { b with buffer := b.buffer ++ [item], currentSize := b.currentSize + itemSize item }

theorem appendItem_full {b : SynchronizedBuffer} (full : b.maxBufferSize ≤ b.currentSize)
    (item : BufferItem) : b.appendItem item = (false, b, [.bufferOverflow]) := by
  unfold appendItem
  rw [if_pos full]

theorem appendItem_room {b : SynchronizedBuffer} (room : b.currentSize < b.maxBufferSize)
    (item : BufferItem) : b.appendItem item = (true, b.keep (b.storedItem item), []) := by
  unfold appendItem
  rw [if_neg (Nat.not_le.mpr room)]
  rfl

/-- What `write` can do in synchronised mode. -/
inductive Writes (now : Int64) (item : BufferItem) (b : SynchronizedBuffer) : Bool × Step → Prop
  | rejected : b.maxBufferSize ≤ b.currentSize →
      Writes now item b (false, b, critical .syncBuffer [.act .bufferOverflow])
  | kept : b.currentSize < b.maxBufferSize →
      (b.keep (b.storedItem item)).needsFlush now = false →
      Writes now item b (true, b.keep (b.storedItem item), critical .syncBuffer [])
  | flushed : b.currentSize < b.maxBufferSize →
      (b.keep (b.storedItem item)).needsFlush now = true →
      Writes now item b (true, { b with buffer := [], currentSize := 0 },
        critical .syncBuffer [] ++ (critical .syncBuffer [] ++
          [.act (.dataReady (b.buffer ++ [b.storedItem item]))]))

theorem write_cases {b : SynchronizedBuffer} (sync : b.synchronizedMode = true) (now : Int64)
    (item : BufferItem) : Writes now item b (b.write now item) := by
  unfold SynchronizedBuffer.write
  rcases Nat.lt_or_ge b.currentSize b.maxBufferSize with room | full
  · cases due : (b.keep (b.storedItem item)).needsFlush now with
    | false =>
        have inside : b.writeSection now item = (.kept, b.keep (b.storedItem item), []) := by
          simp [writeSection, sync, appendItem_room room, due]
        rw [inside]
        exact .kept room due
    | true =>
        have inside : b.writeSection now item = (.flushNeeded, b.keep (b.storedItem item), []) := by
          simp [writeSection, sync, appendItem_room room, due]
        have some : (b.keep (b.storedItem item)).buffer ≠ [] :=
          List.append_ne_nil_of_right_ne_nil _ (List.cons_ne_nil _ _)
        rw [inside]
        dsimp only
        rw [Traced.andThen, flush_of_ne some]
        exact .flushed room due
  · have inside : b.writeSection now item = (.rejected, b, [.bufferOverflow]) := by
      simp [writeSection, sync, appendItem_full full]
    rw [inside]
    exact .rejected full

theorem storedItem_fits {b : SynchronizedBuffer} {item : BufferItem}
    (fits : itemSize item ≤ b.maxBufferSize) : b.storedItem item = item := by
  unfold storedItem
  rw [if_neg (Nat.not_lt.mpr fits)]

theorem write_within {b : SynchronizedBuffer} {now : Int64} {item : BufferItem}
    (sync : b.synchronizedMode = true) (fits : Fits item b) (inTime : InTime now b) :
    b.write now item = (true, b.keep item, critical .syncBuffer []) := by
  unfold Fits at fits
  have whole : b.storedItem item = item := storedItem_fits (by omega)
  have kept : (b.keep item).needsFlush now = false := needsFlush_eq_false fits inTime
  have cases := write_cases sync now item
  generalize b.write now item = r at cases ⊢
  rcases cases with full | ⟨-, -⟩ | ⟨-, due⟩
  · omega
  · rw [whole]
  · rw [whole, kept] at due
    exact Bool.noConfusion due

/-- Nothing is kept in normal mode, and the size is that of the items. -/
structure Tidy (b : SynchronizedBuffer) : Prop where
  empty : b.synchronizedMode = false → b.buffer = []
  size : b.currentSize = (b.buffer.map itemSize).sum

theorem Tidy.new : Tidy {} := ⟨fun _ => rfl, rfl⟩

/-- Flushed, the buffer is tidy in either mode. -/
theorem flush_tidy {b : SynchronizedBuffer}
    (size : b.currentSize = (b.buffer.map itemSize).sum) : b.flush.1.Tidy := by
  rcases Decidable.em (b.buffer = []) with empty | some
  · rw [flush_of_eq empty]
    exact ⟨fun _ => empty, size⟩
  · rw [flush_of_ne some]
    exact ⟨fun _ => rfl, rfl⟩

theorem Tidy.flush {b : SynchronizedBuffer} (tidy : b.Tidy) : b.flush.1.Tidy :=
  flush_tidy tidy.size

theorem Tidy.clear {b : SynchronizedBuffer} (_ : b.Tidy) : b.clear.1.Tidy := ⟨fun _ => rfl, rfl⟩

theorem Tidy.setMaxBufferSize {b : SynchronizedBuffer} (tidy : b.Tidy) (maxSize : Nat) :
    (b.setMaxBufferSize maxSize).1.Tidy := ⟨tidy.empty, tidy.size⟩

theorem Tidy.setSynchronizedMode {b : SynchronizedBuffer} (tidy : b.Tidy) (now : Int64)
    (on : Bool) : (b.setSynchronizedMode now on).2.1.Tidy := by
  have cases := setSynchronizedMode_cases now on b
  generalize (b.setSynchronizedMode now on).2 = r at cases ⊢
  cases cases with
  | same => exact tidy
  | on => exact ⟨fun off => Bool.noConfusion off, tidy.size⟩
  | off =>
      have size : b.switchedOff.currentSize = (b.switchedOff.buffer.map itemSize).sum := tidy.size
      exact flush_tidy size

/-- A write changes the items and their size only. -/
theorem write_settings (now : Int64) (item : BufferItem) (b : SynchronizedBuffer) :
    (b.write now item).2.1.synchronizedMode = b.synchronizedMode ∧
      (b.write now item).2.1.maxBufferSize = b.maxBufferSize ∧
      (b.write now item).2.1.syncStartTime = b.syncStartTime := by
  rcases Bool.eq_false_or_eq_true b.synchronizedMode with sync | normal
  · have cases := write_cases sync now item
    generalize b.write now item = r at cases ⊢
    rcases cases with _ | _ | _
    · exact ⟨rfl, rfl, rfl⟩
    · exact ⟨rfl, rfl, rfl⟩
    · exact ⟨rfl, rfl, rfl⟩
  · rw [write_normal normal]
    exact ⟨rfl, rfl, rfl⟩

/-- `write` does not switch the mode. -/
theorem write_synchronizedMode (now : Int64) (item : BufferItem) (b : SynchronizedBuffer) :
    (b.write now item).2.1.synchronizedMode = b.synchronizedMode :=
  (write_settings now item b).1

theorem Tidy.keep {b : SynchronizedBuffer} (tidy : b.Tidy) (sync : b.synchronizedMode = true)
    (item : BufferItem) : (b.keep item).Tidy := by
  refine ⟨fun off => ?_, ?_⟩
  · exact Bool.noConfusion (sync.symm.trans off)
  · simp [SynchronizedBuffer.keep, tidy.size]

theorem Tidy.write {b : SynchronizedBuffer} (tidy : b.Tidy) (now : Int64) (item : BufferItem) :
    (b.write now item).2.1.Tidy := by
  cases sync : b.synchronizedMode with
  | false =>
      rw [write_normal sync]
      exact tidy
  | true =>
      have cases := write_cases sync now item
      generalize b.write now item = r at cases ⊢
      rcases cases with _ | _ | _
      · exact tidy
      · exact tidy.keep sync _
      · exact ⟨fun _ => rfl, rfl⟩

end

end SynchronizedBuffer

end WindTerm

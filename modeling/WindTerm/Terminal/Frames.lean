import WindTerm.Terminal.EmitOutsideLocks
import Mathlib.Algebra.Ring.Int.Defs
import Mathlib.Algebra.Group.Nat.Defs

/-!
# Frames of synchronised output and their clock

The time since the frame began is a difference of `quint64` values of a clock that may be set back
(`elapsed_eq`). While it is below the limit and the items leave the buffer below its size, the
writes of a frame only add to the buffer, and the end of the frame delivers them in one piece
(`frame_delivered_whole`). `needsFlush_exact_iff` says which readings the timeout is exact for.
-/

namespace WindTerm

open Library

namespace SynchronizedBuffer

/-! ## The elapsed time -/

theorem toNat_toUInt64 (x : Int64) : (x.toUInt64.toNat : Int) = x.toInt % 2 ^ 64 := by
  have bound := x.toBitVec.isLt
  have cond := BitVec.toInt_eq_toNat_cond x.toBitVec
  change x.toInt = _ at cond
  change (x.toBitVec.toNat : Int) = _
  split at cond <;> omega

/-- What `needsFlush` computes from a reading and the reading at the start. -/
theorem elapsed_eq (s t : Int64) :
    ((t.toUInt64 - s.toUInt64).toNat : Int) = (t.toInt - s.toInt) % 2 ^ 64 := by
  have start := toNat_toUInt64 s
  have reading := toNat_toUInt64 t
  have bound := s.toUInt64.toNat_lt
  rw [UInt64.toNat_sub]
  omega

theorem toUInt64_pos {s : Int64} (started : 0 < s) : 0 < s.toUInt64 := by
  have value := toNat_toUInt64 s
  have lt := s.toInt_lt
  rw [Int64.lt_iff_toInt_lt, Int64.toInt_zero] at started
  rw [UInt64.lt_iff_toNat_lt, UInt64.toNat_zero]
  omega

theorem needsFlush_iff {b : SynchronizedBuffer} {s : Int64} (started : 0 < s)
    (start : b.syncStartTime = s.toUInt64) (below : b.currentSize < b.maxBufferSize) (t : Int64) :
    b.needsFlush t = true ↔ 100 ≤ (t.toInt - s.toInt) % 2 ^ 64 := by
  unfold needsFlush
  rw [if_neg (Nat.not_le.mpr below), start, if_pos (toUInt64_pos started), decide_eq_true_iff,
    UInt64.le_iff_toNat_le, ← elapsed_eq]
  exact Int.ofNat_le.symm

section

variable [Platform]

/-! ## Calls and the start of the frame -/

theorem Operation.run_tidy (o : Operation) (now : Int64) {b : SynchronizedBuffer} (tidy : b.Tidy) :
    (o.run now b).1.Tidy := by
  cases o with
  | setSynchronizedMode enabled => exact tidy.setSynchronizedMode now enabled
  | write item => exact tidy.write now item
  | writeData data => exact tidy.write now _
  | flush => exact tidy.flush
  | clear => exact tidy.clear
  | setMaxBufferSize maxSize => exact tidy.setMaxBufferSize maxSize
  | isSynchronized | bufferSize | itemCount | maxBufferSize | needsFlush => exact tidy

theorem reached_tidy (calls : List (Int64 × Operation)) : (reached calls).Tidy :=
  feed_invariant Tidy (fun call _ => call.2.run_tidy call.1) calls .new

/-- The buffer is in the frame that began at the reading `s`. -/
structure Began (s : Int64) (b : SynchronizedBuffer) : Prop where
  sync : b.synchronizedMode = true
  start : b.syncStartTime = s.toUInt64

omit [Platform] in
theorem Began.enter {b : SynchronizedBuffer} (normal : b.synchronizedMode = false) (s : Int64) :
    Began s (b.setSynchronizedMode s true).2.1 := by
  rw [setSynchronizedMode_on normal]
  exact ⟨rfl, rfl⟩

/-- Only switching off ends the frame. -/
theorem Operation.run_began {o : Operation} (stays : o ≠ .setSynchronizedMode false) (now : Int64)
    {s : Int64} {b : SynchronizedBuffer} (began : Began s b) : Began s (o.run now b).1 := by
  cases o with
  | setSynchronizedMode enabled =>
      cases enabled with
      | false => exact absurd rfl stays
      | true =>
          change Began s (b.setSynchronizedMode now true).2.1
          rw [setSynchronizedMode_same began.sync]
          exact began
  | write item =>
      obtain ⟨mode, -, start⟩ := write_settings now item b
      exact ⟨mode.trans began.sync, start.trans began.start⟩
  | writeData data =>
      obtain ⟨mode, -, start⟩ := write_settings now { type := .textData, data := data } b
      exact ⟨mode.trans began.sync, start.trans began.start⟩
  | flush =>
      obtain ⟨mode, -, start⟩ := flush_settings b
      exact ⟨mode.trans began.sync, start.trans began.start⟩
  | clear | setMaxBufferSize => exact ⟨began.sync, began.start⟩
  | isSynchronized | bufferSize | itemCount | maxBufferSize | needsFlush => exact began

theorem Began.feed {s : Int64} {later : List (Int64 × Operation)}
    (stays : ∀ call ∈ later, call.2 ≠ .setSynchronizedMode false) {b : SynchronizedBuffer}
    (began : Began s b) : Began s (feed (fun call => call.2.run call.1) later b).1 := by
  induction later generalizing b with
  | nil => exact began
  | cons call later ih =>
      obtain ⟨first, rest⟩ := List.forall_mem_cons.mp stays
      exact ih rest (call.2.run_began first call.1 began)

/-- **The timeout.** A frame began at the reading `s`, and the buffer is below its maximal size.
`needsFlush` decides whether 100 ms have passed for the readings from `s` on, and for those the
clock was set back to by almost the range of `quint64`; for all others below `s` it is wrong. -/
theorem needsFlush_exact_iff (calls later : List (Int64 × Operation)) (s t : Int64)
    (started : 0 < s) (normal : (reached calls).synchronizedMode = false)
    (stays : ∀ call ∈ later, call.2 ≠ .setSynchronizedMode false) :
    let entered := ((reached calls).setSynchronizedMode s true).2.1
    let b := (feed (fun call => call.2.run call.1) later entered).1
    b.currentSize < b.maxBufferSize →
      ((b.needsFlush t = true ↔ s.toInt + 100 ≤ t.toInt) ↔
        s ≤ t ∨ 2 ^ 64 - 100 < s.toInt - t.toInt) := by
  intro entered b below
  have began : Began s b := (Began.enter normal s).feed stays
  have lower := t.le_toInt
  have upper := s.toInt_lt
  have lower' := s.le_toInt
  have upper' := t.toInt_lt
  rw [needsFlush_iff started began.start below, Int64.le_iff_toInt_le]
  omega

omit [Platform] in
/-- One millisecond back, and the frame has timed out. -/
theorem needsFlush_clock_back :
    letI := Platform.qt6
    let b := reached [(1000, .setSynchronizedMode true)]
    b.currentSize < b.maxBufferSize ∧
      ¬ (b.needsFlush 999 = true ↔ (1000 : Int64).toInt + 100 ≤ (999 : Int64).toInt) := by
  decide

omit [Platform] in
/-- On time, 99 and 100 milliseconds later. -/
theorem needsFlush_exact_later :
    letI := Platform.qt6
    let b := ((reached []).setSynchronizedMode 1000 true).2.1
    b.needsFlush 1099 = false ∧ b.needsFlush 1100 = true := by
  let _ := Platform.qt6
  have before := needsFlush_exact_iff [] [] 1000 1099 (by decide) rfl (by simp) (by decide)
  have after := needsFlush_exact_iff [] [] 1000 1100 (by decide) rfl (by simp) (by decide)
  constructor
  · exact Bool.eq_false_iff.mpr fun due => absurd ((before.mpr (by decide)).mp due) (by decide)
  · exact (after.mpr (by decide)).mpr (by decide)

/-! ## Frames -/

/-- Writes, each at its time: what they return, and what they do. -/
def writeAll : List (Int64 × BufferItem) → SynchronizedBuffer → List Bool × Step
  | [], b => ([], b, [])
  | (now, item) :: writes, b =>
      let first := b.write now item
      let rest := writeAll writes first.2.1
      (first.1 :: rest.1, rest.2.1, first.2.2 ++ rest.2.2)

/-- The room that the items of some writes take. -/
def frameSize (writes : List (Int64 × BufferItem)) : Nat :=
  (writes.map fun w => itemSize w.2).sum

omit [Platform] in
theorem Began.inTime {s now : Int64} {b : SynchronizedBuffer} (began : Began s b)
    (after : s ≤ now) (within : now.toInt < s.toInt + 100) : InTime now b := by
  intro _
  have elapsed := elapsed_eq s now
  rw [Int64.le_iff_toInt_le] at after
  rw [began.start, UInt64.lt_iff_toNat_lt]
  change _ < 100
  omega

/-- The writes of a frame that are in time and fit add their items to the buffer and deliver
nothing. -/
theorem Began.writeAll {s : Int64} {writes : List (Int64 × BufferItem)} {b : SynchronizedBuffer}
    (began : Began s b)
    (inTime : ∀ w ∈ writes, s ≤ w.1 ∧ w.1.toInt < s.toInt + 100)
    (room : b.currentSize + frameSize writes < b.maxBufferSize) :
    let r := writeAll writes b
    r.1 = writes.map (fun _ => true) ∧ Began s r.2.1 ∧
      r.2.1.buffer = b.buffer ++ writes.map Prod.snd ∧ acts r.2.2 = [] := by
  induction writes generalizing b with
  | nil => exact ⟨rfl, began, (List.append_nil _).symm, rfl⟩
  | cons w writes ih =>
      obtain ⟨now, item⟩ := w
      obtain ⟨⟨after, within⟩, rest⟩ := List.forall_mem_cons.mp inTime
      have size : frameSize ((now, item) :: writes) = itemSize item + frameSize writes :=
        List.sum_cons
      rw [size] at room
      have fits : Fits item b := by
        unfold Fits
        omega
      have written := write_within began.sync fits (began.inTime after within)
      have next : Began s (b.keep item) := ⟨began.sync, began.start⟩
      have left : (b.keep item).currentSize + frameSize writes < (b.keep item).maxBufferSize := by
        change b.currentSize + itemSize item + frameSize writes < b.maxBufferSize
        omega
      obtain ⟨results, last, buffer, silent⟩ := ih next rest left
      unfold SynchronizedBuffer.writeAll
      rw [written]
      refine ⟨?_, last, ?_, ?_⟩
      · exact congrArg (List.cons true) results
      · rw [buffer]
        exact List.append_assoc ..
      · rw [acts_append, silent]
        rfl

/-- **A frame is delivered in one piece.** From a buffer in normal mode: switching on announces
the mode only, the writes all succeed without a signal, and switching off announces the mode and
delivers the items in one `dataReady`, if there are any. -/
theorem frame_delivered_whole (calls : List (Int64 × Operation)) (t₀ t₁ : Int64)
    (writes : List (Int64 × BufferItem)) (normal : (reached calls).synchronizedMode = false)
    (inTime : ∀ w ∈ writes, t₀ ≤ w.1 ∧ w.1.toInt < t₀.toInt + 100)
    (room : frameSize writes < (reached calls).maxBufferSize) :
    let entered := (reached calls).setSynchronizedMode t₀ true
    let written := writeAll writes entered.2.1
    let left := written.2.1.setSynchronizedMode t₁ false
    acts entered.2.2 = [.synchronizedModeChanged true] ∧
      written.1 = writes.map (fun _ => true) ∧ acts written.2.2 = [] ∧
      acts left.2.2 = .synchronizedModeChanged false ::
        if writes = [] then [] else [.dataReady (writes.map Prod.snd)] := by
  intro entered written left
  have tidy := reached_tidy calls
  have empty := tidy.empty normal
  have on := setSynchronizedMode_on normal t₀
  have size : entered.2.1.currentSize = 0 := by
    change ((reached calls).setSynchronizedMode t₀ true).2.1.currentSize = 0
    rw [on]
    exact tidy.size.trans (by rw [empty]; rfl)
  have limit : entered.2.1.maxBufferSize = (reached calls).maxBufferSize := by
    change ((reached calls).setSynchronizedMode t₀ true).2.1.maxBufferSize = _
    rw [on]
  have nothing : entered.2.1.buffer = [] := by
    change ((reached calls).setSynchronizedMode t₀ true).2.1.buffer = []
    rw [on]
    exact empty
  have began : Began t₀ entered.2.1 := Began.enter normal t₀
  obtain ⟨results, last, buffer, silent⟩ := began.writeAll inTime (by omega)
  rw [nothing, List.nil_append] at buffer
  obtain ⟨-, -, -, signals⟩ := setSynchronizedMode_off last.sync t₁
  refine ⟨?_, results, silent, ?_⟩
  · change acts ((reached calls).setSynchronizedMode t₀ true).2.2 = _
    rw [on]
    rfl
  · refine signals.trans (congrArg _ ?_)
    rw [buffer]
    simp only [List.map_eq_nil_iff]

omit [Platform] in
/-- Two texts in one frame. -/
theorem frame_delivered_whole_two :
    letI := Platform.qt6
    let writes : List (Int64 × BufferItem) := [(1000, { data := [72] }), (1099, { data := [105] })]
    let written := writeAll writes ((reached []).setSynchronizedMode 1000 true).2.1
    acts (written.2.1.setSynchronizedMode 1200 false).2.2 =
      [.synchronizedModeChanged false, .dataReady [{ data := [72] }, { data := [105] }]] := by
  intro writes written
  have whole := @frame_delivered_whole Platform.qt6 [] 1000 1200 writes rfl (by decide) (by decide)
  obtain ⟨-, -, -, delivered⟩ := whole
  rw [if_neg (List.cons_ne_nil _ _)] at delivered
  exact delivered

end

end SynchronizedBuffer

end WindTerm

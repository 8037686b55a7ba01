import WindTerm.Library.RingBuffer
import Mathlib.Algebra.Ring.Int.Defs
import Mathlib.Algebra.Group.Nat.Defs

/-!
# The circular buffer

`CircularBuffer.h`, at the element type `qint64` for which it allocates its slots. An index is a
`qint64` that only grows, and `index & m_mask` is its slot. The assertions of the source are left
out, as in a release build; what they ask of an index is the window of the results below.

The callers' view is a list: `append` adds at its end and `clear` empties it. `Represents` relates
the buffer to that list, through the window of `Library/RingBuffer.lean`.
-/

namespace WindTerm

open Library

/-- The leading zero bits of a `quint32`, 32 for zero. -/
def qCountLeadingZeroBits (value : UInt32) : UInt32 := ⟨value.toBitVec.clz⟩

/-- `ROUND_UP_POW2`. -/
def roundUpPow2 (value : UInt32) : Int32 := 1 <<< (32 - qCountLeadingZeroBits value).toInt32

structure CircularBuffer where
  buffer : Array Int64
  currentIndex : Int64
  capacity : Int32
  mask : Int32
deriving Repr, DecidableEq

namespace CircularBuffer

/-- `clear`: `memset` with `0xFF` leaves -1 in every slot. -/
def clear (b : CircularBuffer) : CircularBuffer :=
  { b with
    currentIndex := -1
    buffer := Array.replicate b.capacity.toNatClampNeg (-1) }

/-- The constructor: `calloc`, then `clear`. -/
def new (capacity : UInt32) : CircularBuffer :=
  let capacity := roundUpPow2 capacity
  clear
    { buffer := Array.replicate capacity.toNatClampNeg 0
      currentIndex := 0
      capacity
      mask := capacity - 1 }

/-- `index & m_mask`, with the mask widened to `qint64`. -/
def slot (b : CircularBuffer) (index : Int64) : Nat := (index &&& b.mask.toInt64).toNatClampNeg

def append (value : Int64) (b : CircularBuffer) : CircularBuffer :=
  let currentIndex := b.currentIndex + 1
  { b with
    currentIndex
    buffer := b.buffer.setIfInBounds (b.slot currentIndex) value }

/-- What `at` and `operator[]` return, `none` where they read outside the allocated slots. -/
def slotValue (b : CircularBuffer) (index : Int64) : Option Int64 := b.buffer[b.slot index]?

/-- `at`. -/
def atIndex (b : CircularBuffer) (index : Int64) : Option Int64 := b.slotValue index

/-- `operator[]`. -/
def opIndex (b : CircularBuffer) (index : Int64) : Option Int64 := b.slotValue index

def minIndex (b : CircularBuffer) : Int64 := max 0 (b.currentIndex + 1 - b.capacity.toInt64)

/-- A call that changes the buffer. -/
inductive Call where
  | append (value : Int64)
  | clear
deriving Repr, DecidableEq

def Call.run : Call → CircularBuffer → CircularBuffer
  | append value => CircularBuffer.append value
  | clear => CircularBuffer.clear

/-- The buffer a constructor and a sequence of calls leave. -/
def reached (capacity : UInt32) (calls : List Call) : CircularBuffer :=
  calls.foldl (fun b call => call.run b) (new capacity)

/-! ## The list of values -/

/-- The same calls on the list. -/
def Call.keep : Call → List Int64 → List Int64
  | append value, xs => xs ++ [value]
  | clear, _ => []

/-- The values appended since the last `clear`. -/
def kept (calls : List Call) : List Int64 := calls.foldl (fun xs call => call.keep xs) []

/-- How many values a sequence of calls appends. -/
def appends : List Call → Nat
  | [] => 0
  | .append _ :: calls => appends calls + 1
  | .clear :: calls => appends calls

/-! ## Capacity and mask -/

/-- `1 << n` for the shifts that keep the sign bit clear. -/
theorem toInt_one_shiftLeft {n : UInt32} (small : n.toNat ≤ 30) :
    ((1 : Int32) <<< n.toInt32).toInt = 2 ^ n.toNat := by
  have all : ∀ k : Fin 31, ((1 : Int32) <<< (UInt32.ofNat k).toInt32).toInt = 2 ^ k.val := by
    decide
  have this := all ⟨n.toNat, by omega⟩
  rwa [UInt32.ofNat_toNat] at this

/-- The shift of `ROUND_UP_POW2` is the number of bits of the value. -/
theorem bits_eq (c : UInt32) :
    (32 - qCountLeadingZeroBits c).toNat = 32 - c.toBitVec.clz.toNat := by
  have le : c.toBitVec.clz.toNat ≤ 32 := BitVec.clz_le (x := c.toBitVec)
  exact UInt32.toNat_sub_of_le 32 _ (UInt32.le_iff_toNat_le.mpr le)

theorem bits_spec {c : UInt32} (small : c.toNat < 2 ^ 30) :
    (32 - qCountLeadingZeroBits c).toNat ≤ 30 ∧
      c.toNat < 2 ^ (32 - qCountLeadingZeroBits c).toNat := by
  rw [bits_eq]
  refine ⟨?_, BitVec.toNat_lt_two_pow_sub_clz (x := c.toBitVec)⟩
  rcases Decidable.em (c.toBitVec = 0#32) with zero | ne
  · have clz : c.toBitVec.clz = 32 := BitVec.clz_eq_iff_eq_zero.mpr zero
    rw [clz]
    decide
  · have top := BitVec.two_pow_sub_clz_le_toNat_of_ne_zero (by decide) ne
    have lt : 2 ^ (32 - 1 - c.toBitVec.clz.toNat) < 2 ^ 30 := Nat.lt_of_le_of_lt top small
    have := (Nat.pow_lt_pow_iff_right (by decide)).mp lt
    omega

/-- `k` is the number of bits of the capacity that was asked for. -/
theorem roundUpPow2_spec {c : UInt32} (small : c.toNat < 2 ^ 30) :
    ∃ k, k ≤ 30 ∧ (roundUpPow2 c).toInt = 2 ^ k ∧ c.toNat < 2 ^ k := by
  have ⟨le, lt⟩ := bits_spec small
  exact ⟨_, le, toInt_one_shiftLeft le, lt⟩

/-! ## Slots -/

theorem toNat_toBitVec {i : Int64} (nonneg : 0 ≤ i.toInt) : i.toBitVec.toNat = i.toInt.toNat := by
  have lt := i.toInt_lt
  have bound := i.toBitVec.isLt
  have cond := BitVec.toInt_eq_toNat_cond i.toBitVec
  change i.toInt = _ at cond
  split at cond <;> omega

/-- Masking with `2 ^ k - 1` takes an index modulo `2 ^ k`. -/
theorem masked_eq {b : CircularBuffer} {k : Nat} (mask : b.mask.toInt = 2 ^ k - 1) {i : Int64}
    (nonneg : 0 ≤ i.toInt) :
    (i &&& b.mask.toInt64).toInt = ((i.toInt.toNat % 2 ^ k : Nat) : Int) := by
  have pos : 0 < 2 ^ k := Nat.two_pow_pos k
  have wide : b.mask.toInt64.toInt = ((2 ^ k - 1 : Nat) : Int) := by
    rw [Int32.toInt_toInt64, mask, Nat.cast_sub pos]
    norm_cast
  have low : (i &&& b.mask.toInt64).toBitVec.toNat = i.toInt.toNat % 2 ^ k := by
    rw [Int64.toBitVec_and, BitVec.toNat_and, toNat_toBitVec nonneg,
      toNat_toBitVec (by omega), wide, Int.toNat_natCast, Nat.and_two_pow_sub_one_eq_mod]
  have le : i.toInt.toNat % 2 ^ k ≤ i.toInt.toNat := Nat.mod_le _ _
  have lt := i.toInt_lt
  rw [← low]
  exact BitVec.toInt_eq_toNat_of_lt (by omega)

theorem slot_eq {b : CircularBuffer} {k : Nat} (mask : b.mask.toInt = 2 ^ k - 1) {i : Int64}
    (nonneg : 0 ≤ i.toInt) : b.slot i = i.toInt.toNat % 2 ^ k := by
  unfold slot Int64.toNatClampNeg
  rw [masked_eq mask nonneg, Int.toNat_natCast]

/-! ## The buffer and its list -/

/-- The buffer of `2 ^ k` slots holds the list `xs` as far as it reaches back. -/
structure Represents (k : Nat) (b : CircularBuffer) (xs : List Int64) : Prop where
  capacity : b.capacity.toInt = 2 ^ k
  mask : b.mask.toInt = 2 ^ k - 1
  size : b.buffer.size = 2 ^ k
  current : b.currentIndex.toInt = xs.length - 1
  window : Window (2 ^ k) xs (fun j => b.buffer[j]?)

variable {k : Nat} {b : CircularBuffer} {xs : List Int64}

theorem Represents.new {c : UInt32} (small : c.toNat < 2 ^ 30) :
    ∃ k, k ≤ 30 ∧ c.toNat < 2 ^ k ∧ Represents k (new c) [] := by
  obtain ⟨k, le, value, lt⟩ := roundUpPow2_spec small
  have top : (2 : Int) ^ k ≤ 2 ^ 30 := mod_cast Nat.pow_le_pow_right (by decide) le
  have pos : (0 : Int) < 2 ^ k := mod_cast Nat.two_pow_pos k
  refine ⟨k, le, lt, value, ?_, ?_, rfl, Window.nil⟩
  · have one : (roundUpPow2 c - 1).toInt = ((roundUpPow2 c).toInt - 1).bmod (2 ^ 32) :=
      Int32.toInt_sub _ _
    change (roundUpPow2 c - 1).toInt = _
    rw [one, value]
    exact Int.bmod_eq_of_le (by omega) (by omega)
  · change (Array.replicate (roundUpPow2 c).toInt.toNat _).size = _
    rw [Array.size_replicate, value]
    norm_cast

theorem Represents.clear (represents : Represents k b xs) : Represents k (clear b) [] := by
  refine ⟨represents.capacity, represents.mask, ?_, rfl, Window.nil⟩
  change (Array.replicate b.capacity.toInt.toNat _).size = _
  rw [Array.size_replicate, represents.capacity]
  norm_cast

/-- An append stores the value over the one that leaves the window. -/
theorem Represents.append (represents : Represents k b xs) (few : xs.length + 1 < 2 ^ 63)
    (value : Int64) : Represents k (append value b) (xs ++ [value]) := by
  have next : (b.currentIndex + 1).toInt = xs.length := by
    rw [Int64.toInt_add, represents.current, Int64.toInt_one, Int.sub_add_cancel]
    exact Int.bmod_eq_of_le (by omega) (by omega)
  have slot : b.slot (b.currentIndex + 1) = xs.length % 2 ^ k := by
    rw [slot_eq represents.mask (by omega), next, Int.toNat_natCast]
  have inside : xs.length % 2 ^ k < b.buffer.size := by
    rw [represents.size]
    exact Nat.mod_lt _ (Nat.two_pow_pos k)
  refine ⟨represents.capacity, represents.mask, ?_, ?_, ?_⟩
  · exact (Array.size_setIfInBounds ..).trans represents.size
  · rw [List.length_append, List.length_singleton]
    exact next.trans (by omega)
  · refine represents.window.append ?_ fun j ne => ?_
    · change (b.buffer.setIfInBounds (b.slot (b.currentIndex + 1)) value)[_]? = _
      rw [slot, Array.getElem?_setIfInBounds_self_of_lt inside]
    · change (b.buffer.setIfInBounds (b.slot (b.currentIndex + 1)) value)[_]? = _
      rw [slot, Array.getElem?_setIfInBounds_ne (Ne.symm ne)]

/-- A call keeps the relation, and the list grows at most by what is appended. -/
theorem Represents.foldl {calls : List Call} (represents : Represents k b xs)
    (few : xs.length + appends calls < 2 ^ 63) :
    Represents k (calls.foldl (fun b call => call.run b) b)
        (calls.foldl (fun xs call => call.keep xs) xs) ∧
      (calls.foldl (fun xs call => call.keep xs) xs).length ≤ xs.length + appends calls := by
  induction calls generalizing b xs with
  | nil => exact ⟨represents, Nat.le_add_right _ _⟩
  | cons call calls ih =>
      rcases call with value | _
      case append =>
          have count : appends (.append value :: calls) = appends calls + 1 := rfl
          have longer : (xs ++ [value]).length = xs.length + 1 := by
            rw [List.length_append, List.length_singleton]
          rw [count] at few ⊢
          have ⟨rest, le⟩ := ih (represents.append (by omega) value) (by omega)
          exact ⟨rest, Nat.le_trans le (by omega)⟩
      case clear =>
          have count : appends (.clear :: calls) = appends calls := rfl
          have empty : ([] : List Int64).length = 0 := rfl
          rw [count] at few ⊢
          have ⟨rest, le⟩ := ih represents.clear (by omega)
          exact ⟨rest, Nat.le_trans le (by omega)⟩

theorem toInt_max (x y : Int64) : (max x y).toInt = max x.toInt y.toInt := by
  rw [show max x y = if x ≤ y then y else x from rfl]
  split <;> rename_i le <;> rw [Int64.le_iff_toInt_le] at le <;> omega

/-- `minIndex` is the start of the window. -/
theorem Represents.minIndex (represents : Represents k b xs) (le : k ≤ 30)
    (few : xs.length < 2 ^ 63) : b.minIndex.toInt = max 0 ((xs.length : Int) - 2 ^ k) := by
  have top : (2 : Int) ^ k ≤ 2 ^ 30 := mod_cast Nat.pow_le_pow_right (by decide) le
  have pos : (0 : Int) < 2 ^ k := mod_cast Nat.two_pow_pos k
  have next : (b.currentIndex + 1).toInt = xs.length := by
    rw [Int64.toInt_add, represents.current, Int64.toInt_one, Int.sub_add_cancel]
    exact Int.bmod_eq_of_le (by omega) (by omega)
  have start : (b.currentIndex + 1 - b.capacity.toInt64).toInt = (xs.length : Int) - 2 ^ k := by
    rw [Int64.toInt_sub, next, Int32.toInt_toInt64, represents.capacity]
    exact Int.bmod_eq_of_le (by omega) (by omega)
  rw [← start]
  exact toInt_max _ _

/-- Inside the window an index reads its value. -/
theorem Represents.slotValue (represents : Represents k b xs) {i : Int64} {j : Nat}
    (index : i.toInt = j) (lt : j < xs.length) (near : xs.length ≤ j + 2 ^ k) :
    b.slotValue i = some xs[j] := by
  change b.buffer[b.slot i]? = _
  rw [slot_eq represents.mask (by omega), index, Int.toNat_natCast]
  exact represents.window.read lt near

theorem Represents.reached {c : UInt32} (small : c.toNat < 2 ^ 30) {calls : List Call}
    (few : appends calls < 2 ^ 63) :
    ∃ k, k ≤ 30 ∧ c.toNat < 2 ^ k ∧ Represents k (reached c calls) (kept calls) ∧
      (kept calls).length < 2 ^ 63 := by
  obtain ⟨k, le, lt, represents⟩ := Represents.new small
  have room : ([] : List Int64).length + appends calls < 2 ^ 63 := by
    rwa [List.length_nil, Nat.zero_add]
  obtain ⟨rest, longest⟩ := represents.foldl room
  exact ⟨k, le, lt, rest, Nat.lt_of_le_of_lt longest room⟩

/-- The buffer is the list of the values appended since the last `clear`, of which it can still
read at least the last `c`. -/
theorem reads_kept_values (c : UInt32) (small : c.toNat < 2 ^ 30) (calls : List Call)
    (few : appends calls < 2 ^ 63) :
    let b := reached c calls
    let xs := kept calls
    b.currentIndex.toInt = xs.length - 1 ∧
      b.minIndex.toInt = max 0 (xs.length - b.capacity.toInt) ∧
      (∀ i : Int64, b.minIndex ≤ i → i ≤ b.currentIndex →
        ∃ lt : i.toInt.toNat < xs.length,
          b.atIndex i = some xs[i.toInt.toNat] ∧ b.opIndex i = some xs[i.toInt.toNat]) ∧
      (∃ k : Nat, b.capacity.toInt = 2 ^ k) ∧
      c.toNat ≤ b.capacity.toInt ∧
      ∀ j (lt : j < xs.length), xs.length ≤ j + c.toNat →
        b.minIndex ≤ Int64.ofNat j ∧ Int64.ofNat j ≤ b.currentIndex ∧
          b.atIndex (Int64.ofNat j) = some xs[j] ∧ b.opIndex (Int64.ofNat j) = some xs[j] := by
  intro b xs
  obtain ⟨k, le, lt, represents, short⟩ := Represents.reached small few
  change Represents k b xs at represents
  change xs.length < 2 ^ 63 at short
  have pos : 0 < 2 ^ k := Nat.two_pow_pos k
  have start : b.minIndex.toInt = max 0 ((xs.length : Int) - 2 ^ k) :=
    represents.minIndex le short
  have current : b.currentIndex.toInt = xs.length - 1 := represents.current
  have capacity : b.capacity.toInt = 2 ^ k := represents.capacity
  have cast : ((2 ^ k : Nat) : Int) = 2 ^ k := by norm_cast
  refine ⟨current, ?_, ?_, ⟨k, capacity⟩, ?_, ?_⟩
  · rw [start, capacity]
  · intro i after before
    rw [Int64.le_iff_toInt_le] at after before
    have read := represents.slotValue (i := i) (j := i.toInt.toNat) (by omega) (by omega) (by omega)
    exact ⟨by omega, read, read⟩
  · rw [capacity]
    omega
  · intro j inside near
    have index : (Int64.ofNat j).toInt = j := Int64.toInt_ofNat_of_lt (by omega)
    have read := represents.slotValue index inside (by omega)
    refine ⟨?_, ?_, read, read⟩
    · rw [Int64.le_iff_toInt_le, start, index]
      omega
    · rw [Int64.le_iff_toInt_le, current, index]
      omega

/-- Three slots are rounded up to four, and the fifth value pushes out the first. -/
theorem reads_kept_values_wrapped :
    let b := reached 3 [.append 7, .append 1, .append 2, .append 3, .append 4]
    b.minIndex.toInt = 1 ∧ b.atIndex 4 = some 4 := by
  have spec := reads_kept_values 3 (by decide)
    [.append 7, .append 1, .append 2, .append 3, .append 4] (by decide)
  have ⟨_, start, reads, _⟩ := spec
  obtain ⟨_, value, _⟩ := reads 4 (by decide) (by decide)
  exact ⟨start.trans (by decide), value⟩

/-! ## The largest capacity -/

/-- No call changes the capacity, the mask or the size of the block. -/
theorem Call.run_shape (call : Call) {b : CircularBuffer}
    (size : b.buffer.size = b.capacity.toNatClampNeg) :
    (call.run b).capacity = b.capacity ∧ (call.run b).mask = b.mask ∧
      (call.run b).buffer.size = (call.run b).capacity.toNatClampNeg := by
  cases call with
  | append value => exact ⟨rfl, rfl, (Array.size_setIfInBounds ..).trans size⟩
  | clear => exact ⟨rfl, rfl, Array.size_replicate⟩

theorem reached_shape (c : UInt32) (calls : List Call) :
    (reached c calls).capacity = (new c).capacity ∧ (reached c calls).mask = (new c).mask ∧
      (reached c calls).buffer.size = (new c).capacity.toNatClampNeg := by
  have run (b : CircularBuffer) (size : b.buffer.size = b.capacity.toNatClampNeg) :
      let b' := calls.foldl (fun b call => call.run b) b
      b'.capacity = b.capacity ∧ b'.mask = b.mask ∧
        b'.buffer.size = b.capacity.toNatClampNeg := by
    induction calls generalizing b with
    | nil => exact ⟨rfl, rfl, size⟩
    | cons call calls ih =>
        obtain ⟨capacity, mask, size'⟩ := call.run_shape size
        obtain ⟨capacity', mask', size''⟩ := ih (call.run b) size'
        refine ⟨capacity'.trans capacity, mask'.trans mask, ?_⟩
        rw [← capacity]
        exact size''
  exact run (new c) Array.size_replicate

/-- From `2 ^ 30` on the shift reaches the sign bit. -/
theorem bits_large {c : UInt32} (large : 2 ^ 30 ≤ c.toNat) :
    31 ≤ (32 - qCountLeadingZeroBits c).toNat := by
  rw [bits_eq]
  have lt : c.toNat < 2 ^ (32 - c.toBitVec.clz.toNat) :=
    BitVec.toNat_lt_two_pow_sub_clz (x := c.toBitVec)
  have more := (Nat.pow_lt_pow_iff_right (by decide)).mp (Nat.lt_of_le_of_lt large lt)
  omega

/-- **Capacities.** The assertion of the constructor admits capacities below `2 ^ 31`. Those below
`2 ^ 30` and no others are rounded up without an overflow of `1 << n` to a positive power of two,
with a mask that maps every index from 0 on into the block allocated, whatever calls came before. -/
theorem index_safe_iff (c : UInt32) :
    ((2 : Int) ^ (32 - qCountLeadingZeroBits c).toNat < 2 ^ 31 ∧
        ∀ calls, let b := reached c calls
          (∃ k : Nat, b.capacity.toInt = 2 ^ k) ∧ c.toNat ≤ b.capacity.toInt ∧
            b.mask.toInt = b.capacity.toInt - 1 ∧ 0 ≤ b.mask.toInt ∧
            ∀ i : Int64, 0 ≤ i → 0 ≤ (i &&& b.mask.toInt64).toInt ∧
              (i &&& b.mask.toInt64).toInt < b.capacity.toInt ∧ b.slot i < b.buffer.size) ↔
      c.toNat < 2 ^ 30 := by
  constructor
  · rintro ⟨shift, -⟩
    apply Nat.lt_of_not_le
    intro large
    have top : (2 : Int) ^ 31 ≤ 2 ^ (32 - qCountLeadingZeroBits c).toNat :=
      mod_cast Nat.pow_le_pow_right (by decide) (bits_large large)
    omega
  · intro small
    obtain ⟨bits, -⟩ := bits_spec small
    have shift : (2 : Int) ^ (32 - qCountLeadingZeroBits c).toNat ≤ 2 ^ 30 :=
      mod_cast Nat.pow_le_pow_right (by decide) bits
    refine ⟨by omega, fun calls => ?_⟩
    obtain ⟨k, le, lt, fresh⟩ := Represents.new small
    obtain ⟨sameCapacity, sameMask, size⟩ := reached_shape c calls
    have pos : (0 : Int) < 2 ^ k := mod_cast Nat.two_pow_pos k
    have cast : ((2 ^ k : Nat) : Int) = 2 ^ k := by norm_cast
    have capacity : (reached c calls).capacity.toInt = 2 ^ k := sameCapacity ▸ fresh.capacity
    have mask : (reached c calls).mask.toInt = 2 ^ k - 1 := sameMask ▸ fresh.mask
    have block : (reached c calls).buffer.size = 2 ^ k := by
      rw [size]
      change (new c).capacity.toInt.toNat = _
      rw [fresh.capacity]
      omega
    refine ⟨⟨k, capacity⟩, by omega, by omega, by omega, fun i nonneg => ?_⟩
    rw [Int64.le_iff_toInt_le, Int64.toInt_zero] at nonneg
    have value := masked_eq mask nonneg
    have below : i.toInt.toNat % 2 ^ k < 2 ^ k := Nat.mod_lt _ (Nat.two_pow_pos k)
    refine ⟨by omega, by omega, ?_⟩
    rw [slot_eq mask nonneg, block]
    exact below

/-- At `2 ^ 30` the shift makes the capacity negative. -/
theorem capacity_negative :
    (0x40000000 : UInt32).toNat < 2 ^ 31 ∧ (new 0x40000000).capacity.toInt = -2 ^ 31 := by
  decide +kernel

end CircularBuffer

end WindTerm

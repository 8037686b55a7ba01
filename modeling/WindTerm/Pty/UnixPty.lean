import WindTerm.Library.Loop
import Mathlib.Data.Nat.Basic

/-!
# `UnixPty.cpp`: the handler that reads the master

`QSocketNotifier::activated` runs a do-while loop over the non-blocking master.
`readTurn` is one turn of it, for any `read`; its `continue` goes to the loop's
condition, and that condition asks for another turn as long as there is nothing
to read. `Quiet` is a master at which nothing arrives any more: on it the loop
ends exactly when its last block is neither empty nor full
(`readTurn_returns_iff`).
-/

namespace WindTerm

open Library

/-- `constexpr int BUFFER_SIZE = 0x800`. -/
def BUFFER_SIZE : Nat := 0x800

/-- The values of `errno` the handler tells apart. -/
inductive Errno where
  | EAGAIN
  | other (code : Nat)
  deriving DecidableEq, Repr

/-- What a call of `read` leaves: the size it returns, `m_buffer` and `errno`. -/
structure Block where
  readSize : Int
  buffer : List UInt8
  errno : Errno

/-- A `read` of at most so many bytes from a master. -/
abbrev Reader (σ : Type*) := Nat → σ → Block × σ

/-- What the handler works on; `readyRead` counts the signals. -/
structure UnixPty (σ : Type*) where
  master : σ
  shellReadBuffer : List UInt8
  readyRead : Nat

namespace UnixPty

section

variable {σ : Type*}

/-- One turn of the do-while loop, from a master and the `readData` so far. -/
def readTurn (read : Reader σ) (s : σ × List UInt8) : (σ × List UInt8) ⊕ (σ × List UInt8) :=
  let r := read BUFFER_SIZE s.1
  -- `while (readSize == BUFFER_SIZE || (readSize == -1 && errno == EAGAIN))`
  let test (readData : List UInt8) : (σ × List UInt8) ⊕ (σ × List UInt8) :=
    if r.1.readSize = BUFFER_SIZE ∨ r.1.readSize = -1 ∧ r.1.errno = .EAGAIN then
      .inl (r.2, readData)
    else .inr (r.2, readData)
  if r.1.readSize = -1 then
    -- `continue` goes on with the test, and `break` leaves without it
    if r.1.errno = .EAGAIN then test s.2 else .inr (r.2, s.2)
  else test (s.2 ++ r.1.buffer.take r.1.readSize.toNat)

/-- The handler behind the loop. -/
def deliver (p : UnixPty σ) (master : σ) (readData : List UInt8) : UnixPty σ :=
  if readData.isEmpty = false then
    ⟨master, p.shellReadBuffer ++ readData, p.readyRead + 1⟩
  else { p with master }

/-- The handler, run on `p`, comes to its end and leaves `p'`. -/
def Activated (read : Reader σ) (p p' : UnixPty σ) : Prop :=
  ∃ master readData, Loop.Returns (readTurn read) (p.master, []) (master, readData) ∧
    p' = p.deliver master readData

theorem deliver_shellReadBuffer (p : UnixPty σ) (master : σ) (readData : List UInt8) :
    (p.deliver master readData).shellReadBuffer = p.shellReadBuffer ++ readData := by
  cases readData <;> simp [deliver]

end

/-! ## A master at which nothing arrives -/

/-- The bytes still to be read, and `errno`. -/
structure Quiet where
  pending : List UInt8
  errno : Errno

/-- `read` on a non-blocking descriptor: what is there, or `-1` with `EAGAIN`. -/
def Quiet.read : Reader Quiet := fun size m =>
  if m.pending.isEmpty then (⟨-1, [], .EAGAIN⟩, ⟨[], .EAGAIN⟩)
  else
    (⟨min size m.pending.length, m.pending.take size, m.errno⟩, { m with
      pending := m.pending.drop size })

theorem readTurn_empty (errno : Errno) (readData : List UInt8) :
    readTurn Quiet.read (⟨[], errno⟩, readData) = .inl (⟨[], .EAGAIN⟩, readData) := rfl

theorem readTurn_block {m : Quiet} (full : BUFFER_SIZE ≤ m.pending.length)
    (readData : List UInt8) :
    readTurn Quiet.read (m, readData) = .inl
      ({ m with pending := m.pending.drop BUFFER_SIZE },
        readData ++ m.pending.take BUFFER_SIZE) := by
  have some : m.pending ≠ [] := List.ne_nil_of_length_pos (Nat.lt_of_lt_of_le (by decide) full)
  have size : min (BUFFER_SIZE : Int) m.pending.length = BUFFER_SIZE :=
    Int.min_eq_left (Int.ofNat_le.mpr full)
  have sent : (BUFFER_SIZE : Int) ≠ -1 := by decide
  simp [readTurn, Quiet.read, some, size, sent, List.take_take]

theorem readTurn_last {m : Quiet} (some : m.pending ≠ [])
    (short : m.pending.length < BUFFER_SIZE) (readData : List UInt8) :
    readTurn Quiet.read (m, readData) = .inr
      ({ m with pending := [] }, readData ++ m.pending) := by
  have size : min (BUFFER_SIZE : Int) m.pending.length = m.pending.length :=
    Int.min_eq_right (Int.ofNat_le.mpr (Nat.le_of_lt short))
  have sent : (m.pending.length : Int) ≠ -1 := by omega
  have partly : (m.pending.length : Int) ≠ BUFFER_SIZE := by omega
  have all : m.pending.take BUFFER_SIZE = m.pending :=
    List.take_of_length_le (Nat.le_of_lt short)
  have nothing : m.pending.drop BUFFER_SIZE = [] :=
    List.drop_of_length_le (Nat.le_of_lt short)
  simp [readTurn, Quiet.read, some, size, sent, partly, all, nothing]

/-- Once the master is empty the loop spins. -/
theorem readTurn_spins (errno : Errno) (readData : List UInt8) :
    ¬ Loop.Terminates (readTurn Quiet.read) (⟨[], errno⟩, readData) :=
  Loop.not_terminates_of_invariant (fun s => s.1.pending = [])
    (by
      rintro ⟨⟨_, errno⟩, readData⟩ rfl
      exact ⟨_, readTurn_empty errno readData, rfl⟩) rfl

/-- The loop ends exactly when the pending bytes are no whole number of blocks,
and then it has read them all. -/
theorem readTurn_returns_iff {m m' : Quiet} {readData result : List UInt8} :
    Loop.Returns (readTurn Quiet.read) (m, readData) (m', result) ↔
      ¬ BUFFER_SIZE ∣ m.pending.length ∧ result = readData ++ m.pending ∧
        m' = { m with pending := [] } := by
  induction size : m.pending.length using Nat.strongRecOn generalizing m readData with
  | ind n ih =>
      subst size
      rcases Nat.lt_or_ge m.pending.length BUFFER_SIZE with short | full
      · rcases Decidable.em (m.pending = []) with empty | some
        · rcases m with ⟨pending, errno⟩
          subst empty
          constructor
          · exact fun returns => (readTurn_spins errno readData ⟨_, returns⟩).elim
          · rintro ⟨partly, -⟩
            exact (partly (Nat.dvd_zero BUFFER_SIZE)).elim
        · have partly : ¬ BUFFER_SIZE ∣ m.pending.length :=
            Nat.not_dvd_of_pos_of_lt (List.length_pos_iff.mpr some) short
          rw [Loop.returns_iff_of_inr (readTurn_last some short readData), Prod.mk.injEq]
          constructor
          · rintro ⟨master, all⟩
            exact ⟨partly, all, master⟩
          · rintro ⟨-, all, master⟩
            exact ⟨master, all⟩
      · have fewer : (m.pending.drop BUFFER_SIZE).length = m.pending.length - BUFFER_SIZE :=
          List.length_drop
        have smaller : m.pending.length - BUFFER_SIZE < m.pending.length :=
          Nat.sub_lt (Nat.lt_of_lt_of_le (by decide) full) (by decide)
        have rest := @ih _ (fewer ▸ smaller) { m with pending := m.pending.drop BUFFER_SIZE }
          (readData ++ m.pending.take BUFFER_SIZE) rfl
        have whole : BUFFER_SIZE ∣ m.pending.length - BUFFER_SIZE ↔
            BUFFER_SIZE ∣ m.pending.length :=
          Nat.dvd_sub_iff_left full (Nat.dvd_refl BUFFER_SIZE)
        rw [Loop.returns_iff_of_inl (readTurn_block full readData), rest, fewer, whole,
          List.append_assoc, List.take_append_drop]

/-- **When the read handler finishes.** With these bytes pending on a master at
which nothing more arrives, the handler ends with exactly them appended to
`m_shellReadBuffer` if and only if they are no whole number of blocks. -/
theorem activated_iff (p : UnixPty Quiet) :
    (∃ p', Activated Quiet.read p p' ∧
        p'.shellReadBuffer = p.shellReadBuffer ++ p.master.pending) ↔
      ¬ BUFFER_SIZE ∣ p.master.pending.length := by
  constructor
  · rintro ⟨_, ⟨master, readData, returns, -⟩, -⟩
    exact (readTurn_returns_iff.mp returns).1
  · intro partly
    refine ⟨_, ⟨_, _, readTurn_returns_iff.mpr ⟨partly, rfl, rfl⟩, rfl⟩, ?_⟩
    exact deliver_shellReadBuffer ..

/-- One full block: the handler does not come back. -/
theorem activated_full_block :
    ¬ ∃ p' : UnixPty Quiet,
      Activated Quiet.read ⟨⟨List.replicate 2048 0x61, .other 0⟩, [], 0⟩ p' ∧
        p'.shellReadBuffer = List.replicate 2048 0x61 := by
  rintro ⟨_, ⟨master, readData, returns, -⟩, -⟩
  refine (readTurn_returns_iff.mp returns).1 ?_
  change BUFFER_SIZE ∣ (List.replicate 2048 (0x61 : UInt8)).length
  rw [List.length_replicate]
  decide

end UnixPty

end WindTerm

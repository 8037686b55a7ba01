import Mathlib.Algebra.Group.Nat.Defs
import Mathlib.Data.Nat.Size

/-!
# The buffers of libssh

`buffer.c`, as far as channels and sockets use it: bytes are added behind those that
are there and passed at the front. `malloc` and `realloc` always give memory; what does
fail is a buffer that would grow over `BUFFER_SIZE_MAX`.
-/

namespace WindTerm.Libssh

/-- `BUFFER_SIZE_MAX`. -/
def bufferSizeMax : Nat := 0x10000000

/-- `struct ssh_buffer_struct`; `bytes` are those from `pos` up to `used`. -/
structure SshBuffer where
  pos : Nat
  bytes : List UInt8
  allocated : Nat
  deriving DecidableEq, Repr

namespace SshBuffer

/-- `ssh_buffer_new`. -/
def new : SshBuffer := { pos := 0, bytes := [], allocated := 64 }

variable (b : SshBuffer)

/-- `used`. -/
def used : Nat := b.pos + b.bytes.length

/-- `buffer_shift`. -/
def shift : SshBuffer := { b with pos := 0 }

/-- `realloc_buffer`, to the smallest power of two above what is needed. -/
def realloc (needed : Nat) : Option SshBuffer :=
  let needed := 2 ^ needed.size
  if bufferSizeMax < needed then none else some { b with allocated := needed }

/-- `memcpy` to the end, and the new `used`. -/
def append (data : List UInt8) : SshBuffer := { b with bytes := b.bytes ++ data }

/-- `ssh_buffer_add_data`; `none` when it returns -1. -/
def addData (data : List UInt8) : Option SshBuffer :=
  if b.allocated < b.used + data.length then
    (b.shift.realloc (b.shift.used + data.length)).map (·.append data)
  else some (b.append data)

/-- `ssh_buffer_pass_bytes`, with the bytes passed. -/
def passBytes (len : Nat) : SshBuffer × List UInt8 :=
  if b.used < b.pos + len then (b, [])
  else
    let pos := if b.pos + len = b.used then 0 else b.pos + len
    ({ b with pos, bytes := b.bytes.drop len }, b.bytes.take len)

/-! ## What the functions do to the bytes -/

variable {b} {b' : SshBuffer} {data : List UInt8} {len : Nat}

theorem addData_bytes (added : b.addData data = some b') : b'.bytes = b.bytes ++ data := by
  unfold addData realloc at added
  dsimp only at added
  split at added
  · split at added <;> cases added
    rfl
  · cases added
    rfl

/-- Bytes that stay below `BUFFER_SIZE_MAX` with those that are unread can be added. -/
theorem addData_room (room : b.bytes.length + data.length < bufferSizeMax) :
    ∃ b', b.addData data = some b' := by
  have needed : b.shift.used + data.length = b.bytes.length + data.length := by
    unfold used shift
    exact congrArg (· + data.length) (Nat.zero_add _)
  have size : 2 ^ (b.bytes.length + data.length).size ≤ bufferSizeMax := by
    have pow : bufferSizeMax = 2 ^ 28 := by decide
    rw [pow] at room ⊢
    exact Nat.pow_le_pow_right Nat.two_pos (Nat.size_le.mpr room)
  unfold addData realloc
  rw [needed]
  dsimp only
  rw [if_neg (Nat.not_lt.mpr size)]
  split
  · exact ⟨_, rfl⟩
  · exact ⟨_, rfl⟩

theorem passBytes_eq (enough : len ≤ b.bytes.length) :
    (b.passBytes len).2 = b.bytes.take len ∧ (b.passBytes len).1.bytes = b.bytes.drop len := by
  unfold passBytes used
  rw [if_neg (by omega)]
  exact ⟨rfl, rfl⟩

theorem passBytes_front (b : SshBuffer) (len : Nat) :
    b.bytes = (b.passBytes len).2 ++ (b.passBytes len).1.bytes := by
  unfold passBytes
  split
  · rfl
  · exact (List.take_append_drop len b.bytes).symm

end SshBuffer

end WindTerm.Libssh

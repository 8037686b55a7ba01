import WindTerm.Terminal.Basic
import Mathlib.Data.Int.Basic

/-!
# `SynchronizedBuffer`

The buffer of synchronised output. As in `TerminalMode`, each `ThreadLocker`
scope is a definition of its own. An operation reads the wall clock at most
once; `now` is the value `QDateTime::currentMSecsSinceEpoch()` has for it.
-/

namespace WindTerm

open Library

/-- What the compiler and the Qt version fix: `sizeof(BufferItem)`. -/
class Platform where
  sizeofBufferItem : Nat
  sizeof_pos : 0 < sizeofBufferItem

/-- A 64-bit build with Qt 6. -/
@[reducible] def Platform.qt6 : Platform := ⟨48, by decide⟩

/-- `SynchronizedBuffer::BufferItemType`. -/
inductive SynchronizedBuffer.BufferItemType where
  | textData
  | cursorMove
  | clearScreen
  | scrollRegion
  | attributeChange
  | resize
  deriving DecidableEq, Repr

/-- `SynchronizedBuffer::BufferItem`. -/
structure SynchronizedBuffer.BufferItem where
  type : SynchronizedBuffer.BufferItemType := .textData
  data : QByteArray := []
  param1 : Int := 0
  param2 : Int := 0
  timestamp : UInt64 := 0
  deriving DecidableEq, Repr

/-- The fields of `SynchronizedBuffer`. -/
structure SynchronizedBuffer where
  synchronizedMode : Bool := false
  buffer : List SynchronizedBuffer.BufferItem := []
  currentSize : Nat := 0
  maxBufferSize : Nat := 1024 * 1024
  syncStartTime : UInt64 := 0
  deriving DecidableEq, Repr

/-- The signals of `SynchronizedBuffer`. -/
inductive SynchronizedBuffer.Signal where
  | dataReady (items : List SynchronizedBuffer.BufferItem)
  | synchronizedModeChanged (enabled : Bool)
  | bufferOverflow
  deriving DecidableEq, Repr

namespace SynchronizedBuffer

/-- A state and what the thread did to reach it. -/
abbrev Step := Traced SynchronizedBuffer (Event Mutex Signal)

/-- `SYNC_TIMEOUT_MS`. -/
def syncTimeoutMs : UInt64 := 100

/-- `needsFlush`. The difference is one of `quint64` values. -/
def needsFlush (now : Int64) (b : SynchronizedBuffer) : Bool :=
  if b.maxBufferSize ≤ b.currentSize then true
  else if 0 < b.syncStartTime then
    decide (syncTimeoutMs ≤ now.toUInt64 - b.syncStartTime)
  else false

section

variable [Platform]

/-- `item.data.size() + sizeof(BufferItem)`. -/
def itemSize (item : BufferItem) : Nat := item.data.length + Platform.sizeofBufferItem

/-- The item as `appendItem` stores it. -/
def storedItem (item : BufferItem) (b : SynchronizedBuffer) : BufferItem :=
  if b.maxBufferSize < itemSize item then
    { item with data := item.data.take (b.maxBufferSize / 2) }
  else item

/-- `appendItem`. -/
def appendItem (item : BufferItem) (b : SynchronizedBuffer) :
    Bool × SynchronizedBuffer × List Signal :=
  if b.maxBufferSize ≤ b.currentSize then (false, b, [.bufferOverflow])
  else
    let stored := b.storedItem item
    (true, { b with buffer := b.buffer ++ [stored]
                    currentSize := b.currentSize + itemSize stored }, [])

/-- How the locked scope of `write` ends. -/
inductive WriteOutcome where
  | delivered
  | rejected
  | kept
  | flushNeeded
  deriving DecidableEq, Repr

/-- The locked scope of `write`, with the signals emitted inside it. -/
def writeSection (now : Int64) (item : BufferItem) (b : SynchronizedBuffer) :
    WriteOutcome × SynchronizedBuffer × List Signal :=
  if !b.synchronizedMode then (.delivered, b, [.dataReady [item]])
  else
    let r := b.appendItem item
    if !r.1 then (.rejected, r.2)
    else if r.2.1.needsFlush now then (.flushNeeded, r.2)
    else (.kept, r.2)

end

/-- The locked scope of `flush`: the items taken, and the new state. -/
def flushSection (b : SynchronizedBuffer) : List BufferItem × SynchronizedBuffer :=
  if b.buffer = [] then ([], b)
  else (b.buffer, { b with buffer := [], currentSize := 0 })

/-- The locked scope of `setSynchronizedMode`: whether the mode changed, and the
new state. -/
def setSynchronizedModeSection (now : Int64) (enabled : Bool) (b : SynchronizedBuffer) :
    Bool × SynchronizedBuffer :=
  if b.synchronizedMode = enabled then (false, b)
  else (true, { b with synchronizedMode := enabled
                       syncStartTime := if enabled then now.toUInt64 else 0 })

/-- `flush`. -/
def flush (b : SynchronizedBuffer) : Step :=
  let r := b.flushSection
  (r.2, critical .syncBuffer [] ++ if r.1 = [] then [] else [.act (.dataReady r.1)])

/-- `setSynchronizedMode`. -/
def setSynchronizedMode (now : Int64) (enabled : Bool) (b : SynchronizedBuffer) : Bool × Step :=
  let r := b.setSynchronizedModeSection now enabled
  if r.1 then
    (true, Traced.andThen
      (r.2, critical .syncBuffer [] ++ [.act (.synchronizedModeChanged enabled)])
      fun b => if enabled then (b, []) else b.flush)
  else (false, r.2, critical .syncBuffer [])

/-- `isSynchronized`. -/
def isSynchronized (b : SynchronizedBuffer) : Bool × List (Event Mutex Signal) :=
  (b.synchronizedMode, critical .syncBuffer [])

section

variable [Platform]

/-- `write`. -/
def write (now : Int64) (item : BufferItem) (b : SynchronizedBuffer) : Bool × Step :=
  let r := b.writeSection now item
  let inside := critical .syncBuffer (r.2.2.map .act)
  match r.1 with
  | .delivered => (true, r.2.1, inside)
  | .rejected => (false, r.2.1, inside)
  | .kept => (true, r.2.1, inside)
  | .flushNeeded => (true, Traced.andThen (r.2.1, inside) flush)

/-- `writeData`. -/
def writeData (now : Int64) (data : QByteArray) (b : SynchronizedBuffer) : Bool × Step :=
  b.write now { type := .textData, data := data }

end

/-- `clear`. -/
def clear (b : SynchronizedBuffer) : Step :=
  ({ b with buffer := [], currentSize := 0 }, critical .syncBuffer [])

/-- `bufferSize`. -/
def bufferSize (b : SynchronizedBuffer) : Nat × List (Event Mutex Signal) :=
  (b.currentSize, critical .syncBuffer [])

/-- `itemCount`. -/
def itemCount (b : SynchronizedBuffer) : Nat × List (Event Mutex Signal) :=
  (b.buffer.length, critical .syncBuffer [])

/-- `setMaxBufferSize`. -/
def setMaxBufferSize (maxSize : Nat) (b : SynchronizedBuffer) : Step :=
  ({ b with maxBufferSize := maxSize }, critical .syncBuffer [])

end SynchronizedBuffer

end WindTerm

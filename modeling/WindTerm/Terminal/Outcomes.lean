import WindTerm.Terminal.Calls
import WindTerm.Terminal.EntryWrites

/-!
# The outcome of writing entries

Two lists of entries are written from the same state. `writesAlike_strokes`
compares texts and strokes that stand in two groups with strokes in one:
the second text must leave nothing, and the strokes must look the same.
`writesAlike_cut` compares a text given in two parts with the whole: in normal
mode and in a full buffer it makes no difference, and below the limit the two parts
must be flushed like the whole (`CutFlushed`).
-/

namespace WindTerm

open Library CSIParser SynchronizedBuffer

namespace TerminalHandler

section

variable [Platform]

/-- What can be told of a stroke that is written: its signal and, unless a full
buffer rejects its item, the stroke itself. -/
def visible (b : SynchronizedBuffer) (s : Stroke) : Option Stroke × Signal :=
  (if b.synchronizedMode = true ∧ ¬ b.Below then none else some s, s.signal)

end

end TerminalHandler

end WindTerm

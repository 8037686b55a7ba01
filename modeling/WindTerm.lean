import WindTerm.Library.Loop
import WindTerm.Library.Traced
import WindTerm.Library.LockTrace
import WindTerm.Library.Batch
import WindTerm.Library.Words
import WindTerm.Library.Fuel
import WindTerm.Library.Threads
import WindTerm.Utility.Spin
import WindTerm.Utility.ThreadLocal
import WindTerm.Onigmo.BackwardSearch
import WindTerm.Onigmo.BackwardSearchSpec
import WindTerm.Onigmo.BackwardSearchRuns
import WindTerm.Terminal.Basic
import WindTerm.Terminal.CSIParser
import WindTerm.Terminal.CSIGrammar
import WindTerm.Terminal.CSIParserRuns
import WindTerm.Terminal.Recognition
import WindTerm.Terminal.TerminalMode
import WindTerm.Terminal.ModeSpec
import WindTerm.Terminal.ModeObserver
import WindTerm.Terminal.ModeThreads
import WindTerm.Terminal.SynchronizedBuffer
import WindTerm.Terminal.BufferSpec
import WindTerm.Terminal.BufferThreads
import WindTerm.Terminal.EmitOutsideLocks
import WindTerm.Terminal.TerminalHandler
import WindTerm.Terminal.CommandEffect
import WindTerm.Terminal.HandlerSpec
import WindTerm.Terminal.Entries
import WindTerm.Terminal.Rendering
import WindTerm.Terminal.InputSpec
import WindTerm.Terminal.Calls
import WindTerm.Terminal.InputItems
import WindTerm.Terminal.ProcessInput
import WindTerm.Terminal.LockOrder
import WindTerm.Terminal.ModeAgreement
import WindTerm.Terminal.SyncOutput
import WindTerm.Library.Spill
import WindTerm.Terminal.EntryWrites
import WindTerm.Terminal.Outcomes
import WindTerm.Terminal.Chunking
import WindTerm.Library.RingBuffer
import WindTerm.Library.Conservation
import WindTerm.Utility.CircularBuffer
import WindTerm.Terminal.Frames
import WindTerm.Terminal.BufferLimits
import WindTerm.Terminal.TextConservation
import WindTerm.Terminal.ParameterFields
import WindTerm.Terminal.FlushRequests
import WindTerm.Terminal.ModeLists
import WindTerm.Library.Ledger
import WindTerm.Pty.UnixPty
import WindTerm.Pty.ConPtyOutput
import WindTerm.Pty.Resize
import WindTerm.Pty.ConPty
import WindTerm.Pty.ConPtyResources
import WindTerm.Library.Along
import WindTerm.Utility.ThreadLocalWatch
import WindTerm.Utility.ThreadLocalOwnership
import WindTerm.Terminal.ToggleThreads
import WindTerm.Library.Scaling
import WindTerm.Widgets.ScrollBar
import WindTerm.Widgets.ScrollBarRange
import WindTerm.Library.QuickSearch
import WindTerm.Library.Attempts
import WindTerm.Onigmo.ForwardSearch
import WindTerm.Onigmo.ForwardSearchSpec
import WindTerm.Onigmo.ForwardSearchRuns
import WindTerm.Onigmo.RegexTree
import WindTerm.Onigmo.CompileTree
import WindTerm.Onigmo.CompileLength
import WindTerm.Library.Link
import WindTerm.Libssh.Buffer
import WindTerm.Libssh.Channel
import WindTerm.Libssh.ChannelSpec
import WindTerm.Libssh.ChannelRuns
import WindTerm.Library.Incremental
import WindTerm.Libssh.Packet
import WindTerm.Libssh.PacketSpec
import WindTerm.Libssh.PacketFrames
import WindTerm.Libssh.PacketRuns
import WindTerm.Libssh.PacketSafety

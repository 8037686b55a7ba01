import WindTerm.Library.Link
import WindTerm.Libssh.Buffer

/-!
# A channel of libssh

`channels.c`, from the moment a channel is open on both sides: what a program
does with its end (write, read, send an end of file, close) and what the packet
callbacks do with the messages of the other end. Windows and lengths are
`uint32_t`, which shows as `% 2 ^ 32` where a computation could leave them. A
call that waits handles packets while it does; it is in progress as long as it is
the `call` of its party. A read of a buffer that is not there any more has no defined
outcome and is no step.
-/

namespace WindTerm.Libssh

open Library

/-- `WINDOWBASE`. -/
def windowBase : Nat := 1280000

/-- `WINDOWLIMIT`. -/
def windowLimit : Nat := windowBase / 2

/-- `CHANNEL_MAX_PACKET`. -/
def channelMaxPacket : Nat := 32768

/-- `CHANNEL_INITIAL_WINDOW`. -/
def channelInitialWindow : Nat := 64000

/-- `is_stderr`. -/
inductive Stream where
  | stdout
  | stderr
  deriving DecidableEq, Repr

/-- The states of an open channel, of `enum ssh_channel_state_e`. -/
inductive ChannelState where
  | opened
  | closed
  deriving DecidableEq, Repr

/-- The messages of a channel: `SSH2_MSG_CHANNEL_DATA` or `_EXTENDED_DATA`,
`_WINDOW_ADJUST`, `_EOF` and `_CLOSE`. -/
inductive Message where
  | data (stream : Stream) (bytes : List UInt8)
  | windowAdjust (bytes : Nat)
  | eof
  | close
  deriving DecidableEq, Repr

/-- What there is to read in a buffer, if it is there. -/
def unread (buffer : Option SshBuffer) : List UInt8 := buffer.elim [] (·.bytes)

/-- The fields of `struct ssh_channel_struct`; `closedLocal` is the flag
`SSH_CHANNEL_FLAG_CLOSED_LOCAL`, and so on. A buffer may be `NULL`. -/
structure Channel where
  localWindow : Nat
  remoteWindow : Nat
  remoteMaxpacket : Nat
  stdoutBuffer : Option SshBuffer
  stderrBuffer : Option SshBuffer
  localEof : Bool
  remoteEof : Bool
  state : ChannelState
  delayedClose : Bool
  closedLocal : Bool
  closedRemote : Bool
  deriving DecidableEq, Repr

namespace Channel

/-- The channel that has just been opened. -/
def opened (localWindow remoteWindow remoteMaxpacket : Nat) : Channel where
  localWindow := localWindow
  remoteWindow := remoteWindow
  remoteMaxpacket := remoteMaxpacket
  stdoutBuffer := some .new
  stderrBuffer := some .new
  localEof := false
  remoteEof := false
  state := .opened
  delayedClose := false
  closedLocal := false
  closedRemote := false

variable (c : Channel)

/-- The buffer of a stream. -/
def sshBuffer : Stream → Option SshBuffer
  | .stdout => c.stdoutBuffer
  | .stderr => c.stderrBuffer

/-- What there is to read of a stream. -/
def buffer (stream : Stream) : List UInt8 := unread (c.sshBuffer stream)

/-- The channel with another buffer for a stream. -/
def setBuffer (buffer : Option SshBuffer) : Stream → Channel
  | .stdout => { c with stdoutBuffer := buffer }
  | .stderr => { c with stderrBuffer := buffer }

/-- `grow_window`, with the message sent. -/
def growWindow (minimumsize : Nat) : Channel × List Message :=
  let newWindow := if windowBase < minimumsize then minimumsize else windowBase
  if newWindow ≤ c.localWindow then (c, [])
  else ({ c with localWindow := newWindow }, [.windowAdjust (newWindow - c.localWindow)])

/-- `channel_rcv_change_window`. -/
def rcvChangeWindow (bytes : Nat) : Channel :=
  { c with remoteWindow := (c.remoteWindow + bytes) % 2 ^ 32 }

/-- `channel_default_bufferize`, with whether it succeeds: otherwise the buffer is freed. -/
def defaultBufferize (stream : Stream) (bytes : List UInt8) : Channel × Bool :=
  match ((c.sshBuffer stream).getD .new).addData bytes with
  | some buffer => (c.setBuffer (some buffer) stream, true)
  | none => (c.setBuffer none stream, false)

/-- `ssh_buffer_pass_bytes` on the buffer of a stream, with the bytes passed. -/
def passBytes (stream : Stream) (len : Nat) : Channel × List UInt8 :=
  match c.sshBuffer stream with
  | none => (c, [])
  | some buffer => (c.setBuffer (some (buffer.passBytes len).1) stream, (buffer.passBytes len).2)

/-- The data callbacks, which return the numbers `rests` one after the other, with
the bytes they took. -/
def dataFunctions (stream : Stream) (rests : List Nat) : Channel × List UInt8 :=
  rests.foldl (fun r rest =>
    let passed := r.1.passBytes stream rest
    (passed.1, r.2 ++ passed.2)) (c, [])

/-- What `channel_rcv_data` makes of the local window. -/
def takeFromWindow (len : Nat) : Channel :=
  { c with localWindow := if len ≤ c.localWindow then c.localWindow - len else 0 }

/-- The end of `channel_rcv_data`. -/
def growAfterData (stream : Stream) : Channel × List Message :=
  if (c.localWindow + (c.buffer stream).length) % 2 ^ 32 < windowLimit then c.growWindow 0
  else (c, [])

/-- `channel_rcv_eof`. -/
def rcvEof : Channel := { c with remoteEof := true }

/-- `channel_rcv_close`. -/
def rcvClose : Channel :=
  let c :=
    if 0 < (c.buffer .stdout).length ∨ 0 < (c.buffer .stderr).length then
      { c with delayedClose := true }
    else { c with state := .closed }
  { c with remoteEof := true, closedRemote := true }

/-- `maxpacketlen`. -/
def maxpacketlen : Nat := (c.remoteMaxpacket + 2 ^ 32 - 10) % 2 ^ 32

/-- `effectivelen`, for `len` bytes when the remote window is not 0 or not needed. -/
def effectivelen (len : Nat) : Nat :=
  min (if c.remoteWindow < len then min len c.remoteWindow else len) c.maxpacketlen

/-- `ssh_channel_send_eof`. -/
def sendEof : Channel × List Message :=
  if c.localEof then (c, []) else ({ c with localEof := true }, [.eof])

/-- `ssh_channel_close`. -/
def close : Channel × List Message :=
  if c.closedLocal then (c, [])
  else
    let r := c.sendEof
    ({ r.1 with state := .closed, closedLocal := true }, r.2 ++ [.close])

/-- The checks of `channel_write_common` before its loop. -/
def writable (len : Nat) : Prop :=
  len < 2 ^ 31 ∧ c.localEof = false ∧ c.state = .opened ∧ c.delayedClose = false

instance (len : Nat) : Decidable (c.writable len) :=
  inferInstanceAs (Decidable (_ ∧ _ ∧ _ ∧ _))

/-- The first part of `ssh_channel_read_timeout`, up to where it waits. -/
def growForRead (stream : Stream) (count : Nat) : Channel × List Message :=
  if ((c.buffer stream).length + c.localWindow) % 2 ^ 32 < count then
    c.growWindow ((count + 2 ^ 32 - (c.buffer stream).length) % 2 ^ 32)
  else (c, [])

/-- The end of `ssh_channel_read_timeout`. -/
def growAfterRead : Channel × List Message :=
  if c.localWindow < windowLimit then c.growWindow 0 else (c, [])

end Channel

/-- A call in progress: a write with the bytes that are not sent yet, a read, or a read
whose buffer was freed meanwhile. -/
inductive Call where
  | write (stream : Stream) (data : List UInt8)
  | read (stream : Stream) (count : Nat)
  | readFreed
  deriving DecidableEq, Repr

/-- An end of the channel: the call in progress, and the bytes handed to the program or
its callbacks. -/
structure Party where
  channel : Channel
  call : Option Call
  got : Stream → List UInt8

/-- What a program does, and what happens in a call: `ssh_channel_write` and
`ssh_channel_read` begin, a write sends a packet or returns, a read returns. -/
inductive Act where
  | write (stream : Stream) (data : List UInt8)
  | send
  | endWrite
  | read (stream : Stream) (count : Nat)
  | endRead
  | sendEof
  | close
  deriving DecidableEq, Repr

/-- A stream with more bytes. -/
def extend (f : Stream → List UInt8) (stream : Stream) (bytes : List UInt8) (t : Stream) :
    List UInt8 :=
  if t = stream then f t ++ bytes else f t

namespace Party

variable (p : Party)

/-- A party whose channel has just been opened. -/
def opened (localWindow remoteWindow remoteMaxpacket : Nat) : Party where
  channel := .opened localWindow remoteWindow remoteMaxpacket
  call := none
  got _ := []

/-- The party with what a function of the channel leaves. -/
def onChannel (r : Channel × List Message) : Party × List Message :=
  ({ p with channel := r.1 }, r.2)

/-- A turn of the loop of `channel_write_common` that sends a packet. -/
def sendPacket (stream : Stream) (data : List UInt8) : Party × List Message :=
  let effectivelen := p.channel.effectivelen data.length
  let bytes := data.take effectivelen
  ({ p with
      channel := { p.channel with remoteWindow := p.channel.remoteWindow - effectivelen }
      call := some (.write stream (data.drop effectivelen)) },
    [.data stream bytes])

/-- What `ssh_channel_read_timeout` does when it has waited: it reports the end of
file or an error, or takes what is there. -/
def endRead (stream : Stream) (count : Nat) : Party × List Message :=
  let c := p.channel
  if (c.remoteEof ∧ c.buffer stream = []) ∨ c.state = .closed then ({ p with call := none }, [])
  else
    let len := min (c.buffer stream).length count
    let r := c.passBytes stream len
    { p with call := none, got := extend p.got stream r.2 }.onChannel r.1.growAfterRead

/-- What can happen at an end by itself. A write waits while the remote window is 0,
may give up then, and does so when the channel is closed; a read may end at any
time, as it does in non-blocking mode. -/
def act : Act → Option (Party × List Message)
  | .write stream data =>
      if p.call = none then
        if p.channel.writable data.length then
          some ({ p with call := some (.write stream data) }, [])
        else some (p, [])
      else none
  | .send =>
      match p.call with
      | some (.write stream data) =>
          if data ≠ [] ∧ 0 < p.channel.remoteWindow ∧ p.channel.state = .opened then
            some (p.sendPacket stream data)
          else none
      | _ => none
  | .endWrite =>
      match p.call with
      | some (.write _ data) =>
          if data = [] ∨ p.channel.remoteWindow = 0 ∨ p.channel.state = .closed then
            some ({ p with call := none }, [])
          else none
      | _ => none
  | .read stream count =>
      if p.call = none ∧ count < 2 ^ 32 then
        if count = 0 then some (p, [])
        else if (p.channel.sshBuffer stream).isSome then
          some ({ p with call := some (.read stream count) }.onChannel
            (p.channel.growForRead stream count))
        else none
      else none
  | .endRead =>
      match p.call with
      | some (.read stream count) => some (p.endRead stream count)
      | _ => none
  | .sendEof => if p.call = none then some (p.onChannel p.channel.sendEof) else none
  | .close => if p.call = none then some (p.onChannel p.channel.close) else none

/-- The call in progress when the buffer of a stream has been freed. -/
def callOnFreed (stream : Stream) : Option Call :=
  match p.call with
  | some (.read s count) => some (if s = stream then .readFreed else .read s count)
  | call => call

/-- `channel_rcv_data`, where the callbacks return `rests`. -/
def rcvData (stream : Stream) (bytes : List UInt8) (rests : List Nat) : Party × List Message :=
  let r := p.channel.defaultBufferize stream bytes
  if r.2 then
    let r := (r.1.takeFromWindow bytes.length).dataFunctions stream rests
    { p with got := extend p.got stream r.2 }.onChannel (r.1.growAfterData stream)
  else ({ p with channel := r.1, call := p.callOnFreed stream }, [])

/-- The packet callback of a message. -/
def handle (m : Message) (rests : List Nat) : Party × List Message :=
  match m with
  | .data stream bytes => p.rcvData stream bytes rests
  | .windowAdjust bytes => ({ p with channel := p.channel.rcvChangeWindow bytes }, [])
  | .eof => ({ p with channel := p.channel.rcvEof }, [])
  | .close => ({ p with channel := p.channel.rcvClose }, [])

end Party

/-- Two ends of a channel, each libssh. -/
def channelProtocol : Protocol Party Message Act (List Nat) where
  act := Party.act
  handle := Party.handle

/-- What the two ends agreed on when the channel was opened: the window of each, and
the packet size that each heard from the other, which a buffer has room for. -/
structure Opening where
  window : Side → Nat
  maxpacket : Side → Nat
  windowOpen : ∀ s, 0 < window s
  windowFits : ∀ s, window s < 2 ^ 32
  packetRoom : ∀ s, 10 < maxpacket s
  packetFits : ∀ s, maxpacket s < bufferSizeMax

/-- The ends of a channel that has just been opened. -/
def Opening.parties (o : Opening) (s : Side) : Party :=
  .opened (o.window s) (o.window s.other) (o.maxpacket s)

/-- A session channel when the confirmation of `ssh_channel_open_session` has arrived:
`near` opened the channel, and `far` accepted it in
`ssh_message_channel_request_open_reply_accept_channel`. -/
def sessionOpening : Opening where
  window
    | .near => channelInitialWindow
    | .far => 32000
  maxpacket
    | .near => 35000
    | .far => channelMaxPacket
  windowOpen s := by cases s <;> decide
  windowFits s := by cases s <;> decide
  packetRoom s := by cases s <;> decide
  packetFits s := by cases s <;> decide

end WindTerm.Libssh

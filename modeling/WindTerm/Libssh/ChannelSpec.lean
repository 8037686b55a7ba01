import Mathlib.Order.Basic
import Mathlib.Data.List.Induction
import WindTerm.Libssh.Channel

/-!
# What an end of a channel keeps in order

`Accounts` relates a party to the messages it received and sent and to what its
program asked to be written: its two windows, the bytes of each stream, the order of
its messages. Every act keeps it (`Accounts.act`), and so does every message that the
window of the party allows (`Accounts.handle`). As long as the buffers of the party
have room for the data that comes, it is also `Kept`: no byte is lost, the local
window is exact, and the party is ready to take more.
-/

namespace WindTerm.Libssh

open Library
open Library.Link (total total_nil total_append total_singleton total_prefix)

/-! ## Messages -/

namespace Message

/-- How many bytes of data the message carries. -/
def dataLen : Message → Nat
  | .data _ bytes => bytes.length
  | _ => 0

/-- By how much the message grows the window of its receiver. -/
def credit : Message → Nat
  | .windowAdjust bytes => bytes
  | _ => 0

/-- What the message carries of a stream. -/
def bytesOf (stream : Stream) : Message → List UInt8
  | .data s bytes => if s = stream then bytes else []
  | _ => []

/-- The message carries data. -/
def isData : Message → Bool
  | .data .. => true
  | _ => false

end Message

/-- What some messages carry of a stream. -/
def streamBytes (stream : Stream) (ms : List Message) : List UInt8 :=
  ms.flatMap (·.bytesOf stream)

@[simp] theorem streamBytes_append (stream : Stream) (ms ms' : List Message) :
    streamBytes stream (ms ++ ms') = streamBytes stream ms ++ streamBytes stream ms' :=
  List.flatMap_append

@[simp] theorem streamBytes_singleton (stream : Stream) (m : Message) :
    streamBytes stream [m] = m.bytesOf stream := by
  simp [streamBytes]

theorem mem_of_mem_snoc {a m : Message} {ms : List Message} (other : a ≠ m)
    (mem : a ∈ ms ++ [m]) : a ∈ ms :=
  (List.mem_append.mp mem).resolve_right fun last => other (List.mem_singleton.mp last)

/-- What an end sends: packets with data, none over the limit, none behind the end of
file, which comes before a close. -/
structure WellSent (maxpacket : Nat) (sent : List Message) : Prop where
  packets : ∀ stream bytes, .data stream bytes ∈ sent →
    0 < bytes.length ∧ bytes.length + 10 ≤ maxpacket
  dataBeforeEof : sent.Pairwise fun a b => a = .eof → b.isData = false
  closeBehindEof : ∀ before, before ++ [.close] <+: sent → .eof ∈ before

namespace WellSent

variable {maxpacket : Nat} {sent : List Message}

theorem nil : WellSent maxpacket [] where
  packets _ _ mem := by cases mem
  dataBeforeEof := List.Pairwise.nil
  closeBehindEof before starts := by
    have empty := List.prefix_nil.mp starts
    simp at empty

/-- One more message. -/
theorem snoc (well : WellSent maxpacket sent) {m : Message}
    (packet : ∀ stream bytes, m = .data stream bytes →
      0 < bytes.length ∧ bytes.length + 10 ≤ maxpacket ∧ .eof ∉ sent)
    (close : m = .close → .eof ∈ sent) : WellSent maxpacket (sent ++ [m]) where
  packets stream bytes mem := by
    rcases List.mem_append.mp mem with before | last
    · exact well.packets stream bytes before
    · rcases packet stream bytes (List.mem_singleton.mp last).symm with ⟨some, fits, -⟩
      exact ⟨some, fits⟩
  dataBeforeEof := by
    rw [List.pairwise_append]
    refine ⟨well.dataBeforeEof, List.pairwise_singleton .., fun a mem b last eof => ?_⟩
    rw [List.mem_singleton.mp last]
    cases m with
    | data stream bytes => exact ((packet stream bytes rfl).2.2 (eof ▸ mem)).elim
    | windowAdjust n => rfl
    | eof => rfl
    | close => rfl
  closeBehindEof before starts := by
    rcases List.prefix_concat_iff.mp starts with same | starts
    · rcases List.append_inj' same rfl |>.imp id List.singleton_inj.mp with ⟨rfl, rfl⟩
      exact close rfl
    · exact well.closeBehindEof before starts

end WellSent

/-! ## Functions of the channel -/

/-- The two streams have different buffers. -/
theorem sshBuffer_setBuffer (c : Channel) (b : Option SshBuffer) (s t : Stream) :
    (c.setBuffer b s).sshBuffer t = if t = s then b else c.sshBuffer t := by
  cases s <;> cases t <;> rfl

theorem buffer_setBuffer (c : Channel) (b : Option SshBuffer) (s t : Stream) :
    (c.setBuffer b s).buffer t = if t = s then unread b else c.buffer t := by
  cases s <;> cases t <;> rfl

theorem setBuffer_self (c : Channel) (s : Stream) : c.setBuffer (c.sshBuffer s) s = c := by
  cases s <;> rfl

theorem setBuffer_setBuffer (c : Channel) (b b' : Option SshBuffer) (s : Stream) :
    (c.setBuffer b s).setBuffer b' s = c.setBuffer b' s := by
  cases s <;> rfl

/-- The data that arrives for a stream is below `BUFFER_SIZE_MAX` with what is unread. -/
def Channel.HasRoom (c : Channel) (stream : Stream) (bytes : List UInt8) : Prop :=
  (c.buffer stream).length + bytes.length < bufferSizeMax

/-- The two ways `channel_default_bufferize` goes. -/
theorem defaultBufferize_cases (c : Channel) (stream : Stream) (bytes : List UInt8) :
    (∃ b, c.defaultBufferize stream bytes = (c.setBuffer (some b) stream, true) ∧
        b.bytes = c.buffer stream ++ bytes) ∨
      (c.defaultBufferize stream bytes = (c.setBuffer none stream, false) ∧
        ¬ c.HasRoom stream bytes) := by
  have old : ((c.sshBuffer stream).getD .new).bytes = c.buffer stream := by
    unfold Channel.buffer unread
    cases c.sshBuffer stream <;> rfl
  unfold Channel.defaultBufferize
  cases added : ((c.sshBuffer stream).getD .new).addData bytes with
  | some b => exact Or.inl ⟨b, rfl, old ▸ SshBuffer.addData_bytes added⟩
  | none =>
      refine Or.inr ⟨rfl, fun room => ?_⟩
      unfold Channel.HasRoom at room
      rw [← old] at room
      rcases SshBuffer.addData_room room with ⟨b, some⟩
      rw [added] at some
      cases some

/-- What comes off the front of a buffer leaves the rest in it. -/
structure Takes (c : Channel) (stream : Stream) (r : Channel × List UInt8)
    (b : Option SshBuffer) : Prop where
  channel : r.1 = c.setBuffer b stream
  front : c.buffer stream = r.2 ++ unread b
  there : b.isSome = (c.sshBuffer stream).isSome

theorem passBytes_takes (c : Channel) (stream : Stream) (len : Nat) :
    ∃ b, Takes c stream (c.passBytes stream len) b := by
  unfold Channel.passBytes
  cases is : c.sshBuffer stream with
  | none =>
      have same : c.setBuffer none stream = c := by
        rw [← is]
        exact setBuffer_self c stream
      refine ⟨none, same.symm, ?_, by rw [is]⟩
      rw [Channel.buffer, is]
      rfl
  | some b =>
      refine ⟨some (b.passBytes len).1, rfl, ?_, by rw [is]; rfl⟩
      rw [Channel.buffer, is]
      exact b.passBytes_front len

/-- All that is unread can be taken. -/
theorem passBytes_all (c : Channel) (stream : Stream) :
    (c.passBytes stream (c.buffer stream).length).1.buffer stream = [] := by
  unfold Channel.passBytes
  cases is : c.sshBuffer stream with
  | none => exact congrArg unread is
  | some b =>
      have all : c.buffer stream = b.bytes := congrArg unread is
      dsimp only
      rw [buffer_setBuffer, if_pos rfl, all]
      exact (SshBuffer.passBytes_eq (Nat.le_refl _)).2.trans (List.drop_length ..)

/-- What bounds the length of a packet. -/
structure EffectiveLen (c : Channel) (len n : Nat) : Prop where
  some : 0 < n
  bytes : n ≤ len
  window : n ≤ c.remoteWindow
  packet : n + 10 ≤ c.remoteMaxpacket

theorem effectivelen_spec {c : Channel} (room : 10 < c.remoteMaxpacket)
    (fits : c.remoteMaxpacket < 2 ^ 32) {data : List UInt8} (more : data ≠ [])
    (window : 0 < c.remoteWindow) :
    EffectiveLen c data.length (c.effectivelen data.length) := by
  have len : 0 < data.length := List.length_pos_iff.mpr more
  have maxpacketlen : c.maxpacketlen = c.remoteMaxpacket - 10 := by
    unfold Channel.maxpacketlen
    omega
  unfold Channel.effectivelen
  rw [maxpacketlen]
  split
  · constructor <;> omega
  · constructor <;> omega

theorem effectivelen_eq {c : Channel} {len : Nat} (window : len ≤ c.remoteWindow)
    (packet : len ≤ c.maxpacketlen) : c.effectivelen len = len := by
  unfold Channel.effectivelen
  rw [if_neg (Nat.not_lt.mpr window)]
  exact Nat.min_eq_left packet

/-- How much is buffered. -/
def Channel.buffered (c : Channel) : Nat := (c.buffer .stdout).length + (c.buffer .stderr).length

theorem length_buffer_le (c : Channel) (s : Stream) : (c.buffer s).length ≤ c.buffered := by
  cases s
  · exact Nat.le_add_right ..
  · exact Nat.le_add_left ..

/-- What a function that may grow the window leaves: the channel with the window it
announces, which is a `uint32_t`. -/
structure Grows (c : Channel) (r : Channel × List Message) : Prop where
  channel : r.1 = { c with localWindow := c.localWindow + total Message.credit r.2 }
  adjusts : r.2 = [] ∨ ∃ n, 0 < n ∧ r.2 = [.windowAdjust n]
  fits : c.localWindow < 2 ^ 32 → c.localWindow + total Message.credit r.2 < 2 ^ 32

theorem Grows.refl (c : Channel) : Grows c (c, []) := ⟨rfl, Or.inl rfl, id⟩

theorem growWindow_grows (c : Channel) {minimumsize : Nat} (small : minimumsize < 2 ^ 32) :
    Grows c (c.growWindow minimumsize) := by
  have base : windowBase < 2 ^ 32 := by decide
  unfold Channel.growWindow
  dsimp only
  generalize new : (if windowBase < minimumsize then minimumsize else windowBase) = newWindow
  have newFits : newWindow < 2 ^ 32 := by
    rw [← new]
    split <;> omega
  split
  · exact .refl c
  · rename_i above
    have sum : c.localWindow + (newWindow - c.localWindow) = newWindow := by omega
    refine ⟨?_, Or.inr ⟨newWindow - c.localWindow, by omega, rfl⟩, fun _ => ?_⟩
    · rw [total_singleton]
      change _ = { c with localWindow := c.localWindow + (newWindow - c.localWindow) }
      rw [sum]
    · rw [total_singleton]
      change c.localWindow + (newWindow - c.localWindow) < 2 ^ 32
      omega

theorem windowBase_le_growWindow (c : Channel) (minimumsize : Nat) :
    windowBase ≤ (c.growWindow minimumsize).1.localWindow := by
  unfold Channel.growWindow
  dsimp only
  generalize new : (if windowBase < minimumsize then minimumsize else windowBase) = newWindow
  have base : windowBase ≤ newWindow := by
    rw [← new]
    split <;> omega
  split
  · rename_i enough
    exact Nat.le_trans base enough
  · exact base

theorem growForRead_grows (c : Channel) (stream : Stream) (count : Nat) :
    Grows c (c.growForRead stream count) := by
  unfold Channel.growForRead
  split
  · exact growWindow_grows c (Nat.mod_lt _ (by decide))
  · exact .refl c

/-- A read that finds nothing leaves a window. -/
theorem growForRead_pos {c : Channel} {stream : Stream} (empty : c.buffer stream = [])
    (fits : c.localWindow < 2 ^ 32) : 0 < (c.growForRead stream 1).1.localWindow := by
  unfold Channel.growForRead
  split
  · exact Nat.lt_of_lt_of_le (by decide) (windowBase_le_growWindow ..)
  · rename_i some
    rw [empty, List.length_nil, Nat.zero_add, Nat.mod_eq_of_lt fits] at some
    exact Nat.le_of_not_lt some

theorem growAfterRead_grows (c : Channel) : Grows c c.growAfterRead := by
  unfold Channel.growAfterRead
  split
  · exact growWindow_grows c (by decide)
  · exact .refl c

theorem growAfterData_grows (c : Channel) (stream : Stream) : Grows c (c.growAfterData stream) := by
  unfold Channel.growAfterData
  split
  · exact growWindow_grows c (by decide)
  · exact .refl c

/-- After a read that took what was there, the window is at least half open. -/
theorem windowLimit_le_growAfterRead (c : Channel) :
    windowLimit ≤ c.growAfterRead.1.localWindow := by
  unfold Channel.growAfterRead
  split
  · have base := windowBase_le_growWindow c 0
    have half : windowLimit ≤ windowBase := by decide
    omega
  · rename_i open_
    exact Nat.le_of_not_lt open_

/-- After data, the window and the buffers hold that much together. -/
theorem windowLimit_le_growAfterData (c : Channel) (stream : Stream) :
    windowLimit ≤ (c.growAfterData stream).1.localWindow + (c.growAfterData stream).1.buffered := by
  unfold Channel.growAfterData
  split
  · have base := windowBase_le_growWindow c 0
    have half : windowLimit ≤ windowBase := by decide
    omega
  · rename_i open_
    have room := length_buffer_le c stream
    have wraps := Nat.mod_le (c.localWindow + (c.buffer stream).length) (2 ^ 32)
    dsimp only
    omega

/-- The callbacks take bytes from the front of the buffer of their stream. -/
theorem dataFunctions_takes (c : Channel) (stream : Stream) (rests : List Nat) :
    ∃ b, Takes c stream (c.dataFunctions stream rests) b := by
  unfold Channel.dataFunctions
  induction rests using List.reverseRecOn with
  | nil => exact ⟨c.sshBuffer stream, (setBuffer_self c stream).symm, rfl, rfl⟩
  | append_singleton rests rest ih =>
      rcases ih with ⟨b, took⟩
      rw [List.foldl_append]
      generalize rests.foldl _ (c, []) = r at took
      rcases passBytes_takes r.1 stream rest with ⟨b', more⟩
      have left : r.1.buffer stream = unread b := by
        rw [took.channel, buffer_setBuffer, if_pos rfl]
      have there : (r.1.sshBuffer stream).isSome = b.isSome := by
        rw [took.channel, sshBuffer_setBuffer, if_pos rfl]
      refine ⟨b', ?_, ?_, ?_⟩
      · change (r.1.passBytes stream rest).1 = _
        rw [more.channel, took.channel, setBuffer_setBuffer]
      · change _ = (r.2 ++ (r.1.passBytes stream rest).2) ++ unread b'
        rw [took.front, ← left, more.front, List.append_assoc]
      · exact more.there.trans (there.trans took.there)

/-! ## Acts -/

/-- What the write in progress has not sent of a stream. -/
def Party.unsent (p : Party) (stream : Stream) : List UInt8 :=
  match p.call with
  | some (.write s data) => if s = stream then data else []
  | _ => []

/-- What a program has asked to be written, behind an act. A write that is taken up adds
its data; one that ends early returns how much it wrote, and the rest is not asked for
any more. -/
def Party.askedBehind (p : Party) (x : Act) (asked : Stream → List UInt8) (t : Stream) :
    List UInt8 :=
  match x with
  | .write stream data =>
      if p.call = none ∧ p.channel.writable data.length then extend asked stream data t
      else asked t
  | .endWrite => (asked t).take ((asked t).length - (p.unsent t).length)
  | _ => asked t

/-- The ways an end goes on by itself, with what it sends. -/
inductive Party.Goes (p : Party) : Act → Party → List Message → Prop where
  | refuses (x : Act) (same : ∀ asked, p.askedBehind x asked = asked) : p.Goes x p []
  | writes (stream : Stream) (data : List UInt8) (idle : p.call = none)
      (writable : p.channel.writable data.length) :
      p.Goes (.write stream data) { p with call := some (.write stream data) } []
  | sends (stream : Stream) (data : List UInt8) (call : p.call = some (.write stream data))
      (more : data ≠ []) (window : 0 < p.channel.remoteWindow) :
      p.Goes .send (p.sendPacket stream data).1 (p.sendPacket stream data).2
  | givesUp : p.Goes .endWrite { p with call := none } []
  | reads (stream : Stream) (count : Nat) (idle : p.call = none) :
      p.Goes (.read stream count) { p with
          channel := (p.channel.growForRead stream count).1
          call := some (.read stream count) }
        (p.channel.growForRead stream count).2
  | returns (stream : Stream) (count : Nat) (reading : p.call = some (.read stream count)) :
      p.Goes .endRead { p with call := none } []
  | takes (stream : Stream) (count len : Nat) (reading : p.call = some (.read stream count)) :
      p.Goes .endRead { p with
          channel := (p.channel.passBytes stream len).1.growAfterRead.1
          call := none
          got := extend p.got stream (p.channel.passBytes stream len).2 }
        (p.channel.passBytes stream len).1.growAfterRead.2
  | ends (idle : p.call = none) :
      p.Goes .sendEof (p.onChannel p.channel.sendEof).1 (p.onChannel p.channel.sendEof).2
  | closes (idle : p.call = none) :
      p.Goes .close (p.onChannel p.channel.close).1 (p.onChannel p.channel.close).2

theorem endRead_goes {p : Party} {stream : Stream} {count : Nat}
    (reading : p.call = some (.read stream count)) :
    p.Goes .endRead (p.endRead stream count).1 (p.endRead stream count).2 := by
  unfold Party.endRead
  dsimp only
  split
  · exact .returns stream count reading
  · exact .takes stream count _ reading

theorem act_goes {p p' : Party} {x : Act} {ms : List Message} (acts : p.act x = some (p', ms)) :
    p.Goes x p' ms := by
  unfold Party.act at acts
  cases x with
  | write stream data =>
      dsimp only at acts
      split at acts
      · rename_i idle
        split at acts
        · rename_i writable
          cases acts
          exact .writes stream data idle writable
        · rename_i unwritable
          cases acts
          exact .refuses _ fun asked => funext fun t => if_neg fun both => unwritable both.2
      · cases acts
  | send =>
      dsimp only at acts
      split at acts
      · rename_i stream data call
        split at acts
        · rename_i goes
          cases acts
          exact .sends stream data call goes.1 goes.2.1
        · cases acts
      · cases acts
  | endWrite =>
      dsimp only at acts
      split at acts
      · split at acts <;> cases acts
        exact .givesUp
      · cases acts
  | read stream count =>
      dsimp only at acts
      split at acts
      · rename_i idle
        split at acts
        · cases acts
          exact .refuses _ fun _ => rfl
        · split at acts <;> cases acts
          exact .reads stream count idle.1
      · cases acts
  | endRead =>
      dsimp only at acts
      split at acts
      · rename_i stream count call
        have ends := endRead_goes call
        rw [Option.some.injEq] at acts
        rwa [acts] at ends
      · cases acts
  | sendEof =>
      dsimp only at acts
      split at acts
      · rename_i idle
        cases acts
        exact .ends idle
      · cases acts
  | close =>
      dsimp only at acts
      split at acts
      · rename_i idle
        cases acts
        exact .closes idle
      · cases acts

theorem act_write {p : Party} {stream : Stream} {data : List UInt8} (idle : p.call = none)
    (writable : p.channel.writable data.length) :
    p.act (.write stream data) = some ({ p with call := some (.write stream data) }, []) :=
  (if_pos idle).trans (if_pos writable)

theorem act_send {p : Party} {stream : Stream} {data : List UInt8}
    (call : p.call = some (.write stream data)) (more : data ≠ [])
    (window : 0 < p.channel.remoteWindow) (state : p.channel.state = .opened) :
    p.act .send = some (p.sendPacket stream data) := by
  unfold Party.act
  dsimp only
  rw [call]
  exact if_pos ⟨more, window, state⟩

/-! ## Data that arrives -/

/-- The data of a message finds room. -/
def Party.HasRoom (p : Party) : Message → Prop
  | .data stream bytes => p.channel.HasRoom stream bytes
  | _ => True

/-- What `channel_rcv_data` leaves when there is room: the data behind the unread bytes,
of which the callbacks take some from the front. -/
structure Party.Takes (p : Party) (stream : Stream) (bytes : List UInt8) (rests : List Nat)
    (b : Option SshBuffer) (front : List UInt8) : Prop where
  party : p.rcvData stream bytes rests =
    { p with got := extend p.got stream front }.onChannel
      (((p.channel.takeFromWindow bytes.length).setBuffer b stream).growAfterData stream)
  bytes : p.channel.buffer stream ++ bytes = front ++ unread b
  there : b.isSome = true

theorem takeFromWindow_setBuffer (c : Channel) (b : Option SshBuffer) (s : Stream) (len : Nat) :
    (c.setBuffer b s).takeFromWindow len = (c.takeFromWindow len).setBuffer b s := by
  cases s <;> rfl

/-- The two ways `channel_rcv_data` goes. -/
theorem rcvData_cases (p : Party) (stream : Stream) (bytes : List UInt8) (rests : List Nat) :
    (∃ b front, p.Takes stream bytes rests b front) ∨
      (¬ p.channel.HasRoom stream bytes ∧ p.rcvData stream bytes rests =
        ({ p with
            channel := p.channel.setBuffer none stream
            call := p.callOnFreed stream }, [])) := by
  rcases defaultBufferize_cases p.channel stream bytes with ⟨b, is, added⟩ | ⟨is, full⟩
  · obtain ⟨b', took⟩ :=
      dataFunctions_takes ((p.channel.setBuffer (some b) stream).takeFromWindow bytes.length)
        stream rests
    rw [takeFromWindow_setBuffer] at took
    refine Or.inl ⟨b', (((p.channel.takeFromWindow bytes.length).setBuffer (some b)
      stream).dataFunctions stream rests).2, ?_, ?_, ?_⟩
    · unfold Party.rcvData
      rw [is]
      dsimp only
      rw [if_pos rfl, takeFromWindow_setBuffer, took.channel, setBuffer_setBuffer]
    · have front := took.front
      rw [buffer_setBuffer, if_pos rfl] at front
      exact added.symm.trans front
    · have there := took.there
      rw [sshBuffer_setBuffer, if_pos rfl] at there
      exact there
  · refine Or.inr ⟨full, ?_⟩
    unfold Party.rcvData
    rw [is]
    rfl

/-- A window that is half open with the buffer does not grow. -/
theorem growAfterData_quiet {c : Channel} {stream : Stream}
    (fits : c.localWindow + (c.buffer stream).length < 2 ^ 32)
    (half : windowLimit ≤ c.localWindow + (c.buffer stream).length) :
    c.growAfterData stream = (c, []) := by
  unfold Channel.growAfterData
  rw [Nat.mod_eq_of_lt fits, if_neg (Nat.not_lt.mpr half)]

/-- Data that keeps the window and the buffer half open is not answered. -/
theorem rcvData_quiet {p : Party} {stream : Stream} {bytes : List UInt8}
    (window : bytes.length ≤ p.channel.localWindow)
    (fits : p.channel.localWindow + (p.channel.buffer stream).length < 2 ^ 32)
    (half : windowLimit ≤ p.channel.localWindow + (p.channel.buffer stream).length)
    (room : p.channel.HasRoom stream bytes) : (p.rcvData stream bytes []).2 = [] := by
  unfold Party.rcvData
  dsimp only
  rcases defaultBufferize_cases p.channel stream bytes with ⟨b, is, added⟩ | ⟨-, full⟩
  · rw [is]
    dsimp only
    rw [if_pos rfl]
    have left : ((p.channel.setBuffer (some b) stream).takeFromWindow bytes.length).localWindow =
        p.channel.localWindow - bytes.length := by
      cases stream <;> exact if_pos window
    have own : ((p.channel.setBuffer (some b) stream).takeFromWindow bytes.length).buffer stream =
        p.channel.buffer stream ++ bytes := by
      rw [takeFromWindow_setBuffer, buffer_setBuffer, if_pos rfl]
      exact added
    have sum : p.channel.localWindow - bytes.length + (p.channel.buffer stream ++ bytes).length =
        p.channel.localWindow + (p.channel.buffer stream).length := by
      rw [List.length_append]
      omega
    have quiet := growAfterData_quiet
      (c := (p.channel.setBuffer (some b) stream).takeFromWindow bytes.length)
      (by rwa [left, own, sum]) (by rwa [left, own, sum])
    exact congrArg Prod.snd quiet
  · exact (full room).elim

/-! ## The accounts of an end -/

/-- What relates an end to its messages and to what its program asked to be written.
`window₀` and `remote₀` are the windows of the open channel, `maxpacket` is the packet
size of the other end. -/
structure Accounts (window₀ remote₀ maxpacket : Nat) (asked : Stream → List UInt8) (p : Party)
    (received sent : List Message) : Prop where
  remoteWindow : p.channel.remoteWindow + total Message.dataLen sent =
    remote₀ + total Message.credit received
  localWindow : window₀ + total Message.credit sent ≤
    p.channel.localWindow + total Message.dataLen received
  windowFits : p.channel.localWindow < 2 ^ 32
  remoteMaxpacket : p.channel.remoteMaxpacket = maxpacket
  asked : ∀ stream, asked stream = streamBytes stream sent ++ p.unsent stream
  wellSent : WellSent maxpacket sent
  localEof : p.channel.localEof = true ↔ .eof ∈ sent
  remoteEof : p.channel.remoteEof = true → .eof ∈ received
  writing : ∀ stream data, p.call = some (.write stream data) → p.channel.localEof = false
  closedLocal : .close ∈ sent → p.channel.closedLocal = true
  closedEof : p.channel.closedLocal = true → p.channel.localEof = true
  closed : p.channel.state = .closed → p.channel.closedLocal = true ∨ .close ∈ received

namespace Accounts

variable {window₀ remote₀ maxpacket : Nat} {asked : Stream → List UInt8} {p : Party}
  {received sent : List Message}

/-- The accounts of a channel that was just opened. -/
theorem opened (fits : window₀ < 2 ^ 32) :
    Accounts window₀ remote₀ maxpacket (fun _ => []) (.opened window₀ remote₀ maxpacket) [] [] where
  remoteWindow := rfl
  localWindow := Nat.le_refl _
  windowFits := fits
  remoteMaxpacket := rfl
  asked _ := rfl
  wellSent := .nil
  localEof := by simp [Party.opened, Channel.opened]
  remoteEof set := by cases set
  writing _ _ _ := rfl
  closedLocal mem := by cases mem
  closedEof set := by cases set
  closed is := by cases is

/-- Another call may be in progress. -/
theorem setCall (a : Accounts window₀ remote₀ maxpacket asked p received sent)
    {call : Option Call} {asked' : Stream → List UInt8}
    (asks : ∀ stream, asked' stream =
      streamBytes stream sent ++ ({ p with call := call } : Party).unsent stream)
    (writing : ∀ stream data, call = some (.write stream data) → p.channel.localEof = false) :
    Accounts window₀ remote₀ maxpacket asked' { p with call := call } received sent :=
  { a with asked := asks, writing := writing }

/-- A program that is in no write has sent all that it asked for. -/
theorem asked_of_idle (a : Accounts window₀ remote₀ maxpacket asked p received sent)
    (idle : ∀ stream data, p.call ≠ some (.write stream data)) (stream : Stream) :
    asked stream = streamBytes stream sent := by
  have none : p.unsent stream = [] := by
    unfold Party.unsent
    split
    · rename_i s data is
      exact (idle s data is).elim
    · rfl
  rw [a.asked stream, none, List.append_nil]

/-- A read may begin and end. -/
theorem setRead (a : Accounts window₀ remote₀ maxpacket asked p received sent)
    (idle : ∀ stream data, p.call ≠ some (.write stream data)) {call : Option Call}
    (reading : ∀ stream data, call ≠ some (.write stream data)) :
    Accounts window₀ remote₀ maxpacket asked { p with call := call } received sent := by
  refine a.setCall (fun stream => ?_) fun stream data is => (reading stream data is).elim
  have none : ({ p with call := call } : Party).unsent stream = [] := by
    unfold Party.unsent
    split
    · rename_i s data is
      exact (reading s data is).elim
    · rfl
  rw [none, List.append_nil, a.asked_of_idle idle]

/-- What is in the buffers and what the program got are not part of the accounts. -/
theorem setBuffer (a : Accounts window₀ remote₀ maxpacket asked p received sent)
    (b : Option SshBuffer) (stream : Stream) (got : Stream → List UInt8) :
    Accounts window₀ remote₀ maxpacket asked
      { p with channel := p.channel.setBuffer b stream, got := got } received sent := by
  cases stream <;> exact { a with }

/-- The window may grow. -/
theorem grow (a : Accounts window₀ remote₀ maxpacket asked p received sent)
    {r : Channel × List Message} (grows : Grows p.channel r) :
    Accounts window₀ remote₀ maxpacket asked (p.onChannel r).1 received
      (sent ++ (p.onChannel r).2) := by
  rcases r with ⟨c, ms⟩
  rcases grows with ⟨is, adjusts, fits⟩
  dsimp only [Party.onChannel] at *
  subst is
  rcases adjusts with rfl | ⟨n, -, rfl⟩
  · rw [List.append_nil]
    exact a
  · have balance := a.localWindow
    exact {
      a with
      remoteWindow := by
        rw [total_append]
        exact a.remoteWindow
      localWindow := by
        dsimp only
        rw [total_append]
        omega
      windowFits := fits a.windowFits
      asked := fun stream => by
        rw [streamBytes_append, streamBytes_singleton, List.append_assoc]
        exact a.asked stream
      wellSent := a.wellSent.snoc (fun _ _ is => by cases is) (fun is => by cases is)
      localEof := by
        rw [a.localEof, List.mem_append]
        simp
      closedLocal := fun mem => a.closedLocal (mem_of_mem_snoc (by simp) mem) }

/-- A packet is sent. -/
theorem sendPacket (a : Accounts window₀ remote₀ maxpacket asked p received sent)
    (room : 10 < maxpacket) (fits : maxpacket < 2 ^ 32) {stream : Stream} {data : List UInt8}
    (call : p.call = some (.write stream data)) (more : data ≠ [])
    (window : 0 < p.channel.remoteWindow) :
    Accounts window₀ remote₀ maxpacket asked (p.sendPacket stream data).1 received
      (sent ++ (p.sendPacket stream data).2) := by
  have effective := effectivelen_spec (a.remoteMaxpacket.trans_gt room)
    (a.remoteMaxpacket.trans_lt fits) more window
  have taken : (data.take (p.channel.effectivelen data.length)).length =
      p.channel.effectivelen data.length := by
    rw [List.length_take]
    exact Nat.min_eq_left effective.bytes
  have open_ := a.writing stream data call
  have noEof : .eof ∉ sent := by
    rw [← a.localEof, open_]
    decide
  have balance := a.remoteWindow
  have enough := effective.window
  have unsent (t : Stream) : p.unsent t = if stream = t then data else [] := by
    rw [Party.unsent, call]
  unfold Party.sendPacket
  exact {
    a with
    remoteWindow := by
      dsimp only
      rw [total_append, total_singleton, Message.dataLen, taken]
      omega
    localWindow := by
      rw [total_append]
      exact a.localWindow
    asked := fun t => by
      rw [streamBytes_append, streamBytes_singleton, a.asked t, unsent, Party.unsent,
        Message.bytesOf]
      dsimp only
      rcases Decidable.em (stream = t) with is | other
      · rw [if_pos is, if_pos is, if_pos is, List.append_assoc, List.take_append_drop]
      · rw [if_neg other, if_neg other, if_neg other, List.append_nil, List.append_nil]
    wellSent := by
      refine a.wellSent.snoc ?_ (fun is => by cases is)
      intro s bytes is
      cases is
      rw [taken]
      refine ⟨effective.some, ?_, noEof⟩
      rw [← a.remoteMaxpacket]
      exact effective.packet
    localEof := by
      rw [a.localEof, List.mem_append]
      simp
    writing := fun _ _ _ => open_
    closedLocal := fun mem => a.closedLocal (mem_of_mem_snoc (by simp) mem) }

/-- The end of file is sent, unless it was sent before. -/
theorem sendEof (a : Accounts window₀ remote₀ maxpacket asked p received sent)
    (idle : p.call = none) :
    Accounts window₀ remote₀ maxpacket asked (p.onChannel p.channel.sendEof).1 received
      (sent ++ (p.onChannel p.channel.sendEof).2) := by
  unfold Channel.sendEof
  split
  · dsimp only [Party.onChannel]
    rw [List.append_nil]
    exact a
  · exact {
      a with
      remoteWindow := by
        dsimp only [Party.onChannel]
        rw [total_append]
        exact a.remoteWindow
      localWindow := by
        dsimp only [Party.onChannel]
        rw [total_append]
        exact a.localWindow
      asked := fun stream => by
        dsimp only [Party.onChannel]
        rw [streamBytes_append, streamBytes_singleton, List.append_assoc]
        exact a.asked stream
      wellSent := a.wellSent.snoc (fun _ _ is => by cases is) (fun is => by cases is)
      localEof := by simp [Party.onChannel]
      writing := fun stream data is => by
        rw [Party.onChannel, idle] at is
        cases is
      closedLocal := fun mem => a.closedLocal (mem_of_mem_snoc (by simp) mem)
      closedEof := fun _ => rfl }

/-- The end is closed, behind the end of file. -/
theorem close (a : Accounts window₀ remote₀ maxpacket asked p received sent)
    (idle : p.call = none) :
    Accounts window₀ remote₀ maxpacket asked (p.onChannel p.channel.close).1 received
      (sent ++ (p.onChannel p.channel.close).2) := by
  unfold Channel.close
  split
  · dsimp only [Party.onChannel]
    rw [List.append_nil]
    exact a
  · have ended := a.sendEof idle
    have localEof : (p.onChannel p.channel.sendEof).1.channel.localEof = true := by
      unfold Channel.sendEof
      split
      · assumption
      · rfl
    have eof := ended.localEof.mp localEof
    dsimp only [Party.onChannel] at *
    generalize p.channel.sendEof = r at *
    rw [← List.append_assoc]
    exact {
      ended with
      remoteWindow := by
        rw [total_append]
        exact ended.remoteWindow
      localWindow := by
        rw [total_append]
        exact ended.localWindow
      asked := fun stream => by
        rw [streamBytes_append, streamBytes_singleton, List.append_assoc]
        exact ended.asked stream
      wellSent := ended.wellSent.snoc (fun _ _ is => by cases is) (fun _ => eof)
      localEof := ⟨fun _ => List.mem_append_left _ eof, fun _ => localEof⟩
      writing := fun stream data is => by
        rw [idle] at is
        cases is
      closedLocal := fun _ => rfl
      closedEof := fun _ => localEof
      closed := fun _ => Or.inl rfl }

/-- A write is taken up. -/
theorem write (a : Accounts window₀ remote₀ maxpacket asked p received sent)
    {stream : Stream} {data : List UInt8} (idle : p.call = none)
    (writable : p.channel.writable data.length) :
    Accounts window₀ remote₀ maxpacket (p.askedBehind (.write stream data) asked)
      { p with call := some (.write stream data) } received sent := by
  refine a.setCall (fun t => ?_) fun _ _ _ => writable.2.1
  have all := a.asked_of_idle (fun s data is => by rw [idle] at is; cases is) t
  unfold Party.askedBehind Party.unsent extend
  dsimp only
  rw [if_pos ⟨idle, writable⟩, all]
  rcases Decidable.em (t = stream) with is | other
  · rw [if_pos is, if_pos is.symm]
  · rw [if_neg other, if_neg (Ne.symm other), List.append_nil]

/-- A write ends, with or without all it was asked for. -/
theorem endWrite (a : Accounts window₀ remote₀ maxpacket asked p received sent) :
    Accounts window₀ remote₀ maxpacket (p.askedBehind .endWrite asked) { p with call := none }
      received sent := by
  refine a.setCall (fun t => ?_) fun _ _ is => by cases is
  unfold Party.askedBehind
  dsimp only
  rw [a.asked t, List.length_append, Nat.add_sub_cancel, List.take_left]
  exact (List.append_nil _).symm

/-- Whatever an end does by itself keeps its accounts. -/
theorem act (a : Accounts window₀ remote₀ maxpacket asked p received sent) (room : 10 < maxpacket)
    (fits : maxpacket < 2 ^ 32) {x : Act} {p' : Party} {ms : List Message}
    (acts : p.act x = some (p', ms)) :
    Accounts window₀ remote₀ maxpacket (p.askedBehind x asked) p' received (sent ++ ms) := by
  have noWrite {call : Call} (is : p.call = some call)
      (read : ∀ stream data, call ≠ .write stream data) (stream : Stream) (data : List UInt8) :
      p.call ≠ some (.write stream data) := fun write =>
    read stream data (Option.some.inj (is.symm.trans write))
  cases act_goes acts with
  | refuses x same =>
      rw [List.append_nil, same]
      exact a
  | writes stream data idle writable =>
      rw [List.append_nil]
      exact a.write idle writable
  | sends stream data call more window => exact a.sendPacket room fits call more window
  | givesUp =>
      rw [List.append_nil]
      exact a.endWrite
  | reads stream count idle =>
      have reading : Accounts window₀ remote₀ maxpacket asked
          { p with call := some (.read stream count) } received sent :=
        a.setRead (fun _ _ is => by rw [idle] at is; cases is) fun _ _ is => by cases is
      exact reading.grow (growForRead_grows _ stream count)
  | returns stream count reading =>
      rw [List.append_nil]
      exact a.setRead (noWrite reading fun _ _ is => by cases is) fun _ _ is => by cases is
  | takes stream count len reading =>
      have returned : Accounts window₀ remote₀ maxpacket asked { p with call := none } received
          sent :=
        a.setRead (noWrite reading fun _ _ is => by cases is) fun _ _ is => by cases is
      rcases passBytes_takes p.channel stream len with ⟨b, took⟩
      have taken := returned.setBuffer b stream (extend p.got stream (p.channel.passBytes stream
        len).2)
      dsimp only at taken
      rw [← took.channel] at taken
      exact taken.grow (growAfterRead_grows _)
  | ends idle => exact a.sendEof idle
  | closes idle => exact a.close idle

/-- What the messages of the other end do to the two windows, from the accounts of both. -/
theorem allows (a : Accounts window₀ remote₀ maxpacket asked p received sent) {maxpacket' : Nat}
    {asked' : Stream → List UInt8} {peer : Party} {peerReceived peerSent : List Message}
    (other : Accounts remote₀ window₀ maxpacket' asked' peer peerReceived peerSent) {m : Message}
    (oldest : received ++ [m] <+: peerSent) (late : peerReceived <+: sent) :
    m.dataLen ≤ p.channel.localWindow ∧ p.channel.remoteWindow + m.credit < 2 ^ 32 := by
  have local_ := a.localWindow
  have remote := a.remoteWindow
  have peerLocal := other.localWindow
  have peerRemote := other.remoteWindow
  have peerFits := other.windowFits
  have data := total_prefix Message.dataLen oldest
  have credit := total_prefix Message.credit oldest
  rw [total_append, total_singleton] at data credit
  have dataLate := total_prefix Message.dataLen late
  have creditLate := total_prefix Message.credit late
  constructor <;> omega

/-- The data of a message counts against the window. -/
theorem takeFromWindow (a : Accounts window₀ remote₀ maxpacket asked p received sent)
    {stream : Stream} {bytes : List UInt8} (window : bytes.length ≤ p.channel.localWindow) :
    Accounts window₀ remote₀ maxpacket asked
      { p with channel := p.channel.takeFromWindow bytes.length }
      (received ++ [.data stream bytes]) sent := by
  have balance := a.localWindow
  have left : (p.channel.takeFromWindow bytes.length).localWindow =
      p.channel.localWindow - bytes.length := if_pos window
  exact {
    a with
    remoteWindow := by
      rw [total_append]
      exact a.remoteWindow
    localWindow := by
      dsimp only
      rw [left, total_append, total_singleton, Message.dataLen]
      omega
    windowFits := by
      dsimp only
      rw [left]
      exact Nat.lt_of_le_of_lt (Nat.sub_le ..) a.windowFits
    remoteEof := fun set => List.mem_append_left _ (a.remoteEof set)
    closed := fun is => (a.closed is).imp_right (List.mem_append_left _) }

theorem unsent_callOnFreed (p : Party) (stream t : Stream) :
    ({ p with call := p.callOnFreed stream } : Party).unsent t = p.unsent t := by
  unfold Party.unsent Party.callOnFreed
  dsimp only
  split
  · rename_i s data is
    split at is
    · split at is <;> cases is
    · rw [is]
  · rename_i other
    split
    · rename_i s data is
      exact (other s data (by rw [is])).elim
    · rfl

theorem write_of_callOnFreed {p : Party} {stream s : Stream} {data : List UInt8}
    (writing : p.callOnFreed stream = some (.write s data)) : p.call = some (.write s data) := by
  unfold Party.callOnFreed at writing
  split at writing
  · split at writing <;> cases writing
  · exact writing

/-- The buffer of a stream is freed, and the data of the message with it. -/
theorem free (a : Accounts window₀ remote₀ maxpacket asked p received sent) (stream : Stream)
    (bytes : List UInt8) :
    Accounts window₀ remote₀ maxpacket asked
      { p with
        channel := p.channel.setBuffer none stream
        call := p.callOnFreed stream }
      (received ++ [.data stream bytes]) sent := by
  have called : Accounts window₀ remote₀ maxpacket asked
      { p with call := p.callOnFreed stream } received sent :=
    a.setCall (fun t => by rw [unsent_callOnFreed]; exact a.asked t)
      fun s data is => a.writing s data (write_of_callOnFreed is)
  have freed := called.setBuffer none stream p.got
  exact {
    freed with
    remoteWindow := by
      rw [total_append]
      exact freed.remoteWindow
    localWindow := by
      rw [total_append]
      exact Nat.le_trans freed.localWindow (Nat.add_le_add_left (Nat.le_add_right ..) _)
    remoteEof := fun set => List.mem_append_left _ (freed.remoteEof set)
    closed := fun is => (freed.closed is).imp_right (List.mem_append_left _) }

/-- Data that the window allows keeps the accounts, whether there is room for it or not. -/
theorem rcvData (a : Accounts window₀ remote₀ maxpacket asked p received sent) {stream : Stream}
    {bytes : List UInt8} (window : bytes.length ≤ p.channel.localWindow) (rests : List Nat) :
    Accounts window₀ remote₀ maxpacket asked (p.rcvData stream bytes rests).1
      (received ++ [.data stream bytes]) (sent ++ (p.rcvData stream bytes rests).2) := by
  rcases rcvData_cases p stream bytes rests with ⟨b, front, took⟩ | ⟨-, is⟩
  · rw [took.party]
    have narrower : Accounts window₀ remote₀ maxpacket asked
        { p with channel := p.channel.takeFromWindow bytes.length }
        (received ++ [.data stream bytes]) sent := a.takeFromWindow window
    have taken := narrower.setBuffer b stream (extend p.got stream front)
    exact taken.grow (growAfterData_grows _ stream)
  · rw [is, List.append_nil]
    exact a.free stream bytes

/-- A message that the windows allow keeps the accounts. -/
theorem handle (a : Accounts window₀ remote₀ maxpacket asked p received sent) {m : Message}
    (window : m.dataLen ≤ p.channel.localWindow)
    (credit : p.channel.remoteWindow + m.credit < 2 ^ 32) (closes : m = .close → .eof ∈ received)
    (rests : List Nat) :
    Accounts window₀ remote₀ maxpacket asked (p.handle m rests).1 (received ++ [m])
      (sent ++ (p.handle m rests).2) := by
  cases m with
  | data stream bytes => exact a.rcvData window rests
  | windowAdjust n =>
      have remote := a.remoteWindow
      have adds : (p.channel.remoteWindow + n) % 2 ^ 32 = p.channel.remoteWindow + n :=
        Nat.mod_eq_of_lt credit
      rw [Party.handle, List.append_nil]
      exact {
        a with
        remoteWindow := by
          dsimp only [Channel.rcvChangeWindow]
          rw [adds, total_append, total_singleton, Message.credit]
          omega
        localWindow := by
          rw [total_append]
          exact a.localWindow
        remoteEof := fun set => List.mem_append_left _ (a.remoteEof set)
        closed := fun is => (a.closed is).imp_right (List.mem_append_left _) }
  | eof =>
      rw [Party.handle, List.append_nil]
      exact {
        a with
        remoteWindow := by
          rw [total_append]
          exact a.remoteWindow
        localWindow := by
          rw [total_append]
          exact a.localWindow
        remoteEof := fun _ => by simp
        closed := fun is => (a.closed is).imp_right (List.mem_append_left _) }
  | close =>
      have ended := List.mem_append_left [.close] (closes rfl)
      rw [Party.handle, List.append_nil]
      unfold Channel.rcvClose
      split <;>
        exact {
          a with
          remoteWindow := by
            rw [total_append]
            exact a.remoteWindow
          localWindow := by
            rw [total_append]
            exact a.localWindow
          remoteEof := fun _ => ended
          closed := fun _ => Or.inr (by simp) }

end Accounts

/-! ## While the buffers have room -/

/-- What holds of an end as long as its buffers had room for the data that came: no byte
is lost, and once data has come, half the window the end grows to is open or unread. -/
structure Kept (window₀ : Nat) (p : Party) (received sent : List Message) : Prop where
  localWindow : p.channel.localWindow + total Message.dataLen received =
    window₀ + total Message.credit sent
  got : ∀ stream, streamBytes stream received = p.got stream ++ p.channel.buffer stream
  buffers : ∀ stream, (p.channel.sshBuffer stream).isSome = true
  below : ∀ stream, (p.channel.buffer stream).length < bufferSizeMax
  call : p.call ≠ some .readFreed
  half : total Message.dataLen received = 0 ∨
    windowLimit ≤ p.channel.localWindow + p.channel.buffered

namespace Kept

variable {window₀ : Nat} {p p' : Party} {received received' sent ms : List Message}

theorem opened (remote₀ maxpacket : Nat) :
    Kept window₀ (.opened window₀ remote₀ maxpacket) [] [] where
  localWindow := rfl
  got stream := by cases stream <;> rfl
  buffers stream := by cases stream <;> rfl
  below stream := by cases stream <;> exact show 0 < bufferSizeMax by decide
  call is := by cases is
  half := Or.inl rfl

/-- Where no data comes or goes, at most the window grows. -/
theorem frame (k : Kept window₀ p received sent)
    (window : p'.channel.localWindow = p.channel.localWindow + total Message.credit ms)
    (buffers : ∀ t, p'.channel.sshBuffer t = p.channel.sshBuffer t) (got : p'.got = p.got)
    (call : p'.call ≠ some .readFreed)
    (data : total Message.dataLen received' = total Message.dataLen received)
    (bytes : ∀ t, streamBytes t received' = streamBytes t received) :
    Kept window₀ p' received' (sent ++ ms) := by
  have unread_ (t : Stream) : p'.channel.buffer t = p.channel.buffer t :=
    congrArg unread (buffers t)
  have balance := k.localWindow
  refine ⟨?_, fun t => ?_, fun t => ?_, fun t => ?_, call, ?_⟩
  · rw [total_append, data]
    omega
  · rw [bytes, got, unread_]
    exact k.got t
  · rw [buffers]
    exact k.buffers t
  · rw [unread_]
    exact k.below t
  · have half := k.half
    unfold Channel.buffered at *
    rw [data, unread_, unread_]
    omega

/-- Where nothing is received. -/
theorem act_frame (k : Kept window₀ p received sent)
    (window : p'.channel.localWindow = p.channel.localWindow + total Message.credit ms)
    (buffers : ∀ t, p'.channel.sshBuffer t = p.channel.sshBuffer t) (got : p'.got = p.got)
    (call : p'.call ≠ some .readFreed) : Kept window₀ p' received (sent ++ ms) :=
  k.frame window buffers got call rfl fun _ => rfl

theorem grows_sshBuffer {c : Channel} {r : Channel × List Message} (grows : Grows c r)
    (t : Stream) : r.1.sshBuffer t = c.sshBuffer t := by
  rw [grows.channel]
  cases t <;> rfl

theorem grows_localWindow {c : Channel} {r : Channel × List Message} (grows : Grows c r) :
    r.1.localWindow = c.localWindow + total Message.credit r.2 := by
  rw [grows.channel]

/-- A read takes what it can, and the window grows. -/
theorem take (k : Kept window₀ p received sent) (stream : Stream) (len : Nat) :
    Kept window₀
      { p with
        channel := (p.channel.passBytes stream len).1.growAfterRead.1
        call := none
        got := extend p.got stream (p.channel.passBytes stream len).2 }
      received (sent ++ (p.channel.passBytes stream len).1.growAfterRead.2) := by
  rcases passBytes_takes p.channel stream len with ⟨b, took⟩
  have half := windowLimit_le_growAfterRead (p.channel.passBytes stream len).1
  have grows := growAfterRead_grows (p.channel.passBytes stream len).1
  generalize p.channel.passBytes stream len = r at took half grows
  have window : r.1.localWindow = p.channel.localWindow := by
    rw [took.channel]
    cases stream <;> rfl
  have balance := k.localWindow
  have grown := grows_localWindow grows
  refine ⟨?_, fun t => ?_, fun t => ?_, fun t => ?_, (fun is => by cases is), ?_⟩
  · rw [total_append]
    dsimp only
    omega
  · unfold extend Channel.buffer
    dsimp only
    rw [grows_sshBuffer grows, took.channel, sshBuffer_setBuffer, k.got t]
    split
    · rename_i is
      rw [is, took.front, List.append_assoc]
    · rfl
  · dsimp only
    rw [grows_sshBuffer grows, took.channel, sshBuffer_setBuffer]
    split
    · rename_i is
      rw [took.there, k.buffers]
    · exact k.buffers t
  · have front := congrArg List.length took.front
    have below := k.below t
    unfold Channel.buffer
    dsimp only
    rw [grows_sshBuffer grows, took.channel, sshBuffer_setBuffer]
    split
    · rename_i is
      rw [← is, List.length_append] at front
      omega
    · exact below
  · exact Or.inr (Nat.le_trans half (Nat.le_add_right ..))

/-- Whatever an end does by itself. -/
theorem act (k : Kept window₀ p received sent) {x : Act} (acts : p.act x = some (p', ms)) :
    Kept window₀ p' received (sent ++ ms) := by
  have same (t : Stream) : p.channel.sshBuffer t = p.channel.sshBuffer t := rfl
  cases act_goes acts with
  | refuses =>
      rw [List.append_nil]
      exact k
  | writes => exact k.act_frame rfl same rfl (fun is => by cases is)
  | sends stream data =>
      refine k.act_frame rfl (fun t => ?_) rfl (fun is => by cases is)
      cases t <;> rfl
  | givesUp => exact k.act_frame rfl same rfl (fun is => by cases is)
  | reads stream count =>
      have grows := growForRead_grows p.channel stream count
      exact k.act_frame (grows_localWindow grows) (grows_sshBuffer grows) rfl
        (fun is => by cases is)
  | returns => exact k.act_frame rfl same rfl (fun is => by cases is)
  | takes stream count len => exact k.take stream len
  | ends =>
      unfold Channel.sendEof
      split
      · exact k.act_frame rfl same rfl k.call
      · refine k.act_frame rfl (fun t => ?_) rfl k.call
        cases t <;> rfl
  | closes =>
      unfold Channel.close Channel.sendEof
      split
      · exact k.act_frame rfl same rfl k.call
      · split
        · refine k.act_frame rfl (fun t => ?_) rfl k.call
          cases t <;> rfl
        · refine k.act_frame rfl (fun t => ?_) rfl k.call
          cases t <;> rfl

/-- Data that the window allows and for which there is room. -/
theorem rcvData (k : Kept window₀ p received sent) {stream : Stream} {bytes : List UInt8}
    (window : bytes.length ≤ p.channel.localWindow) (room : p.channel.HasRoom stream bytes)
    (rests : List Nat) :
    Kept window₀ (p.rcvData stream bytes rests).1 (received ++ [.data stream bytes])
      (sent ++ (p.rcvData stream bytes rests).2) := by
  rcases rcvData_cases p stream bytes rests with ⟨b, front, took⟩ | ⟨full, -⟩
  · rw [took.party]
    have half := windowLimit_le_growAfterData
      ((p.channel.takeFromWindow bytes.length).setBuffer b stream) stream
    have grows := growAfterData_grows
      ((p.channel.takeFromWindow bytes.length).setBuffer b stream) stream
    have left : ((p.channel.takeFromWindow bytes.length).setBuffer b stream).localWindow =
        p.channel.localWindow - bytes.length := by
      cases stream <;> exact if_pos window
    have others (t : Stream) : (p.channel.takeFromWindow bytes.length).sshBuffer t =
        p.channel.sshBuffer t := by cases t <;> rfl
    have balance := k.localWindow
    have grown := grows_localWindow grows
    unfold Party.onChannel
    refine ⟨?_, fun t => ?_, fun t => ?_, fun t => ?_, k.call, Or.inr half⟩
    · rw [total_append, total_append, total_singleton, Message.dataLen]
      dsimp only
      omega
    · unfold extend Channel.buffer
      dsimp only
      rw [grows_sshBuffer grows, sshBuffer_setBuffer, others, streamBytes_append,
        streamBytes_singleton, k.got t, Message.bytesOf]
      rcases Decidable.em (t = stream) with is | other
      · rw [if_pos is, if_pos is, if_pos is.symm, is, List.append_assoc, took.bytes,
          List.append_assoc]
      · rw [if_neg other, if_neg other, if_neg (Ne.symm other), List.append_nil]
        rfl
    · dsimp only
      rw [grows_sshBuffer grows, sshBuffer_setBuffer, others]
      split
      · exact took.there
      · exact k.buffers t
    · have all := congrArg List.length took.bytes
      rw [List.length_append, List.length_append] at all
      have below := k.below t
      unfold Channel.HasRoom at room
      unfold Channel.buffer
      dsimp only
      rw [grows_sshBuffer grows, sshBuffer_setBuffer, others]
      split
      · omega
      · exact below
  · exact (full room).elim

/-- A message that the window allows and for which there is room. -/
theorem handle (k : Kept window₀ p received sent) {m : Message}
    (window : m.dataLen ≤ p.channel.localWindow) (room : p.HasRoom m) (rests : List Nat) :
    Kept window₀ (p.handle m rests).1 (received ++ [m]) (sent ++ (p.handle m rests).2) := by
  have noData (m : Message) (none : m.dataLen = 0) :
      total Message.dataLen (received ++ [m]) = total Message.dataLen received := by
    rw [total_append, total_singleton, none]
    exact Nat.add_zero _
  have noBytes (m : Message) (none : ∀ t, m.bytesOf t = []) (t : Stream) :
      streamBytes t (received ++ [m]) = streamBytes t received := by
    rw [streamBytes_append, streamBytes_singleton, none, List.append_nil]
  cases m with
  | data stream bytes => exact k.rcvData window room rests
  | windowAdjust n =>
      refine k.frame rfl (fun t => ?_) rfl k.call (noData _ rfl) (noBytes _ fun _ => rfl)
      cases t <;> rfl
  | eof =>
      refine k.frame rfl (fun t => ?_) rfl k.call (noData _ rfl) (noBytes _ fun _ => rfl)
      cases t <;> rfl
  | close =>
      unfold Party.handle Channel.rcvClose
      dsimp only
      split
      · refine k.frame rfl (fun t => ?_) rfl k.call (noData _ rfl) (noBytes _ fun _ => rfl)
        cases t <;> rfl
      · refine k.frame rfl (fun t => ?_) rfl k.call (noData _ rfl) (noBytes _ fun _ => rfl)
        cases t <;> rfl

end Kept

/-! ## What is noted of an end -/

/-- What an observer of an end has noted: what the program asked to be written, and
whether there was room for all the data that came. -/
structure Noted where
  asked : Stream → List UInt8
  kept : Prop

/-- The note when nothing has happened. -/
def Noted.start : Noted := { asked := fun _ => [], kept := True }

/-- The observer looks at the acts of the program and at the data that comes. -/
def endNote : Link.Note Party Message Act Noted where
  act p x g := { g with asked := p.askedBehind x g.asked }
  handle p m g := { g with kept := g.kept ∧ p.HasRoom m }

end WindTerm.Libssh

import WindTerm.Libssh.ChannelSpec

/-!
# The two ends of a channel together

Whatever the two ends do and however their messages overlap, no data is over the
window it arrives at (`windows_agree`). As long as the buffers of an end have room
for the data that comes, it loses and invents no byte of a stream (`streams_agree`),
a write to it waits only for what is unread there (`unread_of_waiting`), and its
reads let the write go on to its end (`write_completes`).
-/

namespace WindTerm.Libssh

open Library
open Library.Link (total total_nil total_append total_singleton total_prefix run_trans
  run_single)

namespace Opening

variable {o : Opening} {es : List (LinkEvent Act (List Nat))} {l l' : Link Party Message}

/-- From the start, the events lead to the state `l`. -/
def Runs (o : Opening) (es : List (LinkEvent Act (List Nat))) (l : Link Party Message) : Prop :=
  (Link.start o.parties).run channelProtocol es = some l

/-- What is noted of the end `s` behind some events. -/
def noted (o : Opening) (es : List (LinkEvent Act (List Nat))) (s : Side) : Noted :=
  (Link.start o.parties).noted channelProtocol endNote s .start es

theorem Runs.trans (runs : o.Runs es l) {es' : List (LinkEvent Act (List Nat))}
    (rest : l.run channelProtocol es' = some l') : o.Runs (es ++ es') l' :=
  run_trans runs rest

theorem Runs.step (runs : o.Runs es l) {e : LinkEvent Act (List Nat)}
    (steps : l.step channelProtocol e = some l') : o.Runs (es ++ [e]) l' :=
  runs.trans ((run_single e).trans steps)

/-- The note behind one more event. -/
theorem Runs.noted_step (runs : o.Runs es l) {e : LinkEvent Act (List Nat)}
    (steps : l.step channelProtocol e = some l') (s : Side) :
    o.noted (es ++ [e]) s = endNote.step s l e (o.noted es s) := by
  unfold noted
  rw [Link.noted_append endNote s runs, Link.noted, steps]
  rfl

/-- An act has no part in whether there was room. -/
theorem Runs.kept_act (runs : o.Runs es l) {t : Side} {x : Act}
    (steps : l.step channelProtocol (.act t x) = some l') (s : Side) :
    (o.noted (es ++ [.act t x]) s).kept = (o.noted es s).kept := by
  rw [runs.noted_step steps]
  rcases t.eq_or_eq_other s with rfl | rfl
  · rw [Link.Note.step_act]
    rfl
  · rw [Link.Note.step_act_other]

/-- A message that arrives needs room at the end where it arrives. -/
theorem Runs.kept_receive (runs : o.Runs es l) {t : Side} {rests : List Nat} {m : Message}
    {rest : List Message} (oldest : l.inFlight t.other = m :: rest)
    (steps : l.step channelProtocol (.receive t rests) = some l') {s : Side}
    (kept : (o.noted es s).kept) (room : t = s → (l.party s).HasRoom m) :
    (o.noted (es ++ [.receive t rests]) s).kept := by
  rw [runs.noted_step steps]
  rcases t.eq_or_eq_other s with rfl | rfl
  · rw [Link.Note.step_receive oldest]
    exact ⟨kept, room rfl⟩
  · rw [Link.Note.step_receive_other]
    exact kept

/-- Both ends keep their accounts, and lose nothing while there is room. -/
theorem Runs.parties (runs : o.Runs es l) (s : Side) :
    Accounts (o.window s) (o.window s.other) (o.maxpacket s) (o.noted es s).asked (l.party s)
        (l.received s) (l.sent s) ∧
      ((o.noted es s).kept → Kept (o.window s) (l.party s) (l.received s) (l.sent s)) := by
  refine Link.run_parties (n := endNote) (g := fun _ => Noted.start)
    (P := fun s g party received sent =>
      Accounts (o.window s) (o.window s.other) (o.maxpacket s) g.asked party received sent ∧
        (g.kept → Kept (o.window s) party received sent)) ?_ ?_ runs ?_ s
  · rintro s g party a party' ms received sent ⟨accounts, kept⟩ acts
    have fits : o.maxpacket s < 2 ^ 32 := Nat.lt_trans (o.packetFits s) (by decide)
    exact ⟨accounts.act (o.packetRoom s) fits acts, fun still => (kept still).act acts⟩
  · rintro s g g' party peer m rests received sent peerReceived peerSent ⟨accounts, kept⟩
      ⟨others, -⟩ oldest late
    rw [Side.other_other] at others
    rcases accounts.allows others oldest late with ⟨window, credit⟩
    refine ⟨accounts.handle window credit (fun close => ?_) rests, fun still => ?_⟩
    · apply others.wellSent.closeBehindEof received
      rwa [← close]
    · exact (kept still.1).handle window still.2 rests
  · intro s
    exact ⟨.opened (o.windowFits s), fun _ => .opened ..⟩

theorem Runs.accounts (runs : o.Runs es l) (s : Side) :
    Accounts (o.window s) (o.window s.other) (o.maxpacket s) (o.noted es s).asked (l.party s)
      (l.received s) (l.sent s) := (runs.parties s).1

theorem Runs.kept (runs : o.Runs es l) {s : Side} (still : (o.noted es s).kept) :
    Kept (o.window s) (l.party s) (l.received s) (l.sent s) := (runs.parties s).2 still

end Opening

/-- What has been sent back is what was received and what is in flight. -/
theorem sent_other (l : Link Party Message) (s : Side) :
    l.sent s.other = l.received s ++ l.inFlight s.other := by
  rw [Link.sent, Side.other_other]

/-! ## Windows -/

/-- What the end `s` may send and the other end takes, while messages are in flight;
`kept` says that there was room for all the data at the other end. -/
structure WindowsAgree (maxpacket : Nat) (kept : Prop) (l : Link Party Message) (s : Side) :
    Prop where
  enough : (l.party s).channel.remoteWindow + total Message.dataLen (l.inFlight s) +
      total Message.credit (l.inFlight s.other) ≤ (l.party s.other).channel.localWindow
  balance : kept → (l.party s.other).channel.localWindow =
    (l.party s).channel.remoteWindow + total Message.dataLen (l.inFlight s) +
      total Message.credit (l.inFlight s.other)
  fits : (l.party s.other).channel.localWindow < 2 ^ 32
  packets : ∀ stream bytes, .data stream bytes ∈ l.inFlight s →
    0 < bytes.length ∧ bytes.length + 10 ≤ maxpacket

/-- In whatever order the two ends act and their messages arrive, the window that an end
keeps for its own data, the data in flight and the adjustments on their way back are
together no more than the window of the other end, and just that as long as its
buffers have room. So no data is ever more than the window it arrives at, no `uint32_t`
wraps, and no packet is empty or too long for the other end. -/
theorem windows_agree {o : Opening} {es : List (LinkEvent Act (List Nat))}
    {l : Link Party Message} (runs : o.Runs es l) (s : Side) :
    WindowsAgree (o.maxpacket s) (o.noted es s.other).kept l s := by
  have own := runs.accounts s
  have other := runs.accounts s.other
  rw [Side.other_other] at other
  have sent : l.sent s = l.received s.other ++ l.inFlight s := rfl
  have remote := own.remoteWindow
  rw [sent, total_append] at remote
  refine ⟨?_, fun still => ?_, other.windowFits, fun stream bytes mem => ?_⟩
  · have local_ := other.localWindow
    rw [sent_other, total_append] at local_
    omega
  · have local_ := (runs.kept still).localWindow
    rw [sent_other, total_append] at local_
    omega
  · apply own.wellSent.packets stream bytes
    rw [sent]
    exact List.mem_append_right _ mem

/-- Three bytes are written and arrive, the other end reads two of them, and the writer
ends its stream. -/
def threeBytes : List (LinkEvent Act (List Nat)) :=
  [.act .near (.write .stdout [72, 105, 33]), .act .near .send, .receive .far [],
    .receive .near [], .act .far (.read .stdout 2), .act .far .endRead, .act .near .endWrite,
    .act .near .sendEof]

/-- The window has grown for the data that arrived. -/
theorem windows_agree_threeBytes :
    ∃ l, (Link.start sessionOpening.parties).run channelProtocol threeBytes = some l ∧
      (l.party .near).channel.remoteWindow = windowBase ∧
      (l.party .far).channel.localWindow = windowBase := by
  refine ⟨_, rfl, rfl, ?_⟩
  refine ((@windows_agree sessionOpening threeBytes _ rfl .near).balance ?_).trans rfl
  exact ⟨trivial, show 0 + 3 < bufferSizeMax by decide⟩

/-! ## Streams -/

/-- What one end asked to be written and the other got; that is all of it when a read
reports the end of file. -/
structure StreamsAgree (asked : Stream → List UInt8) (l : Link Party Message) (s : Side) :
    Prop where
  bytes : ∀ stream, asked stream =
    (l.party s.other).got stream ++ (l.party s.other).channel.buffer stream ++
      streamBytes stream (l.inFlight s) ++ (l.party s).unsent stream
  whole : (l.party s.other).channel.remoteEof = true → ∀ stream,
    (l.party s.other).channel.buffer stream = [] →
      (l.party s.other).got stream = asked stream

/-- Behind an end of file that has arrived, no data is in flight. -/
theorem streamBytes_behind_eof {o : Opening} {es : List (LinkEvent Act (List Nat))}
    {l : Link Party Message} (runs : o.Runs es l) {s : Side}
    (ended : (l.party s.other).channel.remoteEof = true) (stream : Stream) :
    streamBytes stream (l.inFlight s) = [] := by
  have order := (runs.accounts s).wellSent.dataBeforeEof
  rw [Link.sent, List.pairwise_append] at order
  refine List.flatMap_eq_nil_iff.mpr fun m mem => ?_
  have noData := order.2.2 .eof ((runs.accounts s.other).remoteEof ended) m mem rfl
  cases m with
  | data stream bytes => cases noData
  | windowAdjust n => rfl
  | eof => rfl
  | close => rfl

/-- Behind an end of file that has arrived, no write is in progress. -/
theorem idle_behind_eof {o : Opening} {es : List (LinkEvent Act (List Nat))}
    {l : Link Party Message} (runs : o.Runs es l) {s : Side}
    (ended : (l.party s.other).channel.remoteEof = true) (stream : Stream) (data : List UInt8) :
    (l.party s).call ≠ some (.write stream data) := by
  intro writing
  have open_ := (runs.accounts s).writing stream data writing
  have eof := (l.received_starts s.other).subset ((runs.accounts s.other).remoteEof ended)
  rw [Side.other_other, ← (runs.accounts s).localEof, open_] at eof
  cases eof

/-- In whatever order the two ends act and their messages arrive, as long as there is room
for the data at an end, each stream arrives there as it was written, with nothing lost,
repeated or out of place, and a read that reports the end of file has it whole. -/
theorem streams_agree {o : Opening} {es : List (LinkEvent Act (List Nat))}
    {l : Link Party Message} (runs : o.Runs es l) {s : Side}
    (kept : (o.noted es s.other).kept) : StreamsAgree (o.noted es s).asked l s := by
  have sentBytes (stream : Stream) : streamBytes stream (l.sent s) =
      (l.party s.other).got stream ++ (l.party s.other).channel.buffer stream ++
        streamBytes stream (l.inFlight s) := by
    rw [Link.sent, streamBytes_append, (runs.kept kept).got stream]
  refine ⟨fun stream => ?_, fun ended stream empty => ?_⟩
  · rw [(runs.accounts s).asked stream, sentBytes]
  · rw [(runs.accounts s).asked_of_idle (idle_behind_eof runs ended), sentBytes, empty,
      streamBytes_behind_eof runs ended, List.append_nil, List.append_nil]

/-- Two bytes have been read, and the third one is in the buffer. -/
theorem streams_agree_threeBytes :
    ∃ l, (Link.start sessionOpening.parties).run channelProtocol threeBytes = some l ∧
      (l.party .far).got .stdout = [72, 105] ∧ (l.party .far).channel.buffer .stdout = [33] ∧
      StreamsAgree (fun t => if t = .stdout then [72, 105, 33] else []) l .near := by
  refine ⟨_, rfl, rfl, rfl, ?_⟩
  have agree := @streams_agree sessionOpening threeBytes _ rfl .near
    ⟨trivial, show 0 + 3 < bufferSizeMax by decide⟩
  have asked : (sessionOpening.noted threeBytes .near).asked =
      fun t => if t = .stdout then [72, 105, 33] else [] := by
    funext t
    cases t <;> rfl
  rwa [asked] at agree

/-! ## A write that waits -/

/-- When the window of an end is used up and nothing is in flight, at least half the
window that the other end grows to is unread there, if its buffers had room so far. -/
theorem unread_of_waiting {o : Opening} {es : List (LinkEvent Act (List Nat))}
    {l : Link Party Message} (runs : o.Runs es l) {s : Side}
    (kept : (o.noted es s.other).kept) (used : (l.party s).channel.remoteWindow = 0)
    (quiet : ∀ t, l.inFlight t = []) : windowLimit ≤ (l.party s.other).channel.buffered := by
  have balance := (windows_agree runs s).balance kept
  have local_ := (runs.kept kept).localWindow
  have window := o.windowOpen s.other
  rw [used, quiet, quiet, total_nil, total_nil] at balance
  rw [balance] at local_
  rcases (runs.kept kept).half with noData | room
  · rw [noData] at local_
    omega
  · rw [balance] at room
    exact Nat.le_trans room (Nat.le_of_eq (Nat.zero_add _))

/-- A channel whose ends have half the window they grow to. -/
def halfOpening : Opening where
  window _ := windowLimit
  maxpacket _ := windowBase
  windowOpen _ := by decide
  windowFits _ := by decide
  packetRoom _ := by decide
  packetFits _ := by decide

/-- A write of as much as the window, and its arrival. -/
def fullWrite (data : List UInt8) : List (LinkEvent Act (List Nat)) :=
  [.act .near (.write .stdout data)] ++ ([.act .near .send] ++ [.receive .far []])

/-- Nothing of it is read. -/
theorem runs_full {data : List UInt8} (len : data.length = windowLimit) :
    ∃ l, halfOpening.Runs (fullWrite data) l ∧
      (halfOpening.noted (fullWrite data) Side.near.other).kept ∧
      (l.party .near).channel.remoteWindow = 0 ∧ ∀ t, l.inFlight t = [] := by
  let l₀ : Link Party Message := Link.start halfOpening.parties
  let writer : Party := { halfOpening.parties .near with call := some (.write .stdout data) }
  have writes : l₀.step channelProtocol (.act .near (.write .stdout data)) =
      some (l₀.goOn .near writer []) := by
    apply Link.act_step
    refine act_write (p := halfOpening.parties .near) rfl ?_
    rw [len]
    decide
  have effective : writer.channel.effectivelen data.length = data.length := by
    rw [len]
    have packet : windowLimit ≤ (halfOpening.parties .near).channel.maxpacketlen := by decide
    exact effectivelen_eq (Nat.le_refl windowLimit) packet
  have taken : (data.take (writer.channel.effectivelen data.length)).length = windowLimit := by
    rw [List.length_take, effective, len, Nat.min_self]
  have more : data ≠ [] := fun empty => by
    rw [empty] at len
    exact absurd len (by decide)
  let l₁ := l₀.goOn .near writer []
  let l₂ := l₁.goOn .near (writer.sendPacket .stdout data).1 (writer.sendPacket .stdout data).2
  have sends : l₁.step channelProtocol (.act .near .send) = some l₂ := by
    apply Link.act_step
    exact act_send (p := writer) rfl more (show 0 < windowLimit by decide) rfl
  let m : Message := .data .stdout (data.take (writer.channel.effectivelen data.length))
  have oldest : l₂.inFlight Side.far.other = m :: [] := rfl
  have arrives := Link.receive_step (p := channelProtocol) oldest []
  have runs₁ : halfOpening.Runs [.act .near (.write .stdout data)] l₁ := (run_single _).trans writes
  have runs₂ := runs₁.step sends
  have room : (l₂.party .far).HasRoom m := by
    change 0 + (data.take (writer.channel.effectivelen data.length)).length < bufferSizeMax
    rw [taken]
    decide
  refine ⟨_, runs₂.step arrives, ?_, ?_, ?_⟩
  · refine runs₂.kept_receive oldest arrives ?_ fun _ => room
    rw [runs₁.kept_act sends]
    have start : halfOpening.Runs [] (Link.start halfOpening.parties) := rfl
    exact (start.kept_act writes Side.near.other).mpr trivial
  · change windowLimit - writer.channel.effectivelen data.length = 0
    rw [effective, len]
    exact Nat.sub_self _
  · intro t
    cases t
    · rfl
    · change [] ++ ((halfOpening.parties .far).handle m []).2 = []
      apply rcvData_quiet
      · rw [taken]
        exact Nat.le_refl windowLimit
      · decide
      · exact Nat.le_refl windowLimit
      · exact room

/-- As many bytes as the window. -/
@[irreducible] def fullData : List UInt8 := List.replicate windowLimit 0

/-- All the bytes of the window are unread. -/
theorem unread_of_waiting_full :
    ∃ l, halfOpening.Runs (fullWrite fullData) l ∧
      windowLimit ≤ (l.party Side.near.other).channel.buffered := by
  have len : fullData.length = windowLimit := by
    rw [fullData]
    exact List.length_replicate ..
  rcases runs_full len with ⟨l, runs, kept, used, quiet⟩
  exact ⟨l, runs, unread_of_waiting runs kept used quiet⟩

/-! ## A write goes on -/

/-- A message of data weighs more than what it can lead to: an adjustment when it
arrives, and two when it is read. -/
def Message.weight (m : Message) : Nat := if m.isData then 4 else 1

/-- What a party sends when a message arrives: at most an adjustment, and that only for
data. -/
theorem handle_sends (p : Party) (m : Message) (rests : List Nat) :
    (p.handle m rests).2 = [] ∨
      m.isData = true ∧ ∃ n, (p.handle m rests).2 = [.windowAdjust n] := by
  cases m with
  | data stream bytes =>
      change (p.rcvData stream bytes rests).2 = [] ∨
        true = true ∧ ∃ n, (p.rcvData stream bytes rests).2 = [.windowAdjust n]
      rcases rcvData_cases p stream bytes rests with ⟨b, front, took⟩ | ⟨-, is⟩
      · rw [took.party]
        exact (growAfterData_grows _ stream).adjusts.imp_right fun ⟨n, _, adjust⟩ =>
          ⟨rfl, n, adjust⟩
      · rw [is]
        exact Or.inl rfl
  | windowAdjust n => exact Or.inl rfl
  | eof => exact Or.inl rfl
  | close => exact Or.inl rfl

/-- Adjustments are light and carry no data. -/
theorem Grows.light {c : Channel} {r : Channel × List Message} (grows : Grows c r) :
    total Message.weight r.2 ≤ 1 ∧ total Message.dataLen r.2 = 0 := by
  rcases grows.adjusts with none | ⟨n, -, adjust⟩
  · rw [none]
    exact ⟨Nat.zero_le 1, rfl⟩
  · rw [adjust]
    exact ⟨Nat.le_refl 1, rfl⟩

theorem handle_light (p : Party) (m : Message) (rests : List Nat) :
    total Message.dataLen (p.handle m rests).2 = 0 ∧
      total Message.weight (p.handle m rests).2 ≤ if m.isData then 1 else 0 := by
  rcases handle_sends p m rests with nothing | ⟨data, n, adjust⟩
  · rw [nothing]
    exact ⟨rfl, Nat.zero_le _⟩
  · rw [adjust, data]
    exact ⟨rfl, Nat.le_refl 1⟩

/-- A message that arrives weighs more than what is sent for it. -/
theorem handle_lighter (p : Party) (m : Message) (rests : List Nat) :
    total Message.weight (p.handle m rests).2 < m.weight := by
  have light := (handle_light p m rests).2
  rw [Message.weight]
  cases data : m.isData <;> rw [data] at light
  · exact Nat.lt_of_le_of_lt light (by decide)
  · exact Nat.lt_of_le_of_lt light (by decide)

/-- What no message changes, unless the party is in a read. -/
structure Unmoved (p p' : Party) : Prop where
  call : (∀ stream count, p.call ≠ some (.read stream count)) → p'.call = p.call
  closedLocal : p'.channel.closedLocal = p.channel.closedLocal

theorem handle_unmoved (p : Party) (m : Message) (rests : List Nat) :
    Unmoved p (p.handle m rests).1 := by
  cases m with
  | data stream bytes =>
      change Unmoved p (p.rcvData stream bytes rests).1
      rcases rcvData_cases p stream bytes rests with ⟨b, front, took⟩ | ⟨-, is⟩
      · rw [took.party]
        refine ⟨fun _ => rfl, ?_⟩
        unfold Party.onChannel
        rw [(growAfterData_grows _ stream).channel]
        cases stream <;> rfl
      · rw [is]
        refine ⟨fun noRead => ?_, by cases stream <;> rfl⟩
        unfold Party.callOnFreed
        dsimp only
        split
        · rename_i s count reading
          exact (noRead s count reading).elim
        · rfl
  | windowAdjust n => exact ⟨fun _ => rfl, rfl⟩
  | eof => exact ⟨fun _ => rfl, rfl⟩
  | close =>
      refine ⟨fun _ => rfl, ?_⟩
      unfold Party.handle Channel.rcvClose
      dsimp only
      split <;> rfl

/-- A message touches no buffer but that of its data. -/
theorem handle_buffer (p : Party) {m : Message} (rests : List Nat) {t : Stream}
    (other : ∀ bytes, m ≠ .data t bytes) :
    (p.handle m rests).1.channel.buffer t = p.channel.buffer t := by
  cases m with
  | data stream bytes =>
      have apart : ¬ t = stream := by
        rintro rfl
        exact other bytes rfl
      change (p.rcvData stream bytes rests).1.channel.buffer t = _
      rcases rcvData_cases p stream bytes rests with ⟨b, front, took⟩ | ⟨-, is⟩
      · rw [took.party, Party.onChannel, Channel.buffer, Channel.buffer,
          Kept.grows_sshBuffer (growAfterData_grows _ stream), sshBuffer_setBuffer, if_neg apart]
        cases t <;> rfl
      · rw [is]
        dsimp only
        rw [buffer_setBuffer, if_neg apart]
  | windowAdjust n => cases t <;> rfl
  | eof => cases t <;> rfl
  | close =>
      unfold Party.handle Channel.rcvClose
      dsimp only
      split <;> cases t <;> rfl

/-- What the end of a read leaves. -/
structure EndsRead (p : Party) (stream : Stream) (count : Nat) (p' : Party)
    (answers : List Message) : Prop where
  idle : p'.call = none
  closedLocal : p'.channel.closedLocal = p.channel.closedLocal
  light : total Message.weight answers ≤ 1 ∧ total Message.dataLen answers = 0
  others : ∀ t, t ≠ stream → p'.channel.buffer t = p.channel.buffer t
  rest : (p.channel.buffer stream).length ≤ count → p'.channel.buffer stream = []
  window : (p.channel.buffer stream = [] → 0 < p.channel.localWindow) →
    0 < p'.channel.localWindow

theorem endRead_ends {p : Party} (stream : Stream) (count : Nat)
    (state : p.channel.state = .opened) :
    EndsRead p stream count (p.endRead stream count).1 (p.endRead stream count).2 := by
  have notClosed : p.channel.state ≠ .closed := by
    rw [state]
    decide
  unfold Party.endRead
  dsimp only
  split
  · rename_i returns
    have nothing := (returns.resolve_right notClosed).2
    exact {
      idle := rfl
      closedLocal := rfl
      light := ⟨Nat.zero_le 1, rfl⟩
      others := fun _ _ => rfl
      rest := fun _ => nothing
      window := fun open_ => open_ nothing }
  · generalize len : min (p.channel.buffer stream).length count = n
    rcases passBytes_takes p.channel stream n with ⟨b, took⟩
    have all := passBytes_all p.channel stream
    have grows := growAfterRead_grows (p.channel.passBytes stream n).1
    have half := windowLimit_le_growAfterRead (p.channel.passBytes stream n).1
    have buffers (t : Stream) : (p.channel.passBytes stream n).1.growAfterRead.1.buffer t =
        (p.channel.passBytes stream n).1.buffer t :=
      congrArg unread (Kept.grows_sshBuffer grows t)
    exact {
      idle := rfl
      closedLocal := by
        unfold Party.onChannel
        rw [grows.channel, took.channel]
        cases stream <;> rfl
      light := grows.light
      others := fun t apart => by
        unfold Party.onChannel
        dsimp only
        rw [buffers, took.channel, buffer_setBuffer, if_neg apart]
      rest := fun enough => by
        rw [Nat.min_eq_left enough] at len
        unfold Party.onChannel
        dsimp only
        rw [buffers, ← len]
        exact all
      window := fun _ => Nat.lt_of_lt_of_le (by decide) half }

/-- A read from its beginning to its end. -/
structure ReadTurn (p : Party) (stream : Stream) (count : Nat) (reading : Party)
    (asks : List Message) (p' : Party) (answers : List Message) : Prop where
  begins : p.act (.read stream count) = some (reading, asks)
  ends : reading.act .endRead = some (p', answers)
  idle : p'.call = none
  closedLocal : p'.channel.closedLocal = p.channel.closedLocal
  light : total Message.weight asks + total Message.weight answers ≤ 2
  noData : total Message.dataLen asks = 0 ∧ total Message.dataLen answers = 0
  others : ∀ t, t ≠ stream → p'.channel.buffer t = p.channel.buffer t
  rest : (p.channel.buffer stream).length ≤ count → p'.channel.buffer stream = []
  window : p.channel.buffer stream = [] → count = 1 → p.channel.localWindow < 2 ^ 32 →
    0 < p'.channel.localWindow

/-- A program that is in no call can read a buffer that is there. -/
theorem readTurn_exists {p : Party} {stream : Stream} {count : Nat} (idle : p.call = none)
    (state : p.channel.state = .opened) (there : (p.channel.sshBuffer stream).isSome = true)
    (some_ : 0 < count) (fits : count < 2 ^ 32) :
    ∃ reading asks p' answers, ReadTurn p stream count reading asks p' answers := by
  have grows := growForRead_grows p.channel stream count
  have opens := @growForRead_pos p.channel stream
  have begins : p.act (.read stream count) =
      some ({ p with call := some (.read stream count) }.onChannel
        (p.channel.growForRead stream count)) := by
    unfold Party.act
    dsimp only
    rw [if_pos ⟨idle, fits⟩, if_neg (by omega), if_pos there]
  have grown : (p.channel.growForRead stream count).1.state = .opened := by
    rw [grows.channel]
    exact state
  have ends := endRead_ends (p := { p with
    channel := (p.channel.growForRead stream count).1
    call := some (.read stream count) }) stream count grown
  have same (t : Stream) : (p.channel.growForRead stream count).1.buffer t = p.channel.buffer t :=
    congrArg unread (Kept.grows_sshBuffer grows t)
  exact ⟨_, _, _, _, {
    begins := begins
    ends := rfl
    idle := ends.idle
    closedLocal := ends.closedLocal.trans (by dsimp only; rw [grows.channel])
    light := Nat.add_le_add grows.light.1 ends.light.1
    noData := ⟨grows.light.2, ends.light.2⟩
    others := fun t apart => (ends.others t apart).trans (same t)
    rest := fun enough => ends.rest (by dsimp only; rwa [same])
    window := fun empty one small => ends.window fun _ => by
      subst one
      exact opens empty small }⟩

/-- What may happen for a write at `s` to go on: it sends, the program at the other end
reads, and messages arrive. -/
def Helps (s : Side) : LinkEvent Act (List Nat) → Prop
  | .act t .send => t = s
  | .act t (.read ..) => t = s.other
  | .act t .endRead => t = s.other
  | .act .. => False
  | .receive .. => True

/-- A write at `s` that has `data` left, while the program at the other end is in no call
and has not closed the channel; there was room for the data at that end. -/
structure Pending (o : Opening) (s : Side) (stream : Stream) (data : List UInt8)
    (es : List (LinkEvent Act (List Nat))) (l : Link Party Message) : Prop where
  runs : o.Runs es l
  kept : (o.noted es s.other).kept
  call : (l.party s).call = some (.write stream data)
  idle : (l.party s.other).call = none
  notClosed : (l.party s.other).channel.closedLocal = false

/-- Nothing is unread at the other end. -/
def Emptied (s : Side) (l : Link Party Message) : Prop :=
  ∀ t, (l.party s.other).channel.buffer t = []

/-- The other end has announced more than `s` has sent. -/
def Announced (o : Opening) (s : Side) (l : Link Party Message) : Prop :=
  total Message.dataLen (l.sent s) < o.window s.other + total Message.credit (l.sent s.other)

/-- Nothing was sent at `s`, and no announcement was taken back. -/
structure Listens (s : Side) (l l' : Link Party Message) : Prop where
  data : total Message.dataLen (l'.sent s) = total Message.dataLen (l.sent s)
  credit : total Message.credit (l.sent s.other) ≤ total Message.credit (l'.sent s.other)

theorem Listens.refl (s : Side) (l : Link Party Message) : Listens s l l := ⟨rfl, Nat.le_refl _⟩

theorem Listens.trans {s : Side} {l l' l'' : Link Party Message} (first : Listens s l l')
    (rest : Listens s l' l'') : Listens s l l'' :=
  ⟨rest.data.trans first.data, Nat.le_trans first.credit rest.credit⟩

theorem Listens.announced {o : Opening} {s : Side} {l l' : Link Party Message}
    (listens : Listens s l l') (announced : Announced o s l) : Announced o s l' := by
  have data := listens.data
  have credit := listens.credit
  unfold Announced at *
  omega

/-- The events lead on to where the write still waits with the same data. -/
structure Waits (o : Opening) (s : Side) (stream : Stream) (data : List UInt8)
    (es : List (LinkEvent Act (List Nat))) (l : Link Party Message)
    (tail : List (LinkEvent Act (List Nat))) (l' : Link Party Message) : Prop where
  run : l.run channelProtocol tail = some l'
  helps : ∀ e ∈ tail, Helps s e
  pending : Pending o s stream data (es ++ tail) l'
  listens : Listens s l l'

theorem Waits.refl {o : Opening} {s : Side} {stream : Stream} {data : List UInt8}
    {es : List (LinkEvent Act (List Nat))} {l : Link Party Message}
    (pending : Pending o s stream data es l) : Waits o s stream data es l [] l where
  run := rfl
  helps := List.forall_mem_nil _
  pending := by rwa [List.append_nil]
  listens := .refl s l

theorem Waits.trans {o : Opening} {s : Side} {stream : Stream} {data : List UInt8}
    {es tail tail' : List (LinkEvent Act (List Nat))} {l l' l'' : Link Party Message}
    (first : Waits o s stream data es l tail l')
    (rest : Waits o s stream data (es ++ tail) l' tail' l'') :
    Waits o s stream data es l (tail ++ tail') l'' where
  run := run_trans first.run rest.run
  helps := List.forall_mem_append.mpr ⟨first.helps, rest.helps⟩
  pending := by
    rw [← List.append_assoc]
    exact rest.pending
  listens := first.listens.trans rest.listens

namespace Pending

variable {o : Opening} {s : Side} {stream : Stream} {data : List UInt8}
  {es : List (LinkEvent Act (List Nat))} {l l' : Link Party Message}

/-- Neither end has received a close. -/
theorem opened (pending : Pending o s stream data es l) (t : Side) :
    (l.party t).channel.state = .opened := by
  have own := pending.runs.accounts s
  have other := pending.runs.accounts s.other
  have writing := own.writing stream data pending.call
  have noClose : .close ∉ l.sent s := fun mem => by
    have ended := own.closedEof (own.closedLocal mem)
    rw [writing] at ended
    cases ended
  have noCloseBack : .close ∉ l.sent s.other := fun mem => by
    have closed := other.closedLocal mem
    rw [pending.notClosed] at closed
    cases closed
  cases state : (l.party t).channel.state with
  | opened => rfl
  | closed =>
      exfalso
      rcases s.eq_or_eq_other t with rfl | rfl
      · rcases own.closed state with closed | received
        · rw [own.closedEof closed] at writing
          cases writing
        · exact noCloseBack ((l.received_starts t).subset received)
      · rcases other.closed state with closed | received
        · rw [pending.notClosed] at closed
          cases closed
        · have mem := (l.received_starts s.other).subset received
          rw [Side.other_other] at mem
          exact noClose mem

/-- The program at the other end makes a read of a stream. -/
theorem turn (pending : Pending o s stream data es l) (t : Stream) {count : Nat}
    (some_ : 0 < count) (fits : count < 2 ^ 32) :
    ∃ tail l' reading asks answers,
      ReadTurn (l.party s.other) t count reading asks (l'.party s.other) answers ∧
      Waits o s stream data es l tail l' ∧
      l'.inFlight s = l.inFlight s ∧
      l'.inFlight s.other = l.inFlight s.other ++ asks ++ answers := by
  obtain ⟨reading, asks, p', answers, reads⟩ := readTurn_exists pending.idle
    (pending.opened s.other) ((pending.runs.kept pending.kept).buffers t) some_ fits
  have first : l.step channelProtocol (.act s.other (.read t count)) =
      some (l.goOn s.other reading asks) := Link.act_step reads.begins
  have second : (l.goOn s.other reading asks).step channelProtocol (.act s.other .endRead) =
      some ((l.goOn s.other reading asks).goOn s.other p' answers) := by
    apply Link.act_step
    rw [Link.goOn_party]
    exact reads.ends
  have runs₁ := pending.runs.step first
  have runs₂ := runs₁.step second
  have party : ((l.goOn s.other reading asks).goOn s.other p' answers).party s.other = p' :=
    Link.goOn_party
  refine ⟨[.act s.other (.read t count)] ++ [.act s.other .endRead],
    (l.goOn s.other reading asks).goOn s.other p' answers, reading, asks, answers, ?_, {
      run := run_trans ((run_single _).trans first) ((run_single _).trans second)
      helps := by simp [Helps]
      pending := {
        runs := by rwa [← List.append_assoc]
        kept := by
          rw [← List.append_assoc, runs₁.kept_act second, pending.runs.kept_act first]
          exact pending.kept
        call := by
          rw [Link.goOn_other_party, Link.goOn_other_party]
          exact pending.call
        idle := by
          rw [party]
          exact reads.idle
        notClosed := by
          rw [party]
          exact reads.closedLocal.trans pending.notClosed }
      listens := ⟨by rw [Link.goOn_other_sent, Link.goOn_other_sent], by
        rw [Link.goOn_sent, Link.goOn_sent, total_append, total_append]
        omega⟩ }, ?_, ?_⟩
  · rwa [party]
  · rw [Link.goOn_other_inFlight, Link.goOn_other_inFlight]
  · rw [Link.goOn_inFlight, Link.goOn_inFlight]

/-- All that is unread of a stream is read. -/
theorem readAll (pending : Pending o s stream data es l) (t : Stream) :
    ∃ tail l', Waits o s stream data es l tail l' ∧
      (l'.party s.other).channel.buffer t = [] ∧
      (∀ u, u ≠ t → (l'.party s.other).channel.buffer u = (l.party s.other).channel.buffer u) ∧
      Link.flight Message.weight l' ≤ Link.flight Message.weight l + 2 := by
  rcases Nat.eq_zero_or_pos ((l.party s.other).channel.buffer t).length with empty | some_
  · refine ⟨[], l, .refl pending, List.length_eq_zero_iff.mp empty, fun _ _ => rfl, ?_⟩
    exact Nat.le_add_right ..
  · have below := (pending.runs.kept pending.kept).below t
    have fits : ((l.party s.other).channel.buffer t).length < 2 ^ 32 :=
      Nat.lt_trans below (by decide)
    obtain ⟨tail, l', reading, asks, answers, reads, waits, same, more⟩ :=
      pending.turn t some_ fits
    refine ⟨tail, l', waits, reads.rest (Nat.le_refl _), reads.others, ?_⟩
    have light := reads.light
    rw [Link.flight_eq _ l' s, Link.flight_eq _ l s, same, more, total_append, total_append]
    omega

/-- All that is unread is read. -/
theorem readBoth (pending : Pending o s stream data es l) :
    ∃ tail l', Waits o s stream data es l tail l' ∧ Emptied s l' := by
  rcases pending.readAll .stdout with ⟨tail, l', waits, empty, -, -⟩
  rcases waits.pending.readAll .stderr with ⟨tail', l'', waits', empty', others, -⟩
  refine ⟨tail ++ tail', l'', waits.trans waits', fun t => ?_⟩
  cases t with
  | stdout => exact (others .stdout (by decide)).trans empty
  | stderr => exact empty'

/-- A message arrives, which takes room only at the other end. -/
theorem receive (pending : Pending o s stream data es l) {t : Side} {m : Message}
    {rest : List Message} (oldest : l.inFlight t.other = m :: rest)
    (room : t = s.other → (l.party s.other).HasRoom m) :
    Waits o s stream data es l [.receive t []]
      ((l.arrive t m rest).goOn t ((l.party t).handle m []).1 ((l.party t).handle m []).2) := by
  have steps := Link.receive_step (p := channelProtocol) oldest []
  have noRead (u : Side) (p : Stream) (count : Nat) : (l.party u).call ≠ some (.read p count) := by
    rcases s.eq_or_eq_other u with rfl | rfl
    · rw [pending.call]
      exact fun is => by cases is
    · rw [pending.idle]
      exact fun is => by cases is
  have moved (u : Side) : Unmoved (l.party u)
      (((l.arrive t m rest).goOn t ((l.party t).handle m []).1
        ((l.party t).handle m []).2).party u) := by
    rcases t.eq_or_eq_other u with rfl | rfl
    · rw [Link.goOn_party]
      exact handle_unmoved _ m []
    · rw [Link.goOn_party_other]
      exact ⟨fun _ => rfl, rfl⟩
  have sends (u : Side) : total Message.dataLen (((l.arrive t m rest).goOn t
        ((l.party t).handle m []).1 ((l.party t).handle m []).2).sent u) =
      total Message.dataLen (l.sent u) ∧ total Message.credit (l.sent u) ≤
        total Message.credit (((l.arrive t m rest).goOn t ((l.party t).handle m []).1
          ((l.party t).handle m []).2).sent u) := by
    rcases t.eq_or_eq_other u with rfl | rfl
    · rw [Link.goOn_sent, Link.arrive_sent oldest, total_append, total_append,
        (handle_light (l.party u) m []).1]
      exact ⟨rfl, Nat.le_add_right ..⟩
    · rw [Link.goOn_sent_other, Link.arrive_sent oldest]
      exact ⟨rfl, Nat.le_refl _⟩
  exact {
    run := (run_single _).trans steps
    helps := List.forall_mem_singleton.mpr trivial
    pending := {
      runs := pending.runs.step steps
      kept := pending.runs.kept_receive oldest steps pending.kept room
      call := ((moved s).call (noRead s)).trans pending.call
      idle := ((moved s.other).call (noRead s.other)).trans pending.idle
      notClosed := (moved s.other).closedLocal.trans pending.notClosed }
    listens := ⟨(sends s).1, (sends s.other).2⟩ }

/-- An empty buffer has room for any packet. -/
theorem room (pending : Pending o s stream data es l) (empty : Emptied s l) {m : Message}
    (mem : m ∈ l.inFlight s) : (l.party s.other).HasRoom m := by
  cases m with
  | data t bytes =>
      have packet := ((windows_agree pending.runs s).packets t bytes mem).2
      have fits := o.packetFits s
      change ((l.party s.other).channel.buffer t).length + bytes.length < bufferSizeMax
      rw [empty t, List.length_nil]
      omega
  | windowAdjust n => trivial
  | eof => trivial
  | close => trivial

/-- A message arrives, and is read if it is data for the other end. -/
theorem receiveAndRead (pending : Pending o s stream data es l) (empty : Emptied s l) {t : Side}
    {m : Message} {rest : List Message} (oldest : l.inFlight t.other = m :: rest) :
    ∃ tail l', Waits o s stream data es l tail l' ∧ Emptied s l' ∧
      Link.flight Message.weight l' < Link.flight Message.weight l := by
  have lighter : Link.flight Message.weight ((l.arrive t m rest).goOn t
      ((l.party t).handle m []).1 ((l.party t).handle m []).2) + m.weight =
      Link.flight Message.weight l + Link.total Message.weight ((l.party t).handle m []).2 :=
    Link.flight_receive Message.weight oldest
  rcases s.eq_or_eq_other t with rfl | rfl
  · have less := handle_lighter (l.party t) m []
    refine ⟨_, _, pending.receive oldest fun is => (t.other_ne is.symm).elim, fun u => ?_, by omega⟩
    rw [Link.goOn_party_other]
    exact empty u
  · have flies : m ∈ l.inFlight s := by
      have first : m ∈ l.inFlight s.other.other := by
        rw [oldest]
        exact List.mem_cons_self ..
      rwa [Side.other_other] at first
    have arrived := pending.receive oldest fun _ => pending.room empty flies
    generalize next : (l.arrive s.other m rest).goOn s.other ((l.party s.other).handle m []).1
      ((l.party s.other).handle m []).2 = l₁ at arrived lighter
    have party : l₁.party s.other = ((l.party s.other).handle m []).1 := by
      rw [← next, Link.goOn_party]
    cases isData : m.isData with
    | false =>
        have less := handle_lighter (l.party s.other) m []
        refine ⟨_, l₁, arrived, fun u => ?_, by omega⟩
        rw [party, handle_buffer _ [] fun bytes is => by rw [is] at isData; cases isData]
        exact empty u
    | true =>
        obtain ⟨u, bytes, rfl⟩ : ∃ u bytes, m = .data u bytes := by
          cases m with
          | data u bytes => exact ⟨u, bytes, rfl⟩
          | windowAdjust n => cases isData
          | eof => cases isData
          | close => cases isData
        rcases arrived.pending.readAll u with ⟨tail, l₂, reads, read, others, heavier⟩
        have light := (handle_light (l.party s.other) (.data u bytes) []).2
        rw [isData, if_pos rfl] at light
        have weight : (Message.data u bytes).weight = 4 := rfl
        refine ⟨_, l₂, arrived.trans reads, fun v => ?_, by omega⟩
        rcases Decidable.em (v = u) with is | apart
        · rw [is]
          exact read
        · rw [others v apart, party,
            handle_buffer _ [] fun bytes' is => apart (Message.data.inj is).1.symm]
          exact empty v

/-- All that is in flight arrives and is read. -/
theorem drain (pending : Pending o s stream data es l) (empty : Emptied s l) :
    ∃ tail l', Waits o s stream data es l tail l' ∧ Emptied s l' ∧ ∀ t, l'.inFlight t = [] := by
  obtain ⟨tail, l', run, helps, ⟨still, nothing, listens⟩, quiet⟩ :=
    Link.drains (p := channelProtocol) (H := Helps s) Message.weight
      (I := fun es' l' => Pending o s stream data es' l' ∧ Emptied s l' ∧ Listens s l l')
      (fun es' l₁ t m rest ⟨pending, empty, listens⟩ oldest => by
        rcases pending.receiveAndRead empty oldest with ⟨tail, l₂, waits, empty₂, less⟩
        exact ⟨tail, l₂, waits.run, waits.helps,
          ⟨waits.pending, empty₂, listens.trans waits.listens⟩, less⟩)
      (l := l) ⟨pending, empty, .refl s l⟩
  exact ⟨tail, l', ⟨run, helps, still, listens⟩, nothing, quiet⟩

theorem announced_of_window (pending : Pending o s stream data es l)
    (quiet : l.inFlight s = []) (window : 0 < (l.party s.other).channel.localWindow) :
    Announced o s l := by
  have balance := (pending.runs.kept pending.kept).localWindow
  unfold Announced
  rw [Link.sent, quiet, List.append_nil]
  omega

/-- With nothing in flight and nothing unread, a read at the other end opens the window
for more. -/
theorem read (pending : Pending o s stream data es l) (empty : Emptied s l)
    (quiet : ∀ t, l.inFlight t = []) :
    ∃ tail l', Waits o s stream data es l tail l' ∧ Emptied s l' ∧ Announced o s l' := by
  obtain ⟨tail, l', reading, asks, answers, reads, waits, same, -⟩ :=
    pending.turn .stdout Nat.one_pos (by decide)
  have fits := (pending.runs.accounts s.other).windowFits
  have window := reads.window (empty .stdout) rfl fits
  refine ⟨tail, l', waits, fun t => ?_, waits.pending.announced_of_window ?_ window⟩
  · cases t with
    | stdout =>
        apply reads.rest
        rw [empty .stdout]
        decide
    | stderr => exact (reads.others .stderr (by decide)).trans (empty .stderr)
  · rw [same, quiet]

/-- A packet is sent. -/
theorem send (pending : Pending o s stream data es l) (more : data ≠ [])
    (window : 0 < (l.party s).channel.remoteWindow) :
    ∃ l' n, l.step channelProtocol (.act s .send) = some l' ∧ 0 < n ∧
      Pending o s stream (data.drop n) (es ++ [.act s .send]) l' := by
  have accounts := pending.runs.accounts s
  have fits : o.maxpacket s < 2 ^ 32 := Nat.lt_trans (o.packetFits s) (by decide)
  have effective := effectivelen_spec (accounts.remoteMaxpacket.trans_gt (o.packetRoom s))
    (accounts.remoteMaxpacket.trans_lt fits) more window
  have acts := act_send pending.call more window (pending.opened s)
  have steps : l.step channelProtocol (.act s .send) =
      some (l.goOn s ((l.party s).sendPacket stream data).1
        ((l.party s).sendPacket stream data).2) := Link.act_step acts
  refine ⟨_, _, steps, effective.some, ?_⟩
  exact {
    runs := pending.runs.step steps
    kept := by
      rw [pending.runs.kept_act steps]
      exact pending.kept
    call := by
      rw [Link.goOn_party]
      rfl
    idle := by
      rw [Link.goOn_party_other]
      exact pending.idle
    notClosed := by
      rw [Link.goOn_party_other]
      exact pending.notClosed }

/-- The write sends a packet more. -/
theorem advance (pending : Pending o s stream data es l) (more : data ≠ []) :
    ∃ tail l' n, l.run channelProtocol tail = some l' ∧ (∀ e ∈ tail, Helps s e) ∧ 0 < n ∧
      Pending o s stream (data.drop n) (es ++ tail) l' := by
  rcases pending.readBoth with ⟨tail₁, l₁, waits₁, empty₁⟩
  rcases waits₁.pending.drain empty₁ with ⟨tail₂, l₂, waits₂, empty₂, quiet₂⟩
  rcases waits₂.pending.read empty₂ quiet₂ with ⟨tail₃, l₃, waits₃, empty₃, announced₃⟩
  rcases waits₃.pending.drain empty₃ with ⟨tail₄, l₄, waits₄, -, quiet₄⟩
  have waits := waits₁.trans (waits₂.trans (waits₃.trans waits₄))
  have window : 0 < (l₄.party s).channel.remoteWindow := by
    have balance := (waits.pending.runs.accounts s).remoteWindow
    have announced := waits₄.listens.announced announced₃
    unfold Announced at announced
    rw [Link.sent, sent_other, quiet₄ s.other, List.append_nil] at announced
    rw [Link.sent] at balance
    omega
  rcases waits.pending.send more window with ⟨l₅, n, steps, some_, sent⟩
  rw [List.append_assoc] at sent
  refine ⟨_, l₅, n, run_trans waits.run ((run_single _).trans steps), ?_, some_, sent⟩
  exact List.forall_mem_append.mpr ⟨waits.helps, List.forall_mem_singleton.mpr rfl⟩

/-- The write sends all it has. -/
theorem complete (pending : Pending o s stream data es l) :
    ∃ tail l', l.run channelProtocol tail = some l' ∧ (∀ e ∈ tail, Helps s e) ∧
      Pending o s stream [] (es ++ tail) l' := by
  generalize length : data.length = n
  induction n using Nat.strongRecOn generalizing data es l with
  | _ n ih =>
      cases data with
      | nil =>
          refine ⟨[], l, rfl, List.forall_mem_nil _, ?_⟩
          rw [List.append_nil]
          exact pending
      | cons byte bytes =>
          obtain ⟨tail, l', k, run, helps, some_, next⟩ :=
            pending.advance (List.cons_ne_nil byte bytes)
          have shorter : ((byte :: bytes).drop k).length < n := by
            rw [List.length_drop, length]
            rw [List.length_cons] at length
            omega
          rcases ih _ shorter next rfl with ⟨tail', l'', rest, others, done⟩
          rw [List.append_assoc] at done
          exact ⟨tail ++ tail', l'', run_trans run rest,
            List.forall_mem_append.mpr ⟨helps, others⟩, done⟩

end Pending

/-- A read can always end, and leaves no call. -/
theorem endRead_idle {p : Party} {stream : Stream} {count : Nat}
    (reading : p.call = some (.read stream count)) :
    ∃ p' ms, p.act .endRead = some (p', ms) ∧ p'.call = none ∧
      p'.channel.closedLocal = p.channel.closedLocal := by
  refine ⟨(p.endRead stream count).1, (p.endRead stream count).2, ?_, ?_⟩
  · unfold Party.act
    dsimp only
    rw [reading]
  · unfold Party.endRead
    dsimp only
    split
    · exact ⟨rfl, rfl⟩
    · obtain ⟨b, took⟩ := passBytes_takes p.channel stream
        (min (p.channel.buffer stream).length count)
      refine ⟨rfl, ?_⟩
      unfold Party.onChannel
      rw [(growAfterRead_grows _).channel, took.channel]
      cases stream <;> rfl

/-- No write is stuck for good: in whatever state the two ends got to, while one is in a
write and the other is not and has not closed the channel, and there was room for all
the data at the other end, the write can send all it has left, if the other end only
reads; and there is room for all of it. -/
theorem write_completes {o : Opening} {es : List (LinkEvent Act (List Nat))}
    {l : Link Party Message} (runs : o.Runs es l) {s : Side} (kept : (o.noted es s.other).kept)
    {stream : Stream} {data : List UInt8} (writing : (l.party s).call = some (.write stream data))
    (reader : ∀ stream data, (l.party s.other).call ≠ some (.write stream data))
    (notClosed : (l.party s.other).channel.closedLocal = false) :
    ∃ tail l', l.run channelProtocol tail = some l' ∧ (∀ e ∈ tail, Helps s e) ∧
      (l'.party s).call = some (.write stream []) ∧ (o.noted (es ++ tail) s.other).kept := by
  cases other : (l.party s.other).call with
  | none =>
      obtain ⟨tail, l', run, helps, done⟩ :=
        Pending.complete ⟨runs, kept, writing, other, notClosed⟩
      exact ⟨tail, l', run, helps, done.call, done.kept⟩
  | some call =>
      cases call with
      | write stream data => exact absurd other (reader stream data)
      | readFreed => exact absurd other (runs.kept kept).call
      | read t count =>
          -- the read that is in progress ends first
          rcases endRead_idle other with ⟨p', ms, ends, idle, closedLocal⟩
          have steps : l.step channelProtocol (.act s.other .endRead) =
              some (l.goOn s.other p' ms) := Link.act_step ends
          have pending : Pending o s stream data (es ++ [.act s.other .endRead])
              (l.goOn s.other p' ms) := {
            runs := runs.step steps
            kept := by
              rw [runs.kept_act steps]
              exact kept
            call := by
              rw [Link.goOn_other_party]
              exact writing
            idle := by
              rw [Link.goOn_party]
              exact idle
            notClosed := by
              rw [Link.goOn_party]
              exact closedLocal.trans notClosed }
          rcases pending.complete with ⟨tail, l', run, helps, done⟩
          have kept' := done.kept
          rw [List.append_assoc] at kept'
          refine ⟨.act s.other .endRead :: tail, l', ?_, ?_, done.call, kept'⟩
          · exact run_trans ((run_single _).trans steps) run
          · exact List.forall_mem_cons.mpr ⟨rfl, helps⟩

/-- The other end waits in a read for what is written. -/
def readWaits : List (LinkEvent Act (List Nat)) :=
  [.act .far (.read .stdout 64), .act .near (.write .stdout [104, 105])]

theorem write_completes_readWaits :
    ∃ l, (Link.start sessionOpening.parties).run channelProtocol readWaits = some l ∧
      (l.party .far).call = some (.read .stdout 64) ∧
      ∃ tail l', l.run channelProtocol tail = some l' ∧ (∀ e ∈ tail, Helps .near e) ∧
        (l'.party .near).call = some (.write .stdout []) ∧
        (sessionOpening.noted (readWaits ++ tail) .far).kept :=
  ⟨_, rfl, rfl, @write_completes sessionOpening readWaits _ rfl .near trivial _ _
    rfl (fun _ _ is => by cases is) rfl⟩

end WindTerm.Libssh

import WindTerm.Libssh.Packet

/-!
# How packets are read

The reading of packets is a `Consumer` of the bytes of the socket, with two steps:
the length of a packet, then its body. Each looks only at bytes it knows to be there.
Between the steps a rekey may move the rest of the session. So polling the socket runs the
consumer (`polls_run`), and where no rekey comes due and the socket stays connected the
pieces in which the bytes arrive make no difference (`pollcallback_chunks`), for any
ciphers, MACs and callbacks and for any bytes.
-/

namespace WindTerm.Libssh

open Library

variable {κ ρ : Type} {h : Handlers κ ρ}

/-- What does not change with the context of the cipher. -/
def Crypto.setup (c : Crypto κ) : Cipher κ × Hmac × Bool × Nat × Nat × Compression :=
  (c.cipher, c.hmac, c.etm, c.packets, c.blocks, c.compression)

/-- Where a reading goes on, with the bytes consumed. -/
def Reading.next {len : Nat} : Reading κ ρ len → Option (Session κ ρ × Nat)
  | .waits _ => none
  | .fails processed _ s => some (s, processed)
  | .reads processed _ _ s => some (s, processed)

namespace Session

variable {s s' : Session κ ρ} {data payload : List UInt8} {n : Nat}

/-- One step of the reading: the length, or the body. -/
def readStep (h : Handlers κ ρ) (s : Session κ ρ) (pending : List UInt8) :
    Option (Session κ ρ × Nat) :=
  if s.error then none
  else
    match s.packetState with
    | .init =>
        let processed := s.lenfieldBlocksize + s.etmPacketOffset
        if processed ≤ pending.length then
          match s.readLength (pending.take processed) with
          | none => some (s.fail, processed)
          | some s' => some (s', 0)
        else none
    | .sizeread => (s.readBody h pending).next
    | .processing => none

/-! ## What the parts of a reading leave as it was -/

/-- The same session up to what is read and what it is read with. -/
structure Same (s s' : Session κ ρ) : Prop where
  recvSeq : s'.recvSeq = s.recvSeq
  error : s'.error = s.error
  rest : s'.rest = s.rest

/-- Only the context of the cipher may differ, and what is read. -/
structure Decrypts (s s' : Session κ ρ) : Prop extends Same s s' where
  setup : s'.crypto.map Crypto.setup = s.crypto.map Crypto.setup

theorem Decrypts.refl (s : Session κ ρ) : Decrypts s s := ⟨⟨rfl, rfl, rfl⟩, rfl⟩

theorem decrypts_context {c : Crypto κ} (on : s.crypto = some c) (context : κ) :
    Decrypts s { s with crypto := some { c with context := context } } :=
  ⟨⟨rfl, rfl, rfl⟩, by rw [on]; rfl⟩

theorem decrypt_decrypts {source clear : List UInt8} {start encryptedSize : Nat}
    (decrypts : s.decrypt source start encryptedSize = some (s', clear)) : Decrypts s s' := by
  unfold decrypt at decrypts
  split at decrypts
  · cases decrypts
  · rename_i c on
    rw [Option.ite_none_left_eq_some] at decrypts
    replace decrypts := decrypts.2
    split at decrypts
    · dsimp only at decrypts
      rw [Option.map_eq_some_iff] at decrypts
      rcases decrypts with ⟨_, -, is⟩
      cases is
      exact decrypts_context on _
    · cases decrypts
      exact decrypts_context on _

theorem decryptLen_decrypts (s : Session κ ρ) (source : List UInt8) :
    Decrypts s (s.decryptLen source).1 := by
  unfold decryptLen
  split
  · exact .refl s
  · rename_i c on
    split
    · dsimp only
      split
      · exact decrypts_context on _
      · exact decrypts_context on _
    · split
      · rename_i decrypts
        exact decrypt_decrypts decrypts
      · exact .refl s

/-- What is read as the length of a packet is followed by its body. -/
theorem readLength_decrypts (reads : s.readLength data = some s') :
    s'.packetState = .sizeread ∧ Decrypts s s' := by
  unfold readLength at reads
  dsimp only at reads
  rw [Option.dite_none_left_eq_some] at reads
  rcases reads with ⟨_, is⟩
  rw [← Option.some.inj is]
  refine ⟨rfl, ?_⟩
  split
  · exact ⟨⟨rfl, rfl, rfl⟩, rfl⟩
  · have decrypts := s.decryptLen_decrypts data
    exact ⟨⟨decrypts.recvSeq, decrypts.error, decrypts.rest⟩, decrypts.setup⟩

theorem decryptPacket_decrypts (decrypts : s.decryptPacket data = some s') : Decrypts s s' := by
  unfold decryptPacket at decrypts
  dsimp only at decrypts
  split at decrypts
  · cases decrypts
    exact ⟨⟨rfl, rfl, rfl⟩, rfl⟩
  · rw [Option.ite_none_left_eq_some] at decrypts
    replace decrypts := decrypts.2
    split at decrypts
    · cases decrypts
    · rename_i rest
      rw [Option.ite_none_left_eq_some] at decrypts
      rw [← Option.some.inj decrypts.2]
      split at rest
      · have opened := decrypt_decrypts rest
        exact ⟨⟨opened.recvSeq, opened.error, opened.rest⟩, opened.setup⟩
      · cases rest
        exact ⟨⟨rfl, rfl, rfl⟩, rfl⟩

theorem decompress_same {packed : List UInt8}
    (inflates : s.decompress packed = some (s', payload)) : Same s s' := by
  unfold decompress at inflates
  split at inflates
  · cases inflates
    exact ⟨rfl, rfl, rfl⟩
  · rw [Option.map_eq_some_iff] at inflates
    rcases inflates with ⟨_, -, is⟩
    cases is
    exact ⟨rfl, rfl, rfl⟩

/-! ## What a packet leaves -/

theorem processPayload_denied (denied : h.incomingFilter s.rest (payload.headD 0) = .denied) :
    (s.processPayload h payload).2 = false ∧ (s.processPayload h payload).1.error = true ∧
      (s.processPayload h payload).1.rest = s.rest := by
  unfold processPayload
  dsimp only
  rw [denied]
  exact ⟨rfl, rfl, rfl⟩

theorem processPayload_unknown (unknown : h.incomingFilter s.rest (payload.headD 0) = .unknown) :
    s.processPayload h payload =
      ({ s with
        recvSeq := (s.recvSeq + 1) % 2 ^ 32
        crypto := s.crypto.map (Crypto.count · payload.length)
        packetState := .init
        inPacketLen := ⟨0, Nat.zero_le _⟩
        inBuffer := payload.tail
        rest := h.sendUnimplemented s.rest s.recvSeq }, true) := by
  unfold processPayload
  dsimp only
  rw [unknown]

theorem processPayload_allowed (allowed : h.incomingFilter s.rest (payload.headD 0) = .allowed) :
    s.processPayload h payload =
      let p := h.process s.rest s.recvSeq (payload.headD 0) payload.tail
      ({ s with
        recvSeq := (s.recvSeq + 1) % 2 ^ 32
        packetState := .init
        inPacketLen := ⟨0, Nat.zero_le _⟩
        inBuffer := payload.tail
        crypto := (p.newkeys.or (s.crypto.map (Crypto.count · payload.length))).map
          (Crypto.delayedCompress · p.delayedCompress)
        error := p.error
        rest := p.rest }, true) := by
  unfold processPayload
  dsimp only
  rw [allowed]

/-! ## The steps of the reading -/

/-- What the body needs. -/
theorem readBody_next (s : Session κ ρ) (h : Handlers κ ρ) (data : List UInt8) :
    (s.readBody h data).next =
      if s.inPacketLen.1 + 4 + s.currentMacsize ≤ data.length then
        match s.decryptPacket (data.take (s.inPacketLen.1 + 4 + s.currentMacsize)) with
        | none => some (s.fail, s.inPacketLen.1 + 4)
        | some s₁ =>
            match s₁.payload with
            | none => some (s₁.fail, s.inPacketLen.1 + 4 + s.currentMacsize)
            | some packed =>
                match s₁.decompress packed with
                | none => some (s₁.fail, s.inPacketLen.1 + 4 + s.currentMacsize)
                | some (s₂, payload) =>
                    some ((s₂.processPayload h payload).1, s.inPacketLen.1 + 4 + s.currentMacsize)
      else none := by
  unfold readBody
  dsimp only
  split
  · cases s.decryptPacket (data.take (s.inPacketLen.1 + 4 + s.currentMacsize)) with
    | none => rfl
    | some s₁ =>
        dsimp only
        cases s₁.payload with
        | none => rfl
        | some packed =>
            dsimp only
            cases s₁.decompress packed with
            | none => rfl
            | some opened =>
                dsimp only
                split <;> rfl
  · rfl

/-- The ways a step of the reading goes: it fails, it reads a length, or it has a packet
processed. -/
inductive Went (h : Handlers κ ρ) (s : Session κ ρ) (pending : List UInt8) :
    Session κ ρ → Nat → Prop
  | fails (s' : Session κ ρ) (n : Nat) (fits : n ≤ pending.length) (failed : s'.error = true)
    (rest : s'.rest = s.rest) : Went h s pending s' n
  | length (s' : Session κ ρ) (state : s.packetState = .init)
    (enough : s.lenfieldBlocksize + s.etmPacketOffset ≤ pending.length)
    (reads : s.readLength (pending.take (s.lenfieldBlocksize + s.etmPacketOffset)) = some s') :
    Went h s pending s' 0
  | packet (s₁ s₂ : Session κ ρ) (packed payload : List UInt8) (n : Nat)
    (state : s.packetState = .sizeread) (whole : n = s.inPacketLen.1 + 4 + s.currentMacsize)
    (enough : n ≤ pending.length) (decrypts : s.decryptPacket (pending.take n) = some s₁)
    (framed : s₁.payload = some packed) (inflates : s₁.decompress packed = some (s₂, payload)) :
    Went h s pending (s₂.processPayload h payload).1 n

theorem readStep_went (steps : readStep h s data = some (s', n)) : Went h s data s' n := by
  unfold readStep at steps
  split at steps
  · cases steps
  · split at steps
    · rename_i state
      dsimp only at steps
      split at steps
      · rename_i enough
        split at steps
        · cases steps
          exact .fails _ _ enough rfl rfl
        · rename_i reads
          cases steps
          exact .length _ state enough reads
      · cases steps
    · rename_i state
      rw [readBody_next] at steps
      split at steps
      · rename_i enough
        split at steps
        · cases steps
          exact .fails _ _ (by omega) rfl rfl
        · rename_i s₁ decrypts
          have same := decryptPacket_decrypts decrypts
          split at steps
          · cases steps
            exact .fails _ _ enough rfl same.rest
          · rename_i packed framed
            split at steps
            · cases steps
              exact .fails _ _ enough rfl same.rest
            · rename_i s₂ payload inflates
              cases steps
              exact .packet s₁ s₂ packed payload _ state rfl enough decrypts framed inflates
      · cases steps
    · cases steps

theorem readStep_consumed_le (steps : readStep h s data = some (s', n)) : n ≤ data.length := by
  cases readStep_went steps with
  | fails _ _ fits _ _ => exact fits
  | length _ _ _ _ => exact Nat.zero_le _
  | packet _ _ _ _ _ _ _ enough _ _ _ => exact enough

theorem take_more (more : List UInt8) (fits : n ≤ data.length) :
    (data ++ more).take n = data.take n :=
  List.take_append_of_le_length fits

/-- The body does not look behind the packet. -/
theorem readBody_more (more : List UInt8) {x : Session κ ρ × Nat}
    (reads : (s.readBody h data).next = some x) :
    (s.readBody h (data ++ more)).next = some x := by
  rw [readBody_next] at reads ⊢
  split at reads
  · rename_i enough
    have there : s.inPacketLen.1 + 4 + s.currentMacsize ≤ (data ++ more).length := by
      rw [List.length_append]
      omega
    rw [if_pos there, take_more more enough]
    exact reads
  · cases reads

theorem readStep_keeps (more : List UInt8) (steps : readStep h s data = some (s', n)) :
    readStep h s (data ++ more) = some (s', n) := by
  unfold readStep at steps ⊢
  split at steps
  · cases steps
  · rename_i running
    rw [if_neg running]
    split at steps
    · dsimp only at steps ⊢
      split at steps
      · rename_i enough
        have there : s.lenfieldBlocksize + s.etmPacketOffset ≤ (data ++ more).length := by
          rw [List.length_append]
          omega
        rw [if_pos there, take_more more enough]
        exact steps
      · cases steps
    · exact readBody_more more steps
    · cases steps

/-- The reading of packets. -/
def reader (h : Handlers κ ρ) : Consumer (Session κ ρ) UInt8 where
  step := readStep h
  consumed_le := readStep_consumed_le
  keeps := readStep_keeps

/-- A rekey comes due and is sent. -/
def Rekeyed (h : Handlers κ ρ) (s s' : Session κ ρ) : Prop :=
  h.needRekey s.rest s.crypto = true ∧ s' = { s with rest := (h.sendRekex s.rest).1 }

/-- No packet is in the hands of its callbacks, unless the session failed. -/
def Between (s : Session κ ρ) : Prop := s.error = true ∨ s.packetState ≠ .processing

theorem processPayload_between (s : Session κ ρ) (h : Handlers κ ρ) (payload : List UInt8) :
    (s.processPayload h payload).1.Between := by
  cases filter : h.incomingFilter s.rest (payload.headD 0) with
  | denied => exact Or.inl (processPayload_denied filter).2.1
  | unknown =>
      rw [processPayload_unknown filter]
      exact Or.inr fun state => by cases state
  | allowed =>
      rw [processPayload_allowed filter]
      exact Or.inr fun state => by cases state

theorem readStep_between (steps : readStep h s data = some (s', n)) : s'.Between := by
  cases readStep_went steps with
  | fails _ _ _ failed _ => exact Or.inl failed
  | length _ _ _ reads =>
      refine Or.inr fun state => ?_
      rw [(readLength_decrypts reads).1] at state
      cases state
  | packet _ _ _ _ _ _ _ _ _ _ _ => exact processPayload_between ..

theorem runs_between {pending left : List UInt8} {t : Session κ ρ}
    (runs : (reader h).Runs (Rekeyed h) s pending t left) (between : s.Between) : t.Between :=
  runs.invariant (fun steps _ => readStep_between steps)
    (fun moved between => by rw [moved.2]; exact between) between

theorem waits_of_error (failed : s.error = true) : (reader h).Waits s data := if_pos failed

/-- A session that has read nothing since its last packet waits. -/
theorem waits_nil (state : s.packetState = .init)
    (some : 0 < s.lenfieldBlocksize + s.etmPacketOffset) : (reader h).Waits s [] := by
  change readStep h s [] = none
  unfold readStep
  rw [state]
  split
  · rfl
  · exact if_neg (Nat.not_le.mpr some)

/-- A session that waits has little pending: `BUFFER_SIZE_MAX` is far. -/
theorem waits_small (waits : (reader h).Waits s data) (running : s.error = false)
    (between : s.Between) : data.length + maxBufSize < bufferSizeMax := by
  have waits : readStep h s data = none := waits
  have most : maxPacketLen + 4 + digestMaxLen + maxBufSize ≤ bufferSizeMax := by decide
  have start : s.lenfieldBlocksize + s.etmPacketOffset ≤ 20 := by
    have offset : s.etmPacketOffset ≤ 4 := by
      unfold etmPacketOffset
      split <;> omega
    have lenfield : s.lenfieldBlocksize ≤ 16 := by
      unfold lenfieldBlocksize
      split
      · omega
      · cases s.crypto with
        | none => exact Nat.le_add_right 8 8
        | some c =>
            dsimp only [Option.elim]
            split
            · exact c.cipher.blocksize_le
            · exact c.cipher.lenfieldBlocksize_le
    omega
  have macsize : s.currentMacsize ≤ digestMaxLen := by
    unfold currentMacsize
    cases s.crypto with
    | none => exact Nat.zero_le _
    | some c => exact c.hmac.digestLen_le
  have limit := s.inPacketLen.2
  have twenty : 20 ≤ maxPacketLen := by decide
  unfold readStep at waits
  rw [running, if_neg Bool.false_ne_true] at waits
  cases state : s.packetState with
  | init =>
      rw [state] at waits
      dsimp only at waits
      split at waits
      · split at waits
        · cases waits
        · cases waits
      · omega
  | sizeread =>
      rw [state] at waits
      dsimp only at waits
      rw [readBody_next] at waits
      split at waits
      · split at waits
        · cases waits
        · split at waits
          · cases waits
          · split at waits
            · cases waits
            · cases waits
      · omega
  | processing =>
      rcases between with failed | other
      · rw [running] at failed
        cases failed
      · exact absurd state other

/-! ## The callback -/

/-- A reading of one packet does what steps of the reader do. -/
def TakesSteps (h : Handlers κ ρ) (s : Session κ ρ) (data : List UInt8) :
    Reading κ ρ data.length → Prop
  | .waits s' => (reader h).Goes s data s' data ∧ (reader h).Waits s' data
  | .fails n _ s' => (reader h).Goes s data s' (data.drop n) ∧ s'.error = true
  | .reads n _ _ s' => (reader h).Goes s data s' (data.drop n)

theorem readBody_steps (running : s.error = false) (state : s.packetState = .sizeread)
    (h : Handlers κ ρ) (data : List UInt8) : TakesSteps h s data (s.readBody h data) := by
  have step : (reader h).step s data = (s.readBody h data).next := by
    change readStep h s data = _
    unfold readStep
    rw [running, state]
    rfl
  rw [readBody_next] at step
  unfold readBody
  dsimp only
  split
  · rename_i enough
    rw [if_pos enough] at step
    cases clear : s.decryptPacket (data.take (s.inPacketLen.1 + 4 + s.currentMacsize)) with
    | none =>
        rw [clear] at step
        exact ⟨.step step (.refl ..), rfl⟩
    | some s₁ =>
        rw [clear] at step
        dsimp only at step ⊢
        cases framed : s₁.payload with
        | none =>
            rw [framed] at step
            exact ⟨.step step (.refl ..), rfl⟩
        | some packed =>
            rw [framed] at step
            dsimp only at step ⊢
            cases inflates : s₁.decompress packed with
            | none =>
                rw [inflates] at step
                exact ⟨.step step (.refl ..), rfl⟩
            | some opened =>
                rw [inflates] at step
                dsimp only at step ⊢
                split
                · exact .step step (.refl ..)
                · rename_i denied
                  refine ⟨.step step (.refl ..), ?_⟩
                  cases filter : h.incomingFilter opened.1.rest (opened.2.headD 0) with
                  | denied => exact (processPayload_denied filter).2.1
                  | unknown =>
                      rw [processPayload_unknown filter] at denied
                      exact absurd rfl denied
                  | allowed =>
                      rw [processPayload_allowed filter] at denied
                      exact absurd rfl denied
  · rename_i few
    rw [if_neg few] at step
    exact ⟨.refl .., step⟩

/-- A step that consumes nothing comes before others. -/
theorem TakesSteps.after (first : (reader h).step s data = some (s', 0))
    {reading : Reading κ ρ data.length} (steps : TakesSteps h s' data reading) :
    TakesSteps h s data reading := by
  cases reading with
  | waits t => exact ⟨.step first steps.1, steps.2⟩
  | fails n fits t => exact ⟨.step first steps.1, steps.2⟩
  | reads n some fits t => exact .step first steps

/-- The reading of a packet is steps of the reader. -/
theorem readPacket_steps (h : Handlers κ ρ) (s : Session κ ρ) (data : List UInt8) :
    TakesSteps h s data (s.readPacket h data) := by
  unfold readPacket
  split
  · rename_i failed
    exact ⟨.refl .., failed⟩
  · rename_i running
    have running := (Bool.not_eq_true _).mp running
    have step : (reader h).step s data = readStep h s data := rfl
    unfold readStep at step
    rw [running] at step
    cases state : s.packetState with
    | init =>
        rw [state] at step
        dsimp only at step ⊢
        split
        · rename_i enough
          rw [if_pos enough] at step
          cases reads : s.readLength (data.take (s.lenfieldBlocksize + s.etmPacketOffset)) with
          | none =>
              rw [reads] at step
              exact ⟨.step step (.refl ..), rfl⟩
          | some s' =>
              rw [reads] at step
              apply TakesSteps.after step
              have next := readLength_decrypts reads
              exact readBody_steps (next.2.error.trans running) next.1 h data
        · rename_i few
          rw [if_neg few] at step
          exact ⟨.refl .., step⟩
    | sizeread => exact readBody_steps running state h data
    | processing =>
        rw [state] at step
        exact ⟨.refl .., step⟩

/-- A rekey that comes due is sent. -/
def SendsRekex (h : Handlers κ ρ) (s : Session κ ρ) : Prop :=
  h.needRekey s.rest s.crypto = true → (h.sendRekex s.rest).2 = true

/-- From a session and what is pending on, every rekey that comes due is sent. -/
def SendsAll (h : Handlers κ ρ) (s : Session κ ρ) (pending : List UInt8) : Prop :=
  ∀ t left, (reader h).Runs (Rekeyed h) s pending t left → SendsRekex h t

theorem SendsAll.after {pending left : List UInt8} {t : Session κ ρ} (sends : SendsAll h s pending)
    (runs : (reader h).Runs (Rekeyed h) s pending t left) : SendsAll h t left :=
  fun u rest next => sends u rest (runs.trans next)

theorem SendsAll.of_more {pending more : List UInt8} (sends : SendsAll h s (pending ++ more)) :
    SendsAll h s pending := fun t left runs => sends t (left ++ more) (runs.more more)

/-- The end of the callback is a rekey or nothing. -/
theorem rekey_runs (processed : Int) (sends : SendsRekex h s) (pending : List UInt8) :
    (s.rekey h processed).1 = processed ∧
      (reader h).Runs (Rekeyed h) s pending (s.rekey h processed).2 pending := by
  unfold rekey
  split
  · rename_i due
    dsimp only
    rw [if_pos (sends due)]
    exact ⟨rfl, .move ⟨due, rfl⟩ (.refl ..)⟩
  · exact ⟨rfl, .refl ..⟩

/-- The steps of the reader alone. -/
theorem runs_of_goes {pending left : List UInt8} {t : Session κ ρ}
    (goes : (reader h).Goes s pending t left) : (reader h).Runs (Rekeyed h) s pending t left := by
  induction goes with
  | refl => exact .refl ..
  | step steps _ ih => exact .step steps ih
  | move moved _ _ => exact moved.elim

/-- The callback runs the reader over the bytes it processes, and when it processes
nothing the reader waits. -/
theorem socketCallback_runs (h : Handlers κ ρ) (s : Session κ ρ) (data : List UInt8)
    (sends : SendsAll h s data) :
    0 ≤ (s.socketCallback h data).1 ∧
      (reader h).Runs (Rekeyed h) s data (s.socketCallback h data).2
        (data.drop (s.socketCallback h data).1.toNat) ∧
      ((s.socketCallback h data).1 = 0 →
        (reader h).Waits (s.socketCallback h data).2 data) := by
  induction s, data using socketCallback.induct h with
  | case1 s data s' waits =>
      have steps := readPacket_steps h s data
      rw [waits] at steps
      rw [socketCallback, waits]
      exact ⟨Int.le_refl 0, runs_of_goes steps.1, fun _ => steps.2⟩
  | case2 s data n fits s' fails =>
      have steps := readPacket_steps h s data
      rw [fails] at steps
      rw [socketCallback, fails]
      exact ⟨Int.natCast_nonneg n, runs_of_goes steps.1, fun _ => waits_of_error steps.2⟩
  | case3 s data n some fits s' reads more ih =>
      have steps := readPacket_steps h s data
      rw [reads] at steps
      have first := runs_of_goes steps
      rcases ih (sends.after first) with ⟨least, runs, -⟩
      have both := first.trans runs
      rw [socketCallback, reads]
      dsimp only
      rw [if_pos more]
      generalize s'.socketCallback h (data.drop n) = r at *
      rcases rekey_runs (n + r.1) (sends _ _ both) _ with ⟨kept, last⟩
      have sum : (n + r.1).toNat = n + r.1.toNat := by omega
      rw [kept, sum, ← List.drop_drop]
      refine ⟨by omega, both.trans last, fun none => ?_⟩
      omega
  | case4 s data n some fits s' reads last =>
      have steps := readPacket_steps h s data
      rw [reads] at steps
      have first := runs_of_goes steps
      rcases rekey_runs n (sends _ _ first) (data.drop n) with ⟨kept, rekeyed⟩
      rw [socketCallback, reads]
      dsimp only
      rw [if_neg last, kept]
      refine ⟨by omega, first.trans rekeyed, fun none => ?_⟩
      omega

/-- The loop runs the reader until it waits or the socket is not connected any more. -/
theorem callDataCallback_runs (h : Handlers κ ρ) (s : Session κ ρ) (inBuffer : SshBuffer)
    (sends : SendsAll h s inBuffer.bytes) :
    (reader h).Runs (Rekeyed h) s inBuffer.bytes (s.callDataCallback h inBuffer).1
        (s.callDataCallback h inBuffer).2.bytes ∧
      (h.connected (s.callDataCallback h inBuffer).1.rest = false ∨
        (reader h).Waits (s.callDataCallback h inBuffer).1
          (s.callDataCallback h inBuffer).2.bytes) := by
  induction s, inBuffer using callDataCallback.induct h with
  | case1 s inBuffer r left goesOn ih =>
      rcases socketCallback_runs h s inBuffer.bytes sends with ⟨least, runs, -⟩
      rw [← passRead_bytes least (s.socketCallback_le h inBuffer.bytes)] at runs
      rcases ih (sends.after runs) with ⟨next, ends⟩
      rw [callDataCallback]
      rw [if_pos goesOn]
      exact ⟨runs.trans next, ends⟩
  | case2 s inBuffer r stops =>
      rcases socketCallback_runs h s inBuffer.bytes sends with ⟨least, runs, waits⟩
      have passed := passRead_bytes least (s.socketCallback_le h inBuffer.bytes)
      rw [← passed] at runs
      rw [callDataCallback]
      rw [if_neg stops]
      refine ⟨runs, ?_⟩
      rcases Int.lt_or_le 0 (s.socketCallback h inBuffer.bytes).1 with some | none
      · left
        exact Bool.eq_false_iff.mpr fun connected => stops ⟨some, connected⟩
      · right
        have nothing : (s.socketCallback h inBuffer.bytes).1 = 0 := by omega
        rw [passed, nothing]
        exact waits nothing

/-- A session that failed does not change any more. -/
theorem pollcallback_failed (failed : s.error = true) (b : SshBuffer) (buffer : List UInt8) :
    (pollcallback h (s, b) buffer).1 = s := by
  have nothing (bytes : List UInt8) : s.socketCallback h bytes = (0, s) := by
    have fails : s.readPacket h bytes = .fails 0 (Nat.zero_le _) s := by
      unfold readPacket
      exact if_pos failed
    rw [socketCallback, fails]
    rfl
  unfold pollcallback
  dsimp only
  split
  · split
    · rfl
    · rw [callDataCallback, nothing, if_neg]
      exact fun goesOn => Int.lt_irrefl 0 goesOn.1
  · rfl

end Session

open Session

/-! ## Polling -/

/-- The socket is open and connected. -/
def Handlers.Reads (h : Handlers κ ρ) (rest : ρ) : Prop :=
  h.isOpen rest = true ∧ h.connected rest = true

/-- How a poll leaves a session and what is pending: it failed, or the socket is not
connected any more, or it waits for more. -/
def Polled (h : Handlers κ ρ) (s : Session κ ρ) (pending : List UInt8) : Prop :=
  s.error = true ∨ ¬ h.Reads s.rest ∨ ((reader h).Waits s pending ∧ s.Between)

variable {x : Session κ ρ × SshBuffer} {chunks chunks' : List (List UInt8)}

/-- What arrives at a session that waits for it is read. -/
theorem pollcallback_runs {buffer : List UInt8} (running : x.1.error = false)
    (reads : h.Reads x.1.rest) (waits : (reader h).Waits x.1 x.2.bytes) (between : x.1.Between)
    (small : buffer.length ≤ maxBufSize) (sends : SendsAll h x.1 (x.2.bytes ++ buffer)) :
    (reader h).Runs (Rekeyed h) x.1 (x.2.bytes ++ buffer) (pollcallback h x buffer).1
        (pollcallback h x buffer).2.bytes ∧
      Polled h (pollcallback h x buffer).1 (pollcallback h x buffer).2.bytes := by
  have room := waits_small waits running between
  obtain ⟨inBuffer, added⟩ : ∃ inBuffer, x.2.addData buffer = some inBuffer :=
    SshBuffer.addData_room (by omega)
  have bytes := SshBuffer.addData_bytes added
  rw [← bytes] at sends ⊢
  rcases callDataCallback_runs h x.1 inBuffer sends with ⟨runs, ends⟩
  have is : pollcallback h x buffer = x.1.callDataCallback h inBuffer := by
    unfold pollcallback
    unfold Handlers.Reads at reads
    rw [if_pos reads, added]
  rw [is]
  refine ⟨runs, ?_⟩
  rcases ends with closed | waits
  · right; left
    intro reads
    rw [reads.2] at closed
    cases closed
  · right; right
    exact ⟨waits, runs_between runs between⟩

theorem polls_failed (failed : x.1.error = true) (chunks : List (List UInt8)) :
    (chunks.foldl (pollcallback h) x).1 = x.1 := by
  induction chunks generalizing x with
  | nil => rfl
  | cons chunk chunks ih =>
      have same := pollcallback_failed (h := h) failed x.2 chunk
      rw [List.foldl_cons, ih (same ▸ failed), same]

theorem polls_closed (closed : ¬ h.Reads x.1.rest) (chunks : List (List UInt8)) :
    chunks.foldl (pollcallback h) x = x := by
  induction chunks with
  | nil => rfl
  | cons chunk chunks ih =>
      have same : pollcallback h x chunk = x := if_neg closed
      rw [List.foldl_cons, same, ih]

/-- Whatever arrives piece by piece, the reader runs over it. Bytes are only lost when the
session failed or the socket is not connected any more. -/
theorem polls_run (polled : Polled h x.1 x.2.bytes)
    (small : ∀ chunk ∈ chunks, chunk.length ≤ maxBufSize)
    (sends : SendsAll h x.1 (x.2.bytes ++ chunks.flatten)) :
    ∃ left, (reader h).Runs (Rekeyed h) x.1 (x.2.bytes ++ chunks.flatten)
        (chunks.foldl (pollcallback h) x).1 left ∧
      ((chunks.foldl (pollcallback h) x).1.error = true ∨
        ¬ h.Reads (chunks.foldl (pollcallback h) x).1.rest ∨
        ((reader h).Waits (chunks.foldl (pollcallback h) x).1 left ∧
          (chunks.foldl (pollcallback h) x).2.bytes = left)) := by
  induction chunks generalizing x with
  | nil =>
      rw [List.flatten_nil, List.append_nil]
      refine ⟨x.2.bytes, .refl .., ?_⟩
      exact polled.imp id (Or.imp id fun waiting => ⟨waiting.1, rfl⟩)
  | cons chunk chunks ih =>
      rcases polled with failed | closed | ⟨waits, between⟩
      · rw [polls_failed failed]
        exact ⟨_, .refl .., Or.inl failed⟩
      · rw [polls_closed closed]
        exact ⟨_, .refl .., Or.inr (Or.inl closed)⟩
      · cases running : x.1.error with
        | true =>
            rw [polls_failed running]
            exact ⟨_, .refl .., Or.inl running⟩
        | false =>
            by_cases reads : h.Reads x.1.rest
            · rw [List.foldl_cons]
              rw [List.flatten_cons, ← List.append_assoc] at sends ⊢
              obtain ⟨runs, polled⟩ := pollcallback_runs running reads waits between
                (small chunk List.mem_cons_self) sends.of_more
              have first := runs.more chunks.flatten
              obtain ⟨left, rest, ends⟩ := ih polled
                (fun c mem => small c (List.mem_cons_of_mem _ mem)) (sends.after first)
              exact ⟨left, first.trans rest, ends⟩
            · rw [polls_closed reads]
              exact ⟨_, .refl .., Or.inr (Or.inl reads)⟩

/-- No rekey is due and the socket is open and connected. -/
def Session.Calm (h : Handlers κ ρ) (s : Session κ ρ) : Prop :=
  h.needRekey s.rest s.crypto = false ∧ h.Reads s.rest

/-- From a session and what is pending on, every session that the reader comes to is
calm. -/
def Session.StaysCalm (h : Handlers κ ρ) (s : Session κ ρ) (pending : List UInt8) : Prop :=
  ∀ t left, (reader h).Goes s pending t left → t.Calm h

theorem Session.StaysCalm.goes {s t : Session κ ρ} {pending left : List UInt8}
    (calm : s.StaysCalm h pending) (runs : (reader h).Runs (Rekeyed h) s pending t left) :
    (reader h).Goes s pending t left := by
  apply runs.goes
  intro u rest goes u' moved
  have due := moved.1
  rw [(calm u rest goes).1] at due
  cases due

/-- As long as all is calm, polling goes where the reader goes, and it waits there. -/
theorem polls_go (waits : (reader h).Waits x.1 x.2.bytes) (between : x.1.Between)
    (small : ∀ chunk ∈ chunks, chunk.length ≤ maxBufSize)
    (calm : x.1.StaysCalm h (x.2.bytes ++ chunks.flatten)) :
    ∃ left, (reader h).Goes x.1 (x.2.bytes ++ chunks.flatten)
        (chunks.foldl (pollcallback h) x).1 left ∧
      (reader h).Waits (chunks.foldl (pollcallback h) x).1 left ∧
      ((chunks.foldl (pollcallback h) x).1.error = false →
        (chunks.foldl (pollcallback h) x).2.bytes = left) := by
  have sends : SendsAll h x.1 (x.2.bytes ++ chunks.flatten) := by
    intro t left runs due
    rw [(calm t left (calm.goes runs)).1] at due
    cases due
  rcases polls_run (Or.inr (Or.inr ⟨waits, between⟩)) small sends with ⟨left, runs, ends⟩
  have goes := calm.goes runs
  refine ⟨left, goes, ?_⟩
  rcases ends with failed | closed | ⟨waiting, same⟩
  · refine ⟨waits_of_error failed, fun running => ?_⟩
    rw [failed] at running
    cases running
  · exact absurd (calm _ _ goes).2 closed
  · exact ⟨waiting, fun _ => same⟩

/-- However the bytes of a connection are cut when the socket is polled, and whatever they
are, the session is the same, and so are the bytes left over unless it failed, as long as
no rekey comes due and the socket stays connected. -/
theorem pollcallback_chunks (waits : (reader h).Waits x.1 x.2.bytes) (between : x.1.Between)
    (small : ∀ chunk ∈ chunks, chunk.length ≤ maxBufSize)
    (small' : ∀ chunk ∈ chunks', chunk.length ≤ maxBufSize)
    (same : chunks.flatten = chunks'.flatten)
    (calm : x.1.StaysCalm h (x.2.bytes ++ chunks.flatten)) :
    (chunks.foldl (pollcallback h) x).1 = (chunks'.foldl (pollcallback h) x).1 ∧
      ((chunks.foldl (pollcallback h) x).1.error = false →
        (chunks.foldl (pollcallback h) x).2.bytes =
          (chunks'.foldl (pollcallback h) x).2.bytes) := by
  rcases polls_go waits between small calm with ⟨left, goes, rests, kept⟩
  rw [same] at calm
  rcases polls_go waits between small' calm with ⟨left', goes', rests', kept'⟩
  rw [same] at goes
  rcases goes.unique rests goes' rests' with ⟨sameSession, sameLeft⟩
  refine ⟨sameSession, fun running => ?_⟩
  rw [kept running, kept' (sameSession ▸ running), sameLeft]

/-! A small suite: a stream cipher, a MAC and keys that use them. -/

/-- A cipher that adds a counter to the bytes. -/
def addCounter : UInt8 → List UInt8 → UInt8 × List UInt8
  | k, [] => (k, [])
  | k, b :: bytes =>
      let r := addCounter (k + 1) bytes
      (r.1, (b + k) :: r.2)

def subCounter : UInt8 → List UInt8 → UInt8 × List UInt8
  | k, [] => (k, [])
  | k, b :: bytes =>
      let r := subCounter (k + 1) bytes
      (r.1, (b - k) :: r.2)

def counterCipher : Cipher UInt8 where
  blocksize := 8
  lenfieldBlocksize := 0
  encrypt := addCounter
  decrypt := subCounter
  aeadEncrypt := none
  aeadDecryptLength := none
  aeadDecrypt := none
  blocksize_le := by decide
  lenfieldBlocksize_le := by decide

/-- A checksum that begins with a key. -/
def checksum (key : UInt8) (data : List UInt8) : UInt8 :=
  data.foldl (fun sum b => 31 * sum + b) key

def checksumHmac (key : UInt8) : Hmac where
  digestLen := 1
  isAead := false
  digest data := [checksum key data]
  digestLen_le := by decide

/-- A compression that puts a byte in front. -/
def frontZlib : Zlib where
  deflate _ buf := some (0x78 :: buf)
  inflate _ buf := if buf.head? = some 0x78 then some buf.tail else none

/-- Keys with the cipher and the MAC. -/
def counterCrypto : Crypto UInt8 where
  cipher := counterCipher
  context := 200
  hmac := checksumHmac 77
  etm := false
  packets := 0
  blocks := 0
  compression := ⟨frontZlib, false, []⟩

/-- A session before the authentication, when no rekey can come due. It keeps the payloads
and switches to keys with `SSH2_MSG_NEWKEYS`. -/
def keepingHandlers (newkeys : Crypto UInt8) : Handlers UInt8 (List (List UInt8)) where
  incomingFilter _ _ := .allowed
  process rest _ type body :=
    ⟨rest ++ [type :: body], if type = msgNewkeys then some newkeys else none, false, false⟩
  sendUnimplemented rest _ := rest
  needRekey _ _ := false
  sendRekex rest := (rest, true)
  isOpen _ := true
  connected _ := true

/-- A session with keys that has read nothing yet. -/
def keyedSession : Session UInt8 (List (List UInt8)) where
  packetState := .init
  inPacketLen := ⟨0, Nat.zero_le _⟩
  inBuffer := []
  recvSeq := 3
  crypto := some counterCrypto
  error := false
  rest := []

/-- The bytes of two packets with the keys. -/
def keyedBytes : List UInt8 :=
  ((⟨some counterCrypto, 3⟩ : Sender UInt8).sendAll
    [⟨[20, 1, 2], fun _ => 9, counterCrypto, false⟩,
      ⟨[30, 7], fun _ => 9, counterCrypto, false⟩]).elim [] (·.2)

theorem pollcallback_chunks_keyed :
    let x := (keyedSession, SshBuffer.new)
    let cut := [keyedBytes.take 3, keyedBytes.drop 3]
    let other := [keyedBytes.take 20, (keyedBytes.drop 20).take 5, keyedBytes.drop 25]
    let poll := pollcallback (keepingHandlers counterCrypto)
    (cut.foldl poll x).1 = (other.foldl poll x).1 ∧
      ((cut.foldl poll x).1.error = false →
        (cut.foldl poll x).2.bytes = (other.foldl poll x).2.bytes) :=
  pollcallback_chunks (x := (keyedSession, SshBuffer.new)) (waits_nil rfl (by decide))
    (Or.inr (by decide)) (by decide) (by decide) (by decide) (fun _ _ _ => ⟨rfl, rfl, rfl⟩)

end WindTerm.Libssh

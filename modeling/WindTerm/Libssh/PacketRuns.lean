import WindTerm.Libssh.PacketFrames

/-!
# Packets from one end to the other

What one end sends is what the callbacks of the other end run on, packet for packet
and in order, across the switches to new keys, with and without compression and however
the bytes are cut on the way (`packets_arrive`).
-/

namespace WindTerm.Libssh

open Library Session

variable {κ ρ : Type}

/-- The keys and the compressions of the two ends of a direction. -/
structure InSync (sync : κ → κ → Prop) (out incoming : Option (Crypto κ)) : Prop where
  keys : Matches sync out incoming
  compressions : ∀ c c', out = some c → incoming = some c' → c.compression.Matches c'.compression

variable {sync : κ → κ → Prop} {out incoming : Option (Crypto κ)}

theorem InSync.none : InSync sync none none := ⟨.plain, fun _ _ on _ => by cases on⟩

theorem InSync.count (synced : InSync sync out incoming) (n : Nat) :
    InSync sync (out.map (Crypto.count · n)) (incoming.map (Crypto.count · n)) := by
  rcases synced with ⟨keys, compressions⟩
  cases keys with
  | plain => exact .none
  | keyed cipher hmac etm context suite =>
      refine ⟨.keyed cipher hmac etm context suite, fun c c' on on' => ?_⟩
      cases on
      cases on'
      have same := compressions _ _ rfl rfl
      exact ⟨same.zlib, same.doCompress, same.synced, same.lossless⟩

theorem InSync.delayedCompress (synced : InSync sync out incoming) (on : Bool) :
    InSync sync (out.map (Crypto.delayedCompress · on))
      (incoming.map (Crypto.delayedCompress · on)) := by
  rcases synced with ⟨keys, compressions⟩
  cases keys with
  | plain => exact .none
  | keyed cipher hmac etm context suite =>
      refine ⟨.keyed cipher hmac etm context suite, fun c c' is is' => ?_⟩
      cases is
      cases is'
      have same := compressions _ _ rfl rfl
      exact ⟨same.zlib, congrArg (· || on) same.doCompress, same.synced, same.lossless⟩

/-- The two ends of a direction between two packets. -/
structure Ready (sync : κ → κ → Prop) (s : Sender κ) (r : Session κ ρ) : Prop where
  state : r.packetState = .init
  running : r.error = false
  seq : r.recvSeq = s.sendSeq
  keys : InSync sync s.crypto r.crypto

/-- The session takes a packet of a sender: it passes the filter, its callbacks go well
and leave `rest'`, those of `SSH2_MSG_NEWKEYS`, and no others, switch to the keys that the
sender switches to, and they turn on delayed compression when the sender does. -/
structure Delivers (h : Handlers κ ρ) (sync : κ → κ → Prop) (s : Sender κ) (rest : ρ)
    (o : Outgoing κ) (rest' : ρ) : Prop where
  short : o.payload.length ≤ maxPacketLen
  fits : ∀ s₁ packed, s.compress o.payload = some (s₁, packed) →
    packed.length + 20 ≤ maxPacketLen
  allowed : h.incomingFilter rest (o.payload.headD 0) = .allowed
  leaves : (h.process rest s.sendSeq (o.payload.headD 0) o.payload.tail).rest = rest'
  healthy : (h.process rest s.sendSeq (o.payload.headD 0) o.payload.tail).error = false
  switches : o.payload.headD 0 = msgNewkeys → InSync sync (some o.nextCrypto)
    (h.process rest s.sendSeq (o.payload.headD 0) o.payload.tail).newkeys
  keeps : o.payload.headD 0 ≠ msgNewkeys →
    (h.process rest s.sendSeq (o.payload.headD 0) o.payload.tail).newkeys = none
  delays : (h.process rest s.sendSeq (o.payload.headD 0) o.payload.tail).delayedCompress =
    o.delayedCompress

/-- The session takes packets, one after the other. -/
inductive DeliversAll (h : Handlers κ ρ) (sync : κ → κ → Prop) :
    Sender κ → ρ → List (Outgoing κ) → ρ → Prop
  | nil (s : Sender κ) (rest : ρ) : DeliversAll h sync s rest [] rest
  | cons {s s' : Sender κ} {rest rest' rest'' : ρ} {o : Outgoing κ} {os : List (Outgoing κ)}
    {bytes : List UInt8} (sent : s.packetSend2 o = some (s', bytes))
    (first : Delivers h sync s rest o rest') (others : DeliversAll h sync s' rest' os rest'') :
    DeliversAll h sync s rest (o :: os) rest''

variable {h : Handlers κ ρ} {s s' : Sender κ} {r : Session κ ρ} {rest' : ρ}

/-- Encrypting changes the context of the cipher only. -/
theorem write_setup (s : Sender κ) (data : List UInt8) :
    (s.write data).1.map Crypto.setup = s.crypto.map Crypto.setup := by
  unfold Sender.write Sender.encrypt
  cases on : s.crypto with
  | none => rfl
  | some c =>
      dsimp only
      split
      · rfl
      · rename_i sealed
        split at sealed
        · cases sealed
        · split at sealed
          · cases sealed
            rfl
          · cases sealed
            rfl

/-- What the sender compresses the reader decompresses, whatever they encrypt and decrypt
in between. -/
theorem compress_inflates {s₁ : Sender κ} {payload packed : List UInt8}
    (synced : InSync sync s.crypto r.crypto) (short : payload.length ≤ maxPacketLen)
    (packs : s.compress payload = some (s₁, packed)) :
    s₁.sendSeq = s.sendSeq ∧ Matches sync s₁.crypto r.crypto ∧
      ∀ (out : Option (Crypto κ)) (r₂ : Session κ ρ), Matches sync out r₂.crypto →
        out.map Crypto.setup = s₁.crypto.map Crypto.setup →
        r₂.crypto.map Crypto.setup = r.crypto.map Crypto.setup →
        ∃ r₃, r₂.decompress packed = some (r₃, payload) ∧ InSync sync out r₃.crypto := by
  rcases synced with ⟨keys, compressions⟩
  unfold Sender.compress at packs
  cases on : s.crypto with
  | none =>
      rw [on] at packs keys
      cases packs
      refine ⟨rfl, on.symm ▸ keys, fun out r₂ matching sameOut _ => ?_⟩
      rw [on] at sameOut
      have none := Option.map_eq_none_iff.mp sameOut
      rw [none] at matching ⊢
      generalize isIncoming : r₂.crypto = incoming at matching
      cases matching
      refine ⟨r₂, ?_, ?_⟩
      · unfold Session.decompress
        rw [isIncoming]
      · rw [isIncoming]
        exact .none
  | some c =>
      rw [on] at packs keys
      dsimp only at packs
      rcases Option.map_eq_some_iff.mp packs with ⟨⟨c₁, dest⟩, compresses, is⟩
      cases is
      cases onIncoming : r.crypto with
      | none =>
          rw [onIncoming] at keys
          cases keys
      | some c' =>
          have compressions := compressions c c' on onIncoming
          obtain ⟨z, z', isPacked, -, -⟩ :=
            compressBuffer_inflates compressions short compresses
          rw [onIncoming] at keys
          refine ⟨rfl, ?_, fun out r₂ matching sameOut sameIncoming => ?_⟩
          · rw [isPacked]
            cases keys with
            | keyed cipher hmac etm context suite => exact .keyed cipher hmac etm context suite
          · rcases Option.map_eq_some_iff.mp sameOut with ⟨c₂, onOut, setup⟩
            rcases Option.map_eq_some_iff.mp sameIncoming with ⟨c₂', onIncoming, setup'⟩
            have sameCompression : c₂'.compression = c'.compression :=
              congrArg (·.2.2.2.2.2) setup'
            rw [← sameCompression] at compressions
            obtain ⟨z, z', isPacked, inflates, matches'⟩ :=
              compressBuffer_inflates compressions short compresses
            refine ⟨{ r₂ with crypto := some { c₂' with compression := z' } }, ?_, ?_⟩
            · unfold Session.decompress
              rw [onIncoming]
              dsimp only
              rw [inflates]
              rfl
            · rw [onOut, onIncoming] at matching
              rw [onOut]
              refine ⟨?_, fun d d' is is' => ?_⟩
              · cases matching with
                | keyed cipher hmac etm context suite =>
                    exact .keyed cipher hmac etm context suite
              · cases is
                cases is'
                have sameOut : c₂.compression = c₁.compression := congrArg (·.2.2.2.2.2) setup
                rw [sameOut, isPacked]
                exact matches'

/-- One packet arrives. -/
theorem packet_arrives (ready : Ready sync s r) {o : Outgoing κ} {bytes : List UInt8}
    (takes : Delivers h sync s r.rest o rest') (sent : s.packetSend2 o = some (s', bytes)) :
    ∃ r', (Session.reader h).Goes r bytes r' [] ∧ r'.rest = rest' ∧ Ready sync s' r' := by
  unfold Sender.packetSend2 at sent
  rcases Option.map_eq_some_iff.mp sent with ⟨⟨s₁, packed⟩, packs, is⟩
  rcases compress_inflates ready.keys takes.short packs with ⟨sameSeq, keys, opensAs⟩
  obtain ⟨r₁, r₂, opens, keys₂⟩ :=
    sent_opens keys (ready.seq.trans sameSeq.symm) (takes.fits _ _ packs) o.random
  have setup := write_setup s₁ (s₁.frame packed o.random)
  rcases Session.readLength_decrypts opens.length with ⟨-, first⟩
  have second := Session.decryptPacket_decrypts opens.clear
  rcases opensAs _ _ keys₂ setup (second.setup.trans first.setup) with ⟨r₃, inflates, keys₃⟩
  have third := Session.decompress_same inflates
  have sameRest : r₃.rest = r.rest := third.rest.trans (second.rest.trans first.rest)
  have seq : r₃.recvSeq = s.sendSeq :=
    third.recvSeq.trans (second.recvSeq.trans (first.recvSeq.trans ready.seq))
  have allowed : h.incomingFilter r₃.rest (o.payload.headD 0) = .allowed := by
    rw [sameRest]
    exact takes.allowed
  have goes := opens.goes inflates ready.state ready.running h
  rw [Session.processPayload_allowed allowed, sameRest, seq] at goes
  cases is
  refine ⟨_, goes, takes.leaves, rfl, takes.healthy, ?_, ?_⟩
  · dsimp only
    rw [sameSeq]
  · dsimp only
    rw [takes.delays]
    apply InSync.delayedCompress
    split
    · rename_i isNewkeys
      have switched := takes.switches isNewkeys
      cases newkeys : (h.process r.rest s.sendSeq (o.payload.headD 0) o.payload.tail).newkeys with
      | none =>
          rw [newkeys] at switched
          cases switched.keys
      | some c =>
          rw [newkeys] at switched
          exact switched
    · rename_i other
      rw [takes.keeps other]
      exact keys₃.count _

/-- Packets arrive one after the other. -/
theorem packets_go {os : List (Outgoing κ)} {bytes : List UInt8} (ready : Ready sync s r)
    (takes : DeliversAll h sync s r.rest os rest') (sent : s.sendAll os = some (s', bytes)) :
    ∃ r', (Session.reader h).Goes r bytes r' [] ∧ r'.rest = rest' ∧ Ready sync s' r' := by
  induction os generalizing s r bytes with
  | nil =>
      cases sent
      cases takes
      exact ⟨r, .refl .., rfl, ready⟩
  | cons o os ih =>
      cases takes with
      | cons sent₁ first others =>
          unfold Sender.sendAll at sent
          rw [sent₁] at sent
          rcases Option.map_eq_some_iff.mp sent with ⟨⟨s₂, rest₂⟩, sentRest, is⟩
          cases is
          rcases packet_arrives ready first sent₁ with ⟨r₁, goes, rest, ready₁⟩
          rw [← rest] at others
          rcases ih ready₁ others sentRest with ⟨r', goes', leaves, ready'⟩
          exact ⟨r', (goes.more _).trans goes', leaves, ready'⟩

/-- Between two packets the reader waits. -/
theorem Ready.waits (ready : Ready sync s r) : (Session.reader h).Waits r [] := by
  apply Session.waits_nil ready.state
  have keys := ready.keys.keys
  unfold Session.lenfieldBlocksize Session.etmPacketOffset Session.etm
  generalize s.crypto = out at keys
  generalize r.crypto = incoming at keys
  cases keys with
  | plain => exact Nat.succ_pos 7
  | @keyed out incoming sameCipher sameHmac sameEtm synced suite =>
      rcases out with ⟨cipher, context, hmac, etm, packets, blocks, compression⟩
      rcases incoming with ⟨cipher', context', hmac', etm', packets', blocks', compression'⟩
      cases sameCipher
      cases sameEtm
      cases suite with
      | block suite etm =>
          cases etm with
          | false =>
              have blocksize : 8 ≤ cipher.blocksize := suite.least
              change 0 < (if cipher.lenfieldBlocksize = 0 then cipher.blocksize
                else cipher.lenfieldBlocksize) + 0
              rw [if_pos suite.lenfield]
              omega
          | true => exact Nat.succ_pos 3
      | aead suite =>
          change 0 < (if cipher.lenfieldBlocksize = 0 then cipher.blocksize
            else cipher.lenfieldBlocksize) + 0
          rw [suite.lenfield]
          exact Nat.succ_pos 3

/-- However the bytes are cut, the callbacks run on the payloads that were sent, all of
them and in order, and the ends are ready for the next. -/
theorem packets_arrive {os : List (Outgoing κ)} {bytes : List UInt8} (ready : Ready sync s r)
    (takes : DeliversAll h sync s r.rest os rest') (sent : s.sendAll os = some (s', bytes))
    (calm : r.StaysCalm h bytes) {b : SshBuffer} (empty : b.bytes = [])
    {chunks : List (List UInt8)} (cut : chunks.flatten = bytes)
    (small : ∀ chunk ∈ chunks, chunk.length ≤ maxBufSize) :
    ∃ r' b', chunks.foldl (Session.pollcallback h) (r, b) = (r', b') ∧ b'.bytes = [] ∧
      r'.rest = rest' ∧ Ready sync s' r' := by
  rcases packets_go ready takes sent with ⟨r', goes, leaves, ready'⟩
  have waits : (Session.reader h).Waits r b.bytes := by
    rw [empty]
    exact ready.waits
  have between : r.Between := Or.inr fun state => by
    rw [ready.state] at state
    cases state
  rw [← cut] at goes calm
  obtain ⟨left, came, rests, kept⟩ := polls_go (x := (r, b)) waits between small (by
    rw [empty]
    exact calm)
  rw [empty] at came
  rcases came.unique rests goes ready'.waits with ⟨session, rest⟩
  refine ⟨_, _, rfl, ?_, ?_, ?_⟩
  · rw [kept (session ▸ ready'.running), rest]
  · rw [session]
    exact leaves
  · rw [session]
    exact ready'

/-! The small cipher keeps what is asked of it, and so does one that authenticates. -/

theorem length_addCounter (k : UInt8) (data : List UInt8) :
    (addCounter k data).2.length = data.length := by
  induction data generalizing k with
  | nil => rfl
  | cons b data ih => exact congrArg (· + 1) (ih (k + 1))

theorem length_subCounter (k : UInt8) (data : List UInt8) :
    (subCounter k data).2.length = data.length := by
  induction data generalizing k with
  | nil => rfl
  | cons b data ih => exact congrArg (· + 1) (ih (k + 1))

theorem subCounter_addCounter (k : UInt8) (data : List UInt8) :
    subCounter k (addCounter k data).2 = ((addCounter k data).1, data) := by
  induction data generalizing k with
  | nil => rfl
  | cons b data ih =>
      unfold addCounter subCounter
      dsimp only
      rw [ih, UInt8.add_sub_cancel]

theorem subCounter_append (k : UInt8) (a b : List UInt8) :
    subCounter k (a ++ b) = ((subCounter (subCounter k a).1 b).1,
      (subCounter k a).2 ++ (subCounter (subCounter k a).1 b).2) := by
  induction a generalizing k with
  | nil => rfl
  | cons x a ih => simp only [subCounter, List.cons_append, ih]

theorem subCounter_take (k : UInt8) (data : List UInt8) (n : Nat) :
    (subCounter k (data.take n)).2 = (subCounter k data).2.take n := by
  induction data generalizing k n with
  | nil => rw [List.take_nil]; exact List.take_nil.symm
  | cons b data ih =>
      cases n with
      | zero => rfl
      | succ n => exact congrArg (_ :: ·) (ih (k + 1) n)

theorem counter_blockSuite (key : UInt8) : BlockSuite (· = ·) counterCipher (checksumHmac key) where
  least := by decide
  lenfield := rfl
  noAeadEncrypt := rfl
  noAeadDecryptLength := rfl
  noAeadDecrypt := rfl
  digestLen _ := rfl
  encryptLen k data _ := length_addCounter k data
  decryptLen k data _ := length_subCounter k data
  decrypts k k' data same _ := by
    cases same
    have clear := subCounter_addCounter k data
    exact ⟨congrArg Prod.snd clear, (congrArg Prod.fst clear).symm⟩
  decryptAppend k a b _ _ := subCounter_append k a b

/-- A packet with a tag: its length is decrypted alone. -/
def sealTagged (k : UInt8) (seq : Nat) (data : List UInt8) : UInt8 × List UInt8 × List UInt8 :=
  (k, (addCounter (k + .ofNat seq) data).2, [checksum (k + .ofNat seq) data])

def openLength (k : UInt8) (seq : Nat) (data : List UInt8) : UInt8 × Option (List UInt8) :=
  (k, some (subCounter (k + .ofNat seq) data).2)

def openTagged (k : UInt8) (seq : Nat) (packet : List UInt8) (size : Nat) :
    UInt8 × Option (List UInt8) :=
  let clear := (subCounter (k + .ofNat seq) (packet.take (size + 4))).2
  (k, if packet.drop (size + 4) = [checksum (k + .ofNat seq) clear] then some (clear.drop 4)
    else none)

def taggedCipher : Cipher UInt8 where
  blocksize := 8
  lenfieldBlocksize := 4
  encrypt := addCounter
  decrypt := subCounter
  aeadEncrypt := some sealTagged
  aeadDecryptLength := some openLength
  aeadDecrypt := some openTagged
  blocksize_le := counterCipher.blocksize_le
  lenfieldBlocksize_le := by decide

def tagHmac : Hmac where
  digestLen := 1
  isAead := true
  digest _ := [0]
  digestLen_le := (checksumHmac 0).digestLen_le

/-- Keys with a tag, and with compression. -/
def taggedCrypto : Crypto UInt8 where
  cipher := taggedCipher
  context := 31
  hmac := tagHmac
  etm := false
  packets := 0
  blocks := 0
  compression := ⟨frontZlib, true, []⟩

theorem tagged_aeadSuite :
    AeadSuite (· = ·) taggedCipher tagHmac sealTagged openLength openTagged where
  least := by decide
  lenfield := rfl
  isAead := rfl
  isEncrypt := rfl
  isDecryptLength := rfl
  isDecrypt := rfl
  encryptLen k seq data := length_addCounter _ data
  tagLen _ _ _ := rfl
  decryptsLength k k' seq data same _ := by
    cases same
    unfold openLength sealTagged
    rw [subCounter_take, subCounter_addCounter]
  decrypts k k' seq data same long := by
    cases same
    have front : ((sealTagged k seq data).2.1 ++ (sealTagged k seq data).2.2).take
        (data.length - 4 + 4) = (addCounter (k + .ofNat seq) data).2 := by
      rw [Nat.sub_add_cancel long]
      exact List.take_left' (length_addCounter _ data)
    have tag : ((sealTagged k seq data).2.1 ++ (sealTagged k seq data).2.2).drop
        (data.length - 4 + 4) = [checksum (k + .ofNat seq) data] := by
      rw [Nat.sub_add_cancel long]
      exact List.drop_left' (length_addCounter _ data)
    refine ⟨?_, rfl⟩
    unfold openTagged openLength
    dsimp only
    rw [front, tag, subCounter_addCounter, if_pos rfl]

theorem frontZlib_lossless : frontZlib.Lossless where
  packs _ _ _ _ _ _ deflates := by
    cases deflates
    exact List.cons_ne_nil _ _
  inflates _ _ _ _ _ _ deflates := by
    cases deflates
    rfl

theorem counterCrypto_inSync :
    InSync (· = ·) (some counterCrypto) (some counterCrypto) := by
  refine ⟨.keyed rfl rfl rfl rfl (.block (counter_blockSuite 77) false), fun c c' on on' => ?_⟩
  cases on
  cases on'
  exact ⟨rfl, rfl, .start, frontZlib_lossless⟩

theorem taggedCrypto_inSync : InSync (· = ·) (some taggedCrypto) (some taggedCrypto) := by
  refine ⟨.keyed rfl rfl rfl rfl (.aead tagged_aeadSuite), fun c c' on on' => ?_⟩
  cases on
  cases on'
  exact ⟨rfl, rfl, .start, frontZlib_lossless⟩

/-- Packets with a MAC, then a switch to keys with a tag and compression, and a packet with
these. -/
def switchingPackets : List (Outgoing UInt8) :=
  [⟨[20, 1, 2], fun _ => 9, counterCrypto, false⟩, ⟨[msgNewkeys], fun _ => 9, taggedCrypto, false⟩,
    ⟨[30, 7], fun _ => 9, taggedCrypto, false⟩]

theorem packets_arrive_switching :
    ∃ s' bytes, (⟨some counterCrypto, 3⟩ : Sender UInt8).sendAll switchingPackets =
        some (s', bytes) ∧
      ∃ r' b', [bytes.take 5, (bytes.drop 5).take 30, bytes.drop 35].foldl
          (pollcallback (keepingHandlers taggedCrypto)) (keyedSession, SshBuffer.new) = (r', b') ∧
        b'.bytes = [] ∧ r'.rest = [[20, 1, 2], [msgNewkeys], [30, 7]] ∧
        Ready (· = ·) s' r' := by
  have ready : Ready (· = ·) ⟨some counterCrypto, 3⟩ keyedSession :=
    ⟨rfl, rfl, rfl, counterCrypto_inSync⟩
  have takes : DeliversAll (keepingHandlers taggedCrypto) (· = ·) ⟨some counterCrypto, 3⟩ []
      switchingPackets [[20, 1, 2], [msgNewkeys], [30, 7]] := by
    refine @DeliversAll.cons _ _ _ _ _ _ _ [[20, 1, 2]] _ _ _ _ rfl ?_ <|
      @DeliversAll.cons _ _ _ _ _ _ _ [[20, 1, 2], [msgNewkeys]] _ _ _ _ rfl ?_ <|
      .cons rfl ?_ (.nil _ _)
    · refine ⟨by decide, fun s₁ packed packs => ?_, rfl, rfl, rfl, fun is => ?_, fun _ => rfl, rfl⟩
      · cases packs
        decide
      · cases is
    · refine ⟨by decide, fun s₁ packed packs => ?_, rfl, rfl, rfl, fun _ => ?_, fun is => ?_, rfl⟩
      · cases packs
        decide
      · exact taggedCrypto_inSync
      · exact absurd rfl is
    · refine ⟨by decide, fun s₁ packed packs => ?_, rfl, rfl, rfl, fun is => ?_, fun _ => rfl, rfl⟩
      · cases packs
        decide
      · cases is
  refine ⟨_, _, rfl, packets_arrive ready takes rfl (fun _ _ _ => ⟨rfl, rfl, rfl⟩) rfl ?_ ?_⟩
  · decide
  · decide

end WindTerm.Libssh

import WindTerm.Libssh.PacketRuns

/-!
# What reaches the callbacks

Whatever bytes arrive, from whomever, the callbacks only run on payloads of packets
that were verified with the keys in force, in the state the packets before have left them
in, and the number of the packet (`callbacks_verified`): a packet that was changed, left
out, repeated or moved needs a MAC or a tag of its own.
-/

namespace WindTerm.Libssh

open Library

variable {κ ρ : Type}

/-- What a cipher and a MAC are to each other: a cipher has the functions of AEAD when and
only when the MAC is of an AEAD type, and then the MAC is not over the encrypted packet,
and the length that is decrypted first is a `uint32_t`. -/
structure WellMade (c : Crypto κ) : Prop where
  blocksize : 0 < c.cipher.blocksize
  plain : c.hmac.isAead = false → c.cipher.lenfieldBlocksize = 0 ∧
    c.cipher.aeadDecryptLength = none ∧ c.cipher.aeadDecrypt = none
  aead : c.hmac.isAead = true → c.etm = false ∧ c.cipher.lenfieldBlocksize = 4 ∧
    ∃ decryptLength decrypt, c.cipher.aeadDecryptLength = some decryptLength ∧
      c.cipher.aeadDecrypt = some decrypt ∧
      ∀ context seq data out, data.length ≤ 4 → (decryptLength context seq data).2 = some out →
        out.length ≤ 4

/-- The keys are well made when their cipher and their MAC are. -/
theorem WellMade.of_setup {c c' : Crypto κ} (made : WellMade c) (cipher : c'.cipher = c.cipher)
    (hmac : c'.hmac = c.hmac) (etm : c'.etm = c.etm) : WellMade c' := by
  refine ⟨?_, ?_, ?_⟩
  · rw [cipher]
    exact made.blocksize
  · rw [cipher, hmac]
    exact made.plain
  · rw [cipher, hmac, etm]
    exact made.aead

/-- What a cipher makes of a packet whose first block is decrypted before the others. -/
def Crypto.decipher (c : Crypto κ) (packet : List UInt8) : κ × List UInt8 :=
  let first := c.cipher.decrypt c.context (packet.take c.cipher.blocksize)
  let others :=
    if c.cipher.blocksize < packet.length then
      c.cipher.decrypt first.1 (packet.drop c.cipher.blocksize)
    else (first.1, [])
  (others.1, first.2 ++ others.2)

/-- The bytes `wire` are verified with the keys as packet number `seq`: they are as long
as they say, their MAC is that of the keys or the cipher of the keys takes them, and they
hold `packed`. The keys are then those in the last place. Without keys there is nothing
to verify. -/
inductive Verified :
    Option (Crypto κ) → Nat → List UInt8 → List UInt8 → Option (Crypto κ) → Prop
  | plain {seq : Nat} {wire packed : List UInt8} (whole : pullBeU32 wire + 4 = wire.length)
    (holds : unpad (wire.drop 4) = some packed) : Verified none seq wire packed none
  | mac {c : Crypto κ} {seq : Nat} {wire packet packed : List UInt8}
    (kind : c.hmac.isAead = false) (etm : c.etm = false)
    (split : wire = packet ++ c.hmac.digest (pushBeU32 seq ++ (c.decipher packet).2))
    (whole : pullBeU32 (c.cipher.decrypt c.context (packet.take c.cipher.blocksize)).2 + 4 =
      packet.length)
    (holds : unpad ((c.decipher packet).2.drop 4) = some packed) :
    Verified (some c) seq wire packed (some { c with context := (c.decipher packet).1 })
  | etm {c : Crypto κ} {seq : Nat} {wire packet packed : List UInt8}
    (kind : c.hmac.isAead = false) (etm : c.etm = true)
    (split : wire = packet ++ c.hmac.digest (pushBeU32 seq ++ packet))
    (whole : pullBeU32 packet + 4 = packet.length)
    (holds : unpad (c.cipher.decrypt c.context (packet.drop 4)).2 = some packed) :
    Verified (some c) seq wire packed
      (some { c with context := (c.cipher.decrypt c.context (packet.drop 4)).1 })
  | aead {c : Crypto κ} {seq : Nat} {wire length clear packed : List UInt8} {first last : κ}
    {decryptLength : κ → Nat → List UInt8 → κ × Option (List UInt8)}
    {decrypt : κ → Nat → List UInt8 → Nat → κ × Option (List UInt8)}
    (kind : c.hmac.isAead = true) (isLength : c.cipher.aeadDecryptLength = some decryptLength)
    (isDecrypt : c.cipher.aeadDecrypt = some decrypt)
    (opens : decryptLength c.context seq (wire.take 4) = (first, some length))
    (whole : pullBeU32 length + 4 + c.hmac.digestLen = wire.length)
    (takes : decrypt first seq wire (pullBeU32 length) = (last, some clear))
    (holds : unpad ((length ++ clear).drop 4) = some packed) :
    Verified (some c) seq wire packed (some { c with context := last })

/-- What is in a packet, decompressed if the keys say so. -/
def inflated (keys : Option (Crypto κ)) (packed : List UInt8) :
    Option (Option (Crypto κ) × List UInt8) :=
  match keys with
  | none => some (none, packed)
  | some c => (c.decompressBuffer packed).map fun r => (some r.1, r.2)

/-- The keys that the callbacks of a packet leave. -/
def Processed.keys (p : Processed κ ρ) (keys : Option (Crypto κ)) : Option (Crypto κ) :=
  (p.newkeys.or keys).map (Crypto.delayedCompress · p.delayedCompress)

/-- The callbacks took the rest of a session from one value to another, while packet
after packet was verified at the front of the bytes, each with the keys that those before
have left. Rekeys may have been sent in between. -/
inductive Ran (h : Handlers κ ρ) : ρ → Option (Crypto κ) → Nat → List UInt8 → ρ → Prop
  | stop (rest : ρ) (keys : Option (Crypto κ)) (seq : Nat) (bytes : List UInt8) :
    Ran h rest keys seq bytes rest
  | packet {rest rest' : ρ} {keys keys₁ keys₂ : Option (Crypto κ)} {seq : Nat}
    {wire bytes packed payload : List UInt8} (verified : Verified keys seq wire packed keys₁)
    (inflates : inflated keys₁ packed = some (keys₂, payload))
    (allowed : h.incomingFilter rest (payload.headD 0) = .allowed)
    (others : Ran h (h.process rest seq (payload.headD 0) payload.tail).rest
      ((h.process rest seq (payload.headD 0) payload.tail).keys
        (keys₂.map (Crypto.count · payload.length)))
      ((seq + 1) % 2 ^ 32) bytes rest') :
    Ran h rest keys seq (wire ++ bytes) rest'
  | skipped {rest rest' : ρ} {keys keys₁ keys₂ : Option (Crypto κ)} {seq : Nat}
    {wire bytes packed payload : List UInt8} (verified : Verified keys seq wire packed keys₁)
    (inflates : inflated keys₁ packed = some (keys₂, payload))
    (unknown : h.incomingFilter rest (payload.headD 0) = .unknown)
    (others : Ran h (h.sendUnimplemented rest seq)
      (keys₂.map (Crypto.count · payload.length)) ((seq + 1) % 2 ^ 32) bytes rest') :
    Ran h rest keys seq (wire ++ bytes) rest'
  | rekeyed {rest rest' : ρ} {keys : Option (Crypto κ)} {seq : Nat} {bytes : List UInt8}
    (others : Ran h (h.sendRekex rest).1 keys seq bytes rest') :
    Ran h rest keys seq bytes rest'

namespace Session

variable {h : Handlers κ ρ} {s s' s₁ : Session κ ρ} {data wire clear : List UInt8}
  {c : Crypto κ}

/-! ## The length of a packet -/

/-- What was read of a length. -/
structure Length (s : Session κ ρ) (data : List UInt8) (s₁ : Session κ ρ) : Prop where
  etm : s.etm = true → s₁.crypto = s.crypto ∧ s₁.inBuffer = [] ∧
    s₁.inPacketLen.1 = pullBeU32 data ∧ 4 ≤ s₁.inPacketLen.1
  other : s.etm = false → s₁.crypto = (s.decryptLen data).1.crypto ∧
    s₁.inBuffer = (s.decryptLen data).2.1 ∧ s₁.inPacketLen.1 = (s.decryptLen data).2.2 ∧
    s.lenfieldBlocksize ≤ s₁.inPacketLen.1 + 4

theorem readLength_length (reads : s.readLength data = some s₁) : Length s data s₁ := by
  unfold readLength at reads
  dsimp only at reads
  rw [Option.dite_none_left_eq_some] at reads
  rcases reads with ⟨valid, is⟩
  have is := Option.some.inj is
  have least := (not_or.mp valid).2
  refine ⟨fun etm => ?_, fun etm => ?_⟩
  · have offset : s.etmPacketOffset = 4 := if_pos etm
    simp only [etm, if_true, offset] at is least
    rw [← is]
    refine ⟨rfl, rfl, rfl, ?_⟩
    dsimp only
    omega
  · simp only [etm, Bool.false_eq_true, if_false] at is least
    rw [← is]
    refine ⟨rfl, rfl, rfl, ?_⟩
    dsimp only
    omega

/-! ## The body of a packet -/

/-- How the body of a packet was decrypted with keys. -/
structure Decrypted (s : Session κ ρ) (c : Crypto κ) (wire : List UInt8) (s' : Session κ ρ)
    (clear : List UInt8) : Prop where
  inBuffer : s'.inBuffer = s.inBuffer ++ clear
  before : c.etm = true → s.hmacVerify (wire.take (s.inPacketLen.1 + 4))
    ((wire.drop (s.inPacketLen.1 + 4)).take c.hmac.digestLen) = true
  after : c.etm = false → s.hmacVerify s'.inBuffer
    ((wire.drop (s.inPacketLen.1 + 4)).take c.hmac.digestLen) = true
  nothing : s.inPacketLen.1 + 4 ≤ s.lenfieldBlocksize + s.etmPacketOffset →
    s'.crypto = s.crypto ∧ clear = []
  some : s.lenfieldBlocksize + s.etmPacketOffset < s.inPacketLen.1 + 4 →
    ∃ s₂, s.decrypt wire (s.lenfieldBlocksize + s.etmPacketOffset)
        (s.inPacketLen.1 + 4 - (s.lenfieldBlocksize + s.etmPacketOffset)) = .some (s₂, clear) ∧
      s'.crypto = s₂.crypto

theorem decrypt_inBuffer {start size : Nat}
    (decrypts : s.decrypt wire start size = some (s', clear)) : s'.inBuffer = s.inBuffer := by
  unfold Session.decrypt at decrypts
  split at decrypts
  · cases decrypts
  · rw [Option.ite_none_left_eq_some] at decrypts
    replace decrypts := decrypts.2
    split at decrypts
    · rcases Option.map_eq_some_iff.mp decrypts with ⟨_, -, is⟩
      cases is
      rfl
    · cases decrypts
      rfl

theorem hmacVerify_of_setup {data mac : List UInt8} (decrypts : Decrypts s s') :
    s'.hmacVerify data mac = s.hmacVerify data mac := by
  have bySetup (t : Session κ ρ) : t.hmacVerify data mac =
      (t.crypto.map Crypto.setup).elim false fun k =>
        k.2.1.isAead || mac == k.2.1.digest (pushBeU32 t.recvSeq ++ data) := by
    unfold hmacVerify
    cases t.crypto <;> rfl
  rw [bySetup, bySetup, decrypts.setup, decrypts.recvSeq]

theorem decryptPacket_decrypted (on : s.crypto = some c)
    (decrypts : s.decryptPacket wire = some s') : ∃ clear, Decrypted s c wire s' clear := by
  have spec := decryptPacket_decrypts decrypts
  have verifies (data mac : List UInt8) : s'.hmacVerify data mac = s.hmacVerify data mac :=
    hmacVerify_of_setup spec
  unfold decryptPacket at decrypts
  rw [on] at decrypts
  dsimp only at decrypts
  rw [Option.ite_none_left_eq_some] at decrypts
  rcases decrypts with ⟨early, decrypts⟩
  split at decrypts
  · cases decrypts
  · rename_i s₂ clear rest
    rw [Option.ite_none_left_eq_some] at decrypts
    rcases decrypts with ⟨late, is⟩
    have is := Option.some.inj is
    have crypto : s'.crypto = s₂.crypto := by rw [← is]
    have sameBuffer : s₂.inBuffer = s.inBuffer := by
      split at rest
      · exact decrypt_inBuffer rest
      · cases rest
        rfl
    have inBuffer : s'.inBuffer = s.inBuffer ++ clear := by
      rw [← is, ← sameBuffer]
    refine ⟨clear, inBuffer, fun etm => ?_, fun etm => ?_, fun none => ?_, fun some => ?_⟩
    · apply Bool.of_not_eq_false
      intro wrong
      exact early ⟨etm, wrong⟩
    · apply Bool.of_not_eq_false
      intro wrong
      rw [← verifies, ← is] at wrong
      exact late ⟨etm, wrong⟩
    · rw [if_neg (by omega)] at rest
      cases rest
      exact ⟨crypto, rfl⟩
    · rw [if_pos (by omega)] at rest
      exact ⟨s₂, rest, crypto⟩

/-- What an authenticating cipher took. -/
theorem clear_of_aead (on : s.crypto = some c)
    {decrypt : κ → Nat → List UInt8 → Nat → κ × Option (List UInt8)}
    (is : c.cipher.aeadDecrypt = some decrypt) {start size : Nat} {s₂ : Session κ ρ}
    (decrypts : s.decrypt wire start size = some (s₂, clear)) :
    (decrypt c.context s.recvSeq wire size).2 = some clear ∧
      s₂.crypto = some { c with context := (decrypt c.context s.recvSeq wire size).1 } := by
  unfold Session.decrypt at decrypts
  rw [on] at decrypts
  dsimp only at decrypts
  rw [Option.ite_none_left_eq_some, is] at decrypts
  rcases Option.map_eq_some_iff.mp decrypts.2 with ⟨clear', took, isResult⟩
  cases isResult
  exact ⟨took, rfl⟩

/-- What another cipher made of the bytes. -/
theorem clear_of_block (on : s.crypto = some c) (is : c.cipher.aeadDecrypt = none)
    {start size : Nat} {s₂ : Session κ ρ}
    (decrypts : s.decrypt wire start size = some (s₂, clear)) :
    c.cipher.decrypt c.context ((wire.drop start).take size) =
        ((c.cipher.decrypt c.context ((wire.drop start).take size)).1, clear) ∧
      s₂.crypto = some { c with
        context := (c.cipher.decrypt c.context ((wire.drop start).take size)).1 } := by
  unfold Session.decrypt at decrypts
  rw [on] at decrypts
  dsimp only at decrypts
  rw [Option.ite_none_left_eq_some, is] at decrypts
  have isResult := Option.some.inj decrypts.2
  cases isResult
  exact ⟨rfl, rfl⟩

theorem mac_of_verified (on : s.crypto = some c) (isMac : c.hmac.isAead = false)
    {data mac : List UInt8} (verified : s.hmacVerify data mac = true) :
    mac = c.hmac.digest (pushBeU32 s.recvSeq ++ data) := by
  unfold hmacVerify at verified
  rw [on] at verified
  dsimp only at verified
  rw [isMac, Bool.false_or] at verified
  exact eq_of_beq verified

/-! ## A packet is verified -/

/-- A packet at the front of what is pending: `s₀` read its length, `s` has its body. -/
structure Body (s₀ s : Session κ ρ) (pending packed : List UInt8) (s' : Session κ ρ) : Prop where
  seq : s₀.recvSeq = s.recvSeq
  length : Length s₀ (pending.take (s₀.lenfieldBlocksize + s₀.etmPacketOffset)) s
  enough : s.inPacketLen.1 + 4 + s.currentMacsize ≤ pending.length
  decrypts : s.decryptPacket (pending.take (s.inPacketLen.1 + 4 + s.currentMacsize)) = some s'
  framed : s'.payload = some packed

variable {s₀ : Session κ ρ} {pending packed : List UInt8}

/-- What a session starts with, by its keys. -/
theorem etm_keyed (on : s.crypto = some c) : s.etm = c.etm := by
  unfold Session.etm
  rw [on]
  rfl

theorem start_etm (on : s.crypto = some c) (etm : c.etm = true) :
    s.lenfieldBlocksize = 0 ∧ s.etmPacketOffset = 4 := by
  have isEtm := (etm_keyed on).trans etm
  exact ⟨if_pos isEtm, if_pos isEtm⟩

theorem start_other (on : s.crypto = some c) (etm : c.etm = false) :
    s.lenfieldBlocksize = (if c.cipher.lenfieldBlocksize = 0 then c.cipher.blocksize
      else c.cipher.lenfieldBlocksize) ∧ s.etmPacketOffset = 0 := by
  have isEtm := (etm_keyed on).trans etm
  unfold lenfieldBlocksize etmPacketOffset
  rw [isEtm, on]
  exact ⟨rfl, rfl⟩

/-- The packet of a body, and the bytes behind it that are its MAC. -/
theorem body_split {n len : Nat} (enough : len + n ≤ pending.length) :
    (pending.take (len + n)).take len = pending.take len ∧
      ((pending.take (len + n)).drop len).take n = (pending.take (len + n)).drop len ∧
      pending.take (len + n) = pending.take len ++ (pending.take (len + n)).drop len := by
  have front : (pending.take (len + n)).take len = pending.take len := by
    rw [List.take_take, Nat.min_eq_left (Nat.le_add_right ..)]
  refine ⟨front, ?_, ?_⟩
  · apply List.take_of_length_le
    rw [List.length_drop, List.length_take]
    omega
  · have whole := List.take_append_drop len (pending.take (len + n))
    rw [front] at whole
    exact whole.symm

theorem Body.plain (body : Body s₀ s pending packed s') (isNone : s₀.crypto = none) :
    Verified none s.recvSeq (pending.take (s.inPacketLen.1 + 4 + s.currentMacsize)) packed
      s'.crypto := by
  have etm : s₀.etm = false := by
    unfold Session.etm
    rw [isNone]
    rfl
  have start : s₀.lenfieldBlocksize = 8 ∧ s₀.etmPacketOffset = 0 := by
    unfold lenfieldBlocksize etmPacketOffset
    rw [etm, isNone]
    exact ⟨rfl, rfl⟩
  rcases body.length.other etm with ⟨crypto, buffer, len, least⟩
  rw [start.1, start.2] at crypto buffer len
  unfold decryptLen at crypto buffer len
  rw [isNone] at crypto buffer len
  dsimp only at crypto buffer len
  rw [isNone] at crypto
  rw [List.take_take, Nat.min_self] at buffer len
  rw [pullBeU32_take (by omega)] at len
  rw [start.1] at least
  have macsize : s.currentMacsize = 0 := by
    unfold currentMacsize
    rw [crypto]
    rfl
  have start' : s.lenfieldBlocksize + s.etmPacketOffset = 8 := by
    unfold lenfieldBlocksize etmPacketOffset Session.etm
    rw [crypto]
    rfl
  have enough := body.enough
  have decrypts := body.decrypts
  rw [macsize, Nat.add_zero] at enough decrypts ⊢
  rw [decryptPacket_plain crypto] at decrypts
  have is := Option.some.inj decrypts
  have inBuffer : s'.inBuffer = pending.take (s.inPacketLen.1 + 4) := by
    rw [← is]
    dsimp only
    have front : pending.take 8 = (pending.take (s.inPacketLen.1 + 4)).take 8 := by
      rw [List.take_take, Nat.min_eq_left least]
    have length : (pending.take (s.inPacketLen.1 + 4)).length =
        8 + (s.inPacketLen.1 + 4 - 8) := by
      rw [List.length_take]
      omega
    rw [buffer, start', drop_take_of_length length, front, List.take_append_drop]
  have after : s'.crypto = none := by
    rw [← is]
    exact crypto
  have etm' : s'.etm = false := by
    unfold Session.etm
    rw [after]
    rfl
  have framed := body.framed
  unfold payload at framed
  rw [etm', inBuffer] at framed
  rw [after]
  refine .plain ?_ framed
  rw [pullBeU32_take (by omega), ← len, List.length_take]
  omega

theorem Body.etm (body : Body s₀ s pending packed s') (on : s₀.crypto = some c)
    (made : WellMade c) (kind : c.hmac.isAead = false) (isEtm : c.etm = true) :
    Verified (some c) s.recvSeq (pending.take (s.inPacketLen.1 + 4 + s.currentMacsize)) packed
      s'.crypto := by
  rcases start_etm on isEtm with ⟨lenfield, offset⟩
  rcases body.length.etm ((etm_keyed on).trans isEtm) with ⟨crypto, buffer, len, least⟩
  rw [lenfield, offset, pullBeU32_take (by omega)] at len
  have on' : s.crypto = some c := crypto.trans on
  rcases start_etm on' isEtm with ⟨lenfield', offset'⟩
  have macsize := currentMacsize_keyed on'
  rcases decryptPacket_decrypted on' body.decrypts with ⟨clear, opened⟩
  have enough := body.enough
  rw [macsize] at enough opened ⊢
  rcases body_split enough with ⟨front, back, split⟩
  have right := mac_of_verified on' kind (opened.before isEtm)
  rw [front, back] at right
  rcases opened.some (by omega) with ⟨s₂, decrypts, sameCrypto⟩
  rw [lenfield', offset', Nat.zero_add] at decrypts
  rcases clear_of_block on' (made.plain kind).2.2 decrypts with ⟨isClear, isCrypto⟩
  have packet : ((pending.take (s.inPacketLen.1 + 4 + c.hmac.digestLen)).drop 4).take
      (s.inPacketLen.1 + 4 - 4) = (pending.take (s.inPacketLen.1 + 4)).drop 4 := by
    rw [← List.drop_take, front]
  rw [packet] at isClear isCrypto
  have framed := body.framed
  have etm' : s'.etm = true := by
    unfold Session.etm
    rw [sameCrypto, isCrypto]
    exact isEtm
  unfold payload at framed
  rw [etm', opened.inBuffer, buffer] at framed
  rw [sameCrypto, isCrypto]
  rw [right] at split
  refine .etm kind isEtm split ?_ ?_
  · rw [pullBeU32_take (by omega), ← len, List.length_take]
    omega
  · rw [isClear]
    exact framed

theorem Body.mac (body : Body s₀ s pending packed s') (on : s₀.crypto = some c)
    (made : WellMade c) (kind : c.hmac.isAead = false) (isEtm : c.etm = false) :
    Verified (some c) s.recvSeq (pending.take (s.inPacketLen.1 + 4 + s.currentMacsize)) packed
      s'.crypto := by
  have noLenfield := (made.plain kind).1
  have noAead := (made.plain kind).2.2
  rcases start_other on isEtm with ⟨lenfield, offset⟩
  rw [if_pos noLenfield] at lenfield
  rcases body.length.other ((etm_keyed on).trans isEtm) with ⟨crypto, buffer, len, least⟩
  rw [lenfield] at least
  -- the first block was decrypted with the length
  have first : s₀.decryptLen (pending.take c.cipher.blocksize) =
      ({ s₀ with crypto := some { c with
          context := (c.cipher.decrypt c.context (pending.take c.cipher.blocksize)).1 } },
        (c.cipher.decrypt c.context (pending.take c.cipher.blocksize)).2,
        pullBeU32 (c.cipher.decrypt c.context (pending.take c.cipher.blocksize)).2) := by
    unfold decryptLen Session.decrypt
    rw [on]
    dsimp only
    rw [(made.plain kind).2.1, noAead, if_neg]
    · dsimp only
      rw [List.drop_zero, List.take_take, Nat.min_self]
    · have some := made.blocksize
      rw [Nat.mod_self]
      rintro (none | other)
      · omega
      · exact other rfl
  rw [lenfield, offset, Nat.add_zero, first] at crypto buffer len
  dsimp only at crypto buffer len
  rcases start_other crypto isEtm with ⟨lenfield', offset'⟩
  dsimp only at lenfield'
  rw [if_pos noLenfield] at lenfield'
  have macsize := currentMacsize_keyed crypto
  rcases decryptPacket_decrypted crypto body.decrypts with ⟨clear, opened⟩
  have enough := body.enough
  rw [macsize] at enough opened ⊢
  rcases body_split enough with ⟨front, back, split⟩
  have right := mac_of_verified crypto kind (opened.after isEtm)
  rw [back, opened.inBuffer, buffer] at right
  have block : (pending.take (s.inPacketLen.1 + 4)).take c.cipher.blocksize =
      pending.take c.cipher.blocksize := by
    rw [List.take_take, Nat.min_eq_left least]
  have packetLength : (pending.take (s.inPacketLen.1 + 4)).length = s.inPacketLen.1 + 4 := by
    rw [List.length_take]
    dsimp only at enough
    omega
  have deciphers : c.decipher (pending.take (s.inPacketLen.1 + 4)) =
      ((c.decipher (pending.take (s.inPacketLen.1 + 4))).1, s.inBuffer ++ clear) ∧
      s'.crypto = some { c with
        context := (c.decipher (pending.take (s.inPacketLen.1 + 4))).1 } := by
    unfold Crypto.decipher
    dsimp only
    rw [block, packetLength, buffer]
    split
    · rename_i more
      obtain ⟨s₂, decrypts, sameCrypto⟩ := opened.some (by
        rw [lenfield', offset']
        exact more)
      rw [lenfield', offset'] at decrypts
      simp only [Nat.add_zero] at decrypts
      rcases clear_of_block crypto noAead decrypts with ⟨isClear, isCrypto⟩
      dsimp only at isClear isCrypto
      have rest : ((pending.take (s.inPacketLen.1 + 4 + c.hmac.digestLen)).drop
          c.cipher.blocksize).take (s.inPacketLen.1 + 4 - c.cipher.blocksize) =
          (pending.take (s.inPacketLen.1 + 4)).drop c.cipher.blocksize := by
        rw [← List.drop_take, front]
      rw [rest] at isClear isCrypto
      rw [isClear]
      exact ⟨rfl, sameCrypto.trans (by rw [isCrypto, isClear])⟩
    · rename_i single
      obtain ⟨sameCrypto, nothing⟩ := opened.nothing (by
        rw [lenfield', offset']
        exact Nat.le_of_not_lt single)
      rw [nothing]
      exact ⟨rfl, sameCrypto.trans crypto⟩
  have framed := body.framed
  have etm' : s'.etm = false := by
    unfold Session.etm
    rw [deciphers.2]
    exact isEtm
  unfold payload at framed
  rw [etm', opened.inBuffer] at framed
  rw [deciphers.2]
  have isClear : (c.decipher (pending.take (s.inPacketLen.1 + 4))).2 = s.inBuffer ++ clear :=
    congrArg Prod.snd deciphers.1
  refine .mac kind isEtm ?_ ?_ ?_
  · rw [isClear, buffer, ← right]
    exact split
  · rw [block, packetLength, len]
  · rw [isClear]
    exact framed

theorem Body.aead (body : Body s₀ s pending packed s') (on : s₀.crypto = some c)
    (made : WellMade c) (kind : c.hmac.isAead = true) :
    Verified (some c) s.recvSeq (pending.take (s.inPacketLen.1 + 4 + s.currentMacsize)) packed
      s'.crypto := by
  rcases made.aead kind with ⟨isEtm, isLenfield, decryptLength, decrypt, isLength, isDecrypt, short⟩
  rcases start_other on isEtm with ⟨lenfield, offset⟩
  rw [isLenfield] at lenfield
  rcases body.length.other ((etm_keyed on).trans isEtm) with ⟨crypto, buffer, len, -⟩
  rw [lenfield, offset] at crypto buffer len
  unfold decryptLen at crypto buffer len
  rw [on] at crypto buffer len
  dsimp only at crypto buffer len
  rw [isLength, isLenfield] at crypto buffer len
  dsimp only at crypto buffer len
  have four : ((pending.take (4 + 0)).take 4) = pending.take 4 := by
    rw [List.take_take, Nat.min_self]
  have start : (if 4 = 0 then c.cipher.blocksize else 4) = 4 := rfl
  rw [start, four] at crypto buffer len
  generalize isFirst : decryptLength c.context s₀.recvSeq (pending.take 4) = first at *
  rcases first with ⟨context, opens⟩
  dsimp only at crypto buffer len
  have on' : s.crypto = some { c with context := context } := by
    cases opens <;> exact crypto
  rcases start_other on' isEtm with ⟨lenfield', offset'⟩
  dsimp only at lenfield'
  rw [isLenfield] at lenfield'
  have start' : s.lenfieldBlocksize + s.etmPacketOffset = 4 := by
    rw [lenfield', offset']
    rfl
  have macsize := currentMacsize_keyed on'
  rcases decryptPacket_decrypted on' body.decrypts with ⟨clear, opened⟩
  have enough := body.enough
  rw [macsize] at enough opened ⊢
  dsimp only at enough opened ⊢
  have bufferShort : s.inBuffer.length ≤ 4 := by
    cases opens with
    | none =>
        rw [buffer]
        exact Nat.zero_le 4
    | some out =>
        rw [buffer]
        exact short c.context s₀.recvSeq (pending.take 4) out (List.length_take_le ..)
          (congrArg Prod.snd isFirst)
  have framed := body.framed
  have setup := (decryptPacket_decrypts body.decrypts).setup
  have etm' : s'.etm = false := by
    have bySetup (t : Session κ ρ) : t.etm = (t.crypto.map Crypto.setup).elim false (·.2.2.1) := by
      unfold Session.etm
      cases t.crypto <;> rfl
    rw [bySetup, setup, on']
    exact isEtm
  unfold payload at framed
  rw [etm', opened.inBuffer, if_neg Bool.false_ne_true] at framed
  rcases Nat.eq_zero_or_pos s.inPacketLen.1 with none | some
  · -- nothing is left to decrypt, and nothing is in the packet
    rcases opened.nothing (by omega) with ⟨-, nothing⟩
    rw [nothing, List.append_nil, List.drop_of_length_le bufferShort] at framed
    cases framed
  · rcases opened.some (by omega) with ⟨s₂, decrypts, sameCrypto⟩
    rcases clear_of_aead on' isDecrypt decrypts with ⟨took, isCrypto⟩
    dsimp only at took isCrypto
    rw [start', Nat.add_sub_cancel] at took isCrypto
    cases opens with
    | none =>
        rw [len] at some
        cases some
    | some out =>
        dsimp only at buffer len
        rw [sameCrypto, isCrypto]
        refine @Verified.aead _ _ _ _ out clear _ context _ _ _ kind isLength isDecrypt ?_ ?_ ?_ ?_
        · rw [List.take_take, Nat.min_eq_left (by omega), ← body.seq]
          exact isFirst
        · rw [← len, List.length_take]
          omega
        · rw [← len]
          exact Prod.ext rfl took
        · rw [← buffer]
          exact framed

/-- Whatever the keys, a packet is verified before its content is looked at. -/
theorem Body.verified (body : Body s₀ s pending packed s')
    (made : ∀ c, s₀.crypto = some c → WellMade c) :
    Verified s₀.crypto s.recvSeq (pending.take (s.inPacketLen.1 + 4 + s.currentMacsize)) packed
      s'.crypto := by
  cases on : s₀.crypto with
  | none => exact body.plain on
  | some c =>
      cases kind : c.hmac.isAead with
      | true => exact body.aead on (made c on) kind
      | false =>
          cases isEtm : c.etm with
          | true => exact body.etm on (made c on) kind isEtm
          | false => exact body.mac on (made c on) kind isEtm

/-! ## Steps -/

/-- The packet that a session reads began with the keys. -/
structure Started (keys : Option (Crypto κ)) (s : Session κ ρ) (pending : List UInt8) : Prop where
  init : s.packetState = .init → s.crypto = keys
  sizeread : s.packetState = .sizeread → ∃ s₀ : Session κ ρ, s₀.crypto = keys ∧
    s₀.recvSeq = s.recvSeq ∧
    Length s₀ (pending.take (s₀.lenfieldBlocksize + s₀.etmPacketOffset)) s

/-- From the error state on, rekeys may be sent and nothing else. -/
theorem ran_of_error {keys : Option (Crypto κ)} {seq : Nat} {bytes pending left : List UInt8}
    {t : Session κ ρ} (runs : (reader h).Runs (Rekeyed h) s pending t left)
    (failed : s.error = true) : Ran h s.rest keys seq bytes t.rest := by
  induction runs with
  | refl => exact .stop ..
  | step steps _ _ =>
      rw [waits_of_error failed] at steps
      cases steps
  | @move s s' t pending left moved _ ih =>
      rcases moved with ⟨-, is⟩
      rw [is] at ih
      exact .rekeyed (ih failed)

/-- The keys of a packet that was decompressed. -/
theorem decompress_inflated {payload : List UInt8}
    (inflates : s.decompress packed = some (s', payload)) :
    inflated s.crypto packed = some (s'.crypto, payload) := by
  unfold decompress at inflates
  cases on : s.crypto with
  | none =>
    rw [on] at inflates
    cases inflates
    exact congrArg (fun keys => some (keys, packed)) on.symm
  | some c =>
    rw [on] at inflates
    rcases Option.map_eq_some_iff.mp inflates with ⟨r, decompresses, is⟩
    cases is
    exact congrArg (Option.map fun r => (some r.1, r.2)) decompresses

/-- Keys stay well made when a packet is verified and decompressed, and counted. -/
theorem verified_made {keys keys₁ keys₂ : Option (Crypto κ)} {seq n : Nat}
    {wire payload : List UInt8} (made : ∀ c, keys = some c → WellMade c)
    (verified : Verified keys seq wire packed keys₁)
    (inflates : inflated keys₁ packed = some (keys₂, payload)) :
    ∀ c, keys₂.map (Crypto.count · n) = some c → WellMade c := by
  have made₁ : ∀ c, keys₁ = some c → WellMade c := by
    intro c on
    cases verified with
    | plain => cases on
    | mac => cases on; exact (made _ rfl).of_setup rfl rfl rfl
    | etm => cases on; exact (made _ rfl).of_setup rfl rfl rfl
    | aead => cases on; exact (made _ rfl).of_setup rfl rfl rfl
  have made₂ : ∀ c, keys₂ = some c → WellMade c := by
    intro c on
    unfold inflated at inflates
    split at inflates
    · cases inflates
      cases on
    · rename_i c₁
      rcases Option.map_eq_some_iff.mp inflates with ⟨r, decompresses, is⟩
      cases is
      cases on
      unfold Crypto.decompressBuffer at decompresses
      split at decompresses
      · split at decompresses
        · cases decompresses
        · rw [Option.ite_none_left_eq_some] at decompresses
          cases decompresses.2
          exact (made₁ _ rfl).of_setup rfl rfl rfl
      · cases decompresses
        exact made₁ _ rfl
  intro c on
  rcases Option.map_eq_some_iff.mp on with ⟨c₂, on₂, is⟩
  rw [← is]
  exact (made₂ c₂ on₂).of_setup rfl rfl rfl

/-- Keys are well made behind the callbacks when those they switch to are. -/
theorem processed_made {p : Processed κ ρ} {keys : Option (Crypto κ)}
    (switches : ∀ c, p.newkeys = some c → WellMade c) (made : ∀ c, keys = some c → WellMade c) :
    ∀ c, p.keys keys = some c → WellMade c := by
  intro c isKeys
  rcases Option.map_eq_some_iff.mp isKeys with ⟨c₁, isKeys, is⟩
  rw [← is]
  refine WellMade.of_setup (c := c₁) ?_ rfl rfl rfl
  cases newkeys : p.newkeys with
  | none =>
      rw [newkeys] at isKeys
      exact made c₁ isKeys
  | some c₂ =>
      rw [newkeys] at isKeys
      cases isKeys
      exact switches _ newkeys

/-- What the reader does, the callbacks ran for. -/
theorem runs_ran (switches : ∀ rest seq type body c,
      (h.process rest seq type body).newkeys = some c → WellMade c)
    {pending left : List UInt8} {t : Session κ ρ} {keys : Option (Crypto κ)}
    (runs : (reader h).Runs (Rekeyed h) s pending t left) (started : Started keys s pending)
    (made : ∀ c, keys = some c → WellMade c) : Ran h s.rest keys s.recvSeq pending t.rest := by
  induction runs generalizing keys with
  | refl => exact .stop ..
  | @move s s' t pending left moved _ ih =>
      rcases moved with ⟨-, is⟩
      rw [is] at ih
      refine .rekeyed (ih ⟨started.init, fun state => ?_⟩ made)
      rcases started.sizeread state with ⟨s₀, on, seq, length⟩
      exact ⟨s₀, on, seq, length.etm, length.other⟩
  | @step s s' t pending left n steps runs ih =>
      cases readStep_went steps with
      | fails _ _ _ failed rest =>
          rw [← rest]
          exact ran_of_error runs failed
      | length _ state enough reads =>
          rcases readLength_decrypts reads with ⟨state', same⟩
          rw [← same.rest, ← same.recvSeq]
          refine ih ⟨fun init => ?_, fun _ => ?_⟩ made
          · rw [state'] at init
            cases init
          · exact ⟨s, started.init state, same.recvSeq.symm, readLength_length reads⟩
      | packet s₁ s₂ packed payload _ state whole enough decrypts framed inflates =>
          rcases started.sizeread state with ⟨s₀, on, seq, length⟩
          rw [whole] at enough decrypts
          have body : Body s₀ s pending packed s₁ := ⟨seq, length, enough, decrypts, framed⟩
          have verified := body.verified fun c on' => made c (on.symm.trans on')
          rw [on, ← whole] at verified
          have inflated := decompress_inflated inflates
          have same := decryptPacket_decrypts decrypts
          have same₂ := decompress_same inflates
          have rest : s₂.rest = s.rest := same₂.rest.trans same.rest
          have seq₂ : s₂.recvSeq = s.recvSeq := same₂.recvSeq.trans same.recvSeq
          have made₂ := verified_made (n := payload.length) made verified inflated
          rw [← List.take_append_drop n pending]
          cases filter : h.incomingFilter s₂.rest (payload.headD 0) with
          | denied =>
              rcases processPayload_denied filter with ⟨-, failed, kept⟩
              rw [← rest, ← kept]
              exact ran_of_error runs failed
          | unknown =>
              rw [processPayload_unknown filter, rest, seq₂] at ih
              rw [rest] at filter
              exact .skipped verified inflated filter
                (ih ⟨fun _ => rfl, fun state => by cases state⟩ made₂)
          | allowed =>
              rw [processPayload_allowed filter, rest, seq₂] at ih
              rw [rest] at filter
              refine .packet verified inflated filter
                (ih ⟨fun _ => rfl, fun state => by cases state⟩ fun c isKeys => ?_)
              exact processed_made (fun c on => switches _ _ _ _ c on) made₂ c isKeys

/-- Between two packets a session with well made keys waits. -/
theorem waits_of_made (state : s.packetState = .init) (made : ∀ c, s.crypto = some c → WellMade c) :
    (reader h).Waits s [] := by
  apply waits_nil state
  cases on : s.crypto with
  | none =>
      unfold lenfieldBlocksize etmPacketOffset Session.etm
      rw [on]
      exact Nat.succ_pos 7
  | some c =>
      cases isEtm : c.etm with
      | true =>
          rw [(start_etm on isEtm).2]
          omega
      | false =>
          rw [(start_other on isEtm).1]
          have some := (made c on).blocksize
          split <;> omega

end Session

/-- Whatever bytes arrive and however they are cut: when the reading begins between two
packets and no rekey that comes due fails, the callbacks run on packets only that lie one
behind the other in the bytes and are verified, each with its number and the keys in
force. -/
theorem callbacks_verified {h : Handlers κ ρ} (switches : ∀ rest seq type body c,
      (h.process rest seq type body).newkeys = some c → WellMade c)
    {s : Session κ ρ} (state : s.packetState = .init)
    (made : ∀ c, s.crypto = some c → WellMade c) {b : SshBuffer} (empty : b.bytes = [])
    {chunks : List (List UInt8)} (small : ∀ chunk ∈ chunks, chunk.length ≤ maxBufSize)
    (sends : Session.SendsAll h s chunks.flatten) :
    Ran h s.rest s.crypto s.recvSeq chunks.flatten
      (chunks.foldl (Session.pollcallback h) (s, b)).1.rest := by
  have polled : Polled h s b.bytes := by
    rw [empty]
    refine Or.inr (Or.inr ⟨Session.waits_of_made state made, Or.inr fun other => ?_⟩)
    rw [state] at other
    cases other
  obtain ⟨left, runs, -⟩ := polls_run (x := (s, b)) polled small (by
    rw [empty]
    exact sends)
  rw [empty] at runs
  apply Session.runs_ran switches runs _ made
  refine ⟨fun _ => rfl, fun sizeread => ?_⟩
  rw [state] at sizeread
  cases sizeread

/-- The session that keeps the payloads, when a rekey comes due behind the second. -/
def rekeyingHandlers : Handlers UInt8 (List (List UInt8)) :=
  { keepingHandlers taggedCrypto with
    needRekey := fun rest _ => rest.length == 2
    sendRekex := fun rest => (rest ++ [[20]], true) }

/-- The bytes of packets with a MAC, of a switch of keys and of a packet with a tag. -/
def switchingBytes : List UInt8 :=
  ((⟨some counterCrypto, 3⟩ : Sender UInt8).sendAll switchingPackets).elim [] (·.2)

theorem callbacks_verified_switching :
    Ran rekeyingHandlers [] (some counterCrypto) 3
      [switchingBytes.take 5, (switchingBytes.drop 5).take 30, switchingBytes.drop 35].flatten
      ([switchingBytes.take 5, (switchingBytes.drop 5).take 30, switchingBytes.drop 35].foldl
        (Session.pollcallback rekeyingHandlers) (keyedSession, SshBuffer.new)).1.rest := by
  refine callbacks_verified (s := keyedSession) ?_ rfl ?_ rfl (by decide) ?_
  · intro rest seq type body c newkeys
    have isTagged : c = taggedCrypto := by
      change (if type = msgNewkeys then some taggedCrypto else none) = some c at newkeys
      split at newkeys
      · exact (Option.some.inj newkeys).symm
      · cases newkeys
    rw [isTagged]
    refine ⟨by decide, (fun is => by cases is), fun _ => ?_⟩
    refine ⟨rfl, rfl, openLength, openTagged, rfl, rfl, fun context seq data out short opens => ?_⟩
    cases opens
    rw [length_subCounter]
    exact short
  · intro c on
    cases on
    exact ⟨by decide, fun _ => ⟨rfl, rfl, rfl⟩, fun is => by cases is⟩
  · exact fun _ _ _ _ => rfl

end WindTerm.Libssh

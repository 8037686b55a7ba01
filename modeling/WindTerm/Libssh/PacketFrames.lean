import WindTerm.Libssh.PacketSpec

/-!
# The frames of packets

What `packet_send2` puts on the wire for a payload, and that the reader takes it for
that payload (`sent_opens`). `Suite` is what is asked of a cipher and its MAC, which
are those of OpenSSL or of another library: the two ways in which libssh uses them.
-/

namespace WindTerm.Libssh

open Library

variable {κ ρ : Type}

/-! ## Lengths on the wire -/

theorem pullBeU32_push {n : Nat} (fits : n < 2 ^ 32) (rest : List UInt8) :
    pullBeU32 (pushBeU32 n ++ rest) = n := by
  unfold pullBeU32 pushBeU32
  simp only [List.cons_append, List.nil_append, List.getD_cons_zero, List.getD_cons_succ,
    UInt8.toNat_ofNat']
  omega

@[simp] theorem length_pushBeU32 (n : Nat) : (pushBeU32 n).length = 4 := rfl

/-- A cipher that is used with a separate MAC. `sync` relates the contexts of the two
ends when the one has encrypted what the other has decrypted. -/
structure BlockSuite (sync : κ → κ → Prop) (c : Cipher κ) (hmac : Hmac) : Prop where
  least : 8 ≤ c.blocksize
  lenfield : c.lenfieldBlocksize = 0
  noAeadEncrypt : c.aeadEncrypt = none
  noAeadDecryptLength : c.aeadDecryptLength = none
  noAeadDecrypt : c.aeadDecrypt = none
  digestLen : ∀ data, (hmac.digest data).length = hmac.digestLen
  encryptLen : ∀ k data, c.blocksize ∣ data.length → (c.encrypt k data).2.length = data.length
  decryptLen : ∀ k data, c.blocksize ∣ data.length → (c.decrypt k data).2.length = data.length
  decrypts : ∀ k k' data, sync k k' → c.blocksize ∣ data.length →
    (c.decrypt k' (c.encrypt k data).2).2 = data ∧
      sync (c.encrypt k data).1 (c.decrypt k' (c.encrypt k data).2).1
  -- the blocks may be decrypted in two calls
  decryptAppend : ∀ k a b, c.blocksize ∣ a.length → b ≠ [] →
    c.decrypt k (a ++ b) =
      ((c.decrypt (c.decrypt k a).1 b).1, (c.decrypt k a).2 ++ (c.decrypt (c.decrypt k a).1 b).2)

/-- A cipher that authenticates, with its three functions. -/
structure AeadSuite (sync : κ → κ → Prop) (c : Cipher κ) (hmac : Hmac)
    (encrypt : κ → Nat → List UInt8 → κ × List UInt8 × List UInt8)
    (decryptLength : κ → Nat → List UInt8 → κ × Option (List UInt8))
    (decrypt : κ → Nat → List UInt8 → Nat → κ × Option (List UInt8)) : Prop where
  least : 8 ≤ c.blocksize
  lenfield : c.lenfieldBlocksize = 4
  isAead : hmac.isAead = true
  isEncrypt : c.aeadEncrypt = some encrypt
  isDecryptLength : c.aeadDecryptLength = some decryptLength
  isDecrypt : c.aeadDecrypt = some decrypt
  encryptLen : ∀ k seq data, (encrypt k seq data).2.1.length = data.length
  tagLen : ∀ k seq data, (encrypt k seq data).2.2.length = hmac.digestLen
  decryptsLength : ∀ k k' seq data, sync k k' → 4 ≤ data.length →
    (decryptLength k' seq ((encrypt k seq data).2.1.take 4)).2 = some (data.take 4)
  decrypts : ∀ k k' seq data, sync k k' → 4 ≤ data.length →
    (decrypt (decryptLength k' seq ((encrypt k seq data).2.1.take 4)).1 seq
        ((encrypt k seq data).2.1 ++ (encrypt k seq data).2.2) (data.length - 4)).2 =
      some (data.drop 4) ∧
    sync (encrypt k seq data).1
      (decrypt (decryptLength k' seq ((encrypt k seq data).2.1.take 4)).1 seq
        ((encrypt k seq data).2.1 ++ (encrypt k seq data).2.2) (data.length - 4)).1

/-- The ways a cipher and a MAC are used: the MAC over the encrypted packet or over the
packet, or the cipher's own. -/
inductive Suite (sync : κ → κ → Prop) : Cipher κ → Hmac → Bool → Prop
  | block {c : Cipher κ} {hmac : Hmac} (suite : BlockSuite sync c hmac) (etm : Bool) :
    Suite sync c hmac etm
  | aead {c : Cipher κ} {hmac : Hmac}
    {encrypt : κ → Nat → List UInt8 → κ × List UInt8 × List UInt8}
    {decryptLength : κ → Nat → List UInt8 → κ × Option (List UInt8)}
    {decrypt : κ → Nat → List UInt8 → Nat → κ × Option (List UInt8)}
    (suite : AeadSuite sync c hmac encrypt decryptLength decrypt) : Suite sync c hmac false

/-- The keys of the two ends of a direction: none, or the same with contexts in sync. -/
inductive Matches (sync : κ → κ → Prop) : Option (Crypto κ) → Option (Crypto κ) → Prop
  | plain : Matches sync none none
  | keyed {out incoming : Crypto κ} (cipher : incoming.cipher = out.cipher)
    (hmac : incoming.hmac = out.hmac) (etm : incoming.etm = out.etm)
    (context : sync out.context incoming.context)
    (suite : Suite sync out.cipher out.hmac out.etm) : Matches sync (some out) (some incoming)

/-! ## Frames -/

/-- What is in front of the part of a frame that is a number of blocks. -/
def Sender.unblocked (s : Sender κ) : Nat := s.lenfieldBlocksize + s.etmPacketOffset

variable {sync : κ → κ → Prop} {s : Sender κ}

/-- The sizes the sender works with. -/
structure SenderSizes (s : Sender κ) : Prop where
  least : 8 ≤ s.blocksize
  most : s.blocksize ≤ 16
  unblocked : s.unblocked ≤ 4
  offset : s.etmPacketOffset = 0 ∨ s.etmPacketOffset = 4

theorem Matches.senderSizes {incoming : Option (Crypto κ)}
    (matching : Matches sync s.crypto incoming) : SenderSizes s := by
  rcases s with ⟨crypto, sendSeq⟩
  dsimp only at matching
  cases matching with
  | plain => exact ⟨Nat.le_refl 8, Nat.le_of_ble_eq_true rfl, Nat.zero_le 4, Or.inl rfl⟩
  | @keyed out incoming _ _ _ context suite =>
      rcases out with ⟨cipher, context, hmac, etm, packets, blocks, compression⟩
      dsimp only at suite
      cases suite with
      | block suite =>
          refine ⟨suite.least, cipher.blocksize_le, ?_, ?_⟩
          · cases etm
            · exact Nat.le_trans (Nat.le_of_eq suite.lenfield) (Nat.zero_le 4)
            · exact Nat.le_refl 4
          · cases etm
            · exact Or.inl rfl
            · exact Or.inr rfl
      | aead suite =>
          exact ⟨suite.least, cipher.blocksize_le, Nat.le_of_eq suite.lenfield, Or.inl rfl⟩

/-- What the padding is. -/
structure PaddingSize (s : Sender κ) (len p : Nat) : Prop where
  least : 4 ≤ p
  most : p ≤ 19
  blocks : s.blocksize ∣ len + 5 + p - s.unblocked

theorem paddingSize_spec (sizes : SenderSizes s) (len : Nat) :
    PaddingSize s len (s.paddingSize len) := by
  have least := sizes.least
  have most := sizes.most
  have unblocked := sizes.unblocked
  let whole := s.blocksize - s.unblocked + len + 5
  have beyond : whole % s.blocksize < s.blocksize := Nat.mod_lt _ (by omega)
  have fits : whole % s.blocksize ≤ whole := Nat.mod_le ..
  have blocks : s.blocksize ∣ whole - whole % s.blocksize := Nat.dvd_sub_mod whole
  have is : s.paddingSize len =
      if s.blocksize - whole % s.blocksize < 4 then
        s.blocksize - whole % s.blocksize + s.blocksize
      else s.blocksize - whole % s.blocksize := by
    unfold Sender.paddingSize
    rw [Nat.sub_sub]
    rfl
  rw [is]
  split
  · refine ⟨by omega, by omega, ?_⟩
    have sum : len + 5 + (s.blocksize - whole % s.blocksize + s.blocksize) - s.unblocked =
        whole - whole % s.blocksize + s.blocksize := by omega
    rw [sum]
    exact Nat.dvd_add blocks (Nat.dvd_refl _)
  · refine ⟨by omega, by omega, ?_⟩
    have sum : len + 5 + (s.blocksize - whole % s.blocksize) - s.unblocked =
        whole - whole % s.blocksize := by omega
    rw [sum]
    exact blocks

@[simp] theorem length_paddingData (s : Sender κ) (paddingSize : Nat) (random : Nat → UInt8) :
    (s.paddingData paddingSize random).length = paddingSize := by
  unfold Sender.paddingData
  rw [List.length_map, List.length_range]

theorem frame_length (s : Sender κ) (payload : List UInt8) (random : Nat → UInt8) :
    (s.frame payload random).length = payload.length + 5 + s.paddingSize payload.length := by
  unfold Sender.frame
  simp only [List.length_append, length_pushBeU32, List.length_singleton, length_paddingData]
  omega

theorem pullBeU32_take {k : Nat} (enough : 4 ≤ k) (data : List UInt8) :
    pullBeU32 (data.take k) = pullBeU32 data := by
  unfold pullBeU32
  simp only [List.getD_eq_getElem?_getD, List.getElem?_take]
  rw [if_pos (by omega), if_pos (by omega), if_pos (by omega), if_pos (by omega)]

theorem frame_drop (s : Sender κ) (payload : List UInt8) (random : Nat → UInt8) :
    (s.frame payload random).drop 4 = .ofNat (s.paddingSize payload.length) ::
      (payload ++ s.paddingData (s.paddingSize payload.length) random) := rfl

/-- What a frame is made of. The length in front of it is overwritten when only what
follows is encrypted. -/
structure Framed (s : Sender κ) (payload frame : List UInt8) : Prop where
  least : 9 ≤ frame.length
  most : frame.length ≤ maxPacketLen + 4
  blocks : s.blocksize ∣ frame.length - s.unblocked
  length : s.etmPacketOffset = 0 → pullBeU32 frame + 4 = frame.length
  unpads : unpad (frame.drop 4) = some payload

theorem frame_framed (sizes : SenderSizes s) {payload : List UInt8}
    (fits : payload.length + 20 ≤ maxPacketLen) (random : Nat → UInt8) :
    Framed s payload (s.frame payload random) := by
  have padding := paddingSize_spec sizes payload.length
  have least := padding.least
  have most := padding.most
  have length := frame_length s payload random
  have limit : maxPacketLen < 2 ^ 32 := by decide
  refine ⟨by omega, by omega, ?_, fun offset => ?_, ?_⟩
  · rw [length]
    exact padding.blocks
  · have pull : pullBeU32 (s.frame payload random) =
        payload.length + s.paddingSize payload.length + 1 - s.etmPacketOffset := by
      unfold Sender.frame
      dsimp only
      rw [List.append_assoc, List.append_assoc]
      apply pullBeU32_push
      omega
    omega
  · have byte : (UInt8.ofNat (s.paddingSize payload.length)).toNat =
        s.paddingSize payload.length := by
      rw [UInt8.toNat_ofNat']
      omega
    have pads := length_paddingData s (s.paddingSize payload.length) random
    rw [frame_drop, unpad, byte, List.length_append, pads, if_neg (by omega), Nat.add_sub_cancel]
    exact congrArg some (List.take_left' rfl)

/-! ## A packet opens -/

/-- The reader takes the bytes `wire` for a packet with the payload: it reads the length,
then it has `r₂`. -/
structure Opens (r : Session κ ρ) (wire payload : List UInt8) (r₁ r₂ : Session κ ρ) : Prop where
  enough : r.lenfieldBlocksize + r.etmPacketOffset ≤ wire.length
  length : r.readLength (wire.take (r.lenfieldBlocksize + r.etmPacketOffset)) = some r₁
  whole : r₁.inPacketLen.1 + 4 + r₁.currentMacsize = wire.length
  clear : r₁.decryptPacket wire = some r₂
  framed : r₂.payload = some payload

theorem Opens.goes {r r₁ r₂ r₃ : Session κ ρ} {wire packed payload : List UInt8}
    (opens : Opens r wire packed r₁ r₂) (inflates : r₂.decompress packed = some (r₃, payload))
    (state : r.packetState = .init) (running : r.error = false) (h : Handlers κ ρ) :
    (Session.reader h).Goes r wire (r₃.processPayload h payload).1 [] := by
  rcases Session.readLength_decrypts opens.length with ⟨state₁, same⟩
  have first : (Session.reader h).step r wire = some (r₁, 0) := by
    change Session.readStep h r wire = _
    unfold Session.readStep
    rw [running, state]
    dsimp only
    rw [if_neg Bool.false_ne_true, if_pos opens.enough, opens.length]
  have second : (Session.reader h).step r₁ wire =
      some ((r₃.processPayload h payload).1, wire.length) := by
    change Session.readStep h r₁ wire = _
    unfold Session.readStep
    rw [same.error.trans running, state₁]
    dsimp only
    rw [if_neg Bool.false_ne_true, Session.readBody_next, opens.whole, if_pos (Nat.le_refl _),
      List.take_length, opens.clear]
    dsimp only
    rw [opens.framed]
    dsimp only
    rw [inflates]
  apply Consumer.Runs.step first
  apply Consumer.Runs.step second
  rw [List.drop_length]
  exact .refl ..

variable {r : Session κ ρ}

theorem readLength_eq {data dest : List UInt8} {r' : Session κ ρ} {len : Nat} (etm : r.etm = false)
    (decrypts : r.decryptLen data = (r', dest, len)) (limit : len ≤ maxPacketLen)
    (block : r.lenfieldBlocksize ≤ len + 4) :
    r.readLength data = some { r' with
      inBuffer := dest
      inPacketLen := ⟨len, limit⟩
      packetState := .sizeread } := by
  unfold Session.readLength
  simp only [etm, decrypts, Bool.false_eq_true, if_false]
  rw [dif_neg]
  omega

theorem readLength_etm {data : List UInt8} {len : Nat} (etm : r.etm = true)
    (is : pullBeU32 data = len) (limit : len ≤ maxPacketLen) (block : 4 ≤ len) :
    r.readLength data = some { r with
      inBuffer := []
      inPacketLen := ⟨len, limit⟩
      packetState := .sizeread } := by
  have offset : r.etmPacketOffset = 4 := if_pos etm
  unfold Session.readLength
  simp only [offset, etm, if_true, is]
  rw [dif_neg]
  omega

theorem decryptPacket_plain {s : Session κ ρ} (plain : s.crypto = none) (data : List UInt8) :
    s.decryptPacket data = some { s with
      inBuffer := s.inBuffer ++ (data.drop (s.lenfieldBlocksize + s.etmPacketOffset)).take
        (s.inPacketLen.1 + 4 - (s.lenfieldBlocksize + s.etmPacketOffset)) } := by
  unfold Session.decryptPacket
  rw [plain]

theorem currentMacsize_keyed {s : Session κ ρ} {c : Crypto κ} (on : s.crypto = some c) :
    s.currentMacsize = c.hmac.digestLen := by
  unfold Session.currentMacsize
  rw [on]
  rfl

/-- With keys, a packet is decrypted when its MAC is right. -/
theorem decryptPacket_keyed {s s' : Session κ ρ} {c : Crypto κ} (on : s.crypto = some c)
    {data mac clear : List UInt8}
    (isMac : (data.drop (s.inPacketLen.1 + 4)).take c.hmac.digestLen = mac)
    (before : c.etm = true → s.hmacVerify (data.take (s.inPacketLen.1 + 4)) mac = true)
    (decrypts : (if 0 < s.inPacketLen.1 + 4 - (s.lenfieldBlocksize + s.etmPacketOffset) then
        s.decrypt data (s.lenfieldBlocksize + s.etmPacketOffset)
          (s.inPacketLen.1 + 4 - (s.lenfieldBlocksize + s.etmPacketOffset))
      else some (s, [])) = some (s', clear))
    (after : c.etm = false → s'.hmacVerify (s'.inBuffer ++ clear) mac = true) :
    s.decryptPacket data = some { s' with inBuffer := s'.inBuffer ++ clear } := by
  unfold Session.decryptPacket
  rw [on]
  dsimp only
  rw [isMac, if_neg, decrypts]
  · dsimp only
    rw [if_neg]
    intro wrong
    have right := after wrong.1
    exact Bool.false_ne_true (wrong.2.symm.trans right)
  · intro wrong
    rw [before wrong.1] at wrong
    cases wrong.2

/-- The bytes behind the first ones, up to a length. -/
theorem drop_take_of_length {data : List UInt8} {k n : Nat} (all : data.length = k + n) :
    (data.drop k).take n = data.drop k := by
  apply List.take_of_length_le
  rw [List.length_drop]
  omega

/-- A packet sent without keys opens. -/
theorem opens_plain {payload frame : List UInt8} (framed : Framed s payload frame)
    (out : s.crypto = none) (incoming : r.crypto = none) :
    ∃ r₁ r₂, Opens r frame payload r₁ r₂ ∧ r₂.crypto = none := by
  have least := framed.least
  have most := framed.most
  have offset : s.etmPacketOffset = 0 := by
    unfold Sender.etmPacketOffset Sender.etm
    rw [out]
    rfl
  have length := framed.length offset
  have etm : r.etm = false := by
    unfold Session.etm
    rw [incoming]
    rfl
  have start : r.lenfieldBlocksize + r.etmPacketOffset = 8 := by
    unfold Session.lenfieldBlocksize Session.etmPacketOffset
    rw [etm, incoming]
    rfl
  have lenfield : r.lenfieldBlocksize = 8 := by
    unfold Session.lenfieldBlocksize
    rw [etm, incoming]
    rfl
  let r₁ : Session κ ρ := { r with
    inBuffer := frame.take 8
    inPacketLen := ⟨pullBeU32 frame, by omega⟩
    packetState := .sizeread }
  refine ⟨r₁, { r₁ with inBuffer := frame }, ⟨?_, ?_, ?_, ?_, ?_⟩, incoming⟩
  · omega
  · rw [start]
    have decrypts : r.decryptLen (frame.take 8) = (r, frame.take 8, pullBeU32 frame) := by
      unfold Session.decryptLen
      rw [incoming]
      dsimp only
      rw [List.take_take, Nat.min_self, pullBeU32_take (by decide)]
    exact readLength_eq etm decrypts (by omega) (by omega)
  · have packetLen : r₁.inPacketLen.1 = pullBeU32 frame := rfl
    have macsize : r₁.currentMacsize = 0 := congrArg (Option.elim · 0 _) incoming
    rw [packetLen, macsize, Nat.add_zero, length]
  · have whole : frame.take 8 ++ (frame.drop 8).take (pullBeU32 frame + 4 - 8) = frame := by
      rw [drop_take_of_length (by omega), List.take_append_drop]
    have start₁ : r₁.lenfieldBlocksize + r₁.etmPacketOffset = 8 := start
    have packetLen : r₁.inPacketLen.1 = pullBeU32 frame := rfl
    have inBuffer : r₁.inBuffer = frame.take 8 := rfl
    rw [decryptPacket_plain (s := r₁) incoming, start₁, packetLen, inBuffer, whole]
  · unfold Session.payload
    change unpad (if r.etm then frame else frame.drop 4) = _
    rw [etm]
    exact framed.unpads

/-! ## Packets with a MAC -/

section

variable {c : Cipher κ} {hmac : Hmac} {context context' : κ} {payload frame : List UInt8}
  {n m n' m' : Nat} {z z' : Compression}

/-- What the sender works with when the MAC is separate: a multiple of the block size is
encrypted, all of the frame or what is behind its length. -/
theorem sender_block {etm : Bool} (suite : BlockSuite sync c hmac)
    (on : s.crypto = some ⟨c, context, hmac, etm, n, m, z⟩) (framed : Framed s payload frame) :
    s.etmPacketOffset = (if etm then 4 else 0) ∧
      c.blocksize ∣ frame.length - (if etm then 4 else 0) := by
  have offset : s.etmPacketOffset = (if etm then 4 else 0) := by
    unfold Sender.etmPacketOffset Sender.etm
    rw [on]
    rfl
  have blocksize : s.blocksize = c.blocksize := by
    unfold Sender.blocksize
    rw [on]
    rfl
  have lenfield : s.lenfieldBlocksize = 0 := by
    unfold Sender.lenfieldBlocksize
    rw [on]
    exact (ite_eq_left_iff.mpr fun _ => suite.lenfield)
  have blocks := framed.blocks
  rw [Sender.unblocked, lenfield, Nat.zero_add, offset, blocksize] at blocks
  exact ⟨offset, blocks⟩

theorem write_block (suite : BlockSuite sync c hmac)
    (on : s.crypto = some ⟨c, context, hmac, false, n, m, z⟩) (framed : Framed s payload frame) :
    s.write frame = (some ⟨c, (c.encrypt context frame).1, hmac, false, n, m, z⟩,
      (c.encrypt context frame).2 ++ hmac.digest (pushBeU32 s.sendSeq ++ frame)) := by
  rcases sender_block suite on framed with ⟨offset, blocks⟩
  rw [if_neg Bool.false_ne_true] at offset blocks
  unfold Sender.write Sender.encrypt
  rw [on]
  dsimp only
  rw [suite.lenfield, offset, suite.noAeadEncrypt, if_neg]
  · dsimp only
    rw [if_neg Bool.false_ne_true, if_neg Bool.false_ne_true, List.drop_zero,
      List.take_of_length_le]
    exact Nat.le_of_eq (suite.digestLen _)
  · exact not_not_intro (Nat.mod_eq_zero_of_dvd blocks)

theorem write_etm (suite : BlockSuite sync c hmac)
    (on : s.crypto = some ⟨c, context, hmac, true, n, m, z⟩) (framed : Framed s payload frame) :
    s.write frame = (some ⟨c, (c.encrypt context (frame.drop 4)).1, hmac, true, n, m, z⟩,
      pushBeU32 (frame.length - 4) ++ (c.encrypt context (frame.drop 4)).2 ++
        hmac.digest (pushBeU32 s.sendSeq ++ (pushBeU32 (frame.length - 4) ++
          (c.encrypt context (frame.drop 4)).2))) := by
  rcases sender_block suite on framed with ⟨offset, blocks⟩
  rw [if_pos rfl] at offset blocks
  unfold Sender.write Sender.encrypt
  rw [on]
  dsimp only
  rw [suite.lenfield, offset, suite.noAeadEncrypt, if_neg]
  · dsimp only
    rw [if_pos rfl, if_pos rfl, List.take_of_length_le]
    exact Nat.le_of_eq (suite.digestLen _)
  · exact not_not_intro (Nat.mod_eq_zero_of_dvd blocks)

/-- The first block of a packet is decrypted before the others, if there are more. -/
structure InTwo (sync : κ → κ → Prop) (c : Cipher κ) (context context' : κ)
    (frame clear : List UInt8) (context'' : κ) : Prop where
  first : (c.decrypt context' (frame.take c.blocksize)).2 = clear.take c.blocksize
  others : c.blocksize < frame.length →
    c.decrypt (c.decrypt context' (frame.take c.blocksize)).1 (frame.drop c.blocksize) =
      (context'', clear.drop c.blocksize)
  single : frame.length = c.blocksize →
    context'' = (c.decrypt context' (frame.take c.blocksize)).1
  synced : sync context context''

theorem decrypts_inTwo (suite : BlockSuite sync c hmac) (synced : sync context context')
    (blocks : c.blocksize ∣ frame.length) (some : 0 < frame.length) :
    ∃ context'', InTwo sync c (c.encrypt context frame).1 context' (c.encrypt context frame).2
      frame context'' := by
  have length := suite.encryptLen context frame blocks
  have fits : c.blocksize ≤ frame.length := Nat.le_of_dvd some blocks
  rcases suite.decrypts context context' frame synced blocks with ⟨clear, after⟩
  generalize c.encrypt context frame = sent at *
  rcases Nat.lt_or_ge c.blocksize frame.length with more | single
  · have first : (sent.2.take c.blocksize).length = c.blocksize := by
      rw [List.length_take]
      omega
    have aligned : c.blocksize ∣ (sent.2.take c.blocksize).length :=
      ⟨1, first.trans (Nat.mul_one _).symm⟩
    have rest : sent.2.drop c.blocksize ≠ [] := by
      apply List.ne_nil_of_length_pos
      rw [List.length_drop]
      omega
    have both := suite.decryptAppend context' _ _ aligned rest
    rw [List.take_append_drop] at both
    rw [both] at clear after
    have split := List.append_inj (clear.trans (List.take_append_drop c.blocksize frame).symm) (by
      rw [suite.decryptLen _ _ aligned, first, List.length_take]
      omega)
    refine ⟨_, split.1, fun _ => Prod.ext rfl split.2, fun only => ?_, after⟩
    omega
  · have all : sent.2.take c.blocksize = sent.2 := List.take_of_length_le (by omega)
    refine ⟨(c.decrypt context' sent.2).1, ?_, fun more => ?_, fun _ => ?_, after⟩
    · rw [all, clear, List.take_of_length_le single]
    · omega
    · rw [all]

/-- What `ssh_packet_decrypt` gives for a cipher with a separate MAC. -/
theorem decrypt_block (suite : BlockSuite sync c hmac) {etm : Bool}
    (on : r.crypto = some ⟨c, context, hmac, etm, n, m, z⟩) {source : List UInt8} {start size : Nat}
    (some : 0 < size) (blocks : c.blocksize ∣ size) :
    r.decrypt source start size =
      let opened := c.decrypt context ((source.drop start).take size)
      .some ({ r with crypto := .some ⟨c, opened.1, hmac, etm, n, m, z⟩ }, opened.2) := by
  unfold Session.decrypt
  rw [on]
  dsimp only
  rw [suite.noAeadDecrypt, if_neg]
  rintro (none | rest)
  · omega
  · exact rest (Nat.mod_eq_zero_of_dvd blocks)

theorem hmacVerify_block {etm : Bool} (on : r.crypto = some ⟨c, context, hmac, etm, n, m, z⟩)
    (data : List UInt8) :
    r.hmacVerify data (hmac.digest (pushBeU32 r.recvSeq ++ data)) = true := by
  unfold Session.hmacVerify
  rw [on]
  dsimp only
  rw [beq_self_eq_true, Bool.or_true]

/-- A packet with a MAC over its frame opens. -/
theorem opens_block (suite : BlockSuite sync c hmac) (framed : Framed s payload frame)
    (out : s.crypto = some ⟨c, context, hmac, false, n, m, z⟩)
    (incoming : r.crypto = some ⟨c, context', hmac, false, n', m', z'⟩)
    (seq : r.recvSeq = s.sendSeq) (synced : sync context context') :
    ∃ r₁ r₂, Opens r (s.write frame).2 payload r₁ r₂ ∧
      Matches sync (s.write frame).1 r₂.crypto := by
  have least := framed.least
  have most := framed.most
  rcases sender_block suite out framed with ⟨offset, blocks⟩
  rw [if_neg Bool.false_ne_true] at offset blocks
  rw [Nat.sub_zero] at blocks
  have length := framed.length offset
  have fits : c.blocksize ≤ frame.length := Nat.le_of_dvd (by omega) blocks
  have eight := suite.least
  have sealedLength := suite.encryptLen context frame blocks
  have macLength := suite.digestLen (pushBeU32 s.sendSeq ++ frame)
  rcases decrypts_inTwo suite synced blocks (by omega) with ⟨context'', opened⟩
  rw [write_block suite out framed]
  dsimp only
  generalize isMac : hmac.digest (pushBeU32 s.sendSeq ++ frame) = mac at macLength
  generalize isSealed : (c.encrypt context frame).2 = bytes at *
  generalize isContext : (c.encrypt context frame).1 = sent at *
  have start : r.lenfieldBlocksize = c.blocksize ∧ r.etmPacketOffset = 0 ∧ r.etm = false := by
    unfold Session.lenfieldBlocksize Session.etmPacketOffset Session.etm
    rw [incoming]
    exact ⟨if_pos suite.lenfield, rfl, rfl⟩
  have firstBytes : (bytes ++ mac).take c.blocksize = bytes.take c.blocksize :=
    List.take_append_of_le_length (by omega)
  let r₁ : Session κ ρ := { r with
    crypto := some ⟨c, (c.decrypt context' (bytes.take c.blocksize)).1, hmac, false, n', m', z'⟩
    inBuffer := frame.take c.blocksize
    inPacketLen := ⟨pullBeU32 frame, by omega⟩
    packetState := .sizeread }
  let r₂ : Session κ ρ := { r₁ with
    crypto := some ⟨c, context'', hmac, false, n', m', z'⟩
    inBuffer := frame }
  have packetLen : r₁.inPacketLen.1 = pullBeU32 frame := rfl
  refine ⟨r₁, r₂, ⟨?_, ?_, ?_, ?_, ?_⟩, .keyed rfl rfl rfl opened.synced (.block suite false)⟩
  · rw [start.1, start.2.1, List.length_append]
    omega
  · have decrypts : r.decryptLen ((bytes ++ mac).take c.blocksize) =
        ({ r with
            crypto := some
              ⟨c, (c.decrypt context' (bytes.take c.blocksize)).1, hmac, false, n', m', z'⟩ },
          frame.take c.blocksize, pullBeU32 frame) := by
      unfold Session.decryptLen
      rw [incoming]
      dsimp only
      rw [suite.noAeadDecryptLength]
      dsimp only
      rw [decrypt_block suite incoming (by omega) (Nat.dvd_refl _), List.drop_zero, firstBytes,
        List.take_take, Nat.min_self]
      dsimp only
      rw [opened.first, pullBeU32_take (by omega)]
    rw [start.1, start.2.1]
    exact readLength_eq start.2.2 decrypts (by omega) (by omega)
  · have macsize : r₁.currentMacsize = hmac.digestLen := rfl
    rw [packetLen, macsize, List.length_append]
    omega
  · have start₁ : r₁.lenfieldBlocksize + r₁.etmPacketOffset = c.blocksize := by
      change r₁.lenfieldBlocksize + 0 = _
      exact if_pos suite.lenfield
    have isMac₁ : ((bytes ++ mac).drop (r₁.inPacketLen.1 + 4)).take hmac.digestLen = mac := by
      rw [packetLen, length, ← sealedLength, List.drop_left, ← macLength, List.take_length]
    have rest : ((bytes ++ mac).drop c.blocksize).take (frame.length - c.blocksize) =
        bytes.drop c.blocksize := by
      rw [List.drop_append_of_le_length (by omega), List.take_append_of_le_length,
        List.take_of_length_le]
      · rw [List.length_drop]
        omega
      · rw [List.length_drop]
        omega
    have decrypts : (if 0 < r₁.inPacketLen.1 + 4 - (r₁.lenfieldBlocksize + r₁.etmPacketOffset) then
          r₁.decrypt (bytes ++ mac) (r₁.lenfieldBlocksize + r₁.etmPacketOffset)
            (r₁.inPacketLen.1 + 4 - (r₁.lenfieldBlocksize + r₁.etmPacketOffset))
        else some (r₁, [])) =
        some ({ r₁ with crypto := some ⟨c, context'', hmac, false, n', m', z'⟩ },
          frame.drop c.blocksize) := by
      rw [start₁, packetLen, length]
      rcases Nat.lt_or_ge c.blocksize frame.length with more | single
      · rw [if_pos (by omega), decrypt_block suite (r := r₁) rfl (by omega)
          (Nat.dvd_sub blocks (Nat.dvd_refl _)), rest]
        dsimp only
        rw [opened.others (by omega)]
      · have only : bytes.length = c.blocksize := by omega
        rw [if_neg (by omega), opened.single only, List.drop_of_length_le single]
    have whole : frame.take c.blocksize ++ frame.drop c.blocksize = frame :=
      List.take_append_drop ..
    have verified : Session.hmacVerify
        { r₁ with crypto := some ⟨c, context'', hmac, false, n', m', z'⟩ }
        (frame.take c.blocksize ++ frame.drop c.blocksize) mac = true := by
      rw [whole, ← isMac, ← seq]
      exact hmacVerify_block rfl frame
    rw [decryptPacket_keyed (s := r₁) rfl isMac₁ (fun etm => by cases etm) decrypts
      (fun _ => verified)]
    dsimp only
    rw [whole]
  · have etm : r₂.etm = false := rfl
    unfold Session.payload
    rw [etm]
    exact framed.unpads

/-- A packet with a MAC over its encrypted bytes opens. -/
theorem opens_etm (suite : BlockSuite sync c hmac) (framed : Framed s payload frame)
    (out : s.crypto = some ⟨c, context, hmac, true, n, m, z⟩)
    (incoming : r.crypto = some ⟨c, context', hmac, true, n', m', z'⟩) (seq : r.recvSeq = s.sendSeq)
    (synced : sync context context') :
    ∃ r₁ r₂, Opens r (s.write frame).2 payload r₁ r₂ ∧
      Matches sync (s.write frame).1 r₂.crypto := by
  have least := framed.least
  have most := framed.most
  rcases sender_block suite out framed with ⟨offset, blocks⟩
  rw [if_pos rfl] at offset blocks
  have eight := suite.least
  have fits : c.blocksize ≤ frame.length - 4 := Nat.le_of_dvd (by omega) blocks
  have dropped : (frame.drop 4).length = frame.length - 4 := List.length_drop
  rw [← dropped] at blocks
  have sealedLength := suite.encryptLen context (frame.drop 4) blocks
  rcases suite.decrypts context context' (frame.drop 4) synced blocks with ⟨clear, after⟩
  rw [write_etm suite out framed]
  dsimp only
  generalize isMac : hmac.digest (pushBeU32 s.sendSeq ++ (pushBeU32 (frame.length - 4) ++
    (c.encrypt context (frame.drop 4)).2)) = mac
  have macLength : mac.length = hmac.digestLen := by
    rw [← isMac]
    exact suite.digestLen _
  generalize c.encrypt context (frame.drop 4) = sent at *
  have limit : maxPacketLen < 2 ^ 32 := by decide
  have pull : pullBeU32 ((pushBeU32 (frame.length - 4) ++ sent.2 ++ mac).take 4) =
      frame.length - 4 := by
    rw [pullBeU32_take (Nat.le_refl 4), List.append_assoc]
    exact pullBeU32_push (by omega) _
  have start : r.lenfieldBlocksize + r.etmPacketOffset = 4 ∧ r.etm = true := by
    unfold Session.lenfieldBlocksize Session.etmPacketOffset Session.etm
    rw [incoming]
    exact ⟨rfl, rfl⟩
  let r₁ : Session κ ρ := { r with
    inBuffer := []
    inPacketLen := ⟨frame.length - 4, by omega⟩
    packetState := .sizeread }
  let r₂ : Session κ ρ := { r₁ with
    crypto := some ⟨c, (c.decrypt context' sent.2).1, hmac, true, n', m', z'⟩
    inBuffer := frame.drop 4 }
  have packetLen : r₁.inPacketLen.1 + 4 = frame.length := Nat.sub_add_cancel (by omega)
  refine ⟨r₁, r₂, ⟨?_, ?_, ?_, ?_, ?_⟩, .keyed rfl rfl rfl after (.block suite true)⟩
  · rw [start.1, List.length_append, List.length_append, length_pushBeU32]
    omega
  · rw [start.1]
    exact readLength_etm start.2 pull (by omega) (by omega)
  · have macsize : r₁.currentMacsize = hmac.digestLen := currentMacsize_keyed (s := r₁) incoming
    rw [packetLen, macsize, List.length_append, List.length_append, length_pushBeU32]
    omega
  · have start₁ : r₁.lenfieldBlocksize + r₁.etmPacketOffset = 4 := start.1
    have packet : (pushBeU32 (frame.length - 4) ++ sent.2).length = frame.length := by
      rw [List.length_append, length_pushBeU32]
      omega
    have isMac₁ : ((pushBeU32 (frame.length - 4) ++ sent.2 ++ mac).drop (r₁.inPacketLen.1 + 4)).take
        hmac.digestLen = mac := by
      rw [packetLen, ← macLength, List.drop_left' packet, List.take_length]
    have verified : r₁.hmacVerify
        ((pushBeU32 (frame.length - 4) ++ sent.2 ++ mac).take (r₁.inPacketLen.1 + 4)) mac =
          true := by
      rw [packetLen, List.take_left' packet, ← isMac, ← seq]
      exact hmacVerify_block (r := r₁) incoming _
    have body : ((pushBeU32 (frame.length - 4) ++ sent.2 ++ mac).drop 4).take (frame.length - 4) =
        sent.2 := by
      rw [List.append_assoc, List.drop_left' (length_pushBeU32 _), List.take_left' (by omega)]
    have decrypts : (if 0 < r₁.inPacketLen.1 + 4 - (r₁.lenfieldBlocksize + r₁.etmPacketOffset) then
          r₁.decrypt (pushBeU32 (frame.length - 4) ++ sent.2 ++ mac)
            (r₁.lenfieldBlocksize + r₁.etmPacketOffset)
            (r₁.inPacketLen.1 + 4 - (r₁.lenfieldBlocksize + r₁.etmPacketOffset))
        else some (r₁, [])) =
        some ({ r₁ with crypto := some ⟨c, (c.decrypt context' sent.2).1, hmac, true, n', m', z'⟩ },
          frame.drop 4) := by
      rw [start₁, packetLen, if_pos (by omega), decrypt_block suite (r := r₁) incoming (by omega)
        (dropped ▸ blocks), body]
      dsimp only
      rw [clear]
    rw [decryptPacket_keyed (s := r₁) incoming isMac₁ (fun _ => verified) decrypts
      (fun etm => by cases etm)]
    rfl
  · have etm : r₂.etm = true := rfl
    unfold Session.payload
    rw [etm]
    exact framed.unpads

end

/-! ## Packets of a cipher that authenticates -/

section

variable {c : Cipher κ} {hmac : Hmac} {context context' : κ} {payload frame : List UInt8}
  {n m n' m' : Nat} {z z' : Compression}
  {encrypt : κ → Nat → List UInt8 → κ × List UInt8 × List UInt8}
  {decryptLength : κ → Nat → List UInt8 → κ × Option (List UInt8)}
  {decrypt : κ → Nat → List UInt8 → Nat → κ × Option (List UInt8)}

/-- What the sender works with when the cipher authenticates: the length is not among
the blocks. -/
theorem sender_aead (suite : AeadSuite sync c hmac encrypt decryptLength decrypt)
    (on : s.crypto = some ⟨c, context, hmac, false, n, m, z⟩) (framed : Framed s payload frame) :
    s.etmPacketOffset = 0 ∧ c.blocksize ∣ frame.length - 4 := by
  have offset : s.etmPacketOffset = 0 := by
    unfold Sender.etmPacketOffset Sender.etm
    rw [on]
    rfl
  have blocksize : s.blocksize = c.blocksize := by
    unfold Sender.blocksize
    rw [on]
    rfl
  have lenfield : s.lenfieldBlocksize = 4 := by
    unfold Sender.lenfieldBlocksize Sender.etm
    rw [on]
    exact suite.lenfield
  have blocks := framed.blocks
  rw [Sender.unblocked, lenfield, offset, blocksize] at blocks
  exact ⟨offset, blocks⟩

theorem write_aead (suite : AeadSuite sync c hmac encrypt decryptLength decrypt)
    (on : s.crypto = some ⟨c, context, hmac, false, n, m, z⟩) (framed : Framed s payload frame) :
    s.write frame = (some ⟨c, (encrypt context s.sendSeq frame).1, hmac, false, n, m, z⟩,
      (encrypt context s.sendSeq frame).2.1 ++ (encrypt context s.sendSeq frame).2.2) := by
  rcases sender_aead suite on framed with ⟨offset, blocks⟩
  unfold Sender.write Sender.encrypt
  rw [on]
  dsimp only
  rw [suite.lenfield, offset, suite.isEncrypt, if_neg]
  · dsimp only
    rw [List.take_of_length_le]
    exact Nat.le_of_eq (suite.tagLen ..)
  · exact not_not_intro (Nat.mod_eq_zero_of_dvd blocks)

/-- What `ssh_packet_decrypt` gives for a cipher that authenticates. -/
theorem decrypt_aead (suite : AeadSuite sync c hmac encrypt decryptLength decrypt)
    (on : r.crypto = some ⟨c, context, hmac, false, n, m, z⟩) {source : List UInt8}
    {start size : Nat} (some : 0 < size) (blocks : c.blocksize ∣ size) :
    r.decrypt source start size =
      (decrypt context r.recvSeq source size).2.map fun clear =>
        ({ r with
            crypto := .some
              ⟨c, (decrypt context r.recvSeq source size).1, hmac, false, n, m, z⟩ },
          clear) := by
  unfold Session.decrypt
  rw [on]
  dsimp only
  rw [suite.isDecrypt, if_neg]
  rintro (none | rest)
  · omega
  · exact rest (Nat.mod_eq_zero_of_dvd blocks)

/-- A packet with a tag opens. -/
theorem opens_aead (suite : AeadSuite sync c hmac encrypt decryptLength decrypt)
    (framed : Framed s payload frame) (out : s.crypto = some ⟨c, context, hmac, false, n, m, z⟩)
    (incoming : r.crypto = some ⟨c, context', hmac, false, n', m', z'⟩)
    (seq : r.recvSeq = s.sendSeq) (synced : sync context context') :
    ∃ r₁ r₂, Opens r (s.write frame).2 payload r₁ r₂ ∧
      Matches sync (s.write frame).1 r₂.crypto := by
  have least := framed.least
  have most := framed.most
  rcases sender_aead suite out framed with ⟨offset, blocks⟩
  have length := framed.length offset
  have sealedLength := suite.encryptLen context s.sendSeq frame
  have tagLength := suite.tagLen context s.sendSeq frame
  have clearLength := suite.decryptsLength context context' s.sendSeq frame synced (by omega)
  rcases suite.decrypts context context' s.sendSeq frame synced (by omega) with ⟨clear, after⟩
  rw [write_aead suite out framed]
  dsimp only
  generalize encrypt context s.sendSeq frame = sent at *
  rcases sent with ⟨context₁, bytes, tag⟩
  dsimp only at *
  generalize isLength : decryptLength context' s.sendSeq (bytes.take 4) = opened at *
  generalize isClear : decrypt opened.1 s.sendSeq (bytes ++ tag) (frame.length - 4) = rest at *
  have start : r.lenfieldBlocksize = 4 ∧ r.etmPacketOffset = 0 ∧ r.etm = false := by
    unfold Session.lenfieldBlocksize Session.etmPacketOffset Session.etm
    rw [incoming]
    refine ⟨?_, rfl, rfl⟩
    dsimp only [Option.elim]
    rw [suite.lenfield]
    rfl
  let r₁ : Session κ ρ := { r with
    crypto := some ⟨c, opened.1, hmac, false, n', m', z'⟩
    inBuffer := frame.take 4
    inPacketLen := ⟨pullBeU32 frame, by omega⟩
    packetState := .sizeread }
  let r₂ : Session κ ρ := { r₁ with
    crypto := some ⟨c, rest.1, hmac, false, n', m', z'⟩
    inBuffer := frame }
  have packetLen : r₁.inPacketLen.1 = pullBeU32 frame := rfl
  refine ⟨r₁, r₂, ⟨?_, ?_, ?_, ?_, ?_⟩, .keyed rfl rfl rfl after (.aead suite)⟩
  · rw [start.1, start.2.1, List.length_append]
    omega
  · have decrypts : r.decryptLen ((bytes ++ tag).take 4) =
        ({ r with crypto := some ⟨c, opened.1, hmac, false, n', m', z'⟩ }, frame.take 4,
          pullBeU32 frame) := by
      unfold Session.decryptLen
      rw [incoming]
      dsimp only
      rw [suite.isDecryptLength, suite.lenfield]
      dsimp only
      rw [List.take_take, Nat.min_self, List.take_append_of_le_length (by omega), seq, isLength,
        clearLength]
      dsimp only
      rw [pullBeU32_take (Nat.le_refl 4)]
    rw [start.1, start.2.1]
    exact readLength_eq start.2.2 decrypts (by omega) (by omega)
  · have macsize : r₁.currentMacsize = hmac.digestLen := rfl
    rw [packetLen, macsize, List.length_append]
    omega
  · have start₁ : r₁.lenfieldBlocksize + r₁.etmPacketOffset = 4 := by
      change (if c.lenfieldBlocksize = 0 then c.blocksize else c.lenfieldBlocksize) + 0 = 4
      rw [suite.lenfield]
      rfl
    have seq₁ : r₁.recvSeq = s.sendSeq := seq
    have decrypts : (if 0 < r₁.inPacketLen.1 + 4 - (r₁.lenfieldBlocksize + r₁.etmPacketOffset) then
          r₁.decrypt (bytes ++ tag) (r₁.lenfieldBlocksize + r₁.etmPacketOffset)
            (r₁.inPacketLen.1 + 4 - (r₁.lenfieldBlocksize + r₁.etmPacketOffset))
        else some (r₁, [])) =
        some ({ r₁ with crypto := some ⟨c, rest.1, hmac, false, n', m', z'⟩ }, frame.drop 4) := by
      rw [start₁, packetLen, length, if_pos (by omega),
        decrypt_aead suite (r := r₁) rfl (by omega) blocks, seq₁, isClear, clear]
      rfl
    have verified (data mac : List UInt8) : Session.hmacVerify
        { r₁ with crypto := some ⟨c, rest.1, hmac, false, n', m', z'⟩ } data mac = true := by
      unfold Session.hmacVerify
      dsimp only
      rw [suite.isAead, Bool.true_or]
    have whole : frame.take 4 ++ frame.drop 4 = frame := List.take_append_drop ..
    rw [decryptPacket_keyed (s := r₁) rfl rfl (fun etm => by cases etm) decrypts
      (fun _ => verified _ _)]
    dsimp only
    rw [whole]
  · have etm : r₂.etm = false := rfl
    unfold Session.payload
    rw [etm]
    exact framed.unpads

end

/-! ## Every packet -/

/-- Whatever the keys, the reader takes what is written for a payload for that payload,
and the keys stay in sync. -/
theorem sent_opens (matching : Matches sync s.crypto r.crypto) (seq : r.recvSeq = s.sendSeq)
    {payload : List UInt8} (fits : payload.length + 20 ≤ maxPacketLen) (random : Nat → UInt8) :
    ∃ r₁ r₂, Opens r (s.write (s.frame payload random)).2 payload r₁ r₂ ∧
      Matches sync (s.write (s.frame payload random)).1 r₂.crypto := by
  have framed := frame_framed matching.senderSizes fits random
  generalize s.frame payload random = frame at *
  cases out : s.crypto with
  | none =>
      rw [out] at matching
      cases incoming : r.crypto with
      | some c' =>
          rw [incoming] at matching
          cases matching
      | none =>
          rcases opens_plain framed out incoming with ⟨r₁, r₂, opens, plain⟩
          have write : s.write frame = (none, frame) := by
            unfold Sender.write Sender.encrypt
            rw [out]
          rw [write]
          refine ⟨r₁, r₂, opens, ?_⟩
          rw [plain]
          exact .plain
  | some c =>
      rw [out] at matching
      cases incoming : r.crypto with
      | none =>
          rw [incoming] at matching
          cases matching
      | some c' =>
          rw [incoming] at matching
          rcases c with ⟨cipher, context, hmac, etm, packets, blocks, compression⟩
          rcases c' with ⟨cipher', context', hmac', etm', packets', blocks', compression'⟩
          cases matching with
          | keyed sameCipher sameHmac sameEtm synced suite =>
              cases sameCipher
              cases sameHmac
              cases sameEtm
              cases suite with
              | block suite etm =>
                  cases etm with
                  | false => exact opens_block suite framed out incoming seq synced
                  | true => exact opens_etm suite framed out incoming seq synced
              | aead suite => exact opens_aead suite framed out incoming seq synced

/-! ## Compression -/

/-- What went through the streams of the two ends: buffers, and what they were deflated
to. -/
inductive Zlib.Synced (zlib : Zlib) : List (List UInt8) → List (List UInt8) → Prop
  | start : Zlib.Synced zlib [] []
  | buffer {plain packed : List (List UInt8)} {buf dest : List UInt8}
    (synced : Zlib.Synced zlib plain packed) (deflates : zlib.deflate plain buf = some dest) :
    Zlib.Synced zlib (plain ++ [buf]) (packed ++ [dest])

/-- What is asked of zlib: something is deflated to something, and inflated to what it
was. -/
structure Zlib.Lossless (zlib : Zlib) : Prop where
  packs : ∀ plain packed buf dest, zlib.Synced plain packed → buf ≠ [] →
    zlib.deflate plain buf = some dest → dest ≠ []
  inflates : ∀ plain packed buf dest, zlib.Synced plain packed → buf ≠ [] →
    zlib.deflate plain buf = some dest → zlib.inflate packed dest = some buf

/-- The compressions of the two ends of a direction. -/
structure Compression.Matches (out incoming : Compression) : Prop where
  zlib : incoming.zlib = out.zlib
  doCompress : incoming.doCompress = out.doCompress
  synced : out.zlib.Synced out.stream incoming.stream
  lossless : out.zlib.Lossless

/-- What one end compresses the other decompresses, and their streams stay in sync. -/
theorem compressBuffer_inflates {c c₁ c' : Crypto κ} {payload packed : List UInt8}
    (compressions : c.compression.Matches c'.compression)
    (short : payload.length ≤ maxPacketLen) (packs : c.compressBuffer payload = some (c₁, packed)) :
    ∃ z z', c₁ = { c with compression := z } ∧
      c'.decompressBuffer packed = some ({ c' with compression := z' }, payload) ∧
      z.Matches z' := by
  have lossless := compressions.lossless
  unfold Crypto.compressBuffer at packs
  split at packs
  · rename_i compresses
    rcases Option.map_eq_some_iff.mp packs with ⟨dest, deflates, is⟩
    cases is
    have some := lossless.packs _ _ _ _ compressions.synced compresses.2 deflates
    have inflates := lossless.inflates _ _ _ _ compressions.synced compresses.2 deflates
    refine ⟨_, c'.compression.through packed, rfl, ?_, ?_⟩
    · unfold Crypto.decompressBuffer
      rw [compressions.doCompress, compressions.zlib, if_pos ⟨compresses.1, some⟩, inflates]
      dsimp only
      rw [if_neg (Nat.not_lt.mpr short)]
    · exact ⟨compressions.zlib, compressions.doCompress, .buffer compressions.synced deflates,
        lossless⟩
  · rename_i keeps
    cases packs
    refine ⟨c.compression, c'.compression, rfl, ?_, compressions⟩
    unfold Crypto.decompressBuffer
    rw [compressions.doCompress, if_neg keeps]

end WindTerm.Libssh

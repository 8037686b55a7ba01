import Mathlib.Algebra.Group.Nat.Defs
import WindTerm.Library.Incremental
import WindTerm.Libssh.Buffer

/-!
# The packets of libssh

`packet.c`, `packet_crypt.c` and `gzip.c`: how a packet is compressed, framed, encrypted
and sent (`packet_send2`), and how the bytes of the socket become packets again
(`ssh_packet_socket_callback`, called by `ssh_socket_pollcallback`). Ciphers, MACs and
zlib are parameters, as their functions come from other libraries, and so is what the
rest of the session does with a packet. There is always memory.
-/

namespace WindTerm.Libssh

/-- `MAX_PACKET_LEN`. -/
def maxPacketLen : Nat := 262144

/-- `DIGEST_MAX_LEN`. -/
def digestMaxLen : Nat := 64

/-- `MAX_BUF_SIZE`. -/
def maxBufSize : Nat := 4096

/-- `SSH2_MSG_NEWKEYS`. -/
def msgNewkeys : UInt8 := 21

/-- `PUSH_BE_U32`. -/
def pushBeU32 (n : Nat) : List UInt8 :=
  [.ofNat (n / 2 ^ 24), .ofNat (n / 2 ^ 16), .ofNat (n / 2 ^ 8), .ofNat n]

/-- `PULL_BE_U32` at offset 0, or `ntohl` of the first bytes. -/
def pullBeU32 (data : List UInt8) : Nat :=
  ((data.getD 0 0).toNat * 2 ^ 24 + (data.getD 1 0).toNat * 2 ^ 16) +
    ((data.getD 2 0).toNat * 2 ^ 8 + (data.getD 3 0).toNat)

/-- The functions and sizes of a `struct ssh_cipher_struct`; `κ` is what the functions
keep: keys, vectors, counters. The functions of AEAD ciphers take a sequence number; those
that decrypt may fail. -/
structure Cipher (κ : Type) where
  blocksize : Nat
  lenfieldBlocksize : Nat
  encrypt : κ → List UInt8 → κ × List UInt8
  decrypt : κ → List UInt8 → κ × List UInt8
  aeadEncrypt : Option (κ → Nat → List UInt8 → κ × List UInt8 × List UInt8)
  aeadDecryptLength : Option (κ → Nat → List UInt8 → κ × Option (List UInt8))
  aeadDecrypt : Option (κ → Nat → List UInt8 → Nat → κ × Option (List UInt8))
  blocksize_le : blocksize ≤ 16
  lenfieldBlocksize_le : lenfieldBlocksize ≤ 16

/-- A MAC with its key: `hmac_digest_len`, whether the type is `SSH_HMAC_AEAD_POLY1305` or
`_GCM`, and `hmac_init`, `hmac_update` and `hmac_final` together. -/
structure Hmac where
  digestLen : Nat
  isAead : Bool
  digest : List UInt8 → List UInt8
  digestLen_le : digestLen ≤ digestMaxLen

/-- What `deflate` and `inflate` make of a buffer, behind those that went through their
stream before. They may fail. -/
structure Zlib where
  deflate : List (List UInt8) → List UInt8 → Option (List UInt8)
  inflate : List (List UInt8) → List UInt8 → Option (List UInt8)

/-- `do_compress_in` and `compress_in_ctx`, or those of the other direction; the stream is
what went through it. -/
structure Compression where
  zlib : Zlib
  doCompress : Bool
  stream : List (List UInt8)

/-- The stream behind a buffer. -/
def Compression.through (z : Compression) (buf : List UInt8) : Compression :=
  { z with stream := z.stream ++ [buf] }

/-- One direction of a `struct ssh_crypto_struct`; `packets` and `blocks` are the counters
of its cipher. -/
structure Crypto (κ : Type) where
  cipher : Cipher κ
  context : κ
  hmac : Hmac
  etm : Bool
  packets : Nat
  blocks : Nat
  compression : Compression

namespace Crypto

variable {κ : Type} (c : Crypto κ)

/-- `compress_buffer`, when `do_compress_out` is set and there is something to compress. -/
def compressBuffer (buf : List UInt8) : Option (Crypto κ × List UInt8) :=
  if c.compression.doCompress ∧ buf ≠ [] then
    (c.compression.zlib.deflate c.compression.stream buf).map fun dest =>
      ({ c with compression := c.compression.through buf }, dest)
  else some (c, buf)

/-- `decompress_buffer`, when `do_compress_in` is set and there is something to
decompress. It fails over `MAX_PACKET_LEN`. -/
def decompressBuffer (buf : List UInt8) : Option (Crypto κ × List UInt8) :=
  if c.compression.doCompress ∧ buf ≠ [] then
    match c.compression.zlib.inflate c.compression.stream buf with
    | none => none
    | some dest =>
        if maxPacketLen < dest.length then none
        else some ({ c with compression := c.compression.through buf }, dest)
  else some (c, buf)

/-- The counters behind a packet. -/
def count (payloadsize : Nat) : Crypto κ :=
  { c with
    packets := (c.packets + 1) % 2 ^ 32
    blocks := (c.blocks + payloadsize / c.cipher.blocksize) % 2 ^ 64 }

/-- Delayed compression is turned on, or not. -/
def delayedCompress (on : Bool) : Crypto κ :=
  { c with compression :=
      { c.compression with doCompress := c.compression.doCompress || on } }

end Crypto

/-! ## Sending -/

/-- The sending direction of a session. -/
structure Sender (κ : Type) where
  crypto : Option (Crypto κ)
  sendSeq : Nat

/-- What is sent: the payload, the bytes that the random generator gives for padding,
the keys that are negotiated by then, and whether delayed compression is turned on behind
it. -/
structure Outgoing (κ : Type) where
  payload : List UInt8
  random : Nat → UInt8
  nextCrypto : Crypto κ
  delayedCompress : Bool

namespace Sender

variable {κ : Type} (s : Sender κ)

/-- `blocksize` of `packet_send2`. -/
def blocksize : Nat := s.crypto.elim 8 (·.cipher.blocksize)

/-- `etm` of `packet_send2`. -/
def etm : Bool := s.crypto.elim false (·.etm)

/-- `etm_packet_offset`. -/
def etmPacketOffset : Nat := if s.etm then 4 else 0

/-- `lenfield_blocksize` of `packet_send2`. -/
def lenfieldBlocksize : Nat := if s.etm then 0 else s.crypto.elim 0 (·.cipher.lenfieldBlocksize)

/-- `padding_size`. -/
def paddingSize (currentlen : Nat) : Nat :=
  let paddingSize := s.blocksize -
    (s.blocksize - s.lenfieldBlocksize - s.etmPacketOffset + currentlen + 5) % s.blocksize
  if paddingSize < 4 then paddingSize + s.blocksize else paddingSize

/-- The bytes of `padding_data` that are used. -/
def paddingData (paddingSize : Nat) (random : Nat → UInt8) : List UInt8 :=
  (List.range paddingSize).map fun i => if s.crypto.isSome then random i else 0

/-- The packet before it is encrypted. -/
def frame (payload : List UInt8) (random : Nat → UInt8) : List UInt8 :=
  let paddingSize := s.paddingSize payload.length
  let finallen := payload.length + paddingSize + 1 - s.etmPacketOffset
  pushBeU32 finallen ++ [.ofNat paddingSize] ++ payload ++ s.paddingData paddingSize random

/-- `ssh_packet_encrypt`, with the cipher as it is then, the data and the MAC. -/
def encrypt (data : List UInt8) : Option (Crypto κ × List UInt8 × List UInt8) :=
  match s.crypto with
  | none => none
  | some c =>
      let encrypted := data.length - c.cipher.lenfieldBlocksize - s.etmPacketOffset
      if encrypted % c.cipher.blocksize ≠ 0 then none
      else
        match c.cipher.aeadEncrypt with
        | some aeadEncrypt =>
            let r := aeadEncrypt c.context s.sendSeq data
            some ({ c with context := r.1 }, r.2.1, r.2.2)
        | none =>
            let seq := pushBeU32 s.sendSeq
            let r := c.cipher.encrypt c.context (data.drop s.etmPacketOffset)
            let mac :=
              if c.etm then c.hmac.digest (seq ++ (pushBeU32 (data.length - 4) ++ r.2))
              else c.hmac.digest (seq ++ data)
            let out := if c.etm then pushBeU32 (data.length - 4) ++ r.2 else r.2
            some ({ c with context := r.1 }, out, mac)

/-- The end of `packet_send2`: the frame is encrypted, if there are keys, and written to
the socket with its MAC. -/
def write (data : List UInt8) : Option (Crypto κ) × List UInt8 :=
  match s.encrypt data with
  | none => (s.crypto, data)
  | some (c, out, mac) => (some c, out ++ mac.take c.hmac.digestLen)

/-- The payload, compressed if the keys say so. -/
def compress (payload : List UInt8) : Option (Sender κ × List UInt8) :=
  match s.crypto with
  | none => some (s, payload)
  | some c => (c.compressBuffer payload).map fun r => ({ s with crypto := some r.1 }, r.2)

/-- `packet_send2`, with the bytes written to the socket; `none` when it returns
`SSH_ERROR`. -/
def packetSend2 (o : Outgoing κ) : Option (Sender κ × List UInt8) :=
  (s.compress o.payload).map fun (s, payload) =>
    let r := s.write (s.frame payload o.random)
    let crypto :=
      if o.payload.headD 0 = msgNewkeys then some o.nextCrypto
      else r.1.map (Crypto.count · o.payload.length)
    ({ crypto := crypto.map (Crypto.delayedCompress · o.delayedCompress)
       sendSeq := (s.sendSeq + 1) % 2 ^ 32 }, r.2)

/-- Packets sent one after the other. -/
def sendAll : Sender κ → List (Outgoing κ) → Option (Sender κ × List UInt8)
  | s, [] => some (s, [])
  | s, o :: os =>
      match s.packetSend2 o with
      | none => none
      | some (s, bytes) => (sendAll s os).map fun rest => (rest.1, bytes ++ rest.2)

end Sender

/-! ## Receiving -/

/-- A packet without its length and its padding, whose size comes first. -/
def unpad : List UInt8 → Option (List UInt8)
  | [] => none
  | padding :: buffer =>
      if buffer.length < padding.toNat then none
      else some (buffer.take (buffer.length - padding.toNat))

/-- `enum ssh_packet_state_e`. -/
inductive PacketState where
  | init
  | sizeread
  | processing
  deriving DecidableEq, Repr

/-- `enum ssh_packet_filter_result_e`. -/
inductive FilterResult where
  | unknown
  | allowed
  | denied
  deriving DecidableEq, Repr

/-- What the callbacks of a packet leave: the rest of the session, the keys that they
switch the incoming direction to, whether they turn delayed compression on, and whether
they put the session in the error state. -/
structure Processed (κ ρ : Type) where
  rest : ρ
  newkeys : Option (Crypto κ)
  delayedCompress : Bool
  error : Bool

/-- The rest of a session: `ssh_packet_incoming_filter`, `ssh_packet_process` and
`ssh_packet_send_unimplemented` with the number of a packet, `ssh_packet_need_rekey` of an
incoming packet, `ssh_send_rekex` and whether it returns `SSH_OK`, otherwise
`SSH_ERROR`, and of the socket `ssh_socket_is_open` and whether its state is
`SSH_SOCKET_CONNECTED`. -/
structure Handlers (κ ρ : Type) where
  incomingFilter : ρ → UInt8 → FilterResult
  process : ρ → Nat → UInt8 → List UInt8 → Processed κ ρ
  sendUnimplemented : ρ → Nat → ρ
  needRekey : ρ → Option (Crypto κ) → Bool
  sendRekex : ρ → ρ × Bool
  isOpen : ρ → Bool
  connected : ρ → Bool

/-- The receiving direction of a session. `error` is `SSH_SESSION_STATE_ERROR`. -/
structure Session (κ ρ : Type) where
  packetState : PacketState
  inPacketLen : {len : Nat // len ≤ maxPacketLen}
  inBuffer : List UInt8
  recvSeq : Nat
  crypto : Option (Crypto κ)
  error : Bool
  rest : ρ

/-- How the reading of a packet out of `receivedlen` bytes ends: it waits for more, it
fails, or a packet was processed. -/
inductive Reading (κ ρ : Type) (receivedlen : Nat) where
  | waits (session : Session κ ρ)
  | fails (processed : Nat) (fits : processed ≤ receivedlen) (session : Session κ ρ)
  | reads (processed : Nat) (some : 0 < processed) (fits : processed ≤ receivedlen)
      (session : Session κ ρ)

namespace Session

variable {κ ρ : Type} (s : Session κ ρ)

/-- `current_macsize`. -/
def currentMacsize : Nat := s.crypto.elim 0 (·.hmac.digestLen)

/-- `etm`. -/
def etm : Bool := s.crypto.elim false (·.etm)

/-- `etm_packet_offset`. -/
def etmPacketOffset : Nat := if s.etm then 4 else 0

/-- `lenfield_blocksize`. -/
def lenfieldBlocksize : Nat :=
  if s.etm then 0
  else s.crypto.elim 8 fun c =>
    if c.cipher.lenfieldBlocksize = 0 then c.cipher.blocksize else c.cipher.lenfieldBlocksize

/-- `ssh_packet_decrypt`. -/
def decrypt (source : List UInt8) (start encryptedSize : Nat) : Option (Session κ ρ × List UInt8) :=
  match s.crypto with
  | none => none
  | some c =>
      if encryptedSize = 0 ∨ encryptedSize % c.cipher.blocksize ≠ 0 then none
      else
        match c.cipher.aeadDecrypt with
        | some aeadDecrypt =>
            let r := aeadDecrypt c.context s.recvSeq source encryptedSize
            r.2.map fun clear => ({ s with crypto := some { c with context := r.1 } }, clear)
        | none =>
            let r := c.cipher.decrypt c.context ((source.drop start).take encryptedSize)
            some ({ s with crypto := some { c with context := r.1 } }, r.2)

/-- `ssh_packet_decrypt_len`, with what it leaves at the destination. A failure shows as
the length 0. -/
def decryptLen (source : List UInt8) : Session κ ρ × List UInt8 × Nat :=
  match s.crypto with
  | none => (s, source.take 8, pullBeU32 (source.take 8))
  | some c =>
      match c.cipher.aeadDecryptLength with
      | some aeadDecryptLength =>
          let r := aeadDecryptLength c.context s.recvSeq (source.take c.cipher.lenfieldBlocksize)
          let s := { s with crypto := some { c with context := r.1 } }
          match r.2 with
          | some destination => (s, destination, pullBeU32 destination)
          | none => (s, [], 0)
      | none =>
          match s.decrypt source 0 c.cipher.blocksize with
          | some (s, destination) => (s, destination, pullBeU32 destination)
          | none => (s, [], 0)

/-- `ssh_packet_hmac_verify`. -/
def hmacVerify (data mac : List UInt8) : Bool :=
  match s.crypto with
  | none => false
  | some c => c.hmac.isAead || mac == c.hmac.digest (pushBeU32 s.recvSeq ++ data)

/-- The session in the error state. -/
def fail : Session κ ρ := { s with error := true }

/-- `PACKET_STATE_INIT` of `ssh_packet_socket_callback` when enough has arrived: the
length is read, or it is invalid. -/
def readLength (data : List UInt8) : Option (Session κ ρ) :=
  let r :=
    if s.etm then ({ s with inBuffer := [] }, pullBeU32 data)
    else
      let r := s.decryptLen data
      ({ r.1 with inBuffer := r.2.1 }, r.2.2)
  let packetLen := r.2
  let toBeRead : Int :=
    if s.etm then packetLen - s.etmPacketOffset else packetLen - s.lenfieldBlocksize + 4
  if invalid : maxPacketLen < packetLen ∨ toBeRead < 0 then none
  else
    some { r.1 with
      inPacketLen := ⟨packetLen, Nat.le_of_not_lt (not_or.mp invalid).1⟩
      packetState := .sizeread }

/-- `PACKET_STATE_SIZEREAD`: the MAC is checked and the remaining bytes are decrypted
into `in_buffer`. -/
def decryptPacket (data : List UInt8) : Option (Session κ ρ) :=
  let start := s.lenfieldBlocksize + s.etmPacketOffset
  let processed := s.inPacketLen.1 + 4
  let packetRemaining := processed - start
  match s.crypto with
  | none => some { s with inBuffer := s.inBuffer ++ (data.drop start).take packetRemaining }
  | some c =>
      let mac := (data.drop processed).take c.hmac.digestLen
      if c.etm ∧ s.hmacVerify (data.take processed) mac = false then none
      else
        let r := if 0 < packetRemaining then s.decrypt data start packetRemaining else some (s, [])
        match r with
        | none => none
        | some (s, clear) =>
            let s := { s with inBuffer := s.inBuffer ++ clear }
            if c.etm = false ∧ s.hmacVerify s.inBuffer mac = false then none else some s

/-- The payload of the packet in `in_buffer`, if its padding is valid. -/
def payload : Option (List UInt8) := unpad (if s.etm then s.inBuffer else s.inBuffer.drop 4)

/-- The payload, decompressed if the keys say so. -/
def decompress (payload : List UInt8) : Option (Session κ ρ × List UInt8) :=
  match s.crypto with
  | none => some (s, payload)
  | some c => (c.decompressBuffer payload).map fun r => ({ s with crypto := some r.1 }, r.2)

/-- What is done with the payload, unless the filter denies it. -/
def processPayload (h : Handlers κ ρ) (payload : List UInt8) : Session κ ρ × Bool :=
  let type := payload.headD 0
  let seq := s.recvSeq
  let s := { s with
    recvSeq := (s.recvSeq + 1) % 2 ^ 32
    crypto := s.crypto.map (Crypto.count · payload.length)
    packetState := .processing
    inPacketLen := ⟨0, Nat.zero_le _⟩
    inBuffer := payload.tail }
  match h.incomingFilter s.rest type with
  | .denied => (s.fail, false)
  | .unknown => ({ s with packetState := .init, rest := h.sendUnimplemented s.rest seq }, true)
  | .allowed =>
      let p := h.process s.rest seq type payload.tail
      ({ s with
        packetState := .init
        crypto := (p.newkeys.or s.crypto).map (Crypto.delayedCompress · p.delayedCompress)
        error := p.error
        rest := p.rest }, true)

/-- `PACKET_STATE_SIZEREAD` of `ssh_packet_socket_callback`, up to what follows the
callbacks. -/
def readBody (h : Handlers κ ρ) (data : List UInt8) : Reading κ ρ data.length :=
  let toBeRead := s.inPacketLen.1 + 4 + s.currentMacsize
  if enough : toBeRead ≤ data.length then
    match s.decryptPacket (data.take toBeRead) with
    | none => .fails (s.inPacketLen.1 + 4) (by omega) s.fail
    | some s =>
        match s.payload with
        | none => .fails toBeRead enough s.fail
        | some payload =>
            match s.decompress payload with
            | none => .fails toBeRead enough s.fail
            | some (s, payload) =>
                let r := s.processPayload h payload
                if r.2 then .reads toBeRead (by omega) enough r.1
                else .fails toBeRead enough r.1
  else .waits s

/-- `ssh_packet_socket_callback` up to the next packet. -/
def readPacket (h : Handlers κ ρ) (data : List UInt8) : Reading κ ρ data.length :=
  if s.error then .fails 0 (Nat.zero_le _) s
  else
    match s.packetState with
    | .init =>
        let processed := s.lenfieldBlocksize + s.etmPacketOffset
        if enough : processed ≤ data.length then
          match s.readLength (data.take processed) with
          | none => .fails processed enough s.fail
          | some s => s.readBody h data
        else .waits s
    | .sizeread => s.readBody h data
    | .processing => .waits s

/-- The end of `ssh_packet_socket_callback` behind a packet: a rekey is sent when it is
due, and when that fails its result takes the place of the bytes processed. -/
def rekey (h : Handlers κ ρ) (processed : Int) : Int × Session κ ρ :=
  if h.needRekey s.rest s.crypto then
    let rekex := h.sendRekex s.rest
    (if rekex.2 then processed else -1, { s with rest := rekex.1 })
  else (processed, s)

/-- `ssh_packet_socket_callback`, with the number of bytes processed. It goes on with
the bytes that a packet leaves. -/
def socketCallback (h : Handlers κ ρ) (s : Session κ ρ) (data : List UInt8) : Int × Session κ ρ :=
  match s.readPacket h data with
  | .waits s => (0, s)
  | .fails processed _ s => (processed, s)
  | .reads processed _ _ s =>
      if processed < data.length then
        let r := socketCallback h s (data.drop processed)
        r.2.rekey h (processed + r.1)
      else s.rekey h processed
termination_by data.length
decreasing_by
  rw [List.length_drop]
  omega

theorem rekey_le (h : Handlers κ ρ) {processed : Int} {n : Nat} (fits : processed ≤ n) :
    (s.rekey h processed).1 ≤ n := by
  unfold rekey
  split
  · dsimp only
    split
    · exact fits
    · omega
  · exact fits

theorem socketCallback_le (h : Handlers κ ρ) (s : Session κ ρ) (data : List UInt8) :
    (s.socketCallback h data).1 ≤ data.length := by
  induction s, data using socketCallback.induct h with
  | case1 s data s' waits =>
      rw [socketCallback, waits]
      exact Int.natCast_nonneg _
  | case2 s data n fits s' fails =>
      rw [socketCallback, fails]
      exact Int.ofNat_le.mpr fits
  | case3 s data n some fits s' reads more ih =>
      rw [socketCallback, reads]
      dsimp only
      rw [if_pos more]
      apply rekey_le
      rw [List.length_drop] at ih
      omega
  | case4 s data n some fits s' reads last =>
      rw [socketCallback, reads]
      dsimp only
      rw [if_neg last]
      exact rekey_le s' h (Int.ofNat_le.mpr fits)

/-- `ssh_buffer_pass_bytes` of what the callback returns. A negative number is no length
that it finds there. -/
def passRead (inBuffer : SshBuffer) (nread : Int) : SshBuffer :=
  if 0 ≤ nread then (inBuffer.passBytes nread.toNat).1 else inBuffer

/-- What is processed is passed. -/
theorem passRead_bytes {inBuffer : SshBuffer} {nread : Int} (read : 0 ≤ nread)
    (fits : nread ≤ inBuffer.bytes.length) :
    (passRead inBuffer nread).bytes = inBuffer.bytes.drop nread.toNat := by
  unfold passRead
  rw [if_pos read]
  exact (SshBuffer.passBytes_eq (Int.toNat_le.mpr fits)).2

/-- The loop of `ssh_socket_pollcallback` over the socket's `in_buffer`. -/
def callDataCallback (h : Handlers κ ρ) (s : Session κ ρ) (inBuffer : SshBuffer) :
    Session κ ρ × SshBuffer :=
  let r := s.socketCallback h inBuffer.bytes
  let left := passRead inBuffer r.1
  if 0 < r.1 ∧ h.connected r.2.rest then callDataCallback h r.2 left else (r.2, left)
termination_by inBuffer.bytes.length
decreasing_by
  rename_i goesOn
  have fits : r.1 ≤ inBuffer.bytes.length := s.socketCallback_le h inBuffer.bytes
  have some : 0 < r.1 := goesOn.1
  rw [passRead_bytes (Int.le_of_lt some) fits, List.length_drop]
  omega

/-- `ssh_socket_pollcallback` when `buffer` is there to be read from the socket. -/
def pollcallback (h : Handlers κ ρ) (x : Session κ ρ × SshBuffer) (buffer : List UInt8) :
    Session κ ρ × SshBuffer :=
  if h.isOpen x.1.rest ∧ h.connected x.1.rest then
    match x.2.addData buffer with
    | none => (x.1, x.2.shift)
    | some inBuffer => callDataCallback h x.1 inBuffer
  else x

end Session

end WindTerm.Libssh

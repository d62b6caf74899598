import RustyTinc.Runtime.Sptps.Codec

/-!
A session of the SPTPS handshake.

* `exec_sendKexWith`, `exec_sendSig`, `exec_answerKex`, `exec_receiveSig_ok`, `exec_receiveAck`:
  what the parts of the handshake do;
* `receiveDatagram_ok`: the three outcomes of a record that is accepted.
-/

namespace RustyTinc

/-- What a record has brought about. -/
inductive SptpsHandshakeEvent where
  | handshakeComplete
  | applicationRecord (recordType : UInt8) (payload : List UInt8)
deriving DecidableEq

/-- What the random generator gives for a key exchange: a seed and a nonce, or its failure. -/
abbrev Fresh := Except SptpsError (Vector UInt8 32 × Vector UInt8 32)

/-- One end of a session, with the handshake that it is in. -/
structure SptpsHandshakeSession where
  initiator : Bool
  label : List UInt8
  myKey : TincEd25519PrivateKey
  peerKey : TincEd25519PublicKey
  codec : SptpsHandshakeCodec
  state : SptpsHandshakeState
  ecdh : Option SptpsEphemeralKey
  myKex : Option SptpsKex
  hisKex : Option SptpsKex
  pendingKeyMaterial : Option SptpsKeyMaterial
  outbound : List (List UInt8)
  /-- Ghost: the pairs `(my_kex, his_kex)` that `send_sig` has signed; no function reads it. -/
  signed : List (SptpsKex × SptpsKex)

namespace SptpsHandshakeSession

/-- A computation on a session. -/
abbrev SessionM (α : Type) := Stateful SptpsError SptpsHandshakeSession α

/-- `.ok_or(SptpsError::MissingHandshakeState(field))?` -/
def require {α : Type} (field : String) (o : Option α) : SessionM α :=
  .ofExcept (match o with
    | some a => .ok a
    | none => .error (.missingHandshakeState field))

/-- The bytes of a record of the session. -/
def encode (p : Primitives) (recordType : UInt8) (payload : List UInt8) :
    SessionM (List UInt8) :=
  .zoom codec (fun s codec => { s with codec := codec })
    (SptpsHandshakeCodec.encode p recordType payload)

/-- A record of the handshake is sent. -/
def queueHandshake (p : Primitives) (payload : List UInt8) : SessionM Unit := do
  let bytes ← encode p sptpsHandshake payload
  modify fun s => { s with outbound := s.outbound ++ [bytes] }

/-- The signature over both KEX records is sent. -/
def sendSig (p : Primitives) : SessionM Unit := do
  let s ← get
  let myKex ← require "local KEX" s.myKex
  let hisKex ← require "peer KEX" s.hisKex
  let message := sptpsSignatureMessage s.initiator myKex hisKex s.label
  modify fun s => { s with signed := (myKex, hisKex) :: s.signed }
  queueHandshake p (p.sign s.myKey message).toList

/-- A KEX record is sent, unless a handshake is on its way. -/
def sendKexWith (p : Primitives) (ephemeral : SptpsEphemeralKey) (nonce : Vector UInt8 32) :
    SessionM Unit := do
  let s ← get
  if s.myKex.isSome then throw .duplicateKex
  else do
    let kex := SptpsKex.new nonce ephemeral.publicKey
    modify fun s => { s with ecdh := some ephemeral, myKex := some kex }
    queueHandshake p kex.toBytes

/-- The same with a key and a nonce that are drawn. -/
def sendKex (p : Primitives) (fresh : Fresh) : SessionM Unit := do
  let (seed, nonce) ← .ofExcept fresh
  sendKexWith p (p.ephemeralFromSeed seed) nonce

/-- The KEX record of the peer is kept, and answered by a responder. -/
def receiveKex (p : Primitives) (data : List UInt8) : SessionM Unit := do
  let s ← get
  if s.hisKex.isSome then throw .duplicateKex
  else do
    let kex ← .ofExcept (SptpsKex.tryFromSlice data)
    modify fun s => { s with hisKex := some kex }
    if s.initiator then sendSig p else pure ()

/-- The key material of a KEX pair, for the role of the session. -/
def keyMaterial (p : Primitives) (initiator : Bool) (label : List UInt8)
    (sharedSecret : Vector UInt8 32) (myKex hisKex : SptpsKex) : SptpsKeyMaterial :=
  let nonces := if initiator then (myKex.nonce, hisKex.nonce) else (hisKex.nonce, myKex.nonce)
  SptpsKeyMaterial.derive p sharedSecret nonces.1 nonces.2 label

/-- The signature of the peer gives the new keys; a rekey is acknowledged. -/
def receiveSig (p : Primitives) (data : List UInt8) : SessionM Bool := do
  if data.length ≠ ed25519SignatureLen then
    throw (.invalidSignatureLength ed25519SignatureLen data.length)
  else do
    let s ← get
    let hisKex ← require "peer KEX" s.hisKex
    let myKex ← require "local KEX" s.myKex
    let message := sptpsSignatureMessage (!s.initiator) hisKex myKex s.label
    Stateful.ofExcept (p.verify s.peerKey message data)
    let ecdh ← require "ephemeral key" s.ecdh
    let sharedSecret ← .ofExcept (p.computeShared ecdh hisKex.publicKey)
    let material := keyMaterial p s.initiator s.label sharedSecret myKex hisKex
    let secondary := s.codec.outKey.isSome
    (if s.initiator then pure () else sendSig p)
    modify fun s => { s with ecdh := none, myKex := none, hisKex := none }
    (if secondary then do
        queueHandshake p []
        modify fun s => { s with pendingKeyMaterial := some material }
      else pure ())
    let (inKey, outKey) := material.keysForRole s.initiator
    modify fun s => { s with codec := s.codec.setOutKey outKey }
    (if secondary then pure ()
      else modify fun s => { s with codec := s.codec.setInKey inKey })
    return secondary

/-- From now on the peer sends under the new key. -/
def receiveAck (data : List UInt8) : SessionM Unit := do
  let s ← get
  if ¬ data.isEmpty then throw (.unexpectedHandshakeRecord s.state data.length)
  else do
    let material ← require "pending key material" s.pendingKeyMaterial
    modify fun s => { s with
      pendingKeyMaterial := none
      codec := s.codec.setInKey (material.keysForRole s.initiator).1 }

/-- The session waits for something else. -/
def setState (state : SptpsHandshakeState) : SessionM Unit :=
  modify fun s => { s with state := state }

/-- A record of the handshake, which must be the one that is waited for. -/
def receiveHandshake (p : Primitives) (fresh : Fresh) (data : List UInt8) :
    SessionM (List SptpsHandshakeEvent) := do
  let s ← get
  match s.state with
  | .secondaryKex => do
      sendKex p fresh
      receiveKex p data
      setState .sig
      return []
  | .kex => do
      receiveKex p data
      setState .sig
      return []
  | .sig => do
      let secondary ← receiveSig p data
      if secondary then do
        setState .ack
        return []
      else do
        setState .secondaryKex
        return [.handshakeComplete]
  | .ack => do
      receiveAck data
      setState .secondaryKex
      return [.handshakeComplete]

/-! ### Operations -/

/-- A session begins with its KEX record. -/
def start (p : Primitives) (initiator : Bool) (myKey : TincEd25519PrivateKey)
    (peerKey : TincEd25519PublicKey) (label : List UInt8) (codec : SptpsHandshakeCodec)
    (ephemeral : SptpsEphemeralKey) (nonce : Vector UInt8 32) :
    Except SptpsError SptpsHandshakeSession :=
  let s : SptpsHandshakeSession :=
    ⟨initiator, label, myKey, peerKey, codec, .kex, none, none, none, none, [], []⟩
  match (sendKexWith p ephemeral nonce).exec s with
  | (.ok (), s) => .ok s
  | (.error e, _) => .error e

/-- A session over datagrams begins. -/
def startWithEphemeral (p : Primitives) (initiator : Bool) (myKey : TincEd25519PrivateKey)
    (peerKey : TincEd25519PublicKey) (label : List UInt8) (replayWindowBytes : ℕ)
    (ephemeral : SptpsEphemeralKey) (nonce : Vector UInt8 32) :
    Except SptpsError SptpsHandshakeSession :=
  start p initiator myKey peerKey label (.datagram (.new replayWindowBytes)) ephemeral nonce

/-- A session over a stream begins. -/
def startTcpWithEphemeral (p : Primitives) (initiator : Bool) (myKey : TincEd25519PrivateKey)
    (peerKey : TincEd25519PublicKey) (label : List UInt8)
    (ephemeral : SptpsEphemeralKey) (nonce : Vector UInt8 32) :
    Except SptpsError SptpsHandshakeSession :=
  start p initiator myKey peerKey label (.tcp .new) ephemeral nonce

/-- There are keys for both directions. -/
def isEstablished (s : SptpsHandshakeSession) : Bool :=
  s.codec.inKey.isSome && s.codec.outKey.isSome

/-- What the session wants to send is taken out of it. -/
def drainOutbound (s : SptpsHandshakeSession) : List (List UInt8) × SptpsHandshakeSession :=
  (s.outbound, { s with outbound := [] })

/-- The bytes of an application record. -/
def sendRecord (p : Primitives) (recordType : UInt8) (payload : List UInt8) :
    SessionM (List UInt8) :=
  if sptpsHandshake ≤ recordType then throw (.invalidRecordType recordType)
  else encode p recordType payload

/-- Some bytes arrive, which hold one record. -/
def receiveDatagram (p : Primitives) (fresh : Fresh) (datagram : List UInt8) :
    SessionM (List SptpsHandshakeEvent) := do
  let record ← .zoom codec (fun s codec => { s with codec := codec })
    (SptpsHandshakeCodec.decode p datagram)
  if record.recordType = sptpsHandshake then receiveHandshake p fresh record.payload
  else if record.recordType < sptpsHandshake then
    return [.applicationRecord record.recordType record.payload]
  else throw (.invalidRecordType record.recordType)

/-- A rekey begins. -/
def forceKex (p : Primitives) (fresh : Fresh) : SessionM Unit := do
  let s ← get
  if ¬ s.isEstablished ∨ s.state ≠ .secondaryKex then
    throw (.unexpectedHandshakeRecord s.state 0)
  else do
    setState .kex
    sendKex p fresh

/-! ### What the parts of a handshake do -/

section Parts

variable (p : Primitives) (s : SptpsHandshakeSession)

/-- The session after it has queued a handshake record. -/
def queued (payload : List UInt8) : SptpsHandshakeSession :=
  { s with
    codec := s.codec.sent
    outbound := s.outbound ++
      [SptpsHandshakeCodec.sealRecord p s.codec.isTcp s.codec.outKey s.codec.nextOut
        sptpsHandshake payload] }

/-- The session after it has sent its KEX record. -/
def kexSent (ephemeral : SptpsEphemeralKey) (nonce : Vector UInt8 32) : SptpsHandshakeSession :=
  let kex := SptpsKex.new nonce ephemeral.publicKey
  queued p { s with ecdh := some ephemeral, myKex := some kex } kex.toBytes

/-- The session after it has signed its KEX pair. -/
def sigSent (myKex hisKex : SptpsKex) : SptpsHandshakeSession :=
  queued p { s with signed := (myKex, hisKex) :: s.signed }
    (p.sign s.myKey (sptpsSignatureMessage s.initiator myKex hisKex s.label)).toList

/-- The session after it has accepted the signature of its peer. -/
def sigAccepted (myKex hisKex : SptpsKex) (sharedSecret : Vector UInt8 32) :
    SptpsHandshakeSession :=
  let material := keyMaterial p s.initiator s.label sharedSecret myKex hisKex
  let t := if s.initiator then s else s.sigSent p myKex hisKex
  let t := { t with ecdh := none, myKex := none, hisKex := none }
  let keys := material.keysForRole s.initiator
  if s.codec.outKey.isSome then
    let t := { queued p t [] with pendingKeyMaterial := some material }
    { t with codec := t.codec.setOutKey keys.2 }
  else
    { t with codec := (t.codec.setOutKey keys.2).setInKey keys.1 }

section Fields

variable (payload : List UInt8)

/-- Queueing a record leaves the role as it is. -/
@[simp] lemma queued_initiator : (s.queued p payload).initiator = s.initiator := rfl
@[simp] lemma queued_label : (s.queued p payload).label = s.label := rfl
@[simp] lemma queued_myKey : (s.queued p payload).myKey = s.myKey := rfl
@[simp] lemma queued_peerKey : (s.queued p payload).peerKey = s.peerKey := rfl
@[simp] lemma queued_codec : (s.queued p payload).codec = s.codec.sent := rfl
@[simp] lemma queued_state : (s.queued p payload).state = s.state := rfl
@[simp] lemma queued_ecdh : (s.queued p payload).ecdh = s.ecdh := rfl
@[simp] lemma queued_myKex : (s.queued p payload).myKex = s.myKex := rfl
@[simp] lemma queued_hisKex : (s.queued p payload).hisKex = s.hisKex := rfl
@[simp] lemma queued_pendingKeyMaterial :
    (s.queued p payload).pendingKeyMaterial = s.pendingKeyMaterial := rfl
@[simp] lemma queued_signed : (s.queued p payload).signed = s.signed := rfl

end Fields

section Fields

variable (myKex hisKex : SptpsKex) (sharedSecret : Vector UInt8 32)

@[simp] lemma sigAccepted_initiator :
    (s.sigAccepted p myKex hisKex sharedSecret).initiator = s.initiator := by
  simp only [sigAccepted]
  split_ifs <;> rfl

@[simp] lemma sigAccepted_label :
    (s.sigAccepted p myKex hisKex sharedSecret).label = s.label := by
  simp only [sigAccepted]
  split_ifs <;> rfl

@[simp] lemma sigAccepted_myKey :
    (s.sigAccepted p myKex hisKex sharedSecret).myKey = s.myKey := by
  simp only [sigAccepted]
  split_ifs <;> rfl

@[simp] lemma sigAccepted_peerKey :
    (s.sigAccepted p myKex hisKex sharedSecret).peerKey = s.peerKey := by
  simp only [sigAccepted]
  split_ifs <;> rfl

@[simp] lemma sigAccepted_state :
    (s.sigAccepted p myKex hisKex sharedSecret).state = s.state := by
  simp only [sigAccepted]
  split_ifs <;> rfl

@[simp] lemma sigAccepted_myKex : (s.sigAccepted p myKex hisKex sharedSecret).myKex = none := by
  simp only [sigAccepted]
  split_ifs <;> rfl

@[simp] lemma sigAccepted_hisKex : (s.sigAccepted p myKex hisKex sharedSecret).hisKex = none := by
  simp only [sigAccepted]
  split_ifs <;> rfl

@[simp] lemma sigAccepted_isTcp :
    (s.sigAccepted p myKex hisKex sharedSecret).codec.isTcp = s.codec.isTcp := by
  simp only [sigAccepted]
  split_ifs <;> simp [sigSent]

@[simp] lemma sigAccepted_nextIn :
    (s.sigAccepted p myKex hisKex sharedSecret).codec.nextIn = s.codec.nextIn := by
  simp only [sigAccepted]
  split_ifs <;> simp [sigSent]

/-- The records that are queued when a signature is accepted: the responder signs, and a rekey
is acknowledged. -/
lemma sigAccepted_queued :
    (s.sigAccepted p myKex hisKex sharedSecret).outbound =
        (if s.codec.outKey.isSome then queued p (if s.initiator then s else
          s.sigSent p myKex hisKex) [] else if s.initiator then s else
          s.sigSent p myKex hisKex).outbound ∧
      (s.sigAccepted p myKex hisKex sharedSecret).codec.nextOut =
        (if s.codec.outKey.isSome then queued p (if s.initiator then s else
          s.sigSent p myKex hisKex) [] else if s.initiator then s else
          s.sigSent p myKex hisKex).codec.nextOut := by
  simp only [sigAccepted]
  split_ifs <;> simp [sigSent, queued]

lemma sigAccepted_signed : (s.sigAccepted p myKex hisKex sharedSecret).signed =
    if s.initiator then s.signed else (myKex, hisKex) :: s.signed := by
  simp only [sigAccepted]
  split_ifs <;> rfl

lemma sigAccepted_outKey : (s.sigAccepted p myKex hisKex sharedSecret).codec.outKey =
    some ((keyMaterial p s.initiator s.label sharedSecret myKex hisKex).keysForRole
      s.initiator).2 := by
  simp only [sigAccepted]
  split_ifs <;> simp

lemma sigAccepted_inKey : (s.sigAccepted p myKex hisKex sharedSecret).codec.inKey =
    if s.codec.outKey.isSome then s.codec.inKey
    else some ((keyMaterial p s.initiator s.label sharedSecret myKex hisKex).keysForRole
      s.initiator).1 := by
  simp only [sigAccepted]
  split_ifs <;> simp [sigSent]

lemma sigAccepted_pendingKeyMaterial :
    (s.sigAccepted p myKex hisKex sharedSecret).pendingKeyMaterial =
      if s.codec.outKey.isSome then
        some (keyMaterial p s.initiator s.label sharedSecret myKex hisKex)
      else s.pendingKeyMaterial := by
  simp only [sigAccepted]
  split_ifs <;> rfl

end Fields

variable {p s}

lemma exec_queueHandshake {payload : List UInt8} (h : payload.length ≤ 65535) :
    (queueHandshake p payload).exec s = (.ok (), s.queued p payload) := by
  have hencode := SptpsHandshakeCodec.exec_encode (p := p) s.codec sptpsHandshake payload
    ⟨UInt8.le_refl _, fun _ => h⟩
  simp [queueHandshake, encode, Stateful.exec_bind, hencode, queued]

lemma exec_sendKexWith (ephemeral : SptpsEphemeralKey) (nonce : Vector UInt8 32) :
    (sendKexWith p ephemeral nonce).exec s =
      if s.myKex.isSome then (.error .duplicateKex, s) else (.ok (), s.kexSent p ephemeral nonce) := by
  have hlen : (SptpsKex.new nonce ephemeral.publicKey).toBytes.length ≤ 65535 := by
    simp [sptpsKexLen, sptpsKexNonceLen, sptpsKexPubkeyLen]
  simp [sendKexWith, Stateful.exec_bind, exec_queueHandshake hlen, kexSent]

lemma exec_sendSig {myKex hisKex : SptpsKex} (hmy : s.myKex = some myKex)
    (hhis : s.hisKex = some hisKex) :
    (sendSig p).exec s = (.ok (), s.sigSent p myKex hisKex) := by
  have hlen : (p.sign s.myKey
      (sptpsSignatureMessage s.initiator myKex hisKex s.label)).toList.length ≤ 65535 := by
    simp
  simp [sendSig, Stateful.exec_bind, require, hmy, hhis, exec_queueHandshake hlen, sigSent]

/-- A session that lacks one of the KEX records does not sign. -/
lemma exec_sendSig_error (h : s.myKex = none ∨ s.hisKex = none) :
    ∃ e, (sendSig p).exec s = (.error e, s) := by
  cases hmy : s.myKex with
  | none => exact ⟨_, by simp [sendSig, Stateful.exec_bind, require, hmy]; rfl⟩
  | some myKex =>
      have hhis : s.hisKex = none := h.resolve_left (by simp [hmy])
      exact ⟨_, by simp [sendSig, Stateful.exec_bind, require, hmy, hhis]; rfl⟩

lemma exec_receiveKex_ok {data : List UInt8} {hisKex : SptpsKex} (hnew : s.hisKex = none)
    (hdata : SptpsKex.tryFromSlice data = .ok hisKex) :
    (receiveKex p data).exec s =
      if s.initiator then (sendSig p).exec { s with hisKex := some hisKex }
      else (.ok (), { s with hisKex := some hisKex }) := by
  simp [receiveKex, Stateful.exec_bind, hnew, hdata]

/-- A second or malformed KEX record changes nothing. -/
lemma exec_receiveKex_error (data : List UInt8)
    (h : s.hisKex ≠ none ∨ ∀ kex, SptpsKex.tryFromSlice data ≠ .ok kex) :
    ∃ e, (receiveKex p data).exec s = (.error e, s) := by
  cases hhis : s.hisKex with
  | some hisKex => exact ⟨_, by simp [receiveKex, Stateful.exec_bind, hhis]; rfl⟩
  | none =>
      cases hdata : SptpsKex.tryFromSlice data with
      | ok kex => exact absurd hdata (h.resolve_left (not_not.mpr hhis) kex)
      | error e => exact ⟨e, by simp [receiveKex, Stateful.exec_bind, hhis, hdata]⟩

/-- A KEX record is received and answered, as in the two states that wait for one. -/
def answerKex (p : Primitives) (data : List UInt8) : SessionM (List SptpsHandshakeEvent) := do
  receiveKex p data
  setState .sig
  return []

lemma exec_receiveHandshake_kex {fresh : Fresh} {data : List UInt8} (hstate : s.state = .kex) :
    (receiveHandshake p fresh data).exec s = (answerKex p data).exec s := by
  simp [receiveHandshake, answerKex, Stateful.exec_bind, hstate]

lemma exec_receiveHandshake_secondaryKex {fresh : Fresh} {data : List UInt8}
    (hstate : s.state = .secondaryKex) :
    (receiveHandshake p fresh data).exec s =
      (sendKex p fresh >>= fun _ => answerKex p data).exec s := by
  simp [receiveHandshake, answerKex, Stateful.exec_bind, hstate]

lemma exec_receiveHandshake_sig {fresh : Fresh} {data : List UInt8} (hstate : s.state = .sig)
    {secondary : Bool} {t : SptpsHandshakeSession}
    (h : (receiveSig p data).exec s = (.ok secondary, t)) :
    (receiveHandshake p fresh data).exec s =
      if secondary then (.ok [], { t with state := .ack })
      else (.ok [.handshakeComplete], { t with state := .secondaryKex }) := by
  cases secondary <;> simp [receiveHandshake, setState, Stateful.exec_bind, hstate, h]

/-- The session after it has received the KEX record of its peer, with its own one sent. -/
def kexAnswered (p : Primitives) (s : SptpsHandshakeSession) (myKex hisKex : SptpsKex) :
    SptpsHandshakeSession :=
  let t := { s with hisKex := some hisKex }
  { (if s.initiator then t.sigSent p myKex hisKex else t) with state := .sig }

lemma exec_answerKex {data : List UInt8} {myKex hisKex : SptpsKex} (hnew : s.hisKex = none)
    (hmy : s.myKex = some myKex) (hdata : SptpsKex.tryFromSlice data = .ok hisKex) :
    (answerKex p data).exec s = (.ok [], s.kexAnswered p myKex hisKex) := by
  have hkex := exec_receiveKex_ok (p := p) hnew hdata
  rw [exec_sendSig (s := { s with hisKex := some hisKex }) hmy rfl] at hkex
  cases hinit : s.initiator <;>
    simp [answerKex, setState, Stateful.exec_bind, hkex, hinit, kexAnswered]

/-- The conditions under which a signature of the peer is accepted. -/
structure AcceptsSig (p : Primitives) (s : SptpsHandshakeSession) (data : List UInt8)
    (myKex hisKex : SptpsKex) (ecdh : SptpsEphemeralKey) (sharedSecret : Vector UInt8 32) :
    Prop where
  length_eq : data.length = ed25519SignatureLen
  hisKex_eq : s.hisKex = some hisKex
  myKex_eq : s.myKex = some myKex
  verified : p.verify s.peerKey (sptpsSignatureMessage (!s.initiator) hisKex myKex s.label) data =
    .ok ()
  ecdh_eq : s.ecdh = some ecdh
  shared_eq : p.computeShared ecdh hisKex.publicKey = .ok sharedSecret

/-- A signature that meets the conditions is accepted. -/
lemma exec_receiveSig_ok {data : List UInt8} {myKex hisKex : SptpsKex} {ecdh : SptpsEphemeralKey}
    {sharedSecret : Vector UInt8 32} (h : AcceptsSig p s data myKex hisKex ecdh sharedSecret) :
    (receiveSig p data).exec s =
      (.ok s.codec.outKey.isSome, s.sigAccepted p myKex hisKex sharedSecret) := by
  have hack : ∀ t : SptpsHandshakeSession,
      (queueHandshake p []).exec t = (.ok (), t.queued p []) :=
    fun t => exec_queueHandshake (by simp)
  have hsig := exec_sendSig (p := p) h.myKex_eq h.hisKex_eq
  have hverified := h.verified
  cases hinit : s.initiator
  · rw [hinit, Bool.not_false] at hverified
    cases hsecondary : s.codec.outKey.isSome <;>
      simp [receiveSig, Stateful.exec_bind, require, h.length_eq, h.hisKex_eq, h.myKex_eq,
        hverified, h.ecdh_eq, h.shared_eq, hinit, hsecondary, hack, hsig, sigAccepted]
  · rw [hinit, Bool.not_true] at hverified
    cases hsecondary : s.codec.outKey.isSome <;>
      simp [receiveSig, Stateful.exec_bind, require, h.length_eq, h.hisKex_eq, h.myKex_eq,
        hverified, h.ecdh_eq, h.shared_eq, hinit, hsecondary, hack, sigAccepted]

/-- Any other signature changes nothing. -/
lemma exec_receiveSig_error {data : List UInt8}
    (h : ∀ myKex hisKex ecdh sharedSecret, ¬ AcceptsSig p s data myKex hisKex ecdh sharedSecret) :
    ∃ e, (receiveSig p data).exec s = (.error e, s) := by
  by_cases hlen : data.length = ed25519SignatureLen
  · cases hhis : s.hisKex with
    | none => exact ⟨_, by simp [receiveSig, Stateful.exec_bind, require, hlen, hhis]; rfl⟩
    | some hisKex =>
      cases hmy : s.myKex with
      | none => exact ⟨_, by simp [receiveSig, Stateful.exec_bind, require, hlen, hhis, hmy]; rfl⟩
      | some myKex =>
        cases hverify : p.verify s.peerKey
            (sptpsSignatureMessage (!s.initiator) hisKex myKex s.label) data with
        | error e =>
          exact ⟨e, by simp [receiveSig, Stateful.exec_bind, require, hlen, hhis, hmy, hverify]⟩
        | ok _ =>
          cases hecdh : s.ecdh with
          | none =>
            exact ⟨_, by
              simp [receiveSig, Stateful.exec_bind, require, hlen, hhis, hmy, hverify, hecdh]
              rfl⟩
          | some ecdh =>
            cases hshared : p.computeShared ecdh hisKex.publicKey with
            | error e =>
              exact ⟨e, by simp [receiveSig, Stateful.exec_bind, require, hlen, hhis, hmy, hverify,
                hecdh, hshared]⟩
            | ok sharedSecret =>
              exact absurd ⟨hlen, hhis, hmy, hverify, hecdh, hshared⟩ (h _ _ _ _)
  · exact ⟨_, by simp [receiveSig, hlen]; rfl⟩

lemma exec_receiveAck (data : List UInt8) :
    (receiveAck data).exec s =
      if ¬ data.isEmpty then (.error (.unexpectedHandshakeRecord s.state data.length), s)
      else
        match s.pendingKeyMaterial with
        | some material => (.ok (), { s with
            pendingKeyMaterial := none
            codec := s.codec.setInKey (material.keysForRole s.initiator).1 })
        | none => (.error (.missingHandshakeState "pending key material"), s) := by
  cases hdata : data.isEmpty <;> cases hpending : s.pendingKeyMaterial <;>
    simp_all [receiveAck, Stateful.exec_bind, require]

/-- A session that waits for a signature rejects any other record without a change. -/
lemma exec_receiveHandshake_error {fresh : Fresh} {data : List UInt8} (hstate : s.state = .sig)
    (h : ∀ myKex hisKex ecdh sharedSecret, ¬ AcceptsSig p s data myKex hisKex ecdh sharedSecret) :
    ∃ e, (receiveHandshake p fresh data).exec s = (.error e, s) := by
  obtain ⟨e, herror⟩ := exec_receiveSig_error h
  exact ⟨e, by simp [receiveHandshake, Stateful.exec_bind, hstate, herror]⟩

/-- An ACK record is received, as in the state that waits for one. -/
def takeAck (data : List UInt8) : SessionM (List SptpsHandshakeEvent) := do
  receiveAck data
  setState .secondaryKex
  return [.handshakeComplete]

lemma exec_receiveHandshake_ack {fresh : Fresh} {data : List UInt8} (hstate : s.state = .ack) :
    (receiveHandshake p fresh data).exec s = (takeAck data).exec s := by
  simp [receiveHandshake, takeAck, Stateful.exec_bind, hstate]

/-! ### Records that are accepted -/

section Accepted

variable {fresh : Fresh} {events : List SptpsHandshakeEvent} {t : SptpsHandshakeSession}

/-- A handshake record gives at most one event, and there is a key for receiving after it. -/
lemma receiveHandshake_ok {data : List UInt8}
    (h : (receiveHandshake p fresh data).exec s = (.ok events, t)) :
    events = [] ∨ events = [.handshakeComplete] ∧ t.codec.inKey.isSome := by
  cases hstate : s.state with
  | kex =>
      rw [exec_receiveHandshake_kex hstate, answerKex, Stateful.exec_bind_eq_ok] at h
      obtain ⟨_, _, -, hrest⟩ := h
      cases hrest
      exact Or.inl rfl
  | secondaryKex =>
      rw [exec_receiveHandshake_secondaryKex hstate, Stateful.exec_bind_eq_ok] at h
      obtain ⟨_, _, -, hanswer⟩ := h
      rw [answerKex, Stateful.exec_bind_eq_ok] at hanswer
      obtain ⟨_, _, -, hrest⟩ := hanswer
      cases hrest
      exact Or.inl rfl
  | sig =>
      by_cases hacc : ∃ myKex hisKex ecdh sharedSecret,
          AcceptsSig p s data myKex hisKex ecdh sharedSecret
      · obtain ⟨myKex, hisKex, ecdh, sharedSecret, hacc⟩ := hacc
        rw [exec_receiveHandshake_sig hstate (exec_receiveSig_ok hacc)] at h
        split_ifs at h with hsecondary
        · cases h
          exact Or.inl rfl
        · cases h
          refine Or.inr ⟨rfl, ?_⟩
          show (s.sigAccepted p myKex hisKex sharedSecret).codec.inKey.isSome = true
          rw [sigAccepted_inKey, if_neg hsecondary]
          rfl
      · obtain ⟨e, herror⟩ := @exec_receiveHandshake_error p s fresh _ hstate
          fun myKex hisKex ecdh sharedSecret hacc' => hacc ⟨_, _, _, _, hacc'⟩
        rw [herror] at h
        cases h
  | ack =>
      rw [exec_receiveHandshake_ack hstate, takeAck, Stateful.exec_bind_eq_ok] at h
      obtain ⟨_, u, hack, hrest⟩ := h
      cases hrest
      refine Or.inr ⟨rfl, ?_⟩
      show u.codec.inKey.isSome = true
      rw [exec_receiveAck] at hack
      split_ifs at hack
      · split at hack
        · cases hack
          rw [SptpsHandshakeCodec.inKey_setInKey]
          rfl
        · cases hack
      · cases hack

/-- **A record that is accepted** is part of the handshake, or data that only the codec sees. -/
lemma receiveDatagram_ok {datagram : List UInt8}
    (h : (receiveDatagram p fresh datagram).exec s = (.ok events, t)) :
    events = [] ∨ events = [.handshakeComplete] ∧ t.codec.inKey.isSome ∨
      ∃ record codec, (SptpsHandshakeCodec.decode p datagram).exec s.codec = (.ok record, codec) ∧
        record.recordType < sptpsHandshake ∧
        events = [.applicationRecord record.recordType record.payload] ∧
        t = { s with codec := codec } := by
  rw [receiveDatagram, Stateful.exec_bind, Stateful.exec_zoom] at h
  rcases hdecode : (SptpsHandshakeCodec.decode p datagram).exec s.codec with ⟨_ | record, codec⟩
  · rw [hdecode] at h
    cases h
  · rw [hdecode] at h
    simp only [Stateful.exec_ite, Stateful.exec_pure, Stateful.exec_throw] at h
    split_ifs at h with hhandshake hdata
    · exact (receiveHandshake_ok h).imp_right Or.inl
    · cases h
      exact Or.inr (Or.inr ⟨record, codec, rfl, hdata, rfl, rfl⟩)
    · cases h

end Accepted

/-! ### The key for receiving -/

/-- A session that has a key for receiving still has one. -/
def KeepsInKey (s t : SptpsHandshakeSession) : Prop := s.codec.inKey.isSome → t.codec.inKey.isSome

section InKey

lemma KeepsInKey.refl (s : SptpsHandshakeSession) : KeepsInKey s s := fun h => h

lemma KeepsInKey.trans (s t u : SptpsHandshakeSession) (h : KeepsInKey s t) (h' : KeepsInKey t u) :
    KeepsInKey s u := fun hs => h' (h hs)

lemma encode_keepsInKey (recordType : UInt8) (payload : List UInt8) :
    (encode p recordType payload).Moves KeepsInKey := by
  intro s
  rw [encode, Stateful.exec_zoom]
  by_cases hencodable : SptpsHandshakeCodec.Encodable s.codec.isTcp recordType payload
  · rw [SptpsHandshakeCodec.exec_encode _ _ _ hencodable]
    intro h
    rwa [SptpsHandshakeCodec.inKey_sent]
  · obtain ⟨e, herror⟩ := SptpsHandshakeCodec.exec_encode_error (p := p) _ _ _ hencodable
    rw [herror]
    exact .refl s

lemma queueHandshake_keepsInKey (payload : List UInt8) :
    (queueHandshake p payload).Moves KeepsInKey :=
  .bind .trans (encode_keepsInKey _ _) fun _ => .modify fun s => .refl s

lemma sendSig_keepsInKey : (sendSig p).Moves KeepsInKey :=
  .bind .trans (.get .refl) fun _ => .bind .trans (.ofExcept .refl _) fun _ =>
    .bind .trans (.ofExcept .refl _) fun _ => .bind .trans (.modify fun s => .refl s) fun _ =>
      queueHandshake_keepsInKey _

lemma sendKex_keepsInKey (fresh : Fresh) : (sendKex p fresh).Moves KeepsInKey :=
  .bind .trans (.ofExcept .refl _) fun _ => .bind .trans (.get .refl) fun _ =>
    .ite (fun _ => .throw .refl _) fun _ => .bind .trans (.modify fun s => .refl s) fun _ =>
      queueHandshake_keepsInKey _

lemma answerKex_keepsInKey (data : List UInt8) : (answerKex p data).Moves KeepsInKey := by
  have hreceive : (receiveKex p data).Moves KeepsInKey :=
    .bind .trans (.get .refl) fun _ => .ite (fun _ => .throw .refl _) fun _ =>
      .bind .trans (.ofExcept .refl _) fun _ => .bind .trans (.modify fun s => .refl s) fun _ =>
        .ite (fun _ => sendSig_keepsInKey) fun _ => .pure .refl _
  exact .bind .trans hreceive fun _ => .bind .trans (.modify fun s => .refl s) fun _ =>
    .pure .refl _

/-- A handshake record changes the incoming key only when the exchange ends. -/
lemma receiveHandshake_keepsInKey (fresh : Fresh) (data : List UInt8) :
    (receiveHandshake p fresh data).Moves KeepsInKey := by
  intro s
  cases hstate : s.state with
  | kex =>
      rw [exec_receiveHandshake_kex hstate]
      exact answerKex_keepsInKey data s
  | secondaryKex =>
      rw [exec_receiveHandshake_secondaryKex hstate]
      exact Stateful.Moves.bind .trans (sendKex_keepsInKey fresh)
        (fun _ => answerKex_keepsInKey data) s
  | sig =>
      by_cases hacc : ∃ myKex hisKex ecdh sharedSecret,
          AcceptsSig p s data myKex hisKex ecdh sharedSecret
      · obtain ⟨myKex, hisKex, ecdh, sharedSecret, hacc⟩ := hacc
        have hkeeps : KeepsInKey s (s.sigAccepted p myKex hisKex sharedSecret) := by
          intro h
          rw [sigAccepted_inKey]
          split_ifs
          · exact h
          · rfl
        rw [exec_receiveHandshake_sig hstate (exec_receiveSig_ok hacc)]
        split_ifs
        · exact hkeeps
        · exact hkeeps
      · obtain ⟨e, herror⟩ := @exec_receiveHandshake_error p s fresh _ hstate
          fun myKex hisKex ecdh sharedSecret hacc' => hacc ⟨_, _, _, _, hacc'⟩
        rw [herror]
        exact .refl s
  | ack =>
      have hack : (receiveAck data).Moves KeepsInKey :=
        .bind .trans (.get .refl) fun _ => .ite (fun _ => .throw .refl _) fun _ =>
          .bind .trans (.ofExcept .refl _) fun _ => .modify fun s _ => by
            rw [SptpsHandshakeCodec.inKey_setInKey]
            rfl
      have hset : (setState .secondaryKex).Moves KeepsInKey := .modify fun s h => h
      rw [exec_receiveHandshake_ack hstate]
      exact Stateful.Moves.bind .trans hack
        (fun _ => .bind .trans hset fun _ => .pure .refl _) s

lemma receiveDatagram_keepsInKey (fresh : Fresh) (datagram : List UInt8) :
    (receiveDatagram p fresh datagram).Moves KeepsInKey := by
  have hdecode : Stateful.Moves KeepsInKey (.zoom codec (fun s codec => { s with codec := codec })
      (SptpsHandshakeCodec.decode p datagram) : SessionM SptpsRecord) := by
    intro s h
    rw [Stateful.exec_zoom]
    rwa [← (SptpsHandshakeCodec.exec_decode_keys (p := p) s.codec datagram).1] at h
  exact .bind .trans hdecode fun record => .ite (fun _ => receiveHandshake_keepsInKey fresh _)
    fun _ => .ite (fun _ => .pure .refl _) fun _ => .throw .refl _

lemma sendRecord_keepsInKey (recordType : UInt8) (payload : List UInt8) :
    (sendRecord p recordType payload).Moves KeepsInKey :=
  .ite (fun _ => .throw .refl _) fun _ => encode_keepsInKey _ _

end InKey

end Parts

end SptpsHandshakeSession

end RustyTinc

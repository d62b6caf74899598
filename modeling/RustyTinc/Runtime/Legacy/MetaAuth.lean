import RustyTinc.Runtime.Legacy.MetaCrypto
import RustyTinc.Runtime.Meta.Stream

/-!
The authentication of a legacy meta connection: the ID and METAKEY lines, a challenge in each
direction, and the ACK line.

* `receiveMetaMessage_withInCipher`: only a METAKEY line has to do with the inbound cipher;
* `receiveMetaMessage_keyed`: the inbound cipher is set exactly once a METAKEY line was accepted.
-/

namespace RustyTinc

/-- The minor version of the legacy protocol. -/
def legacyMetaProtocolMinor : ℤ := 0
/-- The minor version of a peer that may be told an Ed25519 key. -/
def legacyMetaUpgradeProtocolMinor : ℤ := 1

/-- What a connection of the legacy protocol waits for. -/
inductive LegacyMetaAuthState where
  | expectId
  | expectMetaKey
  | expectChallenge
  | expectChallengeReply
  | expectAck
  | upgradeTerminating
  | activated
deriving DecidableEq

/-- The request that a connection waits for. -/
def LegacyMetaAuthState.expectedRequest : LegacyMetaAuthState → Option Request
  | expectId => some .id
  | expectMetaKey => some .metaKey
  | expectChallenge => some .challenge
  | expectChallengeReply => some .challengeReply
  | expectAck => some .ack
  | upgradeTerminating => some .terminateRequest
  | activated => none

/-- Whether a METAKEY line was accepted. -/
def LegacyMetaAuthState.isKeyed : LegacyMetaAuthState → Bool
  | expectId | expectMetaKey => false
  | _ => true

/-- Why the authentication fails. -/
inductive LegacyMetaAuthError where
  | invalidPeerName (name : String)
  | selfConnection (name : String)
  | incompatibleProtocol (expected actual : ℤ)
  | unsupportedProtocolMinor (minor : ℤ)
  | unexpectedMessage (expected : Option Request) (actual : Request)
  | unexpectedAckShape
  | missingPeer
  | missingOutCipher
  | missingInCipher
  | missingInDigest
  | missingSentChallenge
  | missingReceivedChallenge
  | missingUpgradePublicKey
  | invalidChallengeLength (expected actual : ℕ)
  | crypto (error : LegacyMetaError)
deriving DecidableEq

/-- A message to send, and whether it is sent under the session key. -/
structure LegacyMetaOutboundMessage where
  message : MetaMessage
  encrypted : Bool

/-- What the authentication has come to. -/
inductive LegacyMetaAuthEvent where
  | activated (peer port : String) (weight : ℤ) (options : UInt32)
  | legacyEd25519Upgrade (peer publicKey : String)

/-- What a message has led to. -/
structure LegacyMetaAuthStep where
  outbound : List LegacyMetaOutboundMessage
  events : List LegacyMetaAuthEvent

/-- The authentication of a connection with the legacy protocol. -/
structure LegacyMetaAuth where
  myself : String
  peer : Option String
  outgoing : Bool
  privateKey : LegacyMetaPrivateKey
  peerPublicKey : RsaPublicKey
  localPort : String
  localWeight : ℤ
  localOptions : UInt32
  localProtocolMinor : ℤ
  negotiatedProtocolMinor : ℤ
  forceProtocolMinorZero : Bool
  localUpgradePublicKey : Option String
  localCipherAlgorithm : LegacyMetaCipherAlgorithm
  localMacLength : ℤ
  outDigest : LegacyMetaDigest
  inDigest : Option LegacyMetaDigest
  outCipher : Option LegacyMetaCipher
  inCipher : Option LegacyMetaCipher
  sentChallenge : Option (List UInt8)
  receivedChallenge : Option (List UInt8)
  state : LegacyMetaAuthState
  /-- Ghost: the bytes that the random generator gives each time that it is asked from now on. -/
  entropy : ℕ → ℕ → UInt8

/-- The name of a peer and its protocol are acceptable. -/
def validateLegacyPeerId (myself : String) (message : IdMessage) :
    Except LegacyMetaAuthError Unit :=
  if ¬ checkId message.name then .error (.invalidPeerName message.name)
  else if message.name = myself then .error (.selfConnection message.name)
  else .ok ()

namespace LegacyMetaAuth

/-- A connection on which nothing has been sent. -/
def new (myself : String) (outgoing : Bool) (privateKey : LegacyMetaPrivateKey)
    (peerPublicKey : RsaPublicKey) (localPort : String) (localWeight : ℤ) (localOptions : UInt32)
    (entropy : ℕ → ℕ → UInt8) : LegacyMetaAuth :=
  { myself, peer := none, outgoing, privateKey, peerPublicKey, localPort, localWeight, localOptions
    localProtocolMinor := legacyMetaProtocolMinor
    negotiatedProtocolMinor := legacyMetaProtocolMinor
    forceProtocolMinorZero := false
    localUpgradePublicKey := none
    localCipherAlgorithm := .aes256Cfb
    localMacLength := legacyMetaDefaultMacLength
    outDigest := .sha256 32
    inDigest := none, outCipher := none, inCipher := none
    sentChallenge := none, receivedChallenge := none
    state := .expectId
    entropy }

/-- What arrives is encrypted. -/
def inboundEncrypted (auth : LegacyMetaAuth) : Bool := auth.inCipher.isSome

/-- The ID line of this node. -/
def localIdMessage (auth : LegacyMetaAuth) : MetaMessage :=
  .id ⟨auth.myself, protMajor, some auth.localProtocolMinor⟩

/-! ### Operations -/

/-- A computation on the authentication of a connection. -/
abbrev AuthM (α : Type) := Stateful LegacyMetaAuthError LegacyMetaAuth α

/-- The given number of bytes from the random generator. -/
def fillRandom (length : ℕ) : AuthM (List UInt8) :=
  .ofFn fun auth =>
    (.ok ((List.range length).map (auth.entropy 0)),
      { auth with entropy := fun n => auth.entropy (n + 1) })

/-- Bytes are encrypted before they are sent. -/
def encryptOutbound (p : LegacyMetaPrimitives) (plaintext : List UInt8) : AuthM (List UInt8) :=
  .ofFn fun auth =>
    match auth.outCipher with
    | none => (.error .missingOutCipher, auth)
    | some cipher =>
        match cipher.applyEncrypt p plaintext with
        | .error e => (.error (.crypto e), auth)
        | .ok (ciphertext, cipher) => (.ok ciphertext, { auth with outCipher := some cipher })

/-- Bytes that have arrived are decrypted. -/
def decryptInbound (p : LegacyMetaPrimitives) (ciphertext : List UInt8) : AuthM (List UInt8) :=
  .ofFn fun auth =>
    match auth.inCipher with
    | none => (.error .missingInCipher, auth)
    | some cipher =>
        match cipher.applyDecrypt p ciphertext with
        | .error e => (.error (.crypto e), auth)
        | .ok (plaintext, cipher) => (.ok plaintext, { auth with inCipher := some cipher })

/-- A request other than the expected one is refused. -/
def ensureExpected (actual : Request) : AuthM Unit := do
  let auth ← get
  if auth.state.expectedRequest = some actual then pure ()
  else throw (.unexpectedMessage auth.state.expectedRequest actual)

/-- A new key, encrypted for the peer, under which this side sends from now on. -/
def sendMetakey : AuthM LegacyMetaOutboundMessage := do
  let auth ← get
  let random ← fillRandom (rsaSize auth.peerPublicKey)
  let key := legacyMetaGenerateRsaKeyMaterial random
  let cipher ← .ofExcept ((LegacyMetaCipher.fromRsaKeyMaterial auth.localCipherAlgorithm
    key).mapError .crypto)
  modify fun auth => { auth with outCipher := some cipher }
  let encryptedKey ← .ofExcept ((legacyMetaPublicEncrypt auth.peerPublicKey key).mapError .crypto)
  return ⟨.metaKey ⟨auth.localCipherAlgorithm.nid, auth.outDigest.nid, auth.localMacLength,
    legacyMetaCompressNone, binToHex encryptedKey⟩, false⟩

/-- A new challenge for the peer. -/
def sendChallenge : AuthM LegacyMetaOutboundMessage := do
  let auth ← get
  let challenge ← fillRandom (rsaSize auth.peerPublicKey)
  modify fun auth => { auth with sentChallenge := some challenge }
  return ⟨.challenge ⟨binToHex challenge⟩, true⟩

/-- The digest of the challenge of the peer. -/
def sendChallengeReply (p : LegacyMetaPrimitives) : AuthM LegacyMetaOutboundMessage := do
  let auth ← get
  let challenge ← .ofExcept ((auth.receivedChallenge.map Except.ok).getD
    (.error .missingReceivedChallenge))
  modify fun auth => { auth with receivedChallenge := none }
  let digest ← .ofExcept ((auth.inDigest.map Except.ok).getD (.error .missingInDigest))
  return ⟨.challengeReply ⟨digest.createHex p challenge⟩, true⟩

/-- The reply to the challenge that was received, where it is the turn of this node. -/
def replyIf (p : LegacyMetaPrimitives) (turn : Bool) : AuthM (List LegacyMetaOutboundMessage) :=
  if turn then do
    let reply ← sendChallengeReply p
    return [reply]
  else pure []

/-- The ACK line; a peer that is to be upgraded is told the Ed25519 key instead. -/
def ackMessage (auth : LegacyMetaAuth) : Except LegacyMetaAuthError MetaMessage :=
  if auth.negotiatedProtocolMinor = legacyMetaUpgradeProtocolMinor then
    match auth.localUpgradePublicKey with
    | none => .error .missingUpgradePublicKey
    | some publicKey => .ok (.ack (.payload publicKey))
  else .ok (.ack (.connection auth.localPort auth.localWeight auth.localOptions))

/-- The minor version that both nodes speak. -/
def negotiateProtocolMinor (auth : LegacyMetaAuth) (message : IdMessage) :
    Except LegacyMetaAuthError ℤ :=
  let remoteMinor :=
    if auth.forceProtocolMinorZero then legacyMetaProtocolMinor else message.protocolMinor.getD 0
  if remoteMinor = legacyMetaProtocolMinor then .ok legacyMetaProtocolMinor
  else if auth.localUpgradePublicKey.isSome then .ok legacyMetaUpgradeProtocolMinor
  else .error (.unsupportedProtocolMinor remoteMinor)

/-- The peer speaks the same major version. -/
def ensureMajor (message : IdMessage) : Except LegacyMetaAuthError Unit :=
  if message.protocolMajor ≠ protMajor then
    .error (.incompatibleProtocol protMajor message.protocolMajor)
  else .ok ()

/-- The peer names itself, and is sent a key. -/
def receiveId (message : IdMessage) : AuthM LegacyMetaAuthStep := do
  ensureExpected .id
  let auth ← get
  Stateful.ofExcept (validateLegacyPeerId auth.myself message)
  Stateful.ofExcept (ensureMajor message)
  let minor ← .ofExcept (auth.negotiateProtocolMinor message)
  modify fun auth => { auth with negotiatedProtocolMinor := minor, peer := some message.name }
  let metakey ← sendMetakey
  modify fun auth => { auth with state := .expectMetaKey }
  return ⟨(if auth.outgoing then [] else [⟨auth.localIdMessage, false⟩]) ++ [metakey], []⟩

/-- The cipher and the digest that a METAKEY line asks for. -/
def inboundCipher (auth : LegacyMetaAuth) (message : MetaKeyMessage) :
    Except LegacyMetaError (LegacyMetaCipher × LegacyMetaDigest) :=
  if message.cipher = 0 then .error (.unsupportedCipher message.cipher)
  else if message.digest = 0 then .error (.unsupportedDigest message.digest)
  else
    match LegacyMetaCipherAlgorithm.fromNid message.cipher,
        LegacyMetaDigest.fromNidAndLength message.digest legacyMetaDigestAlgoSize with
    | none, _ => .error (.unsupportedCipher message.cipher)
    | some _, none => .error (.unsupportedDigest message.digest)
    | some algorithm, some digest => do
        let encryptedKey := hexToBin message.key.toUTF8.toList auth.privateKey.rsaSize
        let key ← auth.privateKey.decryptBlock encryptedKey
        let cipher ← LegacyMetaCipher.fromRsaKeyMaterial algorithm key
        return (cipher, digest)

/-- The peer sends its key, under which it sends from now on. -/
def receiveMetakey (message : MetaKeyMessage) : AuthM LegacyMetaAuthStep := do
  ensureExpected .metaKey
  let auth ← get
  let inbound ← .ofExcept ((auth.inboundCipher message).mapError .crypto)
  modify fun auth => { auth with inCipher := some inbound.1, inDigest := some inbound.2 }
  let challenge ← sendChallenge
  modify fun auth => { auth with state := .expectChallenge }
  return ⟨[challenge], []⟩

/-- The bytes of a challenge, which fills the modulus. -/
def decodeChallenge (auth : LegacyMetaAuth) (message : ChallengeMessage) :
    Except LegacyMetaAuthError (List UInt8) :=
  let length := auth.privateKey.rsaSize
  let actual := message.data.utf8ByteSize
  if actual ≠ length * 2 then .error (.invalidChallengeLength (length * 2) actual)
  else
    let challenge := hexToBin message.data.toUTF8.toList length
    if challenge.length ≠ length then .error (.invalidChallengeLength (length * 2) actual)
    else .ok challenge

/-- The peer sends a challenge, which is answered. -/
def receiveChallenge (p : LegacyMetaPrimitives) (message : ChallengeMessage) :
    AuthM LegacyMetaAuthStep := do
  ensureExpected .challenge
  let auth ← get
  let challenge ← .ofExcept (auth.decodeChallenge message)
  modify fun auth => { auth with receivedChallenge := some challenge }
  let outbound ← replyIf p auth.outgoing
  modify fun auth => { auth with state := .expectChallengeReply }
  return ⟨outbound, []⟩

/-- The peer answers the challenge; the answer must be right. -/
def receiveChallengeReply (p : LegacyMetaPrimitives) (message : ChallengeReplyMessage) :
    AuthM LegacyMetaAuthStep := do
  ensureExpected .challengeReply
  let auth ← get
  let challenge ← .ofExcept ((auth.sentChallenge.map Except.ok).getD (.error .missingSentChallenge))
  modify fun auth => { auth with sentChallenge := none }
  Stateful.ofExcept ((auth.outDigest.verifyHex p challenge message.digest).mapError .crypto)
  let outbound ← replyIf p !auth.outgoing
  let ack ← .ofExcept auth.ackMessage
  modify fun auth => { auth with state := .expectAck }
  return ⟨outbound ++ [⟨ack, true⟩], []⟩

/-- What an ACK line of the peer leads to: a step and the next state. -/
def answerAck (auth : LegacyMetaAuth) (message : AckMessage) :
    Except LegacyMetaAuthError (LegacyMetaAuthStep × LegacyMetaAuthState) :=
  if auth.negotiatedProtocolMinor = legacyMetaUpgradeProtocolMinor then
    match message, auth.peer with
    | .payload publicKey, some peer =>
        .ok (⟨[⟨.terminateRequest, true⟩], [.legacyEd25519Upgrade peer publicKey]⟩,
          .upgradeTerminating)
    | .payload _, none => .error .missingPeer
    | _, _ => .error .unexpectedAckShape
  else
    match message, auth.peer with
    | .connection port weight options, some peer =>
        .ok (⟨[], [.activated peer port (negotiatedWeight auth.localWeight weight)
          (negotiatedConnectionOptions auth.localOptions options)]⟩, .activated)
    | .connection .., none => .error .missingPeer
    | _, _ => .error .unexpectedAckShape

/-- The peer sends its ACK line, which activates the connection. -/
def receiveAck (message : AckMessage) : AuthM LegacyMetaAuthStep := do
  ensureExpected .ack
  let auth ← get
  let answer ← .ofExcept (auth.answerAck message)
  modify fun auth => { auth with state := answer.2 }
  return answer.1

/-- The peer ends a connection that was only for the upgrade. -/
def receiveTerminateRequest : AuthM LegacyMetaAuthStep := do
  let auth ← get
  if auth.state = .upgradeTerminating then return ⟨[], []⟩
  else throw (.unexpectedMessage auth.state.expectedRequest .terminateRequest)

/-- A message on a connection that is not activated yet. -/
def receiveMetaMessage (p : LegacyMetaPrimitives) : MetaMessage → AuthM LegacyMetaAuthStep
  | .id message => receiveId message
  | .metaKey message => receiveMetakey message
  | .challenge message => receiveChallenge p message
  | .challengeReply message => receiveChallengeReply p message
  | .ack message => receiveAck message
  | .terminateRequest => receiveTerminateRequest
  | message => do
      let auth ← get
      throw (.unexpectedMessage auth.state.expectedRequest message.request)

/-- The bytes of a message. -/
def encodeOutboundMessage (p : LegacyMetaPrimitives) (message : LegacyMetaOutboundMessage) :
    AuthM (List UInt8) :=
  let line := encodeMetaLine message.message
  if message.encrypted then encryptOutbound p line else pure line

/-! ### The inbound cipher -/

/-- The connection with another cipher for what arrives. -/
def withInCipher (auth : LegacyMetaAuth) (cipher : Option LegacyMetaCipher) : LegacyMetaAuth :=
  { auth with inCipher := cipher }

section Commutes

variable {p : LegacyMetaPrimitives} {cipher : Option LegacyMetaCipher}

lemma ensureExpected_commutes (actual : Request) :
    (ensureExpected actual).Commutes fun auth => auth.withInCipher cipher :=
  .get_bind (fun _ => rfl) fun _ => .ite (.pure _) (.throw _)

lemma encryptOutbound_commutes (plaintext : List UInt8) :
    (encryptOutbound p plaintext).Commutes fun auth => auth.withInCipher cipher := by
  intro auth
  cases hcipher : auth.outCipher with
  | none => simp [encryptOutbound, withInCipher, hcipher]
  | some c =>
      cases hencrypt : c.applyEncrypt p plaintext <;>
        simp [encryptOutbound, withInCipher, hcipher, hencrypt]

lemma encodeOutboundMessage_commutes (message : LegacyMetaOutboundMessage) :
    (encodeOutboundMessage p message).Commutes fun auth => auth.withInCipher cipher :=
  .ite (encryptOutbound_commutes _) (.pure _)

lemma sendMetakey_commutes : sendMetakey.Commutes fun auth => auth.withInCipher cipher :=
  .get_bind (fun _ => rfl) fun _ => .bind (fun _ => rfl) fun _ => .bind (.ofExcept _) fun _ =>
    .bind (.modify fun _ => rfl) fun _ => .bind (.ofExcept _) fun _ => .pure _

lemma sendChallengeReply_commutes :
    (sendChallengeReply p).Commutes fun auth => auth.withInCipher cipher :=
  .get_bind (fun _ => rfl) fun _ => .bind (.ofExcept _) fun _ => .bind (.modify fun _ => rfl)
    fun _ => .bind (.ofExcept _) fun _ => .pure _

lemma replyIf_commutes (turn : Bool) :
    (replyIf p turn).Commutes fun auth => auth.withInCipher cipher :=
  .ite (.bind sendChallengeReply_commutes fun _ => .pure _) (.pure _)

/-- **Only a METAKEY line has to do with the inbound cipher.** -/
lemma receiveMetaMessage_withInCipher (message : MetaMessage) {auth : LegacyMetaAuth}
    (h : auth.state ≠ .expectMetaKey) :
    (receiveMetaMessage p message).exec (auth.withInCipher cipher) =
      (((receiveMetaMessage p message).exec auth).1,
        ((receiveMetaMessage p message).exec auth).2.withInCipher cipher) := by
  have hset : ∀ f : LegacyMetaAuth → LegacyMetaAuth,
      (∀ auth, f (auth.withInCipher cipher) = (f auth).withInCipher cipher) →
        (modify f : AuthM PUnit).Commutes fun auth => auth.withInCipher cipher :=
    fun f hf => .modify hf
  cases message with
  | metaKey message =>
      have hwrong : auth.state.expectedRequest ≠ some .metaKey := by
        intro heq
        cases hstate : auth.state <;> simp_all [LegacyMetaAuthState.expectedRequest]
      have hfails : ∀ auth : LegacyMetaAuth, auth.state.expectedRequest ≠ some .metaKey →
          (receiveMetakey message).exec auth =
            (.error (.unexpectedMessage auth.state.expectedRequest .metaKey), auth) := by
        intro auth hne
        rw [receiveMetakey, Stateful.exec_bind, ensureExpected, Stateful.exec_bind,
          Stateful.exec_get]
        simp only [if_neg hne, Stateful.exec_throw]
      rw [receiveMetaMessage, hfails auth hwrong]
      exact hfails _ hwrong
  | id message =>
      exact Stateful.Commutes.bind (ensureExpected_commutes _)
        (fun _ => .get_bind (fun _ => rfl) fun _ => .bind (.ofExcept _) fun _ =>
          .bind (.ofExcept _) fun _ => .bind (.ofExcept _) fun _ => .bind (hset _ fun _ => rfl)
            fun _ => .bind sendMetakey_commutes fun _ => .bind (hset _ fun _ => rfl)
              fun _ => .pure _) auth
  | challenge message =>
      exact Stateful.Commutes.bind (ensureExpected_commutes _)
        (fun _ => .get_bind (fun _ => rfl) fun _ => .bind (.ofExcept _) fun _ =>
          .bind (hset _ fun _ => rfl) fun _ => .bind (replyIf_commutes _) fun _ =>
            .bind (hset _ fun _ => rfl) fun _ => .pure _) auth
  | challengeReply message =>
      exact Stateful.Commutes.bind (ensureExpected_commutes _)
        (fun _ => .get_bind (fun _ => rfl) fun _ => .bind (.ofExcept _) fun _ =>
          .bind (hset _ fun _ => rfl) fun _ => .bind (.ofExcept _) fun _ =>
            .bind (replyIf_commutes _) fun _ => .bind (.ofExcept _) fun _ =>
              .bind (hset _ fun _ => rfl) fun _ => .pure _) auth
  | ack message =>
      exact Stateful.Commutes.bind (ensureExpected_commutes _)
        (fun _ => .get_bind (fun _ => rfl) fun _ => .bind (.ofExcept _) fun _ =>
          .bind (hset _ fun _ => rfl) fun _ => .pure _) auth
  | terminateRequest =>
      have hcommutes : receiveTerminateRequest.Commutes fun auth => auth.withInCipher cipher :=
        .get_bind (fun _ => rfl) fun _ => .ite (.pure _) (.throw _)
      exact hcommutes auth
  | _ => rfl

end Commutes

/-- The inbound cipher is set exactly once a METAKEY line was accepted. -/
def Keyed (auth : LegacyMetaAuth) : Prop := auth.inboundEncrypted = auth.state.isKeyed

instance (auth : LegacyMetaAuth) : Decidable auth.Keyed := inferInstanceAs (Decidable (_ = _))

/-- The inbound cipher stays, and the state changes at most to one before, or to one after, a
METAKEY line. -/
def Sets (keyed : Bool) (auth auth' : LegacyMetaAuth) : Prop :=
  auth'.inCipher = auth.inCipher ∧ (auth'.state = auth.state ∨ auth'.state.isKeyed = keyed)

section Keyed

variable {p : LegacyMetaPrimitives} {keyed : Bool}

lemma Sets.refl (auth : LegacyMetaAuth) : Sets keyed auth auth := ⟨rfl, Or.inl rfl⟩

lemma Sets.trans (a b c : LegacyMetaAuth) (h : Sets keyed a b) (h' : Sets keyed b c) :
    Sets keyed a c := by
  refine ⟨h'.1.trans h.1, ?_⟩
  rcases h'.2 with hsame | hstate
  · rw [hsame]
    exact h.2
  · exact Or.inr hstate

lemma sets_of_eq {auth auth' : LegacyMetaAuth} (hcipher : auth'.inCipher = auth.inCipher)
    (hstate : auth'.state = auth.state) : Sets keyed auth auth' := ⟨hcipher, Or.inl hstate⟩

lemma sendMetakey_sets : sendMetakey.Moves (Sets keyed) :=
  .bind Sets.trans (.get .refl) fun _ => .bind Sets.trans (fun _ => .refl _) fun _ =>
    .bind Sets.trans (.ofExcept .refl _) fun _ =>
      .bind Sets.trans (.modify fun _ => sets_of_eq rfl rfl) fun _ =>
        .bind Sets.trans (.ofExcept .refl _) fun _ => .pure .refl _

lemma sendChallengeReply_sets : (sendChallengeReply p).Moves (Sets keyed) :=
  .bind Sets.trans (.get .refl) fun _ => .bind Sets.trans (.ofExcept .refl _) fun _ =>
    .bind Sets.trans (.modify fun _ => sets_of_eq rfl rfl) fun _ =>
      .bind Sets.trans (.ofExcept .refl _) fun _ => .pure .refl _

lemma replyIf_sets (turn : Bool) : (replyIf p turn).Moves (Sets keyed) :=
  .ite (fun _ => .bind Sets.trans sendChallengeReply_sets fun _ => .pure .refl _)
    fun _ => .pure .refl _

/-- A line that is accepted in states of one kind, and leads to a state of the same kind. -/
lemma keyed_of_expected (keyed : Bool) {α : Type} {request : Request} {x : Unit → AuthM α}
    (hrequest : ∀ state : LegacyMetaAuthState, state.expectedRequest = some request →
      state.isKeyed = keyed) (hx : (x ()).Moves (Sets keyed)) :
    (ensureExpected request >>= x).Moves fun auth auth' => auth.Keyed → auth'.Keyed := by
  intro auth hauth
  by_cases hexpected : auth.state.expectedRequest = some request
  · have hensure : (ensureExpected request).exec auth = (.ok (), auth) := by
      rw [ensureExpected, Stateful.exec_bind, Stateful.exec_get]
      simp only [if_pos hexpected, Stateful.exec_pure]
    rw [Stateful.exec_bind_ok hensure]
    obtain ⟨hcipher, hstate⟩ := hx auth
    rw [Keyed, inboundEncrypted, hcipher]
    rcases hstate with hsame | hkeyed
    · rwa [hsame]
    · rw [hkeyed, ← hrequest _ hexpected]
      exact hauth
  · have hensure : (ensureExpected request).exec auth =
        (.error (.unexpectedMessage auth.state.expectedRequest request), auth) := by
      rw [ensureExpected, Stateful.exec_bind, Stateful.exec_get]
      simp only [if_neg hexpected, Stateful.exec_throw]
    rwa [Stateful.exec_bind_error hensure]

lemma answerAck_isKeyed {auth : LegacyMetaAuth} {message : AckMessage}
    {answer : LegacyMetaAuthStep × LegacyMetaAuthState} (h : auth.answerAck message = .ok answer) :
    answer.2.isKeyed = true := by
  unfold answerAck at h
  split_ifs at h
  all_goals
    split at h
    · cases h
      rfl
    · cases h
    · cases h

/-- **An ACK line with a weight that is accepted** activates the connection with the negotiated
weight. -/
lemma receiveAck_eq_ok {auth auth' : LegacyMetaAuth} {port : String} {weight : ℤ}
    {options : UInt32} {step : LegacyMetaAuthStep}
    (h : (receiveAck (.connection port weight options)).exec auth = (.ok step, auth')) :
    ∃ peer, auth.peer = some peer ∧
      step = ⟨[], [.activated peer port (negotiatedWeight auth.localWeight weight)
        (negotiatedConnectionOptions auth.localOptions options)]⟩ := by
  rw [receiveAck, Stateful.exec_bind_eq_ok] at h
  obtain ⟨_, s, hexpected, h⟩ := h
  rw [Stateful.exec_bind_eq_ok] at h
  obtain ⟨auth₁, _, hget, h⟩ := h
  rw [Stateful.exec_bind_eq_ok] at h
  obtain ⟨answer, _, hanswer, h⟩ := h
  rw [Stateful.exec_bind_eq_ok] at h
  obtain ⟨_, _, -, h⟩ := h
  rw [ensureExpected, Stateful.exec_bind, Stateful.exec_get] at hexpected
  simp only [Stateful.exec_ite] at hexpected
  split_ifs at hexpected with hstate
  · obtain rfl : auth = s := (Prod.mk.inj hexpected).2
    obtain rfl : auth = auth₁ := Except.ok.inj (Prod.mk.inj hget).1
    have hstep : answer.1 = step := Except.ok.inj (Prod.mk.inj h).1
    have hok : auth.answerAck (.connection port weight options) = .ok answer :=
      (Prod.mk.inj hanswer).1
    unfold answerAck at hok
    split_ifs at hok
    cases hpeer : auth.peer with
    | none =>
        rw [hpeer] at hok
        cases hok
    | some peer =>
        rw [hpeer] at hok
        cases hok
        exact ⟨peer, rfl, hstep.symm⟩
  · cases hexpected

/-- After its key the peer sends encrypted. -/
lemma receiveMetakey_keyed (message : MetaKeyMessage) :
    (receiveMetakey message).Moves fun auth auth' => auth.Keyed → auth'.Keyed := by
  intro auth hauth
  by_cases hexpected : auth.state.expectedRequest = some .metaKey
  · rw [receiveMetakey, ensureExpected, Stateful.exec_bind, Stateful.exec_bind, Stateful.exec_get]
    simp only [if_pos hexpected, Stateful.exec_pure]
    rw [Stateful.exec_bind, Stateful.exec_get]
    simp only
    rw [Stateful.exec_bind, Stateful.exec_ofExcept]
    cases (auth.inboundCipher message).mapError LegacyMetaAuthError.crypto with
    | error e => exact hauth
    | ok inbound => rfl
  · rw [receiveMetakey, ensureExpected, Stateful.exec_bind, Stateful.exec_bind, Stateful.exec_get]
    simp only [if_neg hexpected, Stateful.exec_throw]
    exact hauth

/-- **The inbound cipher is set exactly once a METAKEY line was accepted.** -/
lemma receiveMetaMessage_keyed (message : MetaMessage) :
    (receiveMetaMessage p message).Moves fun auth auth' => auth.Keyed → auth'.Keyed := by
  have hstate : ∀ {state : LegacyMetaAuthState} {request : Request},
      request ≠ .id → request ≠ .metaKey → state.expectedRequest = some request →
        state.isKeyed = true := by
    intro state request hid hmetaKey h
    cases state <;> simp_all [LegacyMetaAuthState.expectedRequest, LegacyMetaAuthState.isKeyed]
  cases message with
  | id message =>
      refine keyed_of_expected false (fun state h => ?_) <|
        .bind Sets.trans (.get .refl) fun _ => .bind Sets.trans (.ofExcept .refl _) fun _ =>
          .bind Sets.trans (.ofExcept .refl _) fun _ => .bind Sets.trans (.ofExcept .refl _) fun _ =>
            .bind Sets.trans (.modify fun _ => sets_of_eq rfl rfl) fun _ =>
              .bind Sets.trans sendMetakey_sets fun _ =>
                .bind Sets.trans (.modify fun _ => ⟨rfl, Or.inr rfl⟩) fun _ => .pure .refl _
      cases state <;> simp_all [LegacyMetaAuthState.expectedRequest, LegacyMetaAuthState.isKeyed]
  | metaKey message => exact receiveMetakey_keyed message
  | challenge message =>
      exact keyed_of_expected true (fun _ => hstate (by decide) (by decide)) <|
        .bind Sets.trans (.get .refl) fun _ => .bind Sets.trans (.ofExcept .refl _) fun _ =>
          .bind Sets.trans (.modify fun _ => sets_of_eq rfl rfl) fun _ =>
            .bind Sets.trans (replyIf_sets _) fun _ =>
              .bind Sets.trans (.modify fun _ => ⟨rfl, Or.inr rfl⟩) fun _ => .pure .refl _
  | challengeReply message =>
      exact keyed_of_expected true (fun _ => hstate (by decide) (by decide)) <|
        .bind Sets.trans (.get .refl) fun _ => .bind Sets.trans (.ofExcept .refl _) fun _ =>
          .bind Sets.trans (.modify fun _ => sets_of_eq rfl rfl) fun _ =>
            .bind Sets.trans (.ofExcept .refl _) fun _ => .bind Sets.trans (replyIf_sets _) fun _ =>
              .bind Sets.trans (.ofExcept .refl _) fun _ =>
                .bind Sets.trans (.modify fun _ => ⟨rfl, Or.inr rfl⟩) fun _ => .pure .refl _
  | ack message =>
      refine keyed_of_expected true (fun _ => hstate (by decide) (by decide)) <|
        .bind Sets.trans (.get .refl) fun auth => ?_
      intro auth'
      rw [Stateful.exec_bind, Stateful.exec_ofExcept]
      cases hanswer : auth.answerAck message with
      | error e => exact .refl auth'
      | ok answer => exact ⟨rfl, Or.inr (answerAck_isKeyed hanswer)⟩
  | terminateRequest =>
      intro auth hauth
      rw [receiveMetaMessage, receiveTerminateRequest, Stateful.exec_bind, Stateful.exec_get]
      simp only [Stateful.exec_ite]
      split_ifs <;> exact hauth
  | _ => exact fun auth hauth => hauth

end Keyed

end LegacyMetaAuth

end RustyTinc

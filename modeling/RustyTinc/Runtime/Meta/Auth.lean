import RustyTinc.Core.MetaText
import RustyTinc.Runtime.Sptps.Handshake

/-!
The authentication of a meta connection: the ID line, the SPTPS handshake and the ACK line.

* `exec_receiveId`, `exec_receiveAck`: what an ID line and an ACK line do, in every case;
* `receiveId_eq_ok`, `receiveAck_eq_ok`: when they are accepted;
* `exec_receiveSptpsRecord`: what a record does, in terms of its session.
-/

namespace RustyTinc

/-- The type of records that hold a line. -/
def sptpsMetaRecord : UInt8 := 0
/-- The bit of the options of an edge that allows the discovery of the MTU. -/
def optionPmtuDiscovery : UInt32 := 0x0004

/-- What a connection waits for. -/
inductive MetaAuthState where
  | expectId
  | handshake
  | expectAck
  | activated
deriving DecidableEq

/-- The request that a connection waits for. -/
def MetaAuthState.expectedRequest : MetaAuthState → Option Request
  | expectId => some .id
  | handshake => some .sptpsPacket
  | expectAck => some .ack
  | activated => none

/-- What the authentication has come to. -/
inductive MetaAuthEvent where
  | sptpsHandshakeComplete (peer : String)
  | activated (peer port : String) (weight : ℤ) (options : UInt32)
  | applicationRecord (recordType : UInt8) (payload : List UInt8)
  | legacyEd25519Upgrade (peer publicKey : String)
deriving DecidableEq

/-- Why the authentication fails. -/
inductive MetaAuthError where
  | invalidPeerName (name : String)
  | selfConnection (name : String)
  | incompatibleProtocol (expected actual : ℤ)
  | unsupportedLegacyProtocol (minor : ℤ)
  | unexpectedMessage (expected : Option Request) (actual : Request)
  | unexpectedRawRecord (state : MetaAuthState)
  | unexpectedAckShape
  | missingPeer
  | missingSession
  | sptps (error : SptpsError)
deriving DecidableEq

/-- What a line or a record has led to: messages to send, bytes to send as they are, events. -/
structure MetaAuthStep where
  outbound : List MetaMessage
  rawOutbound : List (List UInt8)
  events : List MetaAuthEvent

/-- The authentication of a connection, with the session from the ID line on. -/
structure MetaConnectionAuth where
  myself : String
  peer : Option String
  outgoing : Bool
  privateKey : TincEd25519PrivateKey
  peerKey : TincEd25519PublicKey
  localPort : String
  localWeight : ℤ
  localOptions : UInt32
  session : Option SptpsHandshakeSession
  state : MetaAuthState
  bypassSecurity : Bool
  /-- Ghost: what the random generator gives from now on, to the session when it starts and to
  each record that it receives. -/
  entropy : ℕ → Fresh

/-- The label that both sides of a handshake sign: it names both. -/
def sptpsTcpLabel (initiator responder : String) : List UInt8 :=
  ("tinc TCP key expansion " ++ initiator ++ " " ++ responder).toUTF8.data.toList ++ [0]

/-- The options of both sides; the MTU is only discovered when both allow it. -/
def negotiatedConnectionOptions (localOptions remoteOptions : UInt32) : UInt32 :=
  if localOptions &&& remoteOptions &&& optionPmtuDiscovery = 0 then
    (localOptions &&& ~~~optionPmtuDiscovery) ||| (remoteOptions &&& ~~~optionPmtuDiscovery)
  else localOptions ||| remoteOptions

/-- The sum wraps around, as it does where overflow is not checked. -/
def negotiatedWeight (localWeight remoteWeight : ℤ) : ℤ :=
  (Int.bmod (localWeight + remoteWeight) (2 ^ 32)).tdiv 2

/-- The name of a peer and its protocol are acceptable. -/
def validatePeerId (myself : String) (message : IdMessage) : Except MetaAuthError Unit :=
  if ¬ checkId message.name then .error (.invalidPeerName message.name)
  else if message.name = myself then .error (.selfConnection message.name)
  else .ok ()

/-- `SptpsHandshakeSession::start_tcp`, with what the random generator gives. -/
def SptpsHandshakeSession.startTcp (p : Primitives) (initiator : Bool)
    (myKey : TincEd25519PrivateKey) (peerKey : TincEd25519PublicKey) (label : List UInt8)
    (fresh : Fresh) : Except SptpsError SptpsHandshakeSession :=
  match fresh with
  | .error e => .error e
  | .ok (seed, nonce) =>
      startTcpWithEphemeral p initiator myKey peerKey label (p.ephemeralFromSeed seed) nonce

/-! ### The local ID and ACK -/

namespace MetaConnectionAuth

/-- A connection on which nothing has been sent. -/
def new (myself : String) (outgoing : Bool) (privateKey : TincEd25519PrivateKey)
    (peerKey : TincEd25519PublicKey) (localPort : String) (localWeight : ℤ)
    (localOptions : UInt32) (entropy : ℕ → Fresh) : MetaConnectionAuth :=
  { myself, peer := none, outgoing, privateKey, peerKey, localPort, localWeight, localOptions,
    session := none, state := .expectId, bypassSecurity := false, entropy }

/-- The records that arrive are encrypted. -/
def sptpsInEncrypted (auth : MetaConnectionAuth) : Bool :=
  auth.session.any fun session => session.codec.inKey.isSome

/-- The ID line of this node. -/
def localIdMessage (auth : MetaConnectionAuth) : MetaMessage :=
  .id ⟨auth.myself, protMajor, some (if auth.bypassSecurity then 0 else protMinor)⟩

/-- Lines go as they are, because security is switched off. -/
def usesPlaintextMeta (auth : MetaConnectionAuth) : Bool :=
  auth.bypassSecurity && (auth.state = .expectAck || auth.state = .activated)

/-- The ACK line of this node. -/
def ackMessage (auth : MetaConnectionAuth) : MetaMessage :=
  .ack (.connection auth.localPort auth.localWeight auth.localOptions)

/-- The label of the session with a peer that has named itself. -/
def label (auth : MetaConnectionAuth) (peer : String) : List UInt8 :=
  if auth.outgoing then sptpsTcpLabel auth.myself peer else sptpsTcpLabel peer auth.myself

/-! ### Operations -/

/-- A computation on the authentication of a connection. -/
abbrev AuthM (α : Type) := Stateful MetaAuthError MetaConnectionAuth α

/-- A computation on the session, `.ok_or(MetaAuthError::MissingSession)?`. -/
def onSession {α : Type} (x : SptpsHandshakeSession.SessionM α) : AuthM α :=
  .ofFn fun auth =>
    match auth.session with
    | none => (.error .missingSession, auth)
    | some session =>
        ((x.exec session).1.mapError .sptps, { auth with session := some (x.exec session).2 })

/-- `.ok_or(MetaAuthError::MissingPeer)?` -/
def requirePeer : AuthM String :=
  .ofFn fun auth => (match auth.peer with
    | some peer => .ok peer
    | none => .error .missingPeer, auth)

/-- What the random generator gives next. -/
def draw : AuthM Fresh :=
  .ofFn fun auth => (.ok (auth.entropy 0), { auth with entropy := fun n => auth.entropy (n + 1) })

/-- A line in a record. -/
def sendSptpsApplication (p : Primitives) (payload : List UInt8) : AuthM (List UInt8) :=
  onSession (SptpsHandshakeSession.sendRecord p sptpsMetaRecord payload)

/-- The application records among the events of a session. -/
def applicationRecords (events : List SptpsHandshakeEvent) : List MetaAuthEvent :=
  events.filterMap fun
    | .applicationRecord recordType payload => some (.applicationRecord recordType payload)
    | .handshakeComplete => none

/-- A record that has arrived goes to the session. -/
def receiveSptpsRecord (p : Primitives) (record : List UInt8) : AuthM MetaAuthStep := do
  let auth ← get
  if auth.state = .expectId then throw (.unexpectedRawRecord auth.state)
  else do
    let peer ← requirePeer
    let fresh ← draw
    let events ← onSession (SptpsHandshakeSession.receiveDatagram p fresh record)
    let rawOutbound ← onSession (.ofFn fun session =>
      (.ok session.drainOutbound.1, session.drainOutbound.2))
    if .handshakeComplete ∈ events then
      if auth.state = .handshake then do
        modify fun auth => { auth with state := .expectAck }
        return ⟨[auth.ackMessage], rawOutbound,
          .sptpsHandshakeComplete peer :: applicationRecords events⟩
      else return ⟨[], rawOutbound, .sptpsHandshakeComplete peer :: applicationRecords events⟩
    else return ⟨[], rawOutbound, applicationRecords events⟩

/-- The session with a peer that has named itself begins. -/
def startSession (p : Primitives) (message : IdMessage) : AuthM MetaAuthStep := do
  let auth ← get
  let minor := message.protocolMinor.getD 0
  if minor < 2 then throw (.unsupportedLegacyProtocol minor)
  else do
    let fresh ← draw
    let session ← .ofExcept ((SptpsHandshakeSession.startTcp p auth.outgoing auth.privateKey
      auth.peerKey (auth.label message.name) fresh).mapError .sptps)
    modify fun auth => { auth with session := some session.drainOutbound.2, state := .handshake }
    return ⟨[], session.drainOutbound.1, []⟩

/-- The peer names itself. -/
def receiveId (p : Primitives) (message : IdMessage) : AuthM MetaAuthStep := do
  let auth ← get
  if auth.state ≠ .expectId then throw (.unexpectedMessage auth.state.expectedRequest .id)
  else do
    Stateful.ofExcept (validatePeerId auth.myself message)
    if message.protocolMajor ≠ protMajor then
      throw (.incompatibleProtocol protMajor message.protocolMajor)
    else do
      modify fun auth => { auth with peer := some message.name }
      if auth.bypassSecurity then do
        modify fun auth => { auth with state := .expectAck }
        return ⟨[auth.ackMessage], [], []⟩
      else startSession p message

/-- The peer sends its ACK line, which activates the connection. -/
def receiveAck (message : AckMessage) : AuthM MetaAuthStep := do
  let auth ← get
  if auth.state ≠ .expectAck then throw (.unexpectedMessage auth.state.expectedRequest .ack)
  else
    match message with
    | .connection port weight options => do
        let peer ← requirePeer
        modify fun auth => { auth with state := .activated }
        return ⟨[], [], [.activated peer port (negotiatedWeight auth.localWeight weight)
          (negotiatedConnectionOptions auth.localOptions options)]⟩
    | _ => throw .unexpectedAckShape

/-- A message on a connection that is not activated yet. -/
def receiveMetaMessage (p : Primitives) : MetaMessage → AuthM MetaAuthStep
  | .id message => receiveId p message
  | .ack message => receiveAck message
  | message => do
      let auth ← get
      throw (.unexpectedMessage auth.state.expectedRequest message.request)

/-! ### What the operations do -/

section Operations

variable {p : Primitives} {auth auth' : MetaConnectionAuth} {authStep : MetaAuthStep}

lemma validatePeerId_eq_ok {myself : String} {message : IdMessage} :
    validatePeerId myself message = .ok () ↔
      checkId message.name = true ∧ message.name ≠ myself := by
  by_cases hvalid : checkId message.name = true
  · by_cases hself : message.name = myself
    · rw [validatePeerId, if_neg (not_not.mpr hvalid), if_pos hself]
      simp [hself]
    · simp [validatePeerId, hvalid, hself]
  · simp [validatePeerId, hvalid]

/-- The authentication after the random generator was used. -/
def drawn (auth : MetaConnectionAuth) : MetaConnectionAuth :=
  { auth with entropy := fun n => auth.entropy (n + 1) }

/-- What becomes of a session that is to begin. -/
lemma exec_startSession (message : IdMessage) : (startSession p message).exec auth =
    if message.protocolMinor.getD 0 < 2 then
      (.error (.unsupportedLegacyProtocol (message.protocolMinor.getD 0)), auth)
    else
      match SptpsHandshakeSession.startTcp p auth.outgoing auth.privateKey auth.peerKey
          (auth.label message.name) (auth.entropy 0) with
      | .error e => (.error (.sptps e), auth.drawn)
      | .ok session => (.ok ⟨[], session.drainOutbound.1, []⟩,
          { auth.drawn with session := some session.drainOutbound.2, state := .handshake }) := by
  rw [startSession, Stateful.exec_bind, Stateful.exec_get]
  simp only [Stateful.exec_ite]
  split_ifs with hminor
  · rfl
  · rw [Stateful.exec_bind]
    simp only [draw, Stateful.exec_ofFn]
    rw [Stateful.exec_bind]
    cases SptpsHandshakeSession.startTcp p auth.outgoing auth.privateKey auth.peerKey
      (auth.label message.name) (auth.entropy 0) <;> rfl

/-- What becomes of an ID line. -/
lemma exec_receiveId (message : IdMessage) : (receiveId p message).exec auth =
    if auth.state ≠ .expectId then
      (.error (.unexpectedMessage auth.state.expectedRequest .id), auth)
    else
      match validatePeerId auth.myself message with
      | .error e => (.error e, auth)
      | .ok () =>
          if message.protocolMajor ≠ protMajor then
            (.error (.incompatibleProtocol protMajor message.protocolMajor), auth)
          else if auth.bypassSecurity then (.ok ⟨[auth.ackMessage], [], []⟩,
            { auth with peer := some message.name, state := .expectAck })
          else (startSession p message).exec { auth with peer := some message.name } := by
  rw [receiveId, Stateful.exec_bind, Stateful.exec_get]
  simp only [Stateful.exec_ite]
  by_cases hstate : auth.state = .expectId
  · rw [if_neg (not_not.mpr hstate), if_neg (not_not.mpr hstate), Stateful.exec_bind,
      Stateful.exec_ofExcept]
    cases validatePeerId auth.myself message with
    | error e => rfl
    | ok _ =>
        simp only [Stateful.exec_ite]
        split_ifs with hmajor hbypass
        · rfl
        · rw [Stateful.exec_bind, Stateful.exec_modify]
          rfl
        · rw [Stateful.exec_bind, Stateful.exec_modify]
  · rw [if_pos hstate, if_pos hstate]
    rfl

/-- What becomes of an ACK line. -/
lemma exec_receiveAck (message : AckMessage) : (receiveAck message).exec auth =
    if auth.state ≠ .expectAck then
      (.error (.unexpectedMessage auth.state.expectedRequest .ack), auth)
    else
      match message, auth.peer with
      | .connection port weight options, some peer => (.ok ⟨[], [],
          [.activated peer port (negotiatedWeight auth.localWeight weight)
            (negotiatedConnectionOptions auth.localOptions options)]⟩,
          { auth with state := .activated })
      | .connection .., none => (.error .missingPeer, auth)
      | _, _ => (.error .unexpectedAckShape, auth) := by
  rw [receiveAck, Stateful.exec_bind, Stateful.exec_get]
  simp only [Stateful.exec_ite]
  split_ifs with hstate
  · rfl
  · cases message with
    | connection port weight options =>
        cases hpeer : auth.peer <;> simp [Stateful.exec_bind, requirePeer, hpeer]
    | _ => rfl

/-- The authentication once it has a session with a peer. -/
def started (auth : MetaConnectionAuth) (peer : String) (session : SptpsHandshakeSession) :
    MetaConnectionAuth :=
  { auth.drawn with
    peer := some peer
    session := some session.drainOutbound.2
    state := .handshake }

/-- **An ID line is accepted** in the first state, when it names another node. -/
lemma receiveId_eq_ok {message : IdMessage}
    (h : (receiveId p message).exec auth = (.ok authStep, auth')) :
    auth.state = .expectId ∧ checkId message.name = true ∧ message.name ≠ auth.myself ∧
      message.protocolMajor = protMajor ∧
      (auth.bypassSecurity = true ∧ authStep = ⟨[auth.ackMessage], [], []⟩ ∧
          auth' = { auth with peer := some message.name, state := .expectAck } ∨
        auth.bypassSecurity = false ∧ ∃ session,
          SptpsHandshakeSession.startTcp p auth.outgoing auth.privateKey auth.peerKey
            (auth.label message.name) (auth.entropy 0) = .ok session ∧
          authStep = ⟨[], session.drainOutbound.1, []⟩ ∧
          auth' = auth.started message.name session) := by
  rw [exec_receiveId] at h
  by_cases hstate : auth.state = .expectId
  · rw [if_neg (not_not.mpr hstate)] at h
    cases hvalid : validatePeerId auth.myself message with
    | error e =>
        rw [hvalid] at h
        cases h
    | ok _ =>
        rw [hvalid] at h
        obtain ⟨hname, hself⟩ := validatePeerId_eq_ok.mp hvalid
        by_cases hmajor : message.protocolMajor = protMajor
        · refine ⟨hstate, hname, hself, hmajor, ?_⟩
          simp only [hmajor, ne_eq, not_true_eq_false, if_false] at h
          by_cases hbypass : auth.bypassSecurity = true
          · rw [if_pos hbypass] at h
            cases h
            exact Or.inl ⟨hbypass, rfl, rfl⟩
          · rw [if_neg hbypass, exec_startSession] at h
            split_ifs at h with hminor
            · cases h
            · split at h
              · cases h
              · next session hsession =>
                  cases h
                  exact Or.inr ⟨Bool.eq_false_iff.mpr hbypass, session, hsession, rfl, rfl⟩
        · simp only [ne_eq, hmajor, not_false_eq_true, if_true] at h
          cases h
  · rw [if_pos hstate] at h
    cases h

/-- **An ACK line is accepted** once the handshake is complete. -/
lemma receiveAck_eq_ok {message : AckMessage}
    (h : (receiveAck message).exec auth = (.ok authStep, auth')) :
    auth.state = .expectAck ∧ ∃ peer port weight options, auth.peer = some peer ∧
      message = .connection port weight options ∧
      authStep = ⟨[], [], [.activated peer port (negotiatedWeight auth.localWeight weight)
        (negotiatedConnectionOptions auth.localOptions options)]⟩ ∧
      auth' = { auth with state := .activated } := by
  rw [exec_receiveAck] at h
  by_cases hstate : auth.state = .expectAck
  · rw [if_neg (not_not.mpr hstate)] at h
    cases message with
    | connection port weight options =>
        cases hpeer : auth.peer with
        | none =>
            rw [hpeer] at h
            cases h
        | some peer =>
            rw [hpeer] at h
            cases h
            exact ⟨hstate, peer, port, weight, options, rfl, rfl, rfl, rfl⟩
    | _ => cases h
  · rw [if_pos hstate] at h
    cases h

/-- An ID line that is not accepted changes at most the name of the peer, in the first state. -/
lemma receiveId_error {message : IdMessage} {e : MetaAuthError}
    (h : (receiveId p message).exec auth = (.error e, auth')) :
    auth'.state = auth.state ∧ auth'.session = auth.session ∧
      (auth.state ≠ .expectId → auth' = auth) := by
  rw [exec_receiveId] at h
  by_cases hstate : auth.state = .expectId
  · have hauth : auth'.state = auth.state ∧ auth'.session = auth.session := by
      rw [if_neg (not_not.mpr hstate)] at h
      cases hvalid : validatePeerId auth.myself message with
      | error _ =>
          rw [hvalid] at h
          cases h
          exact ⟨rfl, rfl⟩
      | ok _ =>
          rw [hvalid] at h
          simp only at h
          split_ifs at h with hmajor hbypass
          · cases h
            exact ⟨rfl, rfl⟩
          · cases h
          · rw [exec_startSession] at h
            split_ifs at h
            · cases h
              exact ⟨rfl, rfl⟩
            · split at h
              · cases h
                exact ⟨rfl, rfl⟩
              · cases h
    exact ⟨hauth.1, hauth.2, fun hne => absurd hstate hne⟩
  · rw [if_pos hstate] at h
    cases h
    exact ⟨rfl, rfl, fun _ => rfl⟩

/-- A refused ACK line changes nothing. -/
lemma receiveAck_error {message : AckMessage} {e : MetaAuthError}
    (h : (receiveAck message).exec auth = (.error e, auth')) : auth' = auth := by
  rw [exec_receiveAck] at h
  split_ifs at h
  · cases h
    rfl
  · split at h
    · cases h
    · cases h
      rfl
    · cases h
      rfl

/-- What the authentication makes of the events that a record has led to. -/
def answerRecord (auth : MetaConnectionAuth) (peer : String) (events : List SptpsHandshakeEvent)
    (rawOutbound : List (List UInt8)) : MetaAuthStep × MetaConnectionAuth :=
  if .handshakeComplete ∈ events then
    let complete := .sptpsHandshakeComplete peer :: applicationRecords events
    if auth.state = .handshake then
      (⟨[auth.ackMessage], rawOutbound, complete⟩, { auth with state := .expectAck })
    else (⟨[], rawOutbound, complete⟩, auth)
  else (⟨[], rawOutbound, applicationRecords events⟩, auth)

/-- What becomes of a record. -/
lemma exec_receiveSptpsRecord (record : List UInt8) :
    (receiveSptpsRecord p record).exec auth =
      if auth.state = .expectId then (.error (.unexpectedRawRecord auth.state), auth)
      else
        match auth.peer, auth.session with
        | none, _ => (.error .missingPeer, auth)
        | some _, none => (.error .missingSession, auth.drawn)
        | some peer, some session =>
            match (SptpsHandshakeSession.receiveDatagram p (auth.entropy 0) record).exec session with
            | (.error e, session) => (.error (.sptps e), { auth.drawn with session := some session })
            | (.ok events, session) =>
                let r := answerRecord { auth.drawn with session := some session.drainOutbound.2 } peer
                  events session.drainOutbound.1
                (.ok r.1, r.2) := by
  rw [receiveSptpsRecord, Stateful.exec_bind, Stateful.exec_get]
  simp only [Stateful.exec_ite]
  by_cases hstate : auth.state = .expectId
  · rw [if_pos hstate, if_pos hstate]
    rfl
  · rw [if_neg hstate, if_neg hstate, Stateful.exec_bind]
    obtain ⟨myself, peer, outgoing, privateKey, peerKey, localPort, localWeight, localOptions,
      session, state, bypassSecurity, entropy⟩ := auth
    cases peer with
    | none => rfl
    | some peer =>
        cases session with
        | none => rfl
        | some session =>
            simp only [requirePeer, Stateful.exec_ofFn, Stateful.exec_bind, draw, onSession]
            rcases (SptpsHandshakeSession.receiveDatagram p (entropy 0) record).exec session
              with ⟨_ | events, session⟩
            · rfl
            · by_cases hcomplete : SptpsHandshakeEvent.handshakeComplete ∈ events <;>
                by_cases hhandshake : state = .handshake <;>
                simp [Except.mapError, answerRecord, drawn, hcomplete, hhandshake,
                  ackMessage]

/-- What no operation changes; the state never goes back to the first one, and without security
there is no handshake. -/
structure Advances (auth auth' : MetaConnectionAuth) : Prop where
  myself_eq : auth'.myself = auth.myself
  outgoing_eq : auth'.outgoing = auth.outgoing
  peerKey_eq : auth'.peerKey = auth.peerKey
  bypassSecurity_eq : auth'.bypassSecurity = auth.bypassSecurity
  state : auth'.state = auth.state ∨
    auth'.state ≠ .expectId ∧ (auth.bypassSecurity = true → auth'.state ≠ .handshake)

lemma Advances.refl (auth : MetaConnectionAuth) : Advances auth auth :=
  ⟨rfl, rfl, rfl, rfl, Or.inl rfl⟩

lemma Advances.trans {auth'' : MetaConnectionAuth} (h : Advances auth auth')
    (h' : Advances auth' auth'') : Advances auth auth'' := by
  refine ⟨h'.myself_eq.trans h.myself_eq, h'.outgoing_eq.trans h.outgoing_eq,
    h'.peerKey_eq.trans h.peerKey_eq, h'.bypassSecurity_eq.trans h.bypassSecurity_eq, ?_⟩
  rcases h'.state with hsame | ⟨hstate, hbypass⟩
  · rw [hsame]
    exact h.state
  · exact Or.inr ⟨hstate, fun hb => hbypass (h.bypassSecurity_eq.trans hb)⟩

/-- An ID line only moves the authentication on. -/
lemma receiveId_advances (message : IdMessage) : (receiveId p message).Moves Advances := by
  intro auth
  rw [exec_receiveId]
  by_cases hstate : auth.state = .expectId
  · rw [if_neg (not_not.mpr hstate)]
    cases validatePeerId auth.myself message with
    | error e => exact .refl auth
    | ok _ =>
        simp only
        split_ifs with hmajor hbypass
        · exact .refl auth
        · exact ⟨rfl, rfl, rfl, rfl, Or.inr ⟨by simp, fun _ => by simp⟩⟩
        · rw [exec_startSession]
          split_ifs
          · exact ⟨rfl, rfl, rfl, rfl, Or.inl rfl⟩
          · split
            · exact ⟨rfl, rfl, rfl, rfl, Or.inl rfl⟩
            · exact ⟨rfl, rfl, rfl, rfl, Or.inr ⟨by simp, fun h => absurd h hbypass⟩⟩
  · rw [if_pos hstate]
    exact .refl auth

lemma receiveAck_advances (message : AckMessage) : (receiveAck message).Moves Advances := by
  intro auth
  rw [exec_receiveAck]
  split_ifs
  · exact .refl auth
  · split
    · exact ⟨rfl, rfl, rfl, rfl, Or.inr ⟨by simp, fun _ => by simp⟩⟩
    · exact .refl auth
    · exact .refl auth

lemma receiveMetaMessage_advances (message : MetaMessage) :
    (receiveMetaMessage p message).Moves Advances := by
  cases message with
  | id message => exact receiveId_advances message
  | ack message => exact receiveAck_advances message
  | _ => exact fun auth => .refl auth

/-- A record only moves the authentication on. -/
lemma receiveSptpsRecord_advances (record : List UInt8) :
    (receiveSptpsRecord p record).Moves Advances := by
  intro auth
  rw [exec_receiveSptpsRecord]
  split_ifs
  · exact .refl auth
  · split
    · exact .refl auth
    · exact ⟨rfl, rfl, rfl, rfl, Or.inl rfl⟩
    · split
      · exact ⟨rfl, rfl, rfl, rfl, Or.inl rfl⟩
      · simp only [answerRecord]
        split_ifs
        · exact ⟨rfl, rfl, rfl, rfl, Or.inr ⟨by simp, fun _ => by simp⟩⟩
        · exact ⟨rfl, rfl, rfl, rfl, Or.inl rfl⟩
        · exact ⟨rfl, rfl, rfl, rfl, Or.inl rfl⟩

lemma sendSptpsApplication_advances (payload : List UInt8) :
    (sendSptpsApplication p payload).Moves Advances := by
  intro auth
  rw [sendSptpsApplication, onSession, Stateful.exec_ofFn]
  split
  · exact .refl auth
  · exact ⟨rfl, rfl, rfl, rfl, Or.inl rfl⟩

end Operations

end MetaConnectionAuth

end RustyTinc

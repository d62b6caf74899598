import RustyTinc.Core.KeyPayload
import RustyTinc.Library.OrdMap
import RustyTinc.Runtime.Sptps.Handshake
import Mathlib.Data.String.Basic

/-!
The exchange of SPTPS keys between nodes, in REQ_KEY and ANS_KEY messages.

* `SptpsKeyExchange`: the sessions that wait for their handshake to complete;
* `startInitiator`, `receiveMetaMessage`: a handshake begins, and goes on;
* `exec_receiveInitialRequest`, `exec_receiveExistingPayload`: what a message brings about, from
  what the session makes of it.
-/

namespace RustyTinc

open Stateful

/-! ### Sessions of peers -/

/-- A peer before and after its first handshake is complete. -/
inductive SptpsPeerState where
  | codec (codec : SptpsDatagramCodec)
  | handshake (session : SptpsHandshakeSession)

/-- A session that data is sent in, under a record type that is not that of handshakes. -/
structure SptpsPeerSession where
  state : SptpsPeerState
  packetType : UInt8
  packetType_lt : packetType < sptpsHandshake

namespace SptpsPeerSession

/-- The session of a peer, once its handshake is complete. -/
def fromHandshakeSession (session : SptpsHandshakeSession) (packetType : UInt8) :
    Except SptpsError SptpsPeerSession :=
  if h : packetType < sptpsHandshake then
    if session.isEstablished then .ok ⟨.handshake session, packetType, h⟩
    else .error (.missingHandshakeState "established SPTPS keys")
  else .error (.invalidRecordType packetType)

/-- The codec of a session; the source panics where there is none. -/
def codec (s : SptpsPeerSession) : Option SptpsDatagramCodec :=
  match s.state with
  | .codec codec => some codec
  | .handshake session =>
      match session.codec with
      | .datagram codec => some codec
      | .tcp _ => none

end SptpsPeerSession

/-! ### Key exchanges -/

/-- What a message has brought about. -/
inductive SptpsKeyExchangeEvent where
  | established (peer : String) (session : SptpsPeerSession)
  | applicationRecord (peer : String) (recordType : UInt8) (payload : List UInt8)

/-- What is sent in return for a message, and what the message has brought about. -/
structure SptpsKeyExchangeResult where
  outbound : List MetaMessage := []
  events : List SptpsKeyExchangeEvent := []

/-- Why a message is refused. -/
inductive SptpsKeyExchangeError where
  | unknownPeerKey (peer : String)
  | missingSession (peer : String)
  | wrongDestination (expected actual : String)
  | unsupportedMessage (request : Request)
  | protocol (error : SptpsKeyPayloadError)
  | sptps (error : SptpsError)
deriving DecidableEq

/-- The length of the replay window of a session. -/
def defaultSptpsReplayWindowBytes : ℕ := 16

/-- The handshakes of a node with its peers over the meta protocol. -/
structure SptpsKeyExchange where
  myself : String
  privateKey : TincEd25519PrivateKey
  peerKeys : OrdMap String TincEd25519PublicKey := .empty
  sessions : OrdMap String SptpsHandshakeSession := .empty
  compression : ℤ := 0
  packetType : UInt8
  replayWindowBytes : ℕ := defaultSptpsReplayWindowBytes
  packetType_lt : packetType < sptpsHandshake

/-- The label that both sides of a handshake sign: it names both. -/
def sptpsUdpLabel (initiator responder : String) : List UInt8 :=
  asBytes ("tinc UDP key expansion " ++ initiator ++ " " ++ responder).toList ++ [0]

/-- `SptpsHandshakeSession::start`, with what the random generator gives. -/
def SptpsHandshakeSession.startFresh (p : Primitives) (initiator : Bool)
    (myKey : TincEd25519PrivateKey) (peerKey : TincEd25519PublicKey) (label : List UInt8)
    (replayWindowBytes : ℕ) (fresh : Fresh) : Except SptpsError SptpsHandshakeSession := do
  let x ← fresh
  startWithEphemeral p initiator myKey peerKey label replayWindowBytes
    (p.ephemeralFromSeed x.1) x.2

/-- The messages for what a session has queued; the first one may be a request. -/
def drainOutboundMessages (myself peer : String) (compression : ℤ)
    (session : SptpsHandshakeSession) (initialRequest : Bool) :
    List MetaMessage × SptpsHandshakeSession :=
  let answer := fun datagram =>
    MetaMessage.answerKey (.sptpsHandshake myself peer datagram compression)
  match initialRequest, session.drainOutbound with
  | true, (datagram :: datagrams, session) =>
      (.requestKey (.sptpsInitialRequest myself peer datagram) :: datagrams.map answer, session)
  | _, (datagrams, session) => (datagrams.map answer, session)

namespace SptpsKeyExchange

/-- No handshake has begun. -/
def new (myself : String) (privateKey : TincEd25519PrivateKey) (packetType : UInt8) :
    Except SptpsKeyExchangeError SptpsKeyExchange :=
  if h : packetType < sptpsHandshake then
    .ok { myself, privateKey, packetType, packetType_lt := h }
  else .error (.sptps (.invalidRecordType packetType))

/-- A computation on a key exchange. -/
abbrev ExchangeM (α : Type) := Stateful SptpsKeyExchangeError SptpsKeyExchange α

/-- The public key of a peer. -/
def peerKey (x : SptpsKeyExchange) (peer : String) :
    Except SptpsKeyExchangeError TincEd25519PublicKey :=
  match x.peerKeys.get? peer with
  | some key => .ok key
  | none => .error (.unknownPeerKey peer)

/-- A payload is meant for this node. -/
def ensureDestination (x : SptpsKeyExchange) (payload : SptpsKeyPayload) :
    Except SptpsKeyExchangeError Unit :=
  if payload.toNode = x.myself then .ok ()
  else .error (.wrongDestination x.myself payload.toNode)

/-- A pending session is stored. -/
def store (peer : String) (session : SptpsHandshakeSession) : ExchangeM Unit :=
  modify fun x => { x with sessions := x.sessions.insert peer session }

/-- A new session with a peer. -/
def startSession (p : Primitives) (fresh : Fresh) (initiator : Bool) (peer : String) :
    ExchangeM SptpsHandshakeSession := do
  let x ← get
  let peerKey ← .ofExcept (x.peerKey peer)
  let label := if initiator then sptpsUdpLabel x.myself peer else sptpsUdpLabel peer x.myself
  .ofExcept ((SptpsHandshakeSession.startFresh p initiator x.privateKey peerKey label
    x.replayWindowBytes fresh).mapError .sptps)

/-- A handshake begins, unless one with the peer is on its way. -/
def startInitiator (p : Primitives) (fresh : Fresh) (peer : String) :
    ExchangeM SptpsKeyExchangeResult := do
  let x ← get
  if (x.sessions.get? peer).isSome then return {}
  else do
    let session ← startSession p fresh true peer
    let r := drainOutboundMessages x.myself peer x.compression session true
    store peer r.2
    return { outbound := r.1 }

/-- The handshake with a peer is given up. -/
def removePendingSession (x : SptpsKeyExchange) (peer : String) : SptpsKeyExchange :=
  { x with sessions := x.sessions.erase peer }

/-- What the records of a session are for the key exchange, but for the end of a handshake. -/
def recordEvents (peer : String) (events : List SptpsHandshakeEvent) :
    List SptpsKeyExchangeEvent :=
  events.filterMap fun
    | .handshakeComplete => none
    | .applicationRecord recordType payload => some (.applicationRecord peer recordType payload)

/-- A session leaves when its handshake is complete, and is kept otherwise. -/
def finishOrStore (peer : String) (session : SptpsHandshakeSession)
    (outbound : List MetaMessage) (events : List SptpsHandshakeEvent) :
    ExchangeM SptpsKeyExchangeResult := do
  if .handshakeComplete ∈ events then do
    let x ← get
    let established ← .ofExcept
      ((SptpsPeerSession.fromHandshakeSession session x.packetType).mapError .sptps)
    return ⟨outbound, recordEvents peer events ++ [.established peer established]⟩
  else do
    store peer session
    return ⟨outbound, recordEvents peer events⟩

/-- The session of a peer goes on where it is; what it does before it fails stays. -/
def withPending {α : Type} (peer : String)
    (run : Stateful SptpsError SptpsHandshakeSession α) :
    ExchangeM (α × SptpsHandshakeSession) :=
  .ofFn fun x =>
    match x.sessions.get? peer with
    | none => (.error (.missingSession peer), x)
    | some session =>
        let r := run.exec session
        ((r.1.mapError SptpsKeyExchangeError.sptps).map fun a => (a, r.2),
          { x with sessions := x.sessions.insert peer r.2 })

-- A session that waits for its peer's KEX record asks for nothing random, so that what `start`
-- has drawn may stand for both.
/-- A peer has begun a handshake, even when another one is on its way. -/
def receiveInitialRequest (p : Primitives) (fresh : Fresh) (payload : SptpsKeyPayload) :
    ExchangeM SptpsKeyExchangeResult := do
  let x ← get
  let peer := payload.fromNode
  if (x.sessions.get? peer).any (fun session => session.initiator) ∧ x.myself < peer then return {}
  else do
    let session ← startSession p fresh false peer
    let r := (SptpsHandshakeSession.receiveDatagram p fresh payload.data).exec session
    let events ← .ofExcept (r.1.mapError .sptps)
    let drained := drainOutboundMessages x.myself peer x.compression r.2 false
    finishOrStore peer drained.2 drained.1 events

/-- The next record of a handshake that is on its way. -/
def receiveExistingPayload (p : Primitives) (fresh : Fresh) (payload : SptpsKeyPayload) :
    ExchangeM SptpsKeyExchangeResult := do
  let x ← get
  let peer := payload.fromNode
  let r ← withPending peer (SptpsHandshakeSession.receiveDatagram p fresh payload.data)
  let drained := drainOutboundMessages x.myself peer x.compression r.2 false
  modify fun x => x.removePendingSession peer
  finishOrStore peer drained.2 drained.1 r.1

/-- A `REQ_KEY` with a payload of SPTPS. -/
def receiveRequestKey (p : Primitives) (fresh : Fresh) (message : RequestKeyMessage) :
    ExchangeM SptpsKeyExchangeResult := do
  let payload ← .ofExcept (message.decodeSptpsPayload.mapError .protocol)
  let x ← get
  Stateful.ofExcept (x.ensureDestination payload)
  match payload.kind with
  | .initialRequest => receiveInitialRequest p fresh payload
  | .tcpPacket => receiveExistingPayload p fresh payload
  | .handshakeAnswer => throw (.protocol .notSptps)

/-- An `ANS_KEY` with a payload of SPTPS. -/
def receiveAnswerKey (p : Primitives) (fresh : Fresh) (message : AnswerKeyMessage) :
    ExchangeM SptpsKeyExchangeResult := do
  let payload ← .ofExcept (message.decodeSptpsPayload.mapError .protocol)
  let x ← get
  Stateful.ofExcept (x.ensureDestination payload)
  receiveExistingPayload p fresh payload

/-- A message of the meta protocol that may be about keys. -/
def receiveMetaMessage (p : Primitives) (fresh : Fresh) (message : MetaMessage) :
    ExchangeM SptpsKeyExchangeResult :=
  match message with
  | .requestKey message => receiveRequestKey p fresh message
  | .answerKey message => receiveAnswerKey p fresh message
  | message => throw (.unsupportedMessage message.request)

/-! ### What the messages bring about -/

section Exec

variable {p : Primitives} {fresh : Fresh} {x : SptpsKeyExchange} {peer : String}
  {s t : SptpsHandshakeSession} {records : List (List UInt8)}

/-- The messages that carry the records of a handshake that has begun. -/
def answers (x : SptpsKeyExchange) (peer : String) (records : List (List UInt8)) :
    List MetaMessage :=
  records.map fun record => .answerKey (.sptpsHandshake x.myself peer record x.compression)

lemma drainOutboundMessages_false (h : s.outbound = records) :
    drainOutboundMessages x.myself peer x.compression s false =
      (x.answers peer records, s.drainOutbound.2) := by
  rw [← h]
  rfl

lemma drainOutboundMessages_true {record : List UInt8} (h : s.outbound = [record]) :
    drainOutboundMessages x.myself peer x.compression s true =
      ([.requestKey (.sptpsInitialRequest x.myself peer record)], s.drainOutbound.2) := by
  simp only [drainOutboundMessages, SptpsHandshakeSession.drainOutbound, h, List.map_nil]

/-- A handshake begins with the key of the peer. -/
lemma exec_startSession {key : TincEd25519PublicKey} {initiator : Bool}
    {f : Vector UInt8 32 × Vector UInt8 32} (hkey : x.peerKeys.get? peer = some key)
    (hstart : SptpsHandshakeSession.startWithEphemeral p initiator x.privateKey key
      (if initiator then sptpsUdpLabel x.myself peer else sptpsUdpLabel peer x.myself)
      x.replayWindowBytes (p.ephemeralFromSeed f.1) f.2 = .ok s) :
    (startSession p (.ok f) initiator peer).exec x = (.ok s, x) := by
  have hpeer : x.peerKey peer = .ok key := by rw [peerKey, hkey]
  rw [startSession, exec_bind, exec_get]
  simp only [exec_bind, exec_ofExcept, hpeer]
  have hfresh : SptpsHandshakeSession.startFresh p initiator x.privateKey key
      (if initiator then sptpsUdpLabel x.myself peer else sptpsUdpLabel peer x.myself)
      x.replayWindowBytes (.ok f) = .ok s := hstart
  rw [hfresh]
  rfl

/-- A handshake that is on its way is not begun anew. -/
lemma exec_startInitiator_pending (h : (x.sessions.get? peer).isSome) :
    (startInitiator p fresh peer).exec x = (.ok {}, x) := by
  rw [startInitiator, exec_bind, exec_get]
  simp only [if_pos h]
  rfl

lemma exec_startInitiator {f : Vector UInt8 32 × Vector UInt8 32} {record : List UInt8}
    (hnone : x.sessions.get? peer = none)
    (hstart : (startSession p (.ok f) true peer).exec x = (.ok s, x))
    (hrecord : s.outbound = [record]) :
    (startInitiator p (.ok f) peer).exec x =
      (.ok ⟨[.requestKey (.sptpsInitialRequest x.myself peer record)], []⟩,
        { x with sessions := x.sessions.insert peer s.drainOutbound.2 }) := by
  rw [startInitiator, exec_bind, exec_get]
  simp only [if_neg (show ¬ (x.sessions.get? peer).isSome = true by simp [hnone])]
  rw [exec_bind_ok hstart, drainOutboundMessages_true hrecord]
  rfl

lemma exec_receiveMetaMessage_request {fromNode : String} (data : List UInt8) :
    (receiveMetaMessage p fresh (.requestKey (.sptpsInitialRequest fromNode x.myself data))).exec
        x =
      (receiveInitialRequest p fresh
        ⟨fromNode, x.myself, .initialRequest, data, none, none⟩).exec x := by
  rw [receiveMetaMessage, receiveRequestKey, decodeSptpsPayload_sptpsInitialRequest]
  simp [exec_bind, ensureDestination, Except.mapError]

lemma exec_receiveMetaMessage_answer {fromNode : String} (data : List UInt8) (compression : ℤ) :
    (receiveMetaMessage p fresh
        (.answerKey (.sptpsHandshake fromNode x.myself data compression))).exec x =
      (receiveExistingPayload p fresh
        ⟨fromNode, x.myself, .handshakeAnswer, data, some compression, none⟩).exec x := by
  rw [receiveMetaMessage, receiveAnswerKey, decodeSptpsPayload_sptpsHandshake]
  simp [exec_bind, ensureDestination, Except.mapError]

/-- **A request is ignored** while a handshake of one's own is on its way to a greater name. -/
lemma exec_receiveInitialRequest_ignored {payload : SptpsKeyPayload}
    (hpending : x.sessions.get? payload.fromNode = some s) (hinit : s.initiator = true)
    (hlt : x.myself < payload.fromNode) :
    (receiveInitialRequest p fresh payload).exec x = (.ok {}, x) := by
  have hignored : (x.sessions.get? payload.fromNode).any (fun session => session.initiator) ∧
      x.myself < payload.fromNode := ⟨by rw [hpending]; exact hinit, hlt⟩
  rw [receiveInitialRequest, exec_bind, exec_get]
  simp only [if_pos hignored]
  rfl

/-- **Any other request begins a handshake**, in place of one that may be on its way. -/
lemma exec_receiveInitialRequest {payload : SptpsKeyPayload}
    {f : Vector UInt8 32 × Vector UInt8 32}
    (haccepted : ¬ ((x.sessions.get? payload.fromNode).any (fun session => session.initiator) ∧
      x.myself < payload.fromNode))
    (hstart : (startSession p (.ok f) false payload.fromNode).exec x = (.ok s, x))
    (hreceive : (SptpsHandshakeSession.receiveDatagram p (.ok f) payload.data).exec s = (.ok [], t))
    (hrecords : t.outbound = records) :
    (receiveInitialRequest p (.ok f) payload).exec x =
      (.ok ⟨x.answers payload.fromNode records, []⟩,
        { x with sessions := x.sessions.insert payload.fromNode t.drainOutbound.2 }) := by
  rw [receiveInitialRequest, exec_bind, exec_get]
  simp only [if_neg haccepted]
  rw [exec_bind_ok hstart, hreceive, drainOutboundMessages_false hrecords]
  rfl

section Existing

variable {payload : SptpsKeyPayload} (hpending : x.sessions.get? payload.fromNode = some s)
include hpending

/-- A record of a handshake that goes on. -/
lemma exec_receiveExistingPayload
    (hreceive : (SptpsHandshakeSession.receiveDatagram p fresh payload.data).exec s = (.ok [], t))
    (hrecords : t.outbound = records) :
    (receiveExistingPayload p fresh payload).exec x =
      (.ok ⟨x.answers payload.fromNode records, []⟩,
        { x with sessions := ((x.sessions.insert payload.fromNode t).erase
            payload.fromNode).insert payload.fromNode t.drainOutbound.2 }) := by
  rw [receiveExistingPayload, exec_bind, exec_get]
  simp only [exec_bind, withPending, exec_ofFn, hpending, hreceive, Except.mapError,
    Stateful.map_ok, drainOutboundMessages_false hrecords, exec_modify, removePendingSession]
  rfl

/-- **The record that completes a handshake**: its session is no longer pending. -/
lemma exec_receiveExistingPayload_complete
    (hreceive : (SptpsHandshakeSession.receiveDatagram p fresh payload.data).exec s =
      (.ok [.handshakeComplete], t))
    (hrecords : t.outbound = records) (hestablished : t.drainOutbound.2.isEstablished = true) :
    (receiveExistingPayload p fresh payload).exec x =
      (.ok ⟨x.answers payload.fromNode records, [.established payload.fromNode
          ⟨.handshake t.drainOutbound.2, x.packetType, x.packetType_lt⟩]⟩,
        { x with sessions := (x.sessions.insert payload.fromNode t).erase payload.fromNode }) := by
  have hpeer : SptpsPeerSession.fromHandshakeSession t.drainOutbound.2 x.packetType =
      .ok ⟨.handshake t.drainOutbound.2, x.packetType, x.packetType_lt⟩ := by
    rw [SptpsPeerSession.fromHandshakeSession, dif_pos x.packetType_lt, if_pos hestablished]
  rw [receiveExistingPayload, exec_bind, exec_get]
  simp only [exec_bind, withPending, exec_ofFn, hpending, hreceive, Except.mapError,
    Stateful.map_ok, drainOutboundMessages_false hrecords, exec_modify, removePendingSession,
    finishOrStore, List.mem_singleton, if_true, exec_get, hpeer, exec_ofExcept]
  rfl

end Existing

end Exec

end SptpsKeyExchange

end RustyTinc

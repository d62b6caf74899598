import RustyTinc.Runtime.Meta.Activation

/-!
What an activated connection sends: messages, TCP packets within records, and SPTPS packets
between them.

* `exec_send`: what a send puts on the stream, and when it is refused;
* `exec_sendAll`: the frames that any number of sends put on the stream.
-/

namespace RustyTinc

namespace MetaConnectionDriver

/-- A computation of the driver that sends. -/
abbrev SendM (α : Type) := Stateful MetaConnectionError MetaConnectionDriver α

/-- An operation of the authentication. -/
def sendOnAuth {α : Type} (x : MetaConnectionAuth.AuthM α) : SendM α :=
  .ofFn fun driver =>
    ((x.exec driver.auth).1.mapError .auth, { driver with auth := (x.exec driver.auth).2 })

/-- The bytes of a message. -/
def sendMetaMessage (p : Primitives) (message : MetaMessage) : SendM (List UInt8) := do
  let driver ← get
  if message.request = .id ∨ driver.auth.usesPlaintextMeta then return encodeMetaLine message
  else sendOnAuth (MetaConnectionAuth.sendSptpsApplication p (encodeMetaLine message))

/-- Packets go over activated connections only. -/
def ensureActivated : SendM Unit := do
  let driver ← get
  if driver.auth.state = .activated then pure () else throw (.notActivated driver.auth.state)

/-- The length of a packet that is short enough to be announced. -/
def checkedTcpPacketLength (length : ℕ) : Except MetaConnectionError UInt16 :=
  let maximum := 2 ^ 15 - 1
  if length > maximum then .error (.packetTooLarge maximum length) else .ok (UInt16.ofNat length)

/-- The line that announces a packet, and the packet. -/
def sendTcpPacket (p : Primitives) (packet : List UInt8) : SendM (List (List UInt8)) := do
  ensureActivated
  let length ← .ofExcept (checkedTcpPacketLength packet.length)
  let header ← sendMetaMessage p (.tcpPacket ⟨length⟩)
  let driver ← get
  if driver.auth.usesPlaintextMeta then return [header, packet]
  else do
    let body ← sendOnAuth (MetaConnectionAuth.sendSptpsApplication p packet)
    return [header, body]

/-- The line that announces a packet of SPTPS, and the packet. -/
def sendSptpsPacket (p : Primitives) (packet : List UInt8) : SendM (List (List UInt8)) := do
  ensureActivated
  let length ← .ofExcept (checkedTcpPacketLength packet.length)
  let header ← sendMetaMessage p (.sptpsTcpPacket ⟨length⟩)
  return [header, packet]

end MetaConnectionDriver

/-- A call of one of the sending functions of a driver. -/
inductive MetaSend where
  | message (message : MetaMessage)
  | tcpPacket (packet : List UInt8)
  | sptpsPacket (packet : List UInt8)
deriving DecidableEq

namespace MetaSend

/-- The message that comes first: a packet has a header. -/
def first : MetaSend → MetaMessage
  | message m => m
  | tcpPacket packet => .tcpPacket ⟨UInt16.ofNat packet.length⟩
  | sptpsPacket packet => .sptpsTcpPacket ⟨UInt16.ofNat packet.length⟩

/-- What the other side is to make of it. -/
def events (send : MetaSend) : List MetaConnectionEvent :=
  .message send.first :: match send with
    | message _ => []
    | tcpPacket packet => [.tcpPacket packet]
    | sptpsPacket packet => [.sptpsPacket packet]

/-- A message that the parser can produce, other than an ID and the headers of packets. -/
def Sendable : MetaSend → Prop
  | message m => (∃ line, parseMetaMessage line = .ok m) ∧
      m.request ≠ .id ∧ m.request ≠ .packet ∧ m.request ≠ .sptpsPacket
  | _ => True

end MetaSend

namespace MetaConnectionDriver

/-- The pieces that are sent for a request. -/
def send (p : Primitives) : MetaSend → SendM (List (List UInt8))
  | .message m => do
      let bytes ← sendMetaMessage p m
      return [bytes]
  | .tcpPacket packet => sendTcpPacket p packet
  | .sptpsPacket packet => sendSptpsPacket p packet

/-- Calls of the sending functions, up to the first failure. -/
def sendAll (p : Primitives) : List MetaSend → SendM (List (List UInt8))
  | [] => pure []
  | first :: rest => do
      let bytes ← send p first
      let more ← sendAll p rest
      return bytes ++ more

/-! ### Connections that are activated -/

/-- An activated connection with security, whose session has the given codec. -/
structure Carries (d : MetaConnectionDriver) (codec : SptpsHandshakeCodec) : Prop where
  state : d.auth.state = .activated
  bypass : d.auth.bypassSecurity = false
  peer : ∃ peer, d.auth.peer = some peer
  session : ∃ session, d.auth.session = some session ∧ session.codec = codec

end MetaConnectionDriver

/-- Two codecs of a stream, one at each end, with the same keys and the same numbers. -/
structure SptpsHandshakeCodec.Matches (codec codec' : SptpsHandshakeCodec) : Prop where
  isTcp : codec.isTcp = true ∧ codec'.isTcp = true
  keys : ∃ key, codec.outKey = some key ∧ codec'.inKey = some key
  back_keys : ∃ key, codec.inKey = some key ∧ codec'.outKey = some key
  numbers : codec.nextOut = codec'.nextIn
  back_numbers : codec.nextIn = codec'.nextOut

/-- **The two ends of a connection match**: both are activated, with the same keys and numbers. -/
def MetaConnectionDriver.Matches (a d : MetaConnectionDriver) : Prop :=
  ∃ codec codec', a.Carries codec ∧ d.Carries codec' ∧ codec.Matches codec'

namespace MetaConnectionDriver

section Sending

variable {p : Primitives} {a : MetaConnectionDriver} {codec : SptpsHandshakeCodec}
  {key : SptpsKey}

/-- An application record. -/
def sealMeta (p : Primitives) (key : SptpsKey) (seqno : UInt32) (payload : List UInt8) :
    List UInt8 :=
  SptpsHandshakeCodec.sealRecord p true (some key) seqno sptpsMetaRecord payload

lemma Carries.usesPlaintextMeta (h : a.Carries codec) : a.auth.usesPlaintextMeta = false := by
  rw [MetaConnectionAuth.usesPlaintextMeta, h.bypass, Bool.false_and]

/-- An application record is sent when it is not too large. -/
lemma exec_sendApplication (h : a.Carries codec) (htcp : codec.isTcp = true)
    (hkey : codec.outKey = some key) (payload : List UInt8) :
    (∃ a', (sendOnAuth (MetaConnectionAuth.sendSptpsApplication p payload)).exec a =
        (.ok (sealMeta p key codec.nextOut payload), a') ∧ a'.Carries codec.sent ∧
        payload.length ≤ 65535) ∨
      ∃ e, (sendOnAuth (MetaConnectionAuth.sendSptpsApplication p payload)).exec a =
        (.error e, a) := by
  obtain ⟨session, hsession, rfl⟩ := h.session
  have hexec : (sendOnAuth (MetaConnectionAuth.sendSptpsApplication p payload)).exec a =
      let r := (SptpsHandshakeCodec.encode p sptpsMetaRecord payload).exec session.codec
      ((r.1.mapError .sptps).mapError .auth,
        { a with auth := { a.auth with session := some { session with codec := r.2 } } }) := by
    rw [sendOnAuth, Stateful.exec_ofFn, MetaConnectionAuth.sendSptpsApplication,
      MetaConnectionAuth.onSession, Stateful.exec_ofFn, hsession]
    rfl
  rw [hexec]
  by_cases hlen : payload.length ≤ 65535
  · left
    have hencode := SptpsHandshakeCodec.exec_encode (p := p) session.codec sptpsMetaRecord payload
      ⟨by decide, fun _ => hlen⟩
    rw [hencode, htcp, hkey]
    exact ⟨_, rfl, ⟨h.state, h.bypass, h.peer, _, rfl, rfl⟩, hlen⟩
  · right
    obtain ⟨e, he⟩ := SptpsHandshakeCodec.exec_encode_error (p := p) session.codec sptpsMetaRecord
      payload fun henc => hlen (henc.2 htcp)
    rw [he]
    refine ⟨_, Prod.ext rfl ?_⟩
    obtain ⟨auth, _, _, _⟩ := a
    obtain ⟨_, _, _, _, _, _, _, _, _, _, _, _⟩ := auth
    cases hsession
    rfl

lemma exec_sendMetaMessage (h : a.Carries codec) {m : MetaMessage} (hid : m.request ≠ .id) :
    (sendMetaMessage p m).exec a =
      (sendOnAuth (MetaConnectionAuth.sendSptpsApplication p (encodeMetaLine m))).exec a := by
  rw [sendMetaMessage, Stateful.exec_bind, Stateful.exec_get]
  simp only [h.usesPlaintextMeta, hid, or_self, Bool.false_eq_true, if_false]

/-- The message that comes first is sent as a record. -/
lemma exec_sendMetaMessage_ok (h : a.Carries codec) (htcp : codec.isTcp = true)
    (hkey : codec.outKey = some key) {m : MetaMessage} (hid : m.request ≠ .id) {bytes : List UInt8}
    {a' : MetaConnectionDriver} (hexec : (sendMetaMessage p m).exec a = (.ok bytes, a')) :
    bytes = sealMeta p key codec.nextOut (encodeMetaLine m) ∧ a'.Carries codec.sent ∧
      (encodeMetaLine m).length ≤ 65535 := by
  rw [exec_sendMetaMessage h hid] at hexec
  rcases exec_sendApplication (p := p) h htcp hkey (encodeMetaLine m) with
    ⟨a₁, hok, hcarries, hlen⟩ | ⟨e, herror⟩
  · rw [hok] at hexec
    cases hexec
    exact ⟨rfl, hcarries, hlen⟩
  · rw [herror] at hexec
    cases hexec

lemma checkedTcpPacketLength_eq_ok {length : ℕ} {n : UInt16}
    (h : checkedTcpPacketLength length = .ok n) : length < 2 ^ 15 ∧ n = UInt16.ofNat length := by
  rw [checkedTcpPacketLength] at h
  split_ifs at h with hlarge
  cases h
  exact ⟨by omega, rfl⟩

/-- A packet is sent after its header, by an activated connection, if it is not too large. -/
lemma exec_sendPacket_ok {packet : List UInt8} {out : List (List UInt8)} {a' : MetaConnectionDriver}
    {f : UInt16 → SendM (List (List UInt8))}
    (h : (do ensureActivated
             let length ← .ofExcept (checkedTcpPacketLength packet.length)
             f length : SendM (List (List UInt8))).exec a = (.ok out, a')) :
    packet.length < 2 ^ 15 ∧ (f (UInt16.ofNat packet.length)).exec a = (.ok out, a') := by
  obtain ⟨_, a₁, hstate, h⟩ := Stateful.exec_bind_eq_ok.mp h
  rw [ensureActivated, Stateful.exec_bind, Stateful.exec_get] at hstate
  simp only [Stateful.exec_ite] at hstate
  split_ifs at hstate
  · cases hstate
    obtain ⟨n, a₂, hlen, h⟩ := Stateful.exec_bind_eq_ok.mp h
    rw [Stateful.exec_ofExcept, Prod.mk.injEq] at hlen
    obtain ⟨hlen, rfl⟩ := hlen
    obtain ⟨hlt, rfl⟩ := checkedTcpPacketLength_eq_ok hlen
    exact ⟨hlt, h⟩
  · cases hstate

end Sending

end MetaConnectionDriver

/-! ### What is put on the stream -/

/-- A part of the stream that is read as a whole. -/
inductive MetaPiece where
  | record (bytes : List UInt8)
  | body (packet : List UInt8)
deriving DecidableEq

/-- The bytes of a piece. -/
def MetaPiece.bytes : MetaPiece → List UInt8
  | record bytes => bytes
  | body packet => packet

namespace MetaSend

/-- The packet of a request, which messages do not have. -/
def packet : MetaSend → List UInt8
  | message _ => []
  | tcpPacket packet => packet
  | sptpsPacket packet => packet

/-- The pieces of a send, from a number on. -/
def pieces (p : Primitives) (key : SptpsKey) (seqno : UInt32) (send : MetaSend) : List MetaPiece :=
  .record (MetaConnectionDriver.sealMeta p key seqno (encodeMetaLine send.first)) ::
    match send with
    | message _ => []
    | tcpPacket packet => [.record (MetaConnectionDriver.sealMeta p key (seqno + 1) packet)]
    | sptpsPacket packet => if packet = [] then [] else [.body packet]

/-- What happens to a codec, once for each record. -/
def advance (step : SptpsHandshakeCodec → SptpsHandshakeCodec) (codec : SptpsHandshakeCodec) :
    MetaSend → SptpsHandshakeCodec
  | tcpPacket _ => step (step codec)
  | _ => step codec

/-- The sizes are accepted. -/
def Accepted (send : MetaSend) : Prop :=
  (encodeMetaLine send.first).length ≤ 65535 ∧ send.packet.length < 2 ^ 15

lemma Sendable.first_ne_id {send : MetaSend} (h : send.Sendable) : send.first.request ≠ .id := by
  cases send with
  | message m => exact h.2.1
  | _ => simp [first, MetaMessage.request]

end MetaSend

namespace MetaConnectionDriver

variable {p : Primitives} {a a' : MetaConnectionDriver} {codec : SptpsHandshakeCodec}
  {key : SptpsKey}

/-- **What a send puts on the stream**, when it is accepted. -/
theorem exec_send (h : a.Carries codec) (htcp : codec.isTcp = true)
    (hkey : codec.outKey = some key) {s : MetaSend} (hsend : s.Sendable) {out : List (List UInt8)}
    (hexec : (send p s).exec a = (.ok out, a')) :
    out.flatten = (s.pieces p key codec.nextOut).flatMap MetaPiece.bytes ∧
      a'.Carries (s.advance .sent codec) ∧ s.Accepted := by
  have hid := hsend.first_ne_id
  cases s with
  | message m =>
      obtain ⟨bytes, a₁, hheader, hpure⟩ := Stateful.exec_bind_eq_ok.mp hexec
      obtain ⟨rfl, hcarries, hlen⟩ := exec_sendMetaMessage_ok h htcp hkey hid hheader
      cases hpure
      exact ⟨by simp [MetaSend.pieces, MetaPiece.bytes, MetaSend.first], hcarries, hlen, by
        simp [MetaSend.packet]⟩
  | tcpPacket packet =>
      obtain ⟨hshort, hexec⟩ := exec_sendPacket_ok hexec
      obtain ⟨header, a₁, hheader, hexec⟩ := Stateful.exec_bind_eq_ok.mp hexec
      obtain ⟨rfl, hcarries, hlen⟩ := exec_sendMetaMessage_ok h htcp hkey hid hheader
      rw [Stateful.exec_bind, Stateful.exec_get] at hexec
      simp only [hcarries.usesPlaintextMeta, Bool.false_eq_true, if_false]
        at hexec
      obtain ⟨body, a₂, hbody, hpure⟩ := Stateful.exec_bind_eq_ok.mp hexec
      cases hpure
      rcases exec_sendApplication (p := p) hcarries (by simpa using htcp) (by simpa using hkey)
        packet with ⟨a₃, hok, hcarries', -⟩ | ⟨e, herror⟩
      · rw [hok] at hbody
        cases hbody
        exact ⟨by simp [MetaSend.pieces, MetaPiece.bytes, MetaSend.first], hcarries', hlen, hshort⟩
      · rw [herror] at hbody
        cases hbody
  | sptpsPacket packet =>
      obtain ⟨hshort, hexec⟩ := exec_sendPacket_ok hexec
      obtain ⟨header, a₁, hheader, hpure⟩ := Stateful.exec_bind_eq_ok.mp hexec
      obtain ⟨rfl, hcarries, hlen⟩ := exec_sendMetaMessage_ok h htcp hkey hid hheader
      cases hpure
      refine ⟨?_, hcarries, hlen, hshort⟩
      by_cases hnil : packet = [] <;>
        simp [MetaSend.pieces, MetaPiece.bytes, MetaSend.first, hnil]

end MetaConnectionDriver

end RustyTinc

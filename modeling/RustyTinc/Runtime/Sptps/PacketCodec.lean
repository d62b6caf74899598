import RustyTinc.Core.Frame
import RustyTinc.Runtime.KeyExchange
import RustyTinc.Runtime.Meta.Stream
import RustyTinc.Runtime.Sptps.Encryption

/-!
Packets as records of SPTPS sessions, in datagrams that other nodes may pass on.

* `RelayEnvelope`: a record with the nodes that it goes to and comes from;
* `SptpsPacketCodec`: the sessions of a node, and what seals and opens its records;
* `send_seals`, `exec_decodeRecord`: what is sent is one record, and the session of its source
  opens it;
* `arrives_mac`, `arrives_ip`: what arrives of a packet.
-/

namespace RustyTinc

open Bytes

/-- The first bytes of the hash of the name of a node. -/
structure NodeId where
  bytes : Vector UInt8 nodeIdLen

namespace NodeId

/-- The id that stands for no node. -/
def null : NodeId := ⟨Vector.replicate nodeIdLen 0⟩

/-- Identifiers are ordered as byte strings. -/
instance : LinearOrder NodeId :=
  LinearOrder.lift' (fun id => id.bytes.toList.map UInt8.toNat) fun a b h => by
    have hinj : Function.Injective UInt8.toNat := fun _ _ => UInt8.toNat_inj.mp
    exact congrArg NodeId.mk (toList_inj (List.map_injective_iff.mpr hinj h))

end NodeId

/-- The names of the nodes and their ids. -/
structure NodeIdTable where
  byName : OrdMap String NodeId := .empty
  byId : OrdMap NodeId String := .empty

namespace NodeIdTable

/-- A name gets an identifier, and the one that it had before is forgotten. -/
def insert (t : NodeIdTable) (name : String) (id : NodeId) : NodeIdTable × Option NodeId :=
  let previous := t.byName.get? name
  let byId := match previous with
    | some previous => t.byId.erase previous
    | none => t.byId
  (⟨t.byName.insert name id, if id = .null then byId else byId.insert id name⟩, previous)

/-- The id of a name. -/
def id (t : NodeIdTable) (name : String) : Option NodeId := t.byName.get? name

/-- The name of an id. -/
def name (t : NodeIdTable) (id : NodeId) : Option String := t.byId.get? id

end NodeIdTable

/-! ### Envelopes -/

/-- The kinds of errors that decoding gives. -/
inductive ErrorKind where
  | unexpectedEof
  | notFound
  | invalidData
deriving DecidableEq

/-- Why a packet or a record is not sent or not taken. -/
inductive PacketCodecError where
  | io (kind : ErrorKind) (text : String)
  | device (error : DeviceError)
  | sptps (error : SptpsError)
deriving DecidableEq

/-- A datagram that names its destination and its source. -/
structure RelayEnvelope where
  destination : NodeId
  source : NodeId
  payload : List UInt8
deriving DecidableEq

namespace RelayEnvelope

/-- A datagram for the node to which it is sent. -/
def direct (source : NodeId) (payload : List UInt8) : RelayEnvelope := ⟨.null, source, payload⟩

/-- A datagram that another node passes on. -/
def relayed (destination source : NodeId) (payload : List UInt8) : RelayEnvelope :=
  ⟨destination, source, payload⟩

/-- The bytes of a datagram. -/
def encode (e : RelayEnvelope) : List UInt8 :=
  e.destination.bytes.toList ++ e.source.bytes.toList ++ e.payload

/-- The two ids and the payload of a datagram. -/
def decode (datagram : List UInt8) : Except PacketCodecError RelayEnvelope :=
  if datagram.length < relayHeaderLen then
    .error (.io .unexpectedEof ("relay datagram too short: " ++ toString datagram.length ++ " < " ++
      toString relayHeaderLen))
  else
    .ok ⟨⟨array nodeIdLen datagram⟩, ⟨array nodeIdLen (datagram.drop nodeIdLen)⟩,
      datagram.drop relayHeaderLen⟩

lemma length_encode (e : RelayEnvelope) : e.encode.length = relayHeaderLen + e.payload.length := by
  simp only [encode, List.length_append, Vector.length_toList, relayHeaderLen]
  omega

lemma drop_encode (e : RelayEnvelope) : e.encode.drop relayHeaderLen = e.payload := by
  rw [encode]
  refine List.drop_left' ?_
  rw [List.length_append, Vector.length_toList, Vector.length_toList]
  rfl

/-- **An envelope is read back.** -/
lemma decode_encode (e : RelayEnvelope) : decode e.encode = .ok e := by
  have hlength := length_encode e
  have hdest : array nodeIdLen e.encode = e.destination.bytes := by
    rw [encode, List.append_assoc]
    exact array_append _ _
  have hsource : array nodeIdLen (e.encode.drop nodeIdLen) = e.source.bytes := by
    rw [encode, List.append_assoc, List.drop_left' Vector.length_toList]
    exact array_append _ _
  rw [decode, if_neg (by omega), hdest, hsource, drop_encode]

lemma payload_of_decode {datagram : List UInt8} {e : RelayEnvelope} (h : decode datagram = .ok e) :
    e.payload = datagram.drop relayHeaderLen := by
  rw [decode] at h
  split_ifs at h
  exact (congrArg payload (Except.ok.inj h)).symm

end RelayEnvelope

/-! ### Packets and payloads -/

/-- The bit of a record type that tells of a header of Ethernet. -/
def sptpsPacketTypeMac : UInt8 := 0x02

/-- The records of this type hold the header of Ethernet. -/
def sptpsPacketTypeHasMacHeader (packetType : UInt8) : Bool := packetType &&& sptpsPacketTypeMac ≠ 0

/-- The payload of a packet, with or without its header. -/
def sptpsPayloadFromPacket (packetType : UInt8) (packet : VpnPacket) :
    Except PacketCodecError (List UInt8) :=
  if sptpsPacketTypeHasMacHeader packetType then .ok packet.data
  else if packet.data.length < ethHlen then
    .error (.device (.packetTooShort ethHlen packet.data.length))
  else .ok (packet.data.drop ethHlen)

/-- The packet of a payload without a link header; its type is that of its IP version. -/
def sptpsPacketFromPayload (packetType : UInt8) (payload : List UInt8) :
    Except PacketCodecError VpnPacket :=
  if sptpsPacketTypeHasMacHeader packetType then (VpnPacket.new payload).mapError .device
  else
    match payload with
    | [] => .error (.device (.packetTooShort 1 0))
    | first :: _ => do
        let etherType ←
          (if first >>> 4 = 4 then .ok ethPIp
          else if first >>> 4 = 6 then .ok ethPIpv6
          else .error (.device (.unknownIpVersion (first >>> 4))) : Except PacketCodecError ℕ)
        let frame := List.replicate (ethHlen - 2) 0 ++ bigEndian 2 etherType ++ payload
        (VpnPacket.new frame).mapError .device

section Packets

variable {packetType : UInt8} {packet : VpnPacket} {payload : List UInt8}

/-- **A frame arrives as it is** in a session for frames. -/
lemma arrives_mac (hmac : sptpsPacketTypeHasMacHeader packetType = true)
    (hlength : packet.data.length ≤ mtu)
    (h : sptpsPayloadFromPacket packetType packet = .ok payload) :
    sptpsPacketFromPayload packetType payload = .ok { data := packet.data } := by
  rw [sptpsPayloadFromPacket, if_pos hmac] at h
  obtain rfl := Except.ok.inj h
  rw [sptpsPacketFromPayload.eq_def, if_pos hmac, VpnPacket.new_of_le hlength]
  rfl

/-- **An IP packet arrives** in a session for packets, without the addresses of its link. -/
lemma arrives_ip (hmac : sptpsPacketTypeHasMacHeader packetType = false)
    (hlength : packet.data.length ≤ mtu)
    (hip : u16At packet.data 12 = ethPIp ∧ packet.data.getD 14 0 >>> 4 = 4 ∨
      u16At packet.data 12 = ethPIpv6 ∧ packet.data.getD 14 0 >>> 4 = 6)
    (h : sptpsPayloadFromPacket packetType packet = .ok payload) :
    sptpsPacketFromPayload packetType payload =
      .ok { data := List.replicate 12 0 ++ packet.data.drop 12 } := by
  obtain ⟨data, priority⟩ := packet
  dsimp only at hlength hip ⊢
  have hlong : 14 < data.length := by
    by_contra hshort
    rw [List.getD_eq_default _ _ (not_lt.mp hshort)] at hip
    rcases hip with ⟨-, h⟩ | ⟨-, h⟩ <;> exact absurd h (by decide)
  rw [sptpsPayloadFromPacket, if_neg (by rw [hmac]; exact Bool.false_ne_true), ethHlen,
    if_neg (by dsimp only; omega)] at h
  obtain rfl := Except.ok.inj h
  have hpayload : data.drop 14 = data.getD 14 0 :: data.drop 15 := by
    rw [List.drop_eq_getElem_cons hlong, List.getD_eq_getElem _ _ hlong]
  have hframe : bigEndian 2 (u16At data 12) ++ data.drop 14 = data.drop 12 := by
    have h12 : 12 < data.length := by omega
    have h13 : 13 < data.length := by omega
    rw [List.drop_eq_getElem_cons h12, List.drop_eq_getElem_cons h13, bigEndian_u16At,
      List.getD_eq_getElem _ _ h12, List.getD_eq_getElem _ _ h13]
    rfl
  have hnew : VpnPacket.new (List.replicate 12 0 ++ data.drop 12) =
      .ok { data := List.replicate 12 0 ++ data.drop 12 } := by
    refine VpnPacket.new_of_le ?_
    rw [List.length_append, List.length_replicate, List.length_drop]
    omega
  rw [sptpsPacketFromPayload.eq_def, if_neg (by rw [hmac]; exact Bool.false_ne_true), hpayload]
  dsimp only
  rw [← hpayload]
  rcases hip with ⟨htype, hversion⟩ | ⟨htype, hversion⟩
  · rw [if_pos hversion, ← htype]
    show (VpnPacket.new (List.replicate 12 0 ++ bigEndian 2 (u16At data 12) ++ data.drop 14)).mapError
      PacketCodecError.device = _
    rw [List.append_assoc, hframe, hnew]
    rfl
  · rw [if_neg (by rw [hversion]; decide), if_pos hversion, ← htype]
    show (VpnPacket.new (List.replicate 12 0 ++ bigEndian 2 (u16At data 12) ++ data.drop 14)).mapError
      PacketCodecError.device = _
    rw [List.append_assoc, hframe, hnew]
    rfl

end Packets

/-! ### Sessions -/

namespace SptpsPeerSession

/-- The bytes of a record for the peer. -/
def encodeRecordWithType (p : Primitives) (recordType : UInt8) (payload : List UInt8) :
    Stateful SptpsError SptpsPeerSession (List UInt8) :=
  .ofFn fun s =>
    match s.state with
    | .codec codec =>
        let r := (SptpsDatagramCodec.encode p recordType payload).exec codec
        (r.1, { s with state := .codec r.2 })
    | .handshake session =>
        let r := (SptpsHandshakeSession.sendRecord p recordType payload).exec session
        (r.1, { s with state := .handshake r.2 })

/-- Whatever a handshake record brings about, it is answered with an error. -/
def decodeRecord (p : Primitives) (fresh : Fresh) (datagram : List UInt8) :
    Stateful SptpsError SptpsPeerSession SptpsRecord :=
  .ofFn fun s =>
    match s.state with
    | .codec codec =>
        let r := (SptpsDatagramCodec.decode p datagram).exec codec
        (r.1, { s with state := .codec r.2 })
    | .handshake session =>
        let r := (SptpsHandshakeSession.receiveDatagram p fresh datagram).exec session
        let record := match r.1 with
          | .ok [.applicationRecord recordType payload] => .ok ⟨0, recordType, payload⟩
          | .ok _ => .error (.invalidRecordType sptpsHandshake)
          | .error e => .error e
        (record, { s with state := .handshake r.2 })

/-- A session that came out of a handshake, with the codec for its datagrams. -/
def Holds (s : SptpsPeerSession) (codec : SptpsDatagramCodec) : Prop :=
  ∃ session, s.state = .handshake session ∧ session.codec = .datagram codec

section Holds

variable {p : Primitives} {s : SptpsPeerSession} {codec : SptpsDatagramCodec} {recordType : UInt8}

/-- An application record is sealed with the next number. -/
lemma Holds.exec_encodeRecordWithType (h : s.Holds codec) (htype : recordType < sptpsHandshake)
    (payload : List UInt8) :
    ∃ s', (encodeRecordWithType p recordType payload).exec s =
        (.ok (bigEndian sptpsSeqnoLen codec.outSeqno.toNat ++
          sealBody p codec.outKey codec.outSeqno (recordType :: payload)), s') ∧
      s'.Holds { codec with outSeqno := codec.outSeqno + 1 } ∧ s'.packetType = s.packetType := by
  obtain ⟨session, hstate, hcodec⟩ := h
  have hencodable : SptpsHandshakeCodec.Encodable session.codec.isTcp recordType payload :=
    ⟨UInt8.le_of_lt htype, fun htcp => by rw [hcodec] at htcp; cases htcp⟩
  have hsend : (SptpsHandshakeSession.sendRecord p recordType payload).exec session =
      (.ok (bigEndian sptpsSeqnoLen codec.outSeqno.toNat ++
        sealBody p codec.outKey codec.outSeqno (recordType :: payload)),
        { session with codec := .datagram { codec with outSeqno := codec.outSeqno + 1 } }) := by
    rw [SptpsHandshakeSession.sendRecord, if_neg (UInt8.not_le.mpr htype),
      SptpsHandshakeSession.encode, Stateful.exec_zoom,
      SptpsHandshakeCodec.exec_encode _ _ _ hencodable, hcodec]
    rfl
  refine ⟨{ s with state := .handshake { session with
    codec := .datagram { codec with outSeqno := codec.outSeqno + 1 } } }, ?_, ⟨_, rfl, rfl⟩, rfl⟩
  rw [encodeRecordWithType, Stateful.exec_ofFn, hstate]
  simp only [hsend]

/-- A handshake record is not sent, and nothing is changed. -/
lemma Holds.exec_encodeRecordWithType_error (h : s.Holds codec)
    (htype : ¬ recordType < sptpsHandshake) (payload : List UInt8) :
    (encodeRecordWithType p recordType payload).exec s = (.error (.invalidRecordType recordType), s) := by
  obtain ⟨session, hstate, -⟩ := h
  obtain ⟨state, packetType, hlt⟩ := s
  obtain rfl : state = .handshake session := hstate
  rw [encodeRecordWithType, Stateful.exec_ofFn]
  simp only
  rw [SptpsHandshakeSession.sendRecord, if_pos (UInt8.not_lt.mp htype)]
  rfl

/-- A datagram is opened as the codec does it, unless it is a handshake record. -/
lemma Holds.exec_decodeRecord (h : s.Holds codec) (fresh : Fresh) (datagram : List UInt8)
    (htype : ∀ record, ((SptpsDatagramCodec.decode p datagram).exec codec).1 = .ok record →
      record.recordType < sptpsHandshake) :
    ∃ s', (decodeRecord p fresh datagram).exec s =
        (((SptpsDatagramCodec.decode p datagram).exec codec).1.map
          fun record => ⟨0, record.recordType, record.payload⟩, s') ∧
      s'.Holds ((SptpsDatagramCodec.decode p datagram).exec codec).2 ∧
      s'.packetType = s.packetType := by
  obtain ⟨session, hstate, hcodec⟩ := h
  generalize hdecode : (SptpsDatagramCodec.decode p datagram).exec codec = decoded at htype ⊢
  obtain ⟨result, codec'⟩ := decoded
  have hopen : (SptpsHandshakeCodec.decode p datagram).exec session.codec =
      (result, .datagram codec') := by
    rw [SptpsHandshakeCodec.decode, Stateful.exec_ofFn, hcodec]
    simp only [hdecode]
  have hreceive : (SptpsHandshakeSession.receiveDatagram p fresh datagram).exec session =
      (result.map fun record => [.applicationRecord record.recordType record.payload],
        { session with codec := .datagram codec' }) := by
    rw [SptpsHandshakeSession.receiveDatagram, Stateful.exec_bind, Stateful.exec_zoom, hopen]
    cases result with
    | error e => rfl
    | ok record =>
        have hlt := htype record rfl
        have hne : record.recordType ≠ sptpsHandshake := fun heq => by
          rw [heq] at hlt
          exact absurd hlt (by decide)
        simp only [if_neg hne, if_pos hlt]
        rfl
  refine ⟨{ s with state := .handshake { session with codec := .datagram codec' } }, ?_,
    ⟨_, rfl, rfl⟩, rfl⟩
  rw [decodeRecord, Stateful.exec_ofFn, hstate]
  simp only [hreceive]
  cases result <;> rfl

end Holds

end SptpsPeerSession

/-! ### The sessions of a node -/

/-- A record that was decoded. -/
structure SptpsDecodedRecord where
  recordType : UInt8
  payload : List UInt8
deriving DecidableEq

/-- The sessions with all peers, for packets. -/
structure SptpsPacketCodec where
  ids : NodeIdTable
  myself : NodeId
  peers : OrdMap String SptpsPeerSession := .empty

namespace SptpsPacketCodec

/-- A computation on the codec of a node. -/
abbrev CodecM (α : Type) := Stateful PacketCodecError SptpsPacketCodec α

/-- A new session with a peer. -/
def insertPeer (c : SptpsPacketCodec) (name : String) (session : SptpsPeerSession) :
    SptpsPacketCodec :=
  { c with peers := c.peers.insert name session }

/-- The error for a peer without a session. -/
def missingSession (name : String) : PacketCodecError :=
  .io .notFound ("missing SPTPS session for " ++ name)

/-- A computation on the session of a peer. -/
def onPeer {α : Type} (name : String) (x : Stateful SptpsError SptpsPeerSession α) : CodecM α :=
  .ofFn fun c =>
    match c.peers.get? name with
    | none => (.error (missingSession name), c)
    | some peer => ((x.exec peer).1.mapError .sptps, c.insertPeer name (x.exec peer).2)

/-- The record of some bytes for a peer. -/
def encodeRecordPayloadFor (p : Primitives) (target : String) (recordType : UInt8)
    (payload : List UInt8) : CodecM (List UInt8) :=
  onPeer target (SptpsPeerSession.encodeRecordWithType p recordType payload)

/-- The record of a packet for a peer. -/
def encodeRecordFor (p : Primitives) (target : String) (packet : VpnPacket) :
    CodecM (List UInt8) := do
  let c ← get
  match c.peers.get? target with
  | none => throw (missingSession target)
  | some peer => do
      let payload ← .ofExcept (sptpsPayloadFromPacket peer.packetType packet)
      encodeRecordPayloadFor p target peer.packetType payload

/-- The id of a node, which must be known. -/
def targetId (target : String) : CodecM NodeId := do
  let c ← get
  match c.ids.id target with
  | none => throw (.io .notFound ("unknown target node ID for " ++ target))
  | some id => return id

/-- The datagram of a packet for a node to which it is sent. -/
def encodeDirect (p : Primitives) (target : String) (packet : VpnPacket) :
    CodecM (List UInt8) := do
  let record ← encodeRecordFor p target packet
  let c ← get
  return (RelayEnvelope.direct c.myself record).encode

/-- The datagram of a packet that another node passes on. -/
def encodeRelayed (p : Primitives) (target : String) (packet : VpnPacket) :
    CodecM (List UInt8) := do
  let id ← targetId target
  let record ← encodeRecordFor p target packet
  let c ← get
  return (RelayEnvelope.relayed id c.myself record).encode

/-- The datagram of a record for a node to which it is sent. -/
def encodeDirectRecord (p : Primitives) (target : String) (recordType : UInt8)
    (payload : List UInt8) : CodecM (List UInt8) := do
  let record ← encodeRecordPayloadFor p target recordType payload
  let c ← get
  return (RelayEnvelope.direct c.myself record).encode

/-- The datagram of a record that another node passes on. -/
def encodeRelayedRecord (p : Primitives) (target : String) (recordType : UInt8)
    (payload : List UInt8) : CodecM (List UInt8) := do
  let id ← targetId target
  let record ← encodeRecordPayloadFor p target recordType payload
  let c ← get
  return (RelayEnvelope.relayed id c.myself record).encode

/-- The session that a datagram from `source` is for, and what it is to open. -/
def recordOf (c : SptpsPacketCodec) (source : String) (datagram : List UInt8) :
    Except PacketCodecError (List UInt8) := do
  let envelope ← RelayEnvelope.decode datagram
  match c.ids.name envelope.source with
  | none => .error (.io .invalidData "unknown source node ID in SPTPS datagram")
  | some sourceName =>
      if sourceName ≠ source then
        .error (.io .invalidData ("source address " ++ source ++
          " does not match SPTPS source ID " ++ sourceName))
      else if envelope.destination ≠ .null ∧ envelope.destination ≠ c.myself then
        .error (.io .invalidData "SPTPS datagram is not addressed to this node")
      else .ok envelope.payload

/-- The record of a datagram from a node. -/
def decodeRecord (p : Primitives) (fresh : Fresh) (source : String) (datagram : List UInt8) :
    CodecM SptpsDecodedRecord := do
  let c ← get
  let payload ← .ofExcept (c.recordOf source datagram)
  let record ← onPeer source (SptpsPeerSession.decodeRecord p fresh payload)
  return ⟨record.recordType, record.payload⟩

/-- The packet of a datagram from a node. -/
def decode (p : Primitives) (fresh : Fresh) (source : String) (datagram : List UInt8) :
    CodecM VpnPacket := do
  let c ← get
  match c.peers.get? source with
  | none => throw (missingSession source)
  | some peer => do
      let record ← decodeRecord p fresh source datagram
      if record.recordType ≠ peer.packetType then
        throw (.io .invalidData ("unexpected SPTPS record type " ++ toString record.recordType ++
          " from " ++ source ++ ", expected " ++ toString peer.packetType))
      else .ofExcept (sptpsPacketFromPayload record.recordType record.payload)

/-! ### What the functions do -/

/-- What a node sends to a peer: a record or a packet, to the peer itself or through others. -/
inductive Outgoing where
  | record (direct : Bool) (record : SptpsDecodedRecord)
  | packet (direct : Bool) (packet : VpnPacket)

/-- The datagram of what is to be sent. -/
def send (p : Primitives) (target : String) : Outgoing → CodecM (List UInt8)
  | .record true record => encodeDirectRecord p target record.recordType record.payload
  | .record false record => encodeRelayedRecord p target record.recordType record.payload
  | .packet true packet => encodeDirect p target packet
  | .packet false packet => encodeRelayed p target packet

/-- The record for what is sent. -/
def recordFor (c : SptpsPacketCodec) (target : String) : Outgoing → Option SptpsDecodedRecord
  | .record _ record => some record
  | .packet _ packet => do
      let peer ← c.peers.get? target
      let payload ← (sptpsPayloadFromPacket peer.packetType packet).toOption
      return ⟨peer.packetType, payload⟩

section Exec

variable {p : Primitives} {c : SptpsPacketCodec} {name : String} {peer : SptpsPeerSession}
  {codec : SptpsDatagramCodec}

lemma insertPeer_self (h : c.peers.get? name = some peer) : c.insertPeer name peer = c := by
  have hpeers : c.peers.insert name peer = c.peers := OrdMap.ext_get? fun k => by
    rw [OrdMap.get?_insert]
    split_ifs with hk
    · rw [hk, h]
    · rfl
  rw [insertPeer, hpeers]

lemma exec_onPeer {α : Type} (h : c.peers.get? name = some peer)
    (x : Stateful SptpsError SptpsPeerSession α) :
    (onPeer name x).exec c = ((x.exec peer).1.mapError .sptps, c.insertPeer name (x.exec peer).2) := by
  rw [onPeer, Stateful.exec_ofFn, h]

/-- A record is sealed by the session of a peer and wrapped, or nothing is changed. -/
def Seals (p : Primitives) (c : SptpsPacketCodec) (name : String) (codec : SptpsDatagramCodec)
    (record : SptpsDecodedRecord) (wrap : List UInt8 → List UInt8)
    (r : Except PacketCodecError (List UInt8) × SptpsPacketCodec) : Prop :=
  (∃ e, r = (.error e, c)) ∨ record.recordType < sptpsHandshake ∧ ∃ peer', peer'.Holds
    { codec with outSeqno := codec.outSeqno + 1 } ∧
    r = (.ok (wrap (bigEndian sptpsSeqnoLen codec.outSeqno.toNat ++
      sealBody p codec.outKey codec.outSeqno (record.recordType :: record.payload))),
      c.insertPeer name peer')

/-- A record is sealed for its peer. -/
lemma encodeRecordPayloadFor_seals (h : c.peers.get? name = some peer) (hholds : peer.Holds codec)
    (record : SptpsDecodedRecord) :
    Seals p c name codec record id
      ((encodeRecordPayloadFor p name record.recordType record.payload).exec c) := by
  rw [encodeRecordPayloadFor, exec_onPeer h]
  by_cases htype : record.recordType < sptpsHandshake
  · obtain ⟨peer', hexec, hholds', -⟩ := hholds.exec_encodeRecordWithType (p := p) htype record.payload
    refine Or.inr ⟨htype, peer', hholds', ?_⟩
    rw [hexec]
    rfl
  · rw [hholds.exec_encodeRecordWithType_error htype, insertPeer_self h]
    exact Or.inl ⟨_, rfl⟩

/-- What is sealed is wrapped. -/
lemma Seals.wrap {record : SptpsDecodedRecord} {x : CodecM (List UInt8)}
    (h : Seals p c name codec record id (x.exec c)) (wrap : NodeId → List UInt8 → List UInt8) :
    Seals p c name codec record (wrap c.myself) ((do
      let record ← x
      let c ← get
      return wrap c.myself record : CodecM (List UInt8)).exec c) := by
  rcases h with ⟨e, h⟩ | ⟨htype, peer', hholds, h⟩
  · rw [Stateful.exec_bind, h]
    exact Or.inl ⟨e, rfl⟩
  · rw [Stateful.exec_bind, h]
    exact Or.inr ⟨htype, peer', hholds, rfl⟩

lemma exec_encodeRecordFor (h : c.peers.get? name = some peer) (packet : VpnPacket) :
    (∃ e, (encodeRecordFor p name packet).exec c = (.error e, c)) ∨
    ∃ payload, sptpsPayloadFromPacket peer.packetType packet = .ok payload ∧
      (encodeRecordFor p name packet).exec c =
        (encodeRecordPayloadFor p name peer.packetType payload).exec c := by
  rw [encodeRecordFor, Stateful.exec_bind, Stateful.exec_get]
  simp only [h]
  rw [Stateful.exec_bind, Stateful.exec_ofExcept]
  cases hpayload : sptpsPayloadFromPacket peer.packetType packet with
  | error e => exact Or.inl ⟨e, rfl⟩
  | ok payload => exact Or.inr ⟨payload, rfl, rfl⟩

/-- The record of a packet is sealed. -/
lemma encodeRecordFor_seals (h : c.peers.get? name = some peer) (hholds : peer.Holds codec)
    (packet : VpnPacket) :
    (∃ e, (encodeRecordFor p name packet).exec c = (.error e, c)) ∨
    ∃ record, (∀ direct, c.recordFor name (.packet direct packet) = some record) ∧
      Seals p c name codec record id ((encodeRecordFor p name packet).exec c) := by
  rcases @exec_encodeRecordFor p c name peer h packet with ⟨e, he⟩ | ⟨payload, hpayload, heq⟩
  · exact Or.inl ⟨e, he⟩
  · refine Or.inr ⟨⟨peer.packetType, payload⟩, fun direct => ?_, ?_⟩
    · rw [recordFor, h, Option.bind_eq_bind, Option.bind_some, hpayload]
      rfl
    · rw [heq]
      exact encodeRecordPayloadFor_seals h hholds ⟨peer.packetType, payload⟩

/-- A computation that needs the identifier of its target. -/
lemma exec_targetId_bind (name : String) (f : NodeId → CodecM (List UInt8)) :
    (∃ e, (targetId name >>= f).exec c = (.error e, c)) ∨
    ∃ id, c.ids.id name = some id ∧ (targetId name >>= f).exec c = (f id).exec c := by
  rw [Stateful.exec_bind, targetId, Stateful.exec_bind, Stateful.exec_get]
  cases hid : c.ids.id name with
  | none =>
      simp only [hid]
      exact Or.inl ⟨_, rfl⟩
  | some id =>
      simp only [hid]
      exact Or.inr ⟨id, rfl, rfl⟩

/-- **What is sent is one record** in an envelope, or nothing is changed. -/
lemma send_seals (h : c.peers.get? name = some peer) (hholds : peer.Holds codec)
    (outgoing : Outgoing) :
    (∃ e, (send p name outgoing).exec c = (.error e, c)) ∨
    ∃ record destination, c.recordFor name outgoing = some record ∧
      (destination = .null ∨ c.ids.id name = some destination) ∧
      Seals p c name codec record (fun bytes => (RelayEnvelope.mk destination c.myself bytes).encode)
        ((send p name outgoing).exec c) := by
  cases outgoing with
  | record direct record =>
      have hseals := @encodeRecordPayloadFor_seals p c name peer codec h hholds record
      cases direct with
      | true =>
          exact Or.inr ⟨record, .null, rfl, Or.inl rfl,
            hseals.wrap fun myself bytes => (RelayEnvelope.mk .null myself bytes).encode⟩
      | false =>
          rcases exec_targetId_bind name fun id => do
            let bytes ← encodeRecordPayloadFor p name record.recordType record.payload
            let c ← get
            return (RelayEnvelope.relayed id c.myself bytes).encode with herror | ⟨id, hid, heq⟩
          · exact Or.inl herror
          · refine Or.inr ⟨record, id, rfl, Or.inr hid, ?_⟩
            rw [send, encodeRelayedRecord, heq]
            exact hseals.wrap fun myself bytes => (RelayEnvelope.mk id myself bytes).encode
  | packet direct packet =>
      rcases @encodeRecordFor_seals p c name peer codec h hholds packet with
        ⟨e, he⟩ | ⟨record, hrecord, hseals⟩
      · refine Or.inl ?_
        cases direct with
        | true =>
            refine ⟨e, ?_⟩
            rw [send, encodeDirect, Stateful.exec_bind, he]
        | false =>
            rcases exec_targetId_bind name fun id => do
              let bytes ← encodeRecordFor p name packet
              let c ← get
              return (RelayEnvelope.relayed id c.myself bytes).encode with herror | ⟨id, -, heq⟩
            · exact herror
            · refine ⟨e, ?_⟩
              rw [send, encodeRelayed, heq, Stateful.exec_bind, he]
      · cases direct with
        | true =>
            exact Or.inr ⟨record, .null, hrecord true, Or.inl rfl,
              hseals.wrap fun myself bytes => (RelayEnvelope.mk .null myself bytes).encode⟩
        | false =>
            rcases exec_targetId_bind name fun id => do
              let bytes ← encodeRecordFor p name packet
              let c ← get
              return (RelayEnvelope.relayed id c.myself bytes).encode with herror | ⟨id, hid, heq⟩
            · exact Or.inl herror
            · refine Or.inr ⟨record, id, hrecord false, Or.inr hid, ?_⟩
              rw [send, encodeRelayed, heq]
              exact hseals.wrap fun myself bytes => (RelayEnvelope.mk id myself bytes).encode

/-! ### What is received -/

/-- The record follows the two identifiers. -/
lemma recordOf_eq_drop {source : String} {datagram payload : List UInt8}
    (h : c.recordOf source datagram = .ok payload) : payload = datagram.drop relayHeaderLen := by
  rw [recordOf] at h
  cases henvelope : RelayEnvelope.decode datagram with
  | error e =>
      rw [henvelope] at h
      cases h
  | ok envelope =>
      rw [henvelope] at h
      dsimp only [bind, Except.bind] at h
      split at h
      · cases h
      · split_ifs at h
        rw [← Except.ok.inj h]
        exact RelayEnvelope.payload_of_decode henvelope

/-- A datagram from a known source, for this node or for whoever receives it. -/
lemma recordOf_encode {destination source : NodeId} (hname : c.ids.name source = some name)
    (hdestination : destination = .null ∨ destination = c.myself) (bytes : List UInt8) :
    c.recordOf name (RelayEnvelope.mk destination source bytes).encode = .ok bytes := by
  rw [recordOf, RelayEnvelope.decode_encode]
  dsimp only [bind, Except.bind]
  rw [hname]
  dsimp only
  rw [if_neg (not_not_intro rfl), if_neg]
  exact fun hother => hdestination.elim hother.1 hother.2

lemma exec_decodeRecord_error {fresh : Fresh} {source : String} {datagram : List UInt8}
    {e : PacketCodecError} (h : c.recordOf source datagram = .error e) :
    (decodeRecord p fresh source datagram).exec c = (.error e, c) := by
  rw [decodeRecord, Stateful.exec_bind, Stateful.exec_get]
  dsimp only
  rw [Stateful.exec_bind, h]
  rfl

/-- **A datagram for this node is opened by the session of its source.** -/
lemma exec_decodeRecord (h : c.peers.get? name = some peer) (hholds : peer.Holds codec)
    (fresh : Fresh) {datagram payload : List UInt8} (hrecord : c.recordOf name datagram = .ok payload)
    (htype : ∀ record, ((SptpsDatagramCodec.decode p payload).exec codec).1 = .ok record →
      record.recordType < sptpsHandshake) :
    ∃ peer', (decodeRecord p fresh name datagram).exec c =
        ((((SptpsDatagramCodec.decode p payload).exec codec).1.map fun record =>
          ⟨record.recordType, record.payload⟩).mapError .sptps, c.insertPeer name peer') ∧
      peer'.Holds ((SptpsDatagramCodec.decode p payload).exec codec).2 ∧
      peer'.packetType = peer.packetType := by
  obtain ⟨peer', hexec, hholds', hpacket⟩ := hholds.exec_decodeRecord fresh payload htype
  refine ⟨peer', ?_, hholds', hpacket⟩
  rw [decodeRecord, Stateful.exec_bind, Stateful.exec_get]
  dsimp only
  rw [Stateful.exec_bind, hrecord, Stateful.exec_ofExcept]
  dsimp only
  rw [Stateful.exec_bind, exec_onPeer h, hexec]
  cases ((SptpsDatagramCodec.decode p payload).exec codec).1 <;> rfl

/-- A packet of the type that is expected is handed on. -/
lemma exec_decode (h : c.peers.get? name = some peer) (fresh : Fresh) (datagram : List UInt8)
    {record : SptpsDecodedRecord} {c' : SptpsPacketCodec}
    (hrecord : (decodeRecord p fresh name datagram).exec c = (.ok record, c'))
    (htype : record.recordType = peer.packetType) :
    (decode p fresh name datagram).exec c =
      (sptpsPacketFromPayload record.recordType record.payload, c') := by
  rw [decode, Stateful.exec_bind, Stateful.exec_get]
  simp only [h]
  rw [Stateful.exec_bind, hrecord]
  dsimp only
  rw [if_neg (not_not_intro htype)]
  rfl

end Exec

/-! ### What the functions leave alone -/

/-- Only the session of one peer has changed. -/
structure Keeps (name : String) (c c' : SptpsPacketCodec) : Prop where
  ids_eq : c'.ids = c.ids
  myself_eq : c'.myself = c.myself
  peers_eq : ∀ other, other ≠ name → c'.peers.get? other = c.peers.get? other

section Keeps

variable (p : Primitives) (name : String)

lemma Keeps.refl (c : SptpsPacketCodec) : Keeps name c c := ⟨rfl, rfl, fun _ _ => rfl⟩

lemma Keeps.trans (c c' c'' : SptpsPacketCodec) (h : Keeps name c c') (h' : Keeps name c' c'') :
    Keeps name c c'' :=
  ⟨h'.ids_eq.trans h.ids_eq, h'.myself_eq.trans h.myself_eq,
    fun other hne => (h'.peers_eq other hne).trans (h.peers_eq other hne)⟩

lemma onPeer_keeps {α : Type} (x : Stateful SptpsError SptpsPeerSession α) :
    (onPeer name x).Moves (Keeps name) := by
  intro c
  rw [onPeer, Stateful.exec_ofFn]
  cases c.peers.get? name with
  | none => exact .refl name c
  | some peer =>
      refine ⟨rfl, rfl, fun other hne => ?_⟩
      show (c.peers.insert name _).get? other = _
      rw [OrdMap.get?_insert, if_neg hne]

lemma encodeRecordFor_keeps (packet : VpnPacket) :
    (encodeRecordFor p name packet).Moves (Keeps name) := by
  refine .bind (Keeps.trans name) (.get (Keeps.refl name)) fun c => ?_
  cases c.peers.get? name with
  | none => exact .throw (Keeps.refl name) _
  | some peer =>
      exact .bind (Keeps.trans name) (.ofExcept (Keeps.refl name) _) fun _ => onPeer_keeps name _

lemma targetId_keeps : (targetId name).Moves (Keeps name) := by
  refine .bind (Keeps.trans name) (.get (Keeps.refl name)) fun c => ?_
  cases c.ids.id name with
  | none => exact .throw (Keeps.refl name) _
  | some id => exact .pure (Keeps.refl name) _

/-- Sending leaves the sessions with the other peers as they are. -/
lemma send_keeps (outgoing : Outgoing) : (send p name outgoing).Moves (Keeps name) := by
  have hwrap : ∀ {x : CodecM (List UInt8)}, x.Moves (Keeps name) →
      ∀ wrap : NodeId → List UInt8 → List UInt8, Stateful.Moves (Keeps name) (do
        let record ← x
        let c ← get
        return wrap c.myself record : CodecM (List UInt8)) := by
    intro x hx wrap
    refine .bind (Keeps.trans name) hx fun record => ?_
    exact .bind (Keeps.trans name) (.get (Keeps.refl name)) fun _ => .pure (Keeps.refl name) _
  have hid : ∀ {f : NodeId → CodecM (List UInt8)}, (∀ id, (f id).Moves (Keeps name)) →
      (targetId name >>= f).Moves (Keeps name) :=
    fun hf => .bind (Keeps.trans name) (targetId_keeps name) hf
  cases outgoing with
  | record direct record =>
      have hrecord : (encodeRecordPayloadFor p name record.recordType record.payload).Moves
          (Keeps name) := onPeer_keeps name _
      cases direct with
      | true => exact hwrap hrecord fun myself bytes => (RelayEnvelope.direct myself bytes).encode
      | false =>
          exact hid fun id => hwrap hrecord fun myself bytes =>
            (RelayEnvelope.relayed id myself bytes).encode
  | packet direct packet =>
      have hrecord := encodeRecordFor_keeps p name packet
      cases direct with
      | true => exact hwrap hrecord fun myself bytes => (RelayEnvelope.direct myself bytes).encode
      | false =>
          exact hid fun id => hwrap hrecord fun myself bytes =>
            (RelayEnvelope.relayed id myself bytes).encode

lemma decodeRecord_keeps (fresh : Fresh) (datagram : List UInt8) :
    (decodeRecord p fresh name datagram).Moves (Keeps name) := by
  refine .bind (Keeps.trans name) (.get (Keeps.refl name)) fun c => ?_
  refine .bind (Keeps.trans name) (.ofExcept (Keeps.refl name) _) fun payload => ?_
  exact .bind (Keeps.trans name) (onPeer_keeps name _) fun _ => .pure (Keeps.refl name) _

end Keeps

end SptpsPacketCodec

end RustyTinc

import RustyTinc.Core.Base64
import RustyTinc.Core.MetaText

/-!
The SPTPS data that key messages carry.

* `RequestKeyMessage.sptpsInitialRequest`, `RequestKeyMessage.sptpsTcpPacket`,
  `AnswerKeyMessage.sptpsHandshake`: the messages around the data;
* `decodeSptpsPayload_sptpsInitialRequest` and its siblings: the data is read back as it was.
-/

namespace RustyTinc

/-- Which message a payload of SPTPS travels in. -/
inductive SptpsKeyPayloadKind where
  | initialRequest
  | handshakeAnswer
  | tcpPacket
deriving DecidableEq

/-- A payload of SPTPS between two nodes, taken out of its message. -/
structure SptpsKeyPayload where
  fromNode : String
  toNode : String
  kind : SptpsKeyPayloadKind
  data : List UInt8
  compression : Option ℤ
  address : Option EdgeAddress
deriving DecidableEq

/-- Why a message holds no payload of SPTPS. -/
inductive SptpsKeyPayloadError where
  | notSptps
  | missingPayload
  | invalidBase64 (error : Base64DecodeError)
deriving DecidableEq

namespace RequestKeyMessage

/-- A request that carries data as the payload of an extension. -/
def withSptpsPayload (request : Request) (fromNode toNode : String) (data : List UInt8) :
    RequestKeyMessage :=
  ⟨fromNode, toNode, some ⟨request.number, some (String.ofList (b64EncodeTinc data))⟩⟩

/-- The message that opens a handshake. -/
def sptpsInitialRequest (fromNode toNode : String) (data : List UInt8) : RequestKeyMessage :=
  withSptpsPayload .requestKey fromNode toNode data

/-- A packet that goes over the meta connections. -/
def sptpsTcpPacket (fromNode toNode : String) (data : List UInt8) : RequestKeyMessage :=
  withSptpsPayload .sptpsPacket fromNode toNode data

/-- The payload of a request, when its number is that of SPTPS. -/
def decodeSptpsPayload (m : RequestKeyMessage) : Except SptpsKeyPayloadError SptpsKeyPayload := do
  let some extension := m.extension | throw .notSptps
  let kind ← match requestFromNumber extension.request with
    | some .requestKey => pure SptpsKeyPayloadKind.initialRequest
    | some .sptpsPacket => pure .tcpPacket
    | _ => throw .notSptps
  let some payload := extension.payload | throw .missingPayload
  let data ← (b64DecodeTinc payload.toList).mapError .invalidBase64
  return ⟨m.fromNode, m.toNode, kind, data, none, none⟩

end RequestKeyMessage

namespace AnswerKeyMessage

/-- The message that answers in a handshake: its fields for the legacy protocol are all ones. -/
def sptpsHandshake (fromNode toNode : String) (data : List UInt8) (compression : ℤ) :
    AnswerKeyMessage :=
  ⟨fromNode, toNode, String.ofList (b64EncodeTinc data), -1, -1, UInt64.ofNat (2 ^ 64 - 1),
    compression, none⟩

/-- Whether an answer is one of SPTPS. -/
def isSptpsHandshake (m : AnswerKeyMessage) : Bool :=
  m.cipher = -1 && m.digest = -1 && m.macLength.toNat = 2 ^ 64 - 1

/-- The payload of an answer, when it is one of SPTPS. -/
def decodeSptpsPayload (m : AnswerKeyMessage) : Except SptpsKeyPayloadError SptpsKeyPayload := do
  if ¬ m.isSptpsHandshake then throw .notSptps
  let data ← (b64DecodeTinc m.key.toList).mapError .invalidBase64
  return ⟨m.fromNode, m.toNode, .handshakeAnswer, data, some m.compression, m.address⟩

end AnswerKeyMessage

/-! ### The data is read back -/

section Decode

variable (fromNode toNode : String) (data : List UInt8)

lemma b64DecodeTinc_b64EncodeTinc : b64DecodeTinc (b64EncodeTinc data) = .ok data :=
  b64DecodeTinc_b64EncodeTincInternal readable_base64Original data

lemma decodeSptpsPayload_sptpsInitialRequest :
    (RequestKeyMessage.sptpsInitialRequest fromNode toNode data).decodeSptpsPayload =
      .ok ⟨fromNode, toNode, .initialRequest, data, none, none⟩ := by
  simp only [RequestKeyMessage.sptpsInitialRequest, RequestKeyMessage.withSptpsPayload,
    RequestKeyMessage.decodeSptpsPayload, requestFromNumber_number, String.toList_ofList,
    b64DecodeTinc_b64EncodeTinc]
  rfl

lemma decodeSptpsPayload_sptpsHandshake (compression : ℤ) :
    (AnswerKeyMessage.sptpsHandshake fromNode toNode data compression).decodeSptpsPayload =
      .ok ⟨fromNode, toNode, .handshakeAnswer, data, some compression, none⟩ := by
  simp only [AnswerKeyMessage.sptpsHandshake, AnswerKeyMessage.decodeSptpsPayload,
    String.toList_ofList, b64DecodeTinc_b64EncodeTinc]
  rfl

end Decode

end RustyTinc

import RustyTinc.Core.Graph
import RustyTinc.Core.Subnet

/-!
The messages that nodes exchange on meta connections, as the parser delivers them.
-/

namespace RustyTinc

/-- The first line of a connection: who the sender is, and which protocol it speaks. -/
structure IdMessage where
  name : String
  protocolMajor : ℤ
  protocolMinor : Option ℤ
deriving DecidableEq

/-- The session key of the legacy protocol, with the algorithms that it is for. -/
structure MetaKeyMessage where
  cipher : ℤ
  digest : ℤ
  macLength : ℤ
  compression : ℤ
  key : String
deriving DecidableEq

/-- A challenge of the legacy protocol. -/
structure ChallengeMessage where
  data : String
deriving DecidableEq

/-- The digest of the challenge. -/
structure ChallengeReplyMessage where
  digest : String
deriving DecidableEq

/-- The last line of an authentication; on a control socket it has another form. -/
inductive AckMessage where
  | connection (port : String) (weight : ℤ) (options : UInt32)
  | payload (payload : String)
  | control (version pid : ℤ)
deriving DecidableEq

/-- A subnet that its owner adds or deletes. -/
structure SubnetMessage where
  nonce : UInt32
  owner : String
  subnet : Subnet
deriving DecidableEq

/-- The address and the port of a node, as text. -/
structure EdgeAddress where
  address : String
  port : String
deriving DecidableEq

/-- An edge that its first node announces. -/
structure AddEdgeMessage where
  nonce : UInt32
  edge : Edge
  address : String
  port : String
  localAddress : Option EdgeAddress
deriving DecidableEq

/-- An edge that is gone. -/
structure DeleteEdgeMessage where
  nonce : UInt32
  fromNode : String
  toNode : String
deriving DecidableEq

/-- A node whose legacy keys are not valid any more. -/
structure KeyChangedMessage where
  nonce : UInt32
  origin : String
deriving DecidableEq

/-- What a key request holds besides the two names. -/
structure RequestKeyExtension where
  request : ℤ
  payload : Option String
deriving DecidableEq

/-- A request for the key of a node, or a payload of SPTPS for it. -/
structure RequestKeyMessage where
  fromNode : String
  toNode : String
  extension : Option RequestKeyExtension
deriving DecidableEq

/-- A key, or a payload of SPTPS, in return for a request. -/
structure AnswerKeyMessage where
  fromNode : String
  toNode : String
  key : String
  cipher : ℤ
  digest : ℤ
  macLength : UInt64
  compression : ℤ
  address : Option EdgeAddress
deriving DecidableEq

/-- The length of a packet that follows on the same connection. -/
structure TcpPacketMessage where
  length : UInt16
deriving DecidableEq

/-- The address from which packets of a node were received. -/
structure UdpInfoMessage where
  fromNode : String
  toNode : String
  endpoint : EdgeAddress
deriving DecidableEq

/-- The MTU that packets of a node have had on their way. -/
structure MtuInfoMessage where
  fromNode : String
  toNode : String
  mtu : ℕ
deriving DecidableEq

/-- The messages of the meta protocol. -/
inductive MetaMessage where
  | id (message : IdMessage)
  | metaKey (message : MetaKeyMessage)
  | challenge (message : ChallengeMessage)
  | challengeReply (message : ChallengeReplyMessage)
  | ack (message : AckMessage)
  | terminateRequest
  | ping
  | pong
  | addSubnet (message : SubnetMessage)
  | deleteSubnet (message : SubnetMessage)
  | addEdge (message : AddEdgeMessage)
  | deleteEdge (message : DeleteEdgeMessage)
  | keyChanged (message : KeyChangedMessage)
  | requestKey (message : RequestKeyMessage)
  | answerKey (message : AnswerKeyMessage)
  | tcpPacket (message : TcpPacketMessage)
  | sptpsTcpPacket (message : TcpPacketMessage)
  | udpInfo (message : UdpInfoMessage)
  | mtuInfo (message : MtuInfoMessage)
deriving DecidableEq

end RustyTinc

import RustyTinc.Core.SubnetText

/-!
The lines of meta messages: their parser and their text.

* `MetaMessage.Parsed`: the messages that the parser can deliver (`parseMetaMessage_parsed`);
* `MetaMessage.Parsed.parse_display`: every such message reads back from its text.
-/

namespace RustyTinc

open Text

/-- The version of the protocol that both sides must have. -/
def protMajor : ℤ := 17
/-- The newest protocol of this version. -/
def protMinor : ℤ := 7

/-- The requests of the meta protocol, in the order of their numbers. -/
inductive Request where
  | id
  | metaKey
  | challenge
  | challengeReply
  | ack
  | status
  | error
  | terminateRequest
  | ping
  | pong
  | addSubnet
  | deleteSubnet
  | addEdge
  | deleteEdge
  | keyChanged
  | requestKey
  | answerKey
  | packet
  | control
  | requestPublicKey
  | answerPublicKey
  | sptpsPacket
  | udpInfo
  | mtuInfo
deriving DecidableEq

/-- All requests, in the order of their numbers. -/
def requests : List Request :=
  [.id, .metaKey, .challenge, .challengeReply, .ack, .status, .error, .terminateRequest, .ping,
    .pong, .addSubnet, .deleteSubnet, .addEdge, .deleteEdge, .keyChanged, .requestKey, .answerKey,
    .packet, .control, .requestPublicKey, .answerPublicKey, .sptpsPacket, .udpInfo, .mtuInfo]

/-- Requests are numbered in their order. -/
def Request.number (r : Request) : ℕ := requests.idxOf r

/-- The request of a number. -/
def requestFromNumber (request : ℤ) : Option Request :=
  if request < 0 then none else requests[request.toNat]?

/-- Why a line has no request. -/
inductive RequestLineError where
  | bogusData
  | unknownRequest (request : ℤ)
deriving DecidableEq

/-- Why a line is not a message. -/
inductive MetaMessageError where
  | requestLine (error : RequestLineError)
  | unsupportedRequest (request : Request)
  | missingField (field : String)
  | invalidNonce (value : String)
  | invalidProtocolVersion (value : String)
  | invalidOptions (value : String)
  | invalidWeight (value : String)
  | invalidInteger (field value : String)
  | invalidLength (length : ℤ)
  | invalidMtu (mtu : ℤ)
  | invalidName (name : String)
  | selfEdge (name : String)
  | invalidSubnet (error : SubnetParseError)
deriving DecidableEq

/-- The request under which a message is sent. -/
def MetaMessage.request : MetaMessage → Request
  | .id _ => .id
  | .metaKey _ => .metaKey
  | .challenge _ => .challenge
  | .challengeReply _ => .challengeReply
  | .ack _ => .ack
  | .terminateRequest => .terminateRequest
  | .ping => .ping
  | .pong => .pong
  | .addSubnet _ => .addSubnet
  | .deleteSubnet _ => .deleteSubnet
  | .addEdge _ => .addEdge
  | .deleteEdge _ => .deleteEdge
  | .keyChanged _ => .keyChanged
  | .requestKey _ => .requestKey
  | .answerKey _ => .answerKey
  | .tcpPacket _ => .packet
  | .sptpsTcpPacket _ => .sptpsPacket
  | .udpInfo _ => .udpInfo
  | .mtuInfo _ => .mtuInfo

/-! ### The text of a message -/

/-- The optional pair of fields at the end of some messages. -/
def addressWords : Option EdgeAddress → List String
  | some address => [address.address, address.port]
  | none => []

/-- The fields of a message after the number of its request. -/
@[simp] def MetaMessage.words : MetaMessage → List String
  | .id m => [m.name, toString m.protocolMajor ++ "." ++ toString (m.protocolMinor.getD 0)]
  | .metaKey m => [toString m.cipher, toString m.digest, toString m.macLength,
      toString m.compression, m.key]
  | .challenge m => [m.data]
  | .challengeReply m => [m.digest]
  | .ack (.connection port weight options) => [port, toString weight, hex options.toNat]
  | .ack (.payload payload) => [payload]
  | .ack (.control version pid) => [toString version, toString pid]
  | .terminateRequest | .ping | .pong => []
  | .addSubnet m | .deleteSubnet m => [hex m.nonce.toNat, m.owner, m.subnet.display]
  | .addEdge m => [hex m.nonce.toNat, m.edge.fromNode, m.edge.toNode, m.address, m.port,
      hex m.edge.options.toNat, toString m.edge.weight] ++ addressWords m.localAddress
  | .deleteEdge m => [hex m.nonce.toNat, m.fromNode, m.toNode]
  | .keyChanged m => [hex m.nonce.toNat, m.origin]
  | .requestKey m => [m.fromNode, m.toNode] ++
      match m.extension with
      | some extension => toString extension.request :: extension.payload.toList
      | none => []
  | .answerKey m => [m.fromNode, m.toNode, m.key, toString m.cipher, toString m.digest,
      toString m.macLength.toNat, toString m.compression] ++ addressWords m.address
  | .tcpPacket m | .sptpsTcpPacket m => [toString m.length.toNat]
  | .udpInfo m => [m.fromNode, m.toNode, m.endpoint.address, m.endpoint.port]
  | .mtuInfo m => [m.fromNode, m.toNode, toString m.mtu]

/-- The line of a message: its number and its words. -/
def MetaMessage.display (m : MetaMessage) : String :=
  " ".intercalate (toString m.request.number :: m.words)

/-! ### The request line -/

/-- The loop over the digits, on 64 bits. -/
def atoiDigits : List Char → ℕ → ℕ × List Char
  | [], number => (number, [])
  | c :: rest, number =>
      if '0' ≤ c ∧ c ≤ '9' then
        atoiDigits rest
          (min (min (number * 10) (2 ^ 63 - 1) + (c.toNat - '0'.toNat)) (2 ^ 63 - 1))
      else (number, c :: rest)

/-- Whether there is a minus sign, and the text after the sign. -/
def splitSign : List Char → Bool × List Char
  | '-' :: text => (true, text)
  | '+' :: text => (false, text)
  | text => (false, text)

/-- The number in front of a line, and the text after it. -/
def atoiDispatchPrefix (input : List Char) : Option (ℤ × List Char) :=
  let text := splitSign (input.dropWhile isAsciiWhitespace)
  let digits := atoiDigits text.2 0
  let number : ℤ := if text.1 then -digits.1 else digits.1
  let number := max (-2 ^ 31) (min number (2 ^ 31 - 1))
  if number ≠ 0 ∨ input.head? = some '0' then some (number, digits.2) else none

/-- The request of a line, and the rest of the line. -/
structure RequestLine where
  request : Request
  arguments : List Char

/-- The request at the front of a line. -/
def parseRequestLine (raw : List Char) : Except RequestLineError RequestLine :=
  match atoiDispatchPrefix raw with
  | none => .error .bogusData
  | some (number, rest) =>
      match requestFromNumber number with
      | none => .error (.unknownRequest number)
      | some request => .ok ⟨request, rest.dropWhile isAsciiWhitespace⟩

/-! ### Field parsers -/

/-- A result of the parser. -/
abbrev MetaParser (α : Type) := Except MetaMessageError α

/-- The first of the fields that are left. -/
@[simp] def nextField (name : String) : List (List Char) → MetaParser (List Char × List (List Char))
  | [] => .error (.missingField name)
  | field :: fields => .ok (field, fields)

/-- Hexadecimal digits, with or without `0x`, of at most 32 bits. -/
def parseHexU32 (value : List Char) : Option UInt32 :=
  let value := match value with
    | '0' :: 'x' :: value => value
    | '0' :: 'X' :: value => value
    | value => value
  if value = [] then none else (parseUnsigned 16 (2 ^ 32 - 1) value).map UInt32.ofNat

/-- The nonce of a message that is passed on. -/
def parseNonce (value : List Char) : MetaParser UInt32 :=
  match parseHexU32 value with
  | some nonce => .ok nonce
  | none => .error (.invalidNonce (.ofList value))

/-- A field with a signed number of 32 bits. -/
def parseI32Field (field : String) (value : List Char) : MetaParser ℤ :=
  match parseSigned (2 ^ 31) value with
  | some n => .ok n
  | none => .error (.invalidInteger field (.ofList value))

/-- A field with a number of 64 bits; a minus sign wraps it around. -/
def parseU64Field (field : String) (value : List Char) : MetaParser UInt64 :=
  match parseDigits 10 (splitSign value).2 with
  | none => .error (.invalidInteger field (.ofList value))
  | some n =>
      let parsed := UInt64.ofNat (min n (2 ^ 64 - 1))
      .ok (if (splitSign value).1 then 0 - parsed else parsed)

/-- A major version, and a minor one after a point. -/
def parseProtocolVersion (value : List Char) : MetaParser (ℤ × Option ℤ) :=
  let (major, minor) := match splitOnce '.' value with
    | some (major, minor) => (major, some minor)
    | none => (value, none)
  let invalid : MetaMessageError := .invalidProtocolVersion (.ofList value)
  if major = [] ∨ minor = some [] then .error invalid
  else
    match parseSigned (2 ^ 31) major, minor.map (parseSigned (2 ^ 31)) with
    | some major, none => .ok (major, none)
    | some major, some (some minor) => .ok (major, some minor)
    | _, _ => .error invalid

/-- A name that a node may have. -/
def validateNodeName (name : List Char) : MetaParser Unit :=
  if checkId (.ofList name) then .ok () else .error (.invalidName (.ofList name))

/-- The names of two different nodes. -/
def validateEdgeNames (fromNode toNode : List Char) : MetaParser Unit := do
  validateNodeName fromNode
  validateNodeName toNode
  if fromNode = toNode then .error (.selfEdge (.ofList fromNode)) else .ok ()

/-- The name of a control socket or of an invitation. -/
def isSpecialIdName (name : List Char) : Bool :=
  (name.head? = some '^' || name.head? = some '?') && 1 < utf8Len name

/-- The check of the name in an ID. -/
def validateIdName (name : List Char) : MetaParser Unit :=
  if isSpecialIdName name then .ok () else validateNodeName name

/-- The options of an edge, in hexadecimal digits. -/
def parseOptions (value : List Char) : MetaParser UInt32 :=
  match parseHexU32 value with
  | some options => .ok options
  | none => .error (.invalidOptions (.ofList value))

/-- The weight of an edge. -/
def parseWeight (value : List Char) : MetaParser ℤ :=
  match parseSigned (2 ^ 31) value with
  | some weight => .ok weight
  | none => .error (.invalidWeight (.ofList value))

/-- The optional pair of fields at the end: both or none. -/
def parseAddressFields (missing : String) : List (List Char) → MetaParser (Option EdgeAddress)
  | address :: port :: _ => .ok (some ⟨.ofList address, .ofList port⟩)
  | [] => .ok none
  | [_] => .error (.missingField missing)

/-! ### Message parsers -/

/-- The fields of an `ID`. -/
def parseIdMessage (arguments : List Char) : MetaParser IdMessage := do
  let (name, rest) ← nextField "name" (fields arguments)
  let (version, _) ← nextField "version" rest
  let (protocolMajor, protocolMinor) ← parseProtocolVersion version
  validateIdName name
  return ⟨.ofList name, protocolMajor, protocolMinor⟩

/-- The fields of a `METAKEY`. -/
def parseMetakeyMessage (arguments : List Char) : MetaParser MetaKeyMessage := do
  let (cipher, rest) ← nextField "cipher" (fields arguments)
  let cipher ← parseI32Field "cipher" cipher
  let (digest, rest) ← nextField "digest" rest
  let digest ← parseI32Field "digest" digest
  let (macLength, rest) ← nextField "mac_length" rest
  let macLength ← parseI32Field "mac_length" macLength
  let (compression, rest) ← nextField "compression" rest
  let compression ← parseI32Field "compression" compression
  let (key, _) ← nextField "key" rest
  return ⟨cipher, digest, macLength, compression, .ofList key⟩

/-- The fields of a `CHALLENGE`. -/
def parseChallengeMessage (arguments : List Char) : MetaParser ChallengeMessage := do
  let (data, _) ← nextField "challenge" (fields arguments)
  return ⟨.ofList data⟩

/-- The fields of a `CHAL_REPLY`. -/
def parseChallengeReplyMessage (arguments : List Char) : MetaParser ChallengeReplyMessage := do
  let (digest, _) ← nextField "digest" (fields arguments)
  return ⟨.ofList digest⟩

/-- The fields of an `ACK`, which are told apart by their count. -/
def parseAckMessage (arguments : List Char) : MetaParser AckMessage :=
  match fields arguments with
  | [] => .error (.missingField "ack")
  | [payload] => .ok (.payload (.ofList payload))
  | [payload, maybePid] =>
      match parseI32Field "version" payload, parseI32Field "pid" maybePid with
      | .ok version, .ok pid => .ok (.control version pid)
      | _, _ => .ok (.payload (.ofList payload))
  | port :: weight :: options :: _ => do
      let weight ← parseI32Field "weight" weight
      let options ← parseOptions options
      return .connection (.ofList port) weight options

/-- The fields of an `ADD_SUBNET` or a `DEL_SUBNET`. -/
def parseSubnetMessage (arguments : List Char) : MetaParser SubnetMessage := do
  let (nonce, rest) ← nextField "nonce" (fields arguments)
  let nonce ← parseNonce nonce
  let (owner, rest) ← nextField "owner" rest
  validateNodeName owner
  let (subnet, _) ← nextField "subnet" rest
  let subnet ← (parseSubnet subnet).mapError .invalidSubnet
  return ⟨nonce, .ofList owner, subnet⟩

/-- The fields of an `ADD_EDGE`, where the local address may be missing. -/
def parseAddEdgeMessage (arguments : List Char) : MetaParser AddEdgeMessage := do
  let (nonce, rest) ← nextField "nonce" (fields arguments)
  let nonce ← parseNonce nonce
  let (fromNode, rest) ← nextField "from" rest
  let (toNode, rest) ← nextField "to" rest
  validateEdgeNames fromNode toNode
  let (address, rest) ← nextField "address" rest
  let (port, rest) ← nextField "port" rest
  let (optionsText, rest) ← nextField "options" rest
  let (weightText, rest) ← nextField "weight" rest
  let options ← parseOptions optionsText
  let weight ← parseWeight weightText
  let localAddress ← parseAddressFields "local_port" rest
  return ⟨nonce, { fromNode := .ofList fromNode, toNode := .ofList toNode, options, weight },
    .ofList address, .ofList port, localAddress⟩

/-- The fields of a `DEL_EDGE`. -/
def parseDeleteEdgeMessage (arguments : List Char) : MetaParser DeleteEdgeMessage := do
  let (nonce, rest) ← nextField "nonce" (fields arguments)
  let nonce ← parseNonce nonce
  let (fromNode, rest) ← nextField "from" rest
  let (toNode, _) ← nextField "to" rest
  validateEdgeNames fromNode toNode
  return ⟨nonce, .ofList fromNode, .ofList toNode⟩

/-- The fields of a `KEY_CHANGED`. -/
def parseKeyChangedMessage (arguments : List Char) : MetaParser KeyChangedMessage := do
  let (nonce, rest) ← nextField "nonce" (fields arguments)
  let nonce ← parseNonce nonce
  let (origin, _) ← nextField "origin" rest
  validateNodeName origin
  return ⟨nonce, .ofList origin⟩

/-- The extension of a key request; a field that is no number means that there is none. -/
def parseExtension : List (List Char) → Option RequestKeyExtension
  | [] => none
  | request :: rest =>
      (parseSigned (2 ^ 31) request).map fun request => ⟨request, rest.head?.map .ofList⟩

/-- The two names at the start of most messages. -/
def parseNames (fields : List (List Char)) :
    MetaParser (List Char × List Char × List (List Char)) := do
  let (fromNode, rest) ← nextField "from" fields
  let (toNode, rest) ← nextField "to" rest
  validateNodeName fromNode
  validateNodeName toNode
  return (fromNode, toNode, rest)

/-- The fields of a `REQ_KEY`, where all but the two names may be missing. -/
def parseRequestKeyMessage (arguments : List Char) : MetaParser RequestKeyMessage := do
  let (fromNode, toNode, rest) ← parseNames (fields arguments)
  return ⟨.ofList fromNode, .ofList toNode, parseExtension rest⟩

/-- The fields of an `ANS_KEY`, where the address may be missing. -/
def parseAnswerKeyMessage (arguments : List Char) : MetaParser AnswerKeyMessage := do
  let (fromNode, toNode, rest) ← parseNames (fields arguments)
  let (key, rest) ← nextField "key" rest
  let (cipher, rest) ← nextField "cipher" rest
  let cipher ← parseI32Field "cipher" cipher
  let (digest, rest) ← nextField "digest" rest
  let digest ← parseI32Field "digest" digest
  let (macLength, rest) ← nextField "mac_length" rest
  let macLength ← parseU64Field "mac_length" macLength
  let (compression, rest) ← nextField "compression" rest
  let compression ← parseI32Field "compression" compression
  let address ← parseAddressFields "port" rest
  return ⟨.ofList fromNode, .ofList toNode, .ofList key, cipher, digest, macLength, compression,
    address⟩

/-- The length that a `PACKET` announces. -/
def parseTcpPacketMessage (arguments : List Char) : MetaParser TcpPacketMessage := do
  let (length, _) ← nextField "length" (fields arguments)
  let length ← parseI32Field "length" length
  if length < 0 ∨ 2 ^ 15 - 1 < length then .error (.invalidLength length)
  else return ⟨UInt16.ofNat length.toNat⟩

/-- The fields of a `UDP_INFO`. -/
def parseUdpInfoMessage (arguments : List Char) : MetaParser UdpInfoMessage := do
  let (fromNode, toNode, rest) ← parseNames (fields arguments)
  let (address, rest) ← nextField "address" rest
  let (port, _) ← nextField "port" rest
  return ⟨.ofList fromNode, .ofList toNode, ⟨.ofList address, .ofList port⟩⟩

/-- The smallest MTU of a path. -/
def minMtu : ℤ := 512

/-- The fields of an `MTU_INFO`; an MTU out of range is taken as the nearest one in range. -/
def parseMtuInfoMessage (arguments : List Char) : MetaParser MtuInfoMessage := do
  let (fromNode, toNode, rest) ← parseNames (fields arguments)
  let (mtu, _) ← nextField "mtu" rest
  let mtu ← parseI32Field "mtu" mtu
  if mtu < minMtu then .error (.invalidMtu mtu)
  else return ⟨.ofList fromNode, .ofList toNode, min mtu.toNat defaultMtu⟩

/-- The message of a line, by its request. -/
def parseArguments (line : RequestLine) : MetaParser MetaMessage :=
  match line.request with
  | .id => (parseIdMessage line.arguments).map .id
  | .metaKey => (parseMetakeyMessage line.arguments).map .metaKey
  | .challenge => (parseChallengeMessage line.arguments).map .challenge
  | .challengeReply => (parseChallengeReplyMessage line.arguments).map .challengeReply
  | .ack => (parseAckMessage line.arguments).map .ack
  | .terminateRequest => .ok .terminateRequest
  | .ping => .ok .ping
  | .pong => .ok .pong
  | .addSubnet => (parseSubnetMessage line.arguments).map .addSubnet
  | .deleteSubnet => (parseSubnetMessage line.arguments).map .deleteSubnet
  | .addEdge => (parseAddEdgeMessage line.arguments).map .addEdge
  | .deleteEdge => (parseDeleteEdgeMessage line.arguments).map .deleteEdge
  | .keyChanged => (parseKeyChangedMessage line.arguments).map .keyChanged
  | .requestKey => (parseRequestKeyMessage line.arguments).map .requestKey
  | .answerKey => (parseAnswerKeyMessage line.arguments).map .answerKey
  | .packet => (parseTcpPacketMessage line.arguments).map .tcpPacket
  | .sptpsPacket => (parseTcpPacketMessage line.arguments).map .sptpsTcpPacket
  | .udpInfo => (parseUdpInfoMessage line.arguments).map .udpInfo
  | .mtuInfo => (parseMtuInfoMessage line.arguments).map .mtuInfo
  | request => .error (.unsupportedRequest request)

/-- The message of a line. -/
def parseMetaMessage (raw : List Char) : MetaParser MetaMessage := do
  let line ← (parseRequestLine raw).mapError .requestLine
  parseArguments line

/-! ### The messages that the parser delivers -/

/-- A string that is read back as one field. -/
def Word (s : String) : Prop := IsWord s.toList

/-- A number of 32 bits. -/
abbrev I32 (n : ℤ) : Prop := InRange (2 ^ 31) n

/-- The address and the port, when there are any, are words. -/
def WordAddress (address : Option EdgeAddress) : Prop :=
  ∀ e, address = some e → Word e.address ∧ Word e.port

/-- What the parser checks of an `ADD_SUBNET` or a `DEL_SUBNET`. -/
def SubnetMessage.Parsed (m : SubnetMessage) : Prop := checkId m.owner = true ∧ m.subnet.Parsed

/-- What the parser checks of an `ADD_EDGE`. -/
structure AddEdgeMessage.Parsed (m : AddEdgeMessage) : Prop where
  from_name : checkId m.edge.fromNode = true
  to_name : checkId m.edge.toNode = true
  ne : m.edge.fromNode ≠ m.edge.toNode
  edge_address : m.edge.address = none
  edge_localAddress : m.edge.localAddress = none
  weight_inRange : I32 m.edge.weight
  address_word : Word m.address
  port_word : Word m.port
  localAddress_words : WordAddress m.localAddress

/-- What the parser checks of a `REQ_KEY`. -/
structure RequestKeyMessage.Parsed (m : RequestKeyMessage) : Prop where
  from_name : checkId m.fromNode = true
  to_name : checkId m.toNode = true
  request_inRange : ∀ e, m.extension = some e → I32 e.request
  payload_word : ∀ e payload, m.extension = some e → e.payload = some payload → Word payload

/-- What the parser checks of an `ANS_KEY`. -/
structure AnswerKeyMessage.Parsed (m : AnswerKeyMessage) : Prop where
  from_name : checkId m.fromNode = true
  to_name : checkId m.toNode = true
  key_word : Word m.key
  cipher_inRange : I32 m.cipher
  digest_inRange : I32 m.digest
  compression_inRange : I32 m.compression
  address_words : WordAddress m.address

/-- What the parser checks of an `ID`. -/
structure IdMessage.Parsed (m : IdMessage) : Prop where
  name_word : Word m.name
  name_valid : isSpecialIdName m.name.toList = true ∨ checkId m.name = true
  major_inRange : I32 m.protocolMajor
  minor_inRange : I32 (m.protocolMinor.getD 0)

/-- What the parser checks of an `ACK`. -/
def AckMessage.Parsed : AckMessage → Prop
  | .connection port weight _ => Word port ∧ I32 weight
  | .payload text => Word text
  | .control version pid => I32 version ∧ I32 pid

/-- **The messages that the parser can deliver.** -/
def MetaMessage.Parsed : MetaMessage → Prop
  | .id m => m.Parsed
  | .metaKey m => I32 m.cipher ∧ I32 m.digest ∧ I32 m.macLength ∧ I32 m.compression ∧ Word m.key
  | .challenge m => Word m.data
  | .challengeReply m => Word m.digest
  | .ack m => m.Parsed
  | .terminateRequest | .ping | .pong => True
  | .addSubnet m | .deleteSubnet m => m.Parsed
  | .addEdge m => m.Parsed
  | .deleteEdge m =>
      checkId m.fromNode = true ∧ checkId m.toNode = true ∧ m.fromNode ≠ m.toNode
  | .keyChanged m => checkId m.origin = true
  | .requestKey m => m.Parsed
  | .answerKey m => m.Parsed
  | .tcpPacket m | .sptpsTcpPacket m => m.length.toNat < 2 ^ 15
  | .udpInfo m => checkId m.fromNode = true ∧ checkId m.toNode = true ∧
      Word m.endpoint.address ∧ Word m.endpoint.port
  | .mtuInfo m => checkId m.fromNode = true ∧ checkId m.toNode = true ∧
      minMtu ≤ m.mtu ∧ m.mtu ≤ defaultMtu

section Inversion

variable {arguments : List Char} {words rest : List (List Char)} {name : String}
  {word : List Char}

/-- Every field is a word. -/
def AllWords (words : List (List Char)) : Prop := ∀ word ∈ words, IsWord word

lemma allWords_fields (line : List Char) : AllWords (fields line) :=
  fun _ => isWord_of_mem_fields

lemma nextField_word (h : nextField name words = .ok (word, rest)) (hwords : AllWords words) :
    Word (.ofList word) ∧ AllWords rest := by
  cases words with
  | nil => cases h
  | cons w words =>
      obtain ⟨rfl, rfl⟩ := Prod.mk.inj (Except.ok.inj h)
      obtain ⟨hw, hrest⟩ := List.forall_mem_cons.mp hwords
      exact ⟨by rwa [Word, String.toList_ofList], hrest⟩

lemma parseI32Field_inRange {n : ℤ} (h : parseI32Field name word = .ok n) : I32 n := by
  rw [parseI32Field] at h
  split at h
  · next m hparse =>
      obtain rfl := Except.ok.inj h
      exact inRange_of_parseSigned (by norm_num) hparse
  · cases h

lemma validateNodeName_ok (h : validateNodeName word = .ok ()) :
    checkId (.ofList word) = true := by
  rw [validateNodeName] at h
  split_ifs at h with hid
  exact hid

lemma validateEdgeNames_ok {fromNode toNode : List Char}
    (h : validateEdgeNames fromNode toNode = .ok ()) :
    checkId (.ofList fromNode) = true ∧ checkId (.ofList toNode) = true ∧
      String.ofList fromNode ≠ String.ofList toNode := by
  obtain ⟨_, hfrom, h⟩ := bind_eq_ok.mp h
  obtain ⟨_, hto, h⟩ := bind_eq_ok.mp h
  split_ifs at h with hne
  exact ⟨validateNodeName_ok hfrom, validateNodeName_ok hto,
    fun heq => hne (String.ofList_inj.mp heq)⟩

lemma parseNames_ok {fromNode toNode : List Char}
    (h : parseNames words = .ok (fromNode, toNode, rest)) (hwords : AllWords words) :
    checkId (.ofList fromNode) = true ∧ checkId (.ofList toNode) = true ∧ AllWords rest := by
  obtain ⟨⟨f, rest₁⟩, hfrom, h⟩ := bind_eq_ok.mp h
  obtain ⟨⟨t, rest₂⟩, hto, h⟩ := bind_eq_ok.mp h
  obtain ⟨_, hvfrom, h⟩ := bind_eq_ok.mp h
  obtain ⟨_, hvto, h⟩ := bind_eq_ok.mp h
  cases h
  exact ⟨validateNodeName_ok hvfrom, validateNodeName_ok hvto,
    (nextField_word hto (nextField_word hfrom hwords).2).2⟩

lemma parseAddressFields_words {address : Option EdgeAddress}
    (h : parseAddressFields name words = .ok address) (hwords : AllWords words) :
    WordAddress address := by
  intro e he
  rw [he] at h
  match words, h with
  | a :: p :: rest, h =>
      obtain rfl := Option.some.inj (Except.ok.inj h)
      simp only [Word, String.toList_ofList]
      exact ⟨hwords a (by simp), hwords p (by simp)⟩
  | [], h => cases h

/-- What is read of an `ID` has passed the checks. -/
lemma parseIdMessage_parsed {m : IdMessage} (h : parseIdMessage arguments = .ok m) :
    m.Parsed := by
  obtain ⟨⟨idName, rest⟩, hname, h⟩ := bind_eq_ok.mp h
  obtain ⟨⟨version, _⟩, -, h⟩ := bind_eq_ok.mp h
  obtain ⟨⟨major, minor⟩, hversion, h⟩ := bind_eq_ok.mp h
  obtain ⟨_, hvalid, h⟩ := bind_eq_ok.mp h
  obtain rfl := Except.ok.inj h
  have hrange : I32 major ∧ I32 (minor.getD 0) := by
    rw [parseProtocolVersion] at hversion
    split at hversion
    split_ifs at hversion
    split at hversion
    · next hmajor hminor =>
        obtain ⟨rfl, rfl⟩ := Prod.mk.inj (Except.ok.inj hversion)
        exact ⟨inRange_of_parseSigned (by norm_num) hmajor, by decide, by decide⟩
    · next hmajor hminor =>
        obtain ⟨rfl, rfl⟩ := Prod.mk.inj (Except.ok.inj hversion)
        obtain ⟨text, -, htext⟩ := Option.map_eq_some_iff.mp hminor
        exact ⟨inRange_of_parseSigned (by norm_num) hmajor,
          inRange_of_parseSigned (by norm_num) htext⟩
    · cases hversion
  refine ⟨(nextField_word hname (allWords_fields _)).1, ?_, hrange.1, hrange.2⟩
  rw [validateIdName] at hvalid
  simp only [String.toList_ofList]
  split_ifs at hvalid with hspecial
  · exact Or.inl hspecial
  · exact Or.inr (validateNodeName_ok hvalid)

/-- What is read of a `METAKEY` has passed the checks. -/
lemma parseMetakeyMessage_parsed {m : MetaKeyMessage} (h : parseMetakeyMessage arguments = .ok m) :
    (MetaMessage.metaKey m).Parsed := by
  obtain ⟨⟨_, rest₁⟩, h₁, h⟩ := bind_eq_ok.mp h
  obtain ⟨_, hcipher, h⟩ := bind_eq_ok.mp h
  obtain ⟨⟨_, rest₂⟩, h₂, h⟩ := bind_eq_ok.mp h
  obtain ⟨_, hdigest, h⟩ := bind_eq_ok.mp h
  obtain ⟨⟨_, rest₃⟩, h₃, h⟩ := bind_eq_ok.mp h
  obtain ⟨_, hmacLength, h⟩ := bind_eq_ok.mp h
  obtain ⟨⟨_, rest₄⟩, h₄, h⟩ := bind_eq_ok.mp h
  obtain ⟨_, hcompression, h⟩ := bind_eq_ok.mp h
  obtain ⟨⟨_, _⟩, h₅, h⟩ := bind_eq_ok.mp h
  obtain rfl := Except.ok.inj h
  have hrest₁ := (nextField_word h₁ (allWords_fields _)).2
  have hrest₂ := (nextField_word h₂ hrest₁).2
  have hrest₃ := (nextField_word h₃ hrest₂).2
  have hrest₄ := (nextField_word h₄ hrest₃).2
  exact ⟨parseI32Field_inRange hcipher, parseI32Field_inRange hdigest,
    parseI32Field_inRange hmacLength, parseI32Field_inRange hcompression,
    (nextField_word h₅ hrest₄).1⟩

/-- What is read of an `ACK` has passed the checks. -/
lemma parseAckMessage_parsed {m : AckMessage} (h : parseAckMessage arguments = .ok m) :
    m.Parsed := by
  have hwords := allWords_fields arguments
  rw [parseAckMessage] at h
  split at h
  · cases h
  · next payload heq =>
      obtain rfl := Except.ok.inj h
      rw [heq] at hwords
      simpa [AckMessage.Parsed, Word] using hwords payload List.mem_cons_self
  · next payload maybePid heq =>
      rw [heq] at hwords
      split at h
      · next version pid hversion hpid =>
          obtain rfl := Except.ok.inj h
          exact ⟨parseI32Field_inRange hversion, parseI32Field_inRange hpid⟩
      · obtain rfl := Except.ok.inj h
        simpa [AckMessage.Parsed, Word] using hwords payload List.mem_cons_self
  · next port weight options rest heq =>
      rw [heq] at hwords
      obtain ⟨n, hweight, h⟩ := bind_eq_ok.mp h
      obtain ⟨_, -, h⟩ := bind_eq_ok.mp h
      obtain rfl := Except.ok.inj h
      refine ⟨?_, parseI32Field_inRange hweight⟩
      simpa [Word] using hwords port List.mem_cons_self

/-- What is read of an `ADD_SUBNET` has passed the checks. -/
lemma parseSubnetMessage_parsed {m : SubnetMessage} (h : parseSubnetMessage arguments = .ok m) :
    m.Parsed := by
  obtain ⟨⟨_, _⟩, -, h⟩ := bind_eq_ok.mp h
  obtain ⟨_, -, h⟩ := bind_eq_ok.mp h
  obtain ⟨⟨_, _⟩, -, h⟩ := bind_eq_ok.mp h
  obtain ⟨_, howner, h⟩ := bind_eq_ok.mp h
  obtain ⟨⟨text, _⟩, -, h⟩ := bind_eq_ok.mp h
  obtain ⟨subnet, hsubnet, h⟩ := bind_eq_ok.mp h
  obtain rfl := Except.ok.inj h
  refine ⟨validateNodeName_ok howner, ?_⟩
  cases hparse : parseSubnet text with
  | error e =>
      rw [hparse] at hsubnet
      cases hsubnet
  | ok s =>
      rw [hparse] at hsubnet
      obtain rfl := Except.ok.inj hsubnet
      exact parseSubnet_parsed hparse

/-- What is read of an `ADD_EDGE` has passed the checks. -/
lemma parseAddEdgeMessage_parsed {m : AddEdgeMessage} (h : parseAddEdgeMessage arguments = .ok m) :
    m.Parsed := by
  obtain ⟨⟨_, rest₁⟩, h₁, h⟩ := bind_eq_ok.mp h
  obtain ⟨_, -, h⟩ := bind_eq_ok.mp h
  obtain ⟨⟨_, rest₂⟩, h₂, h⟩ := bind_eq_ok.mp h
  obtain ⟨⟨_, rest₃⟩, h₃, h⟩ := bind_eq_ok.mp h
  obtain ⟨_, hnames, h⟩ := bind_eq_ok.mp h
  obtain ⟨⟨_, rest₄⟩, h₄, h⟩ := bind_eq_ok.mp h
  obtain ⟨⟨_, rest₅⟩, h₅, h⟩ := bind_eq_ok.mp h
  obtain ⟨⟨_, rest₆⟩, h₆, h⟩ := bind_eq_ok.mp h
  obtain ⟨⟨_, rest₇⟩, h₇, h⟩ := bind_eq_ok.mp h
  obtain ⟨_, -, h⟩ := bind_eq_ok.mp h
  obtain ⟨_, hweight, h⟩ := bind_eq_ok.mp h
  obtain ⟨_, hlocal, h⟩ := bind_eq_ok.mp h
  obtain rfl := Except.ok.inj h
  have hrest₃ := (nextField_word h₃ (nextField_word h₂
    (nextField_word h₁ (allWords_fields _)).2).2).2
  have haddress := nextField_word h₄ hrest₃
  have hport := nextField_word h₅ haddress.2
  have hrest₇ := (nextField_word h₇ (nextField_word h₆ hport.2).2).2
  obtain ⟨hfrom, hto, hne⟩ := validateEdgeNames_ok hnames
  refine ⟨hfrom, hto, hne, rfl, rfl, ?_, haddress.1, hport.1,
    parseAddressFields_words hlocal hrest₇⟩
  rw [parseWeight] at hweight
  split at hweight
  · next n hparse =>
      obtain rfl := Except.ok.inj hweight
      exact inRange_of_parseSigned (by norm_num) hparse
  · cases hweight

lemma parseDeleteEdgeMessage_parsed {m : DeleteEdgeMessage}
    (h : parseDeleteEdgeMessage arguments = .ok m) : (MetaMessage.deleteEdge m).Parsed := by
  obtain ⟨⟨_, _⟩, -, h⟩ := bind_eq_ok.mp h
  obtain ⟨_, -, h⟩ := bind_eq_ok.mp h
  obtain ⟨⟨_, _⟩, -, h⟩ := bind_eq_ok.mp h
  obtain ⟨⟨_, _⟩, -, h⟩ := bind_eq_ok.mp h
  obtain ⟨_, hnames, h⟩ := bind_eq_ok.mp h
  obtain rfl := Except.ok.inj h
  exact validateEdgeNames_ok hnames

lemma parseKeyChangedMessage_parsed {m : KeyChangedMessage}
    (h : parseKeyChangedMessage arguments = .ok m) : (MetaMessage.keyChanged m).Parsed := by
  obtain ⟨⟨_, _⟩, -, h⟩ := bind_eq_ok.mp h
  obtain ⟨_, -, h⟩ := bind_eq_ok.mp h
  obtain ⟨⟨_, _⟩, -, h⟩ := bind_eq_ok.mp h
  obtain ⟨_, horigin, h⟩ := bind_eq_ok.mp h
  obtain rfl := Except.ok.inj h
  exact validateNodeName_ok horigin

/-- What is read of a `REQ_KEY` has passed the checks. -/
lemma parseRequestKeyMessage_parsed {m : RequestKeyMessage}
    (h : parseRequestKeyMessage arguments = .ok m) : m.Parsed := by
  obtain ⟨⟨_, _, rest⟩, hnames, h⟩ := bind_eq_ok.mp h
  obtain rfl := Except.ok.inj h
  obtain ⟨hfrom, hto, hrest⟩ := parseNames_ok hnames (allWords_fields _)
  have hextension : ∀ e, parseExtension rest = some e →
      I32 e.request ∧ ∀ payload, e.payload = some payload → Word payload := by
    intro e he
    cases rest with
    | nil => cases he
    | cons request rest =>
        obtain ⟨n, hn, rfl⟩ := Option.map_eq_some_iff.mp he
        refine ⟨inRange_of_parseSigned (by norm_num) hn, fun payload hpayload => ?_⟩
        cases rest with
        | nil => cases hpayload
        | cons word rest =>
            obtain rfl := Option.some.inj hpayload
            simpa [Word] using hrest word (by simp)
  exact ⟨hfrom, hto, fun e he => (hextension e he).1, fun e payload he => (hextension e he).2 payload⟩

/-- What is read of an `ANS_KEY` has passed the checks. -/
lemma parseAnswerKeyMessage_parsed {m : AnswerKeyMessage}
    (h : parseAnswerKeyMessage arguments = .ok m) : m.Parsed := by
  obtain ⟨⟨_, _, rest₁⟩, hnames, h⟩ := bind_eq_ok.mp h
  obtain ⟨⟨_, rest₂⟩, h₂, h⟩ := bind_eq_ok.mp h
  obtain ⟨⟨_, rest₃⟩, h₃, h⟩ := bind_eq_ok.mp h
  obtain ⟨_, hcipher, h⟩ := bind_eq_ok.mp h
  obtain ⟨⟨_, rest₄⟩, h₄, h⟩ := bind_eq_ok.mp h
  obtain ⟨_, hdigest, h⟩ := bind_eq_ok.mp h
  obtain ⟨⟨_, rest₅⟩, h₅, h⟩ := bind_eq_ok.mp h
  obtain ⟨_, -, h⟩ := bind_eq_ok.mp h
  obtain ⟨⟨_, rest₆⟩, h₆, h⟩ := bind_eq_ok.mp h
  obtain ⟨_, hcompression, h⟩ := bind_eq_ok.mp h
  obtain ⟨_, haddress, h⟩ := bind_eq_ok.mp h
  obtain rfl := Except.ok.inj h
  obtain ⟨hfrom, hto, hrest₁⟩ := parseNames_ok hnames (allWords_fields _)
  have hkey := nextField_word h₂ hrest₁
  have hrest₄ := (nextField_word h₄ (nextField_word h₃ hkey.2).2).2
  have hrest₆ := (nextField_word h₆ (nextField_word h₅ hrest₄).2).2
  exact ⟨hfrom, hto, hkey.1, parseI32Field_inRange hcipher, parseI32Field_inRange hdigest,
    parseI32Field_inRange hcompression, parseAddressFields_words haddress hrest₆⟩

lemma parseTcpPacketMessage_parsed {m : TcpPacketMessage}
    (h : parseTcpPacketMessage arguments = .ok m) : m.length.toNat < 2 ^ 15 := by
  obtain ⟨⟨_, _⟩, -, h⟩ := bind_eq_ok.mp h
  obtain ⟨n, -, h⟩ := bind_eq_ok.mp h
  split_ifs at h with hrange
  obtain rfl := Except.ok.inj h
  show (UInt16.ofNat n.toNat).toNat < 2 ^ 15
  rw [UInt16.toNat_ofNat']
  omega

lemma parseUdpInfoMessage_parsed {m : UdpInfoMessage}
    (h : parseUdpInfoMessage arguments = .ok m) : (MetaMessage.udpInfo m).Parsed := by
  obtain ⟨⟨_, _, rest₁⟩, hnames, h⟩ := bind_eq_ok.mp h
  obtain ⟨⟨_, rest₂⟩, h₂, h⟩ := bind_eq_ok.mp h
  obtain ⟨⟨_, _⟩, h₃, h⟩ := bind_eq_ok.mp h
  obtain rfl := Except.ok.inj h
  obtain ⟨hfrom, hto, hrest₁⟩ := parseNames_ok hnames (allWords_fields _)
  have haddress := nextField_word h₂ hrest₁
  exact ⟨hfrom, hto, haddress.1, (nextField_word h₃ haddress.2).1⟩

lemma parseMtuInfoMessage_parsed {m : MtuInfoMessage}
    (h : parseMtuInfoMessage arguments = .ok m) : (MetaMessage.mtuInfo m).Parsed := by
  obtain ⟨⟨_, _, rest⟩, hnames, h⟩ := bind_eq_ok.mp h
  obtain ⟨⟨_, _⟩, -, h⟩ := bind_eq_ok.mp h
  obtain ⟨n, -, h⟩ := bind_eq_ok.mp h
  split_ifs at h with hmtu
  obtain rfl := Except.ok.inj h
  obtain ⟨hfrom, hto, -⟩ := parseNames_ok hnames (allWords_fields _)
  refine ⟨hfrom, hto, ?_, min_le_right _ _⟩
  simp only [minMtu, defaultMtu, not_lt] at hmtu ⊢
  omega

/-- **Every message that the parser delivers is of that kind.** -/
theorem parseMetaMessage_parsed {raw : List Char} {m : MetaMessage}
    (h : parseMetaMessage raw = .ok m) : m.Parsed := by
  obtain ⟨⟨request, arguments⟩, -, h⟩ := bind_eq_ok.mp h
  have hmap : ∀ {α : Type} {x : MetaParser α} {f : α → MetaMessage},
      x.map f = .ok m → (∀ a, x = .ok a → (f a).Parsed) → m.Parsed := by
    intro α x f hx hf
    obtain ⟨a, ha, rfl⟩ := map_eq_ok.mp hx
    exact hf a ha
  cases request with
  | id => exact hmap h fun _ => parseIdMessage_parsed
  | metaKey => exact hmap h fun _ => parseMetakeyMessage_parsed
  | challenge =>
      refine hmap h fun a ha => ?_
      obtain ⟨⟨_, _⟩, h₁, ha⟩ := bind_eq_ok.mp ha
      obtain rfl := Except.ok.inj ha
      exact (nextField_word h₁ (allWords_fields _)).1
  | challengeReply =>
      refine hmap h fun a ha => ?_
      obtain ⟨⟨_, _⟩, h₁, ha⟩ := bind_eq_ok.mp ha
      obtain rfl := Except.ok.inj ha
      exact (nextField_word h₁ (allWords_fields _)).1
  | ack => exact hmap h fun _ => parseAckMessage_parsed
  | terminateRequest | ping | pong =>
      obtain rfl := Except.ok.inj h
      trivial
  | addSubnet | deleteSubnet => exact hmap h fun _ => parseSubnetMessage_parsed
  | addEdge => exact hmap h fun _ => parseAddEdgeMessage_parsed
  | deleteEdge => exact hmap h fun _ => parseDeleteEdgeMessage_parsed
  | keyChanged => exact hmap h fun _ => parseKeyChangedMessage_parsed
  | requestKey => exact hmap h fun _ => parseRequestKeyMessage_parsed
  | answerKey => exact hmap h fun _ => parseAnswerKeyMessage_parsed
  | packet | sptpsPacket => exact hmap h fun _ => parseTcpPacketMessage_parsed
  | udpInfo => exact hmap h fun _ => parseUdpInfoMessage_parsed
  | mtuInfo => exact hmap h fun _ => parseMtuInfoMessage_parsed
  | status | error | control | requestPublicKey | answerPublicKey => cases h

end Inversion

/-! ### Reading back -/

section ReadBack

lemma ok_bind {ε α β : Type} (a : α) (f : α → Except ε β) : (Except.ok a >>= f) = f a := rfl

/-- A valid name is one word. -/
lemma checkId_word {name : String} (h : checkId name = true) : Word name := by
  rw [checkId, Bool.and_eq_true, List.all_eq_true, decide_eq_true_eq] at h
  refine ⟨fun hnil => h.1 (String.toList_eq_nil_iff.mp hnil), fun c hc => ?_⟩
  have hchar := h.2 c hc
  rw [Bool.or_eq_true, decide_eq_true_eq] at hchar
  rcases hchar with hchar | rfl
  · have hrange : (48 ≤ c.toNat ∧ c.toNat ≤ 57) ∨ (65 ≤ c.toNat ∧ c.toNat ≤ 90) ∨
        (97 ≤ c.toNat ∧ c.toNat ≤ 122) := by
      have hletters : 'A'.toNat = 65 ∧ 'Z'.toNat = 90 ∧ 'a'.toNat = 97 ∧ 'z'.toNat = 122 ∧
          '0'.toNat = 48 ∧ '9'.toNat = 57 := by decide
      have hclasses : c.isAlphanum = ((decide (c.val ≥ 'A'.val ∧ c.val ≤ 'Z'.val) ||
          decide (c.val ≥ 'a'.val) && decide (c.val ≤ 'z'.val)) ||
          decide (c.val ≥ '0'.val) && decide (c.val ≤ '9'.val)) := rfl
      simp only [hclasses, Bool.or_eq_true, Bool.and_eq_true, decide_eq_true_eq, ge_iff_le,
        UInt32.le_iff_toNat_le] at hchar
      have hval : c.val.toNat = c.toNat := rfl
      simp only [hval] at hchar
      norm_num at hchar
      omega
    simp only [isWhitespace, Bool.or_eq_false_iff, Bool.and_eq_false_iff, decide_eq_false_iff_not]
    omega
  · decide

lemma lowerDigits_notWhitespace : ∀ c ∈ lowerDigits, isWhitespace c = false :=
  forall_mem_of_all (by decide)

lemma word_hex (n : ℕ) : Word (hex n) := by
  rw [Word, hex, String.toList_ofList]
  exact ⟨Nat.toDigits_ne_nil, fun c hc => lowerDigits_notWhitespace c
    (mem_lowerDigits_of_mem_toDigits (by omega) (by omega) hc)⟩

lemma word_natCast (n : ℕ) : Word (toString n) := by
  rw [Word, show (toString n).toList = Nat.toDigits 10 n from Nat.toList_repr]
  exact ⟨Nat.toDigits_ne_nil, fun c hc => lowerDigits_notWhitespace c
    (mem_lowerDigits_of_mem_toDigits (by omega) (by omega) hc)⟩

lemma word_toString {n : ℤ} (h : I32 n) : Word (toString n) := by
  obtain ⟨hne, hchars, -⟩ := toString_spec h
  exact ⟨hne, fun c hc => (subnetChars_spec c (hchars c hc)).1⟩

/-- Two numbers with a dot between them are one word. -/
lemma word_version {major minor : ℤ} (hmajor : I32 major) (hminor : I32 minor) :
    Word (toString major ++ "." ++ toString minor) := by
  have hdot : isWhitespace '.' = false := by decide
  constructor
  · rw [String.toList_append]
    exact List.append_ne_nil_of_right_ne_nil _ (word_toString hminor).1
  · intro c hc
    rw [String.toList_append, String.toList_append, List.mem_append, List.mem_append] at hc
    rcases hc with (hc | hc) | hc
    · exact (word_toString hmajor).2 c hc
    · rw [List.mem_singleton.mp hc]
      exact hdot
    · exact (word_toString hminor).2 c hc

/-- A number is read again from its digits. -/
lemma parseHexU32_hex (n : UInt32) : parseHexU32 (hex n.toNat).toList = some n := by
  have hx : ∀ c, c = 'x' ∨ c = 'X' → c ∉ Nat.toDigits 16 n.toNat := by
    rintro c (rfl | rfl) hmem
    · exact absurd (mem_lowerDigits_of_mem_toDigits (by omega) (by omega) hmem) (by decide)
    · exact absurd (mem_lowerDigits_of_mem_toDigits (by omega) (by omega) hmem) (by decide)
  have hlt := n.toNat_lt
  rw [hex, String.toList_ofList]
  unfold parseHexU32
  split
  · next value heq => exact absurd (heq ▸ by simp) (hx 'x' (Or.inl rfl))
  · next value heq => exact absurd (heq ▸ by simp) (hx 'X' (Or.inr rfl))
  · simp only [Nat.toDigits_ne_nil, if_false]
    rw [parseUnsigned_toDigits (by omega) (by omega) (by omega), Option.map_some,
      UInt32.ofNat_toNat]

lemma parseNonce_hex (n : UInt32) : parseNonce (hex n.toNat).toList = .ok n := by
  rw [parseNonce, parseHexU32_hex]

lemma parseOptions_hex (n : UInt32) : parseOptions (hex n.toNat).toList = .ok n := by
  rw [parseOptions, parseHexU32_hex]

lemma parseI32Field_toString {n : ℤ} (h : I32 n) (field : String) :
    parseI32Field field (toString n).toList = .ok n := by
  rw [parseI32Field, parseSigned_toString h]

lemma parseWeight_toString {n : ℤ} (h : I32 n) : parseWeight (toString n).toList = .ok n := by
  rw [parseWeight, parseSigned_toString h]

lemma parseI32Field_natCast {n : ℕ} (h : n < 2 ^ 31) (field : String) :
    parseI32Field field (toString n).toList = .ok (n : ℤ) :=
  parseI32Field_toString (n := (n : ℤ)) ⟨by omega, by omega⟩ field

lemma splitSign_toDigits (n : ℕ) (rest : List Char) :
    splitSign (Nat.toDigits 10 n ++ rest) = (false, Nat.toDigits 10 n ++ rest) := by
  obtain ⟨c, digits, hdigits⟩ := List.exists_cons_of_ne_nil (Nat.toDigits_ne_nil (n := n) (b := 10))
  have hc : c ∈ lowerDigits :=
    @mem_lowerDigits_of_mem_toDigits 10 (by omega) (by omega) n _ (by simp [hdigits])
  rw [hdigits, List.cons_append]
  unfold splitSign
  split
  · next heq => exact absurd ((List.cons.inj heq).1 ▸ hc) (by decide)
  · next heq => exact absurd ((List.cons.inj heq).1 ▸ hc) (by decide)
  · rfl

lemma parseU64Field_toString (n : UInt64) (field : String) :
    parseU64Field field (toString n.toNat).toList = .ok n := by
  have hlt := n.toNat_lt
  have hmin : min n.toNat (2 ^ 64 - 1) = n.toNat := by omega
  have hsign := splitSign_toDigits n.toNat []
  rw [List.append_nil] at hsign
  rw [show (toString n.toNat).toList = Nat.toDigits 10 n.toNat from Nat.toList_repr, parseU64Field,
    hsign, parseDigits_toDigits (by omega) (by omega)]
  simp only [hmin, UInt64.ofNat_toNat, Bool.false_eq_true, if_false]

/-- A version is read again from its text. -/
lemma parseProtocolVersion_display {major minor : ℤ} (hmajor : I32 major) (hminor : I32 minor) :
    parseProtocolVersion (toString major ++ "." ++ toString minor).toList =
      .ok (major, some minor) := by
  have hdot : '.' ∉ (toString major).toList := by
    intro hmem
    cases major with
    | ofNat n =>
        rw [show (toString (Int.ofNat n)).toList = Nat.toDigits 10 n from Nat.toList_repr] at hmem
        exact absurd (mem_lowerDigits_of_mem_toDigits (by omega) (by omega) hmem) (by decide)
    | negSucc n =>
        have htext : (toString (Int.negSucc n)).toList = '-' :: Nat.toDigits 10 (n + 1) := by
          show ("-" ++ (n + 1).repr).toList = _
          simp
        rw [htext, List.mem_cons] at hmem
        exact absurd (mem_lowerDigits_of_mem_toDigits (by omega) (by omega)
          (hmem.resolve_left (by decide))) (by decide)
  have hsplit : splitOnce '.' (toString major ++ "." ++ toString minor).toList =
      some ((toString major).toList, (toString minor).toList) := by
    rw [String.toList_append, String.toList_append, List.append_assoc]
    exact splitOnce_append hdot
  have hmajorNe := (toString_spec hmajor).1
  have hminorNe := (toString_spec hminor).1
  have hgood : ¬((toString major).toList = [] ∨ some (toString minor).toList = some []) := by
    rintro (h | h)
    · exact hmajorNe h
    · exact hminorNe (Option.some.inj h)
  rw [parseProtocolVersion, hsplit]
  simp only [hgood, if_false, Option.map_some, parseSigned_toString hmajor,
    parseSigned_toString hminor]

lemma validateNodeName_checkId {name : String} (h : checkId name = true) :
    validateNodeName name.toList = .ok () := by
  rw [validateNodeName, String.ofList_toList, if_pos h]

lemma validateEdgeNames_checkId {fromNode toNode : String} (hfrom : checkId fromNode = true)
    (hto : checkId toNode = true) (hne : fromNode ≠ toNode) :
    validateEdgeNames fromNode.toList toNode.toList = .ok () := by
  rw [validateEdgeNames, validateNodeName_checkId hfrom, validateNodeName_checkId hto, ok_bind,
    ok_bind, if_neg fun h => hne (String.toList_inj.mp h)]

lemma parseNames_checkId {fromNode toNode : String} (hfrom : checkId fromNode = true)
    (hto : checkId toNode = true) (rest : List (List Char)) :
    parseNames (fromNode.toList :: toNode.toList :: rest) =
      .ok (fromNode.toList, toNode.toList, rest) := by
  simp only [parseNames, nextField, ok_bind, validateNodeName_checkId hfrom,
    validateNodeName_checkId hto]
  rfl

lemma parseAddressFields_words' (missing : String) (address : Option EdgeAddress) :
    parseAddressFields missing ((addressWords address).map String.toList) = .ok address := by
  cases address with
  | none => rfl
  | some address =>
      simp only [addressWords, List.map_cons, parseAddressFields, String.ofList_toList]

lemma wordAddress_words {address : Option EdgeAddress} (h : WordAddress address) :
    ∀ word ∈ addressWords address, Word word := by
  cases address with
  | none => exact fun word hword => absurd hword List.not_mem_nil
  | some address =>
      obtain ⟨haddress, hport⟩ := h address rfl
      simpa [addressWords] using ⟨haddress, hport⟩

/-- The message with the minor version that is written where there is none. -/
def MetaMessage.readBack : MetaMessage → MetaMessage
  | .id m => .id { m with protocolMinor := some (m.protocolMinor.getD 0) }
  | m => m

/-- **The fields of a message are words.** -/
lemma MetaMessage.Parsed.words_word {m : MetaMessage} (h : m.Parsed) :
    ∀ word ∈ m.words, Word word := by
  have hsubnet : ∀ {m : SubnetMessage}, m.Parsed →
      ∀ word ∈ [hex m.nonce.toNat, m.owner, m.subnet.display], Word word := by
    intro m h
    have hdisplay : Word m.subnet.display := ⟨m.subnet.display_ne_nil, fun c hc =>
      (subnetChars_spec c (h.2.display_chars c hc)).1⟩
    simpa using ⟨word_hex _, checkId_word h.1, hdisplay⟩
  cases m with
  | id m =>
      simpa [words] using ⟨h.name_word, word_version h.major_inRange h.minor_inRange⟩
  | metaKey m =>
      obtain ⟨hcipher, hdigest, hmacLength, hcompression, hkey⟩ := h
      simpa only [words, List.forall_mem_cons, List.not_mem_nil, false_implies, implies_true,
        and_true] using ⟨word_toString hcipher, word_toString hdigest, word_toString hmacLength,
          word_toString hcompression, hkey⟩
  | challenge m => exact List.forall_mem_singleton.mpr h
  | challengeReply m => exact List.forall_mem_singleton.mpr h
  | ack m =>
      cases m with
      | connection port weight options =>
          simpa only [words, List.forall_mem_cons, List.not_mem_nil, false_implies, implies_true,
            and_true] using ⟨h.1, word_toString h.2, word_hex _⟩
      | payload text => exact List.forall_mem_singleton.mpr h
      | control version pid =>
          simpa only [words, List.forall_mem_cons, List.not_mem_nil, false_implies, implies_true,
            and_true] using ⟨word_toString h.1, word_toString h.2⟩
  | terminateRequest => simp [words]
  | ping => simp [words]
  | pong => simp [words]
  | addSubnet m => exact hsubnet h
  | deleteSubnet m => exact hsubnet h
  | addEdge m =>
      rw [words, List.forall_mem_append]
      refine ⟨?_, wordAddress_words h.localAddress_words⟩
      simpa only [List.forall_mem_cons, List.not_mem_nil, false_implies, implies_true,
        and_true] using ⟨word_hex _, checkId_word h.from_name, checkId_word h.to_name,
          h.address_word, h.port_word, word_hex _, word_toString h.weight_inRange⟩
  | deleteEdge m =>
      simpa only [words, List.forall_mem_cons, List.not_mem_nil, false_implies, implies_true,
        and_true] using ⟨word_hex _, checkId_word h.1, checkId_word h.2.1⟩
  | keyChanged m =>
      simpa only [words, List.forall_mem_cons, List.not_mem_nil, false_implies, implies_true,
        and_true] using ⟨word_hex _, checkId_word h⟩
  | requestKey m =>
      rw [words, List.forall_mem_append]
      refine ⟨by simpa using ⟨checkId_word h.from_name, checkId_word h.to_name⟩, ?_⟩
      cases hextension : m.extension with
      | none => simp
      | some extension =>
          refine List.forall_mem_cons.mpr
            ⟨word_toString (h.request_inRange _ hextension), fun word hword => ?_⟩
          exact h.payload_word _ _ hextension (Option.mem_toList.mp hword)
  | answerKey m =>
      rw [words, List.forall_mem_append]
      refine ⟨?_, wordAddress_words h.address_words⟩
      simpa only [List.forall_mem_cons, List.not_mem_nil, false_implies, implies_true,
        and_true] using ⟨checkId_word h.from_name, checkId_word h.to_name, h.key_word,
          word_toString h.cipher_inRange, word_toString h.digest_inRange, word_natCast _,
          word_toString h.compression_inRange⟩
  | tcpPacket m => simpa [words] using word_natCast _
  | sptpsTcpPacket m => simpa [words] using word_natCast _
  | udpInfo m =>
      obtain ⟨hfrom, hto, haddress, hport⟩ := h
      simpa only [words, List.forall_mem_cons, List.not_mem_nil, false_implies, implies_true,
        and_true] using ⟨checkId_word hfrom, checkId_word hto, haddress, hport⟩
  | mtuInfo m =>
      obtain ⟨hfrom, hto, -⟩ := h
      simpa only [words, List.forall_mem_cons, List.not_mem_nil, false_implies, implies_true,
        and_true] using ⟨checkId_word hfrom, checkId_word hto, word_natCast _⟩

section Arguments

variable {arguments : List Char}

lemma parseSubnetMessage_words {m : SubnetMessage} (h : m.Parsed)
    (hfields : fields arguments =
      [hex m.nonce.toNat, m.owner, m.subnet.display].map String.toList) :
    parseSubnetMessage arguments = .ok m := by
  simp only [parseSubnetMessage, hfields, List.map_cons, nextField, ok_bind, parseNonce_hex,
    validateNodeName_checkId h.1, Subnet.parseSubnet_display h.2, Except.mapError,
    String.ofList_toList]
  rfl

lemma parseTcpPacketMessage_words {m : TcpPacketMessage} (h : m.length.toNat < 2 ^ 15)
    (hfields : fields arguments = [toString m.length.toNat].map String.toList) :
    parseTcpPacketMessage arguments = .ok m := by
  have hrange : ¬((m.length.toNat : ℤ) < 0 ∨ 2 ^ 15 - 1 < (m.length.toNat : ℤ)) := by omega
  simp only [parseTcpPacketMessage, hfields, List.map_cons, nextField, ok_bind,
    parseI32Field_natCast (show m.length.toNat < 2 ^ 31 by omega), hrange, if_false,
    Int.toNat_natCast, UInt16.ofNat_toNat]
  rfl

/-- An `ID` is read again, with a minor version in any case. -/
lemma parseIdMessage_words {m : IdMessage} (h : (MetaMessage.id m).Parsed)
    (hfields : fields arguments = (MetaMessage.id m).words.map String.toList) :
    parseIdMessage arguments =
      .ok { m with protocolMinor := some (m.protocolMinor.getD 0) } := by
  have hid : validateIdName m.name.toList = .ok () := by
    rw [validateIdName]
    split_ifs with hspecial
    · rfl
    · exact validateNodeName_checkId (h.name_valid.resolve_left hspecial)
  simp only [parseIdMessage, hfields, MetaMessage.words, List.map_cons, nextField, ok_bind,
    parseProtocolVersion_display h.major_inRange h.minor_inRange, hid, String.ofList_toList]
  rfl

lemma parseMetakeyMessage_words {m : MetaKeyMessage} (h : (MetaMessage.metaKey m).Parsed)
    (hfields : fields arguments = (MetaMessage.metaKey m).words.map String.toList) :
    parseMetakeyMessage arguments = .ok m := by
  obtain ⟨hcipher, hdigest, hmacLength, hcompression, -⟩ := h
  simp only [parseMetakeyMessage, hfields, MetaMessage.words, List.map_cons, nextField, ok_bind,
    parseI32Field_toString hcipher, parseI32Field_toString hdigest,
    parseI32Field_toString hmacLength, parseI32Field_toString hcompression, String.ofList_toList]
  rfl

/-- An `ACK` is read again. -/
lemma parseAckMessage_words {m : AckMessage} (h : (MetaMessage.ack m).Parsed)
    (hfields : fields arguments = (MetaMessage.ack m).words.map String.toList) :
    parseAckMessage arguments = .ok m := by
  cases m with
  | connection port weight options =>
      simp only [parseAckMessage, hfields, MetaMessage.words, List.map_cons, List.map_nil,
        parseI32Field_toString h.2, parseOptions_hex, ok_bind, String.ofList_toList]
      rfl
  | payload text =>
      simp only [parseAckMessage, hfields, MetaMessage.words, List.map_cons, List.map_nil,
        String.ofList_toList]
  | control version pid =>
      simp only [parseAckMessage, hfields, MetaMessage.words, List.map_cons, List.map_nil,
        parseI32Field_toString h.1, parseI32Field_toString h.2]

lemma parseAddEdgeMessage_words {m : AddEdgeMessage} (h : (MetaMessage.addEdge m).Parsed)
    (hfields : fields arguments = (MetaMessage.addEdge m).words.map String.toList) :
    parseAddEdgeMessage arguments = .ok m := by
  simp only [parseAddEdgeMessage, hfields, MetaMessage.words, List.map_cons,
    List.cons_append, List.nil_append, nextField, ok_bind, parseNonce_hex,
    validateEdgeNames_checkId h.from_name h.to_name h.ne, parseOptions_hex,
    parseWeight_toString h.weight_inRange, parseAddressFields_words', String.ofList_toList]
  obtain ⟨nonce, ⟨f, t, a, l, options, weight⟩, address, port, localAddress⟩ := m
  obtain rfl : a = none := h.edge_address
  obtain rfl : l = none := h.edge_localAddress
  rfl

lemma parseDeleteEdgeMessage_words {m : DeleteEdgeMessage} (h : (MetaMessage.deleteEdge m).Parsed)
    (hfields : fields arguments = (MetaMessage.deleteEdge m).words.map String.toList) :
    parseDeleteEdgeMessage arguments = .ok m := by
  obtain ⟨hfrom, hto, hne⟩ := h
  simp only [parseDeleteEdgeMessage, hfields, MetaMessage.words, List.map_cons, nextField, ok_bind,
    parseNonce_hex, validateEdgeNames_checkId hfrom hto hne, String.ofList_toList]
  rfl

/-- A `REQ_KEY` is read again. -/
lemma parseRequestKeyMessage_words {m : RequestKeyMessage} (h : (MetaMessage.requestKey m).Parsed)
    (hfields : fields arguments = (MetaMessage.requestKey m).words.map String.toList) :
    parseRequestKeyMessage arguments = .ok m := by
  have hextension : parseExtension ((match m.extension with
      | some extension => toString extension.request :: extension.payload.toList
      | none => []).map String.toList) = m.extension := by
    cases hextension : m.extension with
    | none => rfl
    | some extension =>
        have hrequest := h.request_inRange _ hextension
        obtain ⟨request, payload⟩ := extension
        show (parseSigned (2 ^ 31) (toString request).toList).map _ = _
        rw [parseSigned_toString hrequest]
        cases payload <;> simp
  simp only [parseRequestKeyMessage, hfields, MetaMessage.words, List.map_cons, List.cons_append,
    List.nil_append, parseNames_checkId h.from_name h.to_name, ok_bind, String.ofList_toList]
  exact congrArg (fun e => Except.ok (RequestKeyMessage.mk m.fromNode m.toNode e)) hextension

lemma parseAnswerKeyMessage_words {m : AnswerKeyMessage} (h : (MetaMessage.answerKey m).Parsed)
    (hfields : fields arguments = (MetaMessage.answerKey m).words.map String.toList) :
    parseAnswerKeyMessage arguments = .ok m := by
  simp only [parseAnswerKeyMessage, hfields, MetaMessage.words, List.map_cons, List.cons_append,
    List.nil_append, parseNames_checkId h.from_name h.to_name, nextField, ok_bind,
    parseI32Field_toString h.cipher_inRange, parseI32Field_toString h.digest_inRange,
    parseU64Field_toString, parseI32Field_toString h.compression_inRange,
    parseAddressFields_words', String.ofList_toList]
  rfl

lemma parseMtuInfoMessage_words {m : MtuInfoMessage} (h : (MetaMessage.mtuInfo m).Parsed)
    (hfields : fields arguments = (MetaMessage.mtuInfo m).words.map String.toList) :
    parseMtuInfoMessage arguments = .ok m := by
  obtain ⟨hfrom, hto, hlow, hhigh⟩ := h
  have hmtu : ¬ (m.mtu : ℤ) < minMtu := not_lt.mpr hlow
  simp only [parseMtuInfoMessage, hfields, MetaMessage.words, List.map_cons, List.map_nil,
    parseNames_checkId hfrom hto, nextField, ok_bind,
    parseI32Field_natCast (show m.mtu < 2 ^ 31 by rw [defaultMtu] at hhigh; omega), hmtu,
    if_false, Int.toNat_natCast, min_eq_left hhigh, String.ofList_toList]
  rfl

/-- **The arguments of a message read back.** -/
lemma MetaMessage.Parsed.parse_words {m : MetaMessage} (h : m.Parsed)
    (hfields : fields arguments = m.words.map String.toList) :
    parseArguments ⟨m.request, arguments⟩ = .ok m.readBack := by
  cases m with
  | id m => exact congrArg (Except.map _) (parseIdMessage_words h hfields)
  | metaKey m => exact congrArg (Except.map _) (parseMetakeyMessage_words h hfields)
  | challenge m =>
      have hparse : parseChallengeMessage arguments = .ok m := by
        simp only [parseChallengeMessage, hfields, words, List.map_cons, nextField, ok_bind,
          String.ofList_toList]
        rfl
      exact congrArg (Except.map _) hparse
  | challengeReply m =>
      have hparse : parseChallengeReplyMessage arguments = .ok m := by
        simp only [parseChallengeReplyMessage, hfields, words, List.map_cons, nextField, ok_bind,
          String.ofList_toList]
        rfl
      exact congrArg (Except.map _) hparse
  | ack m => exact congrArg (Except.map _) (parseAckMessage_words h hfields)
  | terminateRequest => rfl
  | ping => rfl
  | pong => rfl
  | addSubnet m => exact congrArg (Except.map _) (parseSubnetMessage_words h hfields)
  | deleteSubnet m => exact congrArg (Except.map _) (parseSubnetMessage_words h hfields)
  | addEdge m => exact congrArg (Except.map _) (parseAddEdgeMessage_words h hfields)
  | deleteEdge m => exact congrArg (Except.map _) (parseDeleteEdgeMessage_words h hfields)
  | keyChanged m =>
      have hparse : parseKeyChangedMessage arguments = .ok m := by
        simp only [parseKeyChangedMessage, hfields, words, List.map_cons, nextField, ok_bind,
          parseNonce_hex, validateNodeName_checkId h, String.ofList_toList]
        rfl
      exact congrArg (Except.map _) hparse
  | requestKey m => exact congrArg (Except.map _) (parseRequestKeyMessage_words h hfields)
  | answerKey m => exact congrArg (Except.map _) (parseAnswerKeyMessage_words h hfields)
  | tcpPacket m => exact congrArg (Except.map _) (parseTcpPacketMessage_words h hfields)
  | sptpsTcpPacket m => exact congrArg (Except.map _) (parseTcpPacketMessage_words h hfields)
  | udpInfo m =>
      obtain ⟨hfrom, hto, -⟩ := h
      have hparse : parseUdpInfoMessage arguments = .ok m := by
        simp only [parseUdpInfoMessage, hfields, words, List.map_cons,
          parseNames_checkId hfrom hto, nextField, ok_bind, String.ofList_toList]
        rfl
      exact congrArg (Except.map _) hparse
  | mtuInfo m => exact congrArg (Except.map _) (parseMtuInfoMessage_words h hfields)

end Arguments

/-- The digits of a number of 31 bits are read, up to something that is no digit. -/
lemma atoiDigits_toDigits {n : ℕ} {rest : List Char} (hn : n < 2 ^ 31)
    (hrest : rest = [] ∨ ∃ r, rest = ' ' :: r) :
    atoiDigits (Nat.toDigits 10 n ++ rest) 0 = (n, rest) := by
  have hend : ∀ m, atoiDigits rest m = (m, rest) := by
    rintro m
    rcases hrest with rfl | ⟨r, rfl⟩ <;> rfl
  have hdigit : ∀ d < 10, ('0' ≤ Nat.digitChar d ∧ Nat.digitChar d ≤ '9') ∧
      (Nat.digitChar d).toNat - '0'.toNat = d := by decide
  -- the digits so far, in front of a text that is left for later
  have hdigits : ∀ m, m < 2 ^ 31 → ∀ text,
      atoiDigits (Nat.toDigits 10 m ++ text) 0 = atoiDigits text m := by
    intro m
    induction m using Nat.strong_induction_on with
    | _ m ih =>
        intro hm text
        by_cases hsmall : m < 10
        · obtain ⟨hrange, hvalue⟩ := hdigit m hsmall
          rw [Nat.toDigits_of_lt_base hsmall, List.singleton_append, atoiDigits, if_pos hrange,
            hvalue]
          congr 1
          omega
        · obtain ⟨hrange, hvalue⟩ := hdigit (m % 10) (Nat.mod_lt m (by omega))
          rw [Nat.toDigits_of_base_le (by omega) (not_lt.mp hsmall), List.append_assoc,
            ih (m / 10) (by omega) (by omega), List.singleton_append, atoiDigits, if_pos hrange,
            hvalue]
          congr 1
          omega
  rw [hdigits n hn, hend]

lemma requestFromNumber_number (r : Request) : requestFromNumber (r.number : ℤ) = some r := by
  cases r <;> rfl

/-- White space in front of the arguments does not count. -/
lemma fields_dropWhile (text : List Char) :
    fields (text.dropWhile isAsciiWhitespace) = fields text := by
  have hwhite : ∀ c, isAsciiWhitespace c = true → isWhitespace c = true := by
    intro c hc
    simp only [isAsciiWhitespace, Bool.or_eq_true, decide_eq_true_eq] at hc
    simp only [isWhitespace, Bool.or_eq_true, Bool.and_eq_true, decide_eq_true_eq]
    omega
  induction text with
  | nil => rfl
  | cons c text ih =>
      rw [List.dropWhile_cons]
      split_ifs with hc
      · rw [ih, fields_cons (hwhite c hc)]
      · rfl

/-- **The request and the fields of a line read back.** -/
lemma parseRequestLine_words (r : Request) {words : List (List Char)} (h : AllWords words) :
    ∃ arguments, parseRequestLine (unwords ((toString r.number).toList :: words)) =
      .ok ⟨r, arguments⟩ ∧ fields arguments = words := by
  have hspace : isWhitespace ' ' = true := by decide
  have hsmall : r.number < 2 ^ 31 := by cases r <;> decide
  have hrest : words.flatMap (' ' :: ·) = [] ∨ ∃ r, words.flatMap (' ' :: ·) = ' ' :: r := by
    cases words with
    | nil => exact Or.inl rfl
    | cons word words => exact Or.inr ⟨_, rfl⟩
  have hfields : fields (words.flatMap (' ' :: ·)) = words := by
    cases words with
    | nil => rfl
    | cons word words =>
        rw [List.flatMap_cons, List.cons_append, fields_cons hspace, ← intercalate_cons]
        exact fields_unwords h
  have htext : unwords ((toString r.number).toList :: words) =
      Nat.toDigits 10 r.number ++ words.flatMap (' ' :: ·) := by
    rw [unwords, intercalate_cons,
      show (toString r.number).toList = Nat.toDigits 10 r.number from Nat.toList_repr]
  -- the text begins with a digit, so there is nothing to skip
  obtain ⟨c, digits, hdigits⟩ :=
    List.exists_cons_of_ne_nil (Nat.toDigits_ne_nil (n := r.number) (b := 10))
  have hc : c ∈ lowerDigits :=
    @mem_lowerDigits_of_mem_toDigits 10 (by omega) (by omega) r.number _
      (by simp [hdigits])
  have hskip : (Nat.toDigits 10 r.number ++ words.flatMap (' ' :: ·)).dropWhile isAsciiWhitespace =
      Nat.toDigits 10 r.number ++ words.flatMap (' ' :: ·) := by
    have hdigit : ∀ c ∈ lowerDigits, isAsciiWhitespace c = false := forall_mem_of_all (by decide)
    rw [hdigits, List.cons_append, List.dropWhile_cons_of_neg (by simp [hdigit c hc])]
  have hzero : r.number ≠ 0 ∨
      (Nat.toDigits 10 r.number ++ words.flatMap (' ' :: ·)).head? = some '0' := by
    by_cases hr : r.number = 0
    · right
      rw [hr]
      rfl
    · exact Or.inl hr
  have hnumber : max (-2 ^ 31) (min (r.number : ℤ) (2 ^ 31 - 1)) = (r.number : ℤ) := by omega
  have hdispatch : atoiDispatchPrefix (Nat.toDigits 10 r.number ++ words.flatMap (' ' :: ·)) =
      some ((r.number : ℤ), words.flatMap (' ' :: ·)) := by
    simp only [atoiDispatchPrefix, hskip, splitSign_toDigits, atoiDigits_toDigits hsmall hrest,
      Bool.false_eq_true, if_false, hnumber]
    rw [if_pos (hzero.imp_left fun h => by simpa using h)]
  refine ⟨(words.flatMap (' ' :: ·)).dropWhile isAsciiWhitespace, ?_, ?_⟩
  · rw [htext, parseRequestLine, hdispatch]
    simp only [requestFromNumber_number]
  · rw [fields_dropWhile, hfields]

lemma MetaMessage.toList_display (m : MetaMessage) : m.display.toList =
    unwords ((toString m.request.number).toList :: m.words.map String.toList) := by
  have hspace : " ".toList = [' '] := rfl
  rw [display, String.toList_intercalate, hspace, List.map_cons, unwords]

/-- **Every message that the parser can deliver reads back from its text.** -/
theorem MetaMessage.Parsed.parse_display {m : MetaMessage} (h : m.Parsed) :
    parseMetaMessage m.display.toList = .ok m.readBack := by
  have hwords : AllWords (m.words.map String.toList) := by
    intro word hword
    obtain ⟨s, hs, rfl⟩ := List.mem_map.mp hword
    exact h.words_word s hs
  obtain ⟨arguments, hline, hfields⟩ := parseRequestLine_words m.request hwords
  rw [parseMetaMessage, m.toList_display, hline]
  exact h.parse_words hfields

end ReadBack

/-- **A parsed line means the same after it was formatted and parsed again.** -/
theorem parseMetaMessage_display (line : List Char) (m : MetaMessage)
    (h : parseMetaMessage line = .ok m) :
    parseMetaMessage m.display.toList = .ok m.readBack :=
  (parseMetaMessage_parsed h).parse_display

/-- A subnet with a nonce in the long form, a prefix and a weight. -/
theorem parseMetaMessage_display_addSubnet :
    let line := "10 0x0c0ffee alpha 10.0.0.0/8#5 more".toList
    let m : MetaMessage :=
      .addSubnet ⟨0xc0ffee, "alpha", { kind := .ipv4 #v[10, 0, 0, 0] 8, weight := 5 }⟩
    parseMetaMessage line = .ok m ∧ parseMetaMessage m.display.toList = .ok m.readBack := by
  have h : parseMetaMessage "10 0x0c0ffee alpha 10.0.0.0/8#5 more".toList =
      .ok (.addSubnet ⟨0xc0ffee, "alpha", { kind := .ipv4 #v[10, 0, 0, 0] 8, weight := 5 }⟩) := by
    decide +kernel
  exact ⟨h, parseMetaMessage_display _ _ h⟩

end RustyTinc

import RustyTinc.Core.Protocol
import RustyTinc.Runtime.Engine
import RustyTinc.Runtime.Sptps.Crypto

/-!
Packets of the legacy protocol: compression, cipher and digest of one direction, over the
primitives that the repository takes from other crates.

* `LegacyPacketDirection.fromLegacyAnswerKey`: the direction that an ANS_KEY message describes;
* `LegacyPacketDirection.sealDatagram`: the datagram for a number and a payload;
* `LegacyPacketDirection.openDatagram`: the number and the payload of a datagram that the digest
  accepts.
-/

namespace RustyTinc

/-- The length of a sequence number in a datagram. -/
def legacySeqnoLen : ℕ := 4

/-- How packets are compressed. -/
inductive CompressionLevel where
  | none
  /-- The levels 1 to 9. -/
  | zlib (level : Fin 9)
  | lzoLow
  | lzoHigh
  | lz4
deriving DecidableEq

/-- `CompressionLevel::try_from`. -/
def CompressionLevel.tryFrom (value : ℤ) : Except ℤ CompressionLevel :=
  if value = 0 then .ok .none
  else if h : 1 ≤ value ∧ value ≤ 9 then .ok (.zlib ⟨(value - 1).toNat, by omega⟩)
  else if value = 10 then .ok .lzoLow
  else if value = 11 then .ok .lzoHigh
  else if value = 12 then .ok .lz4
  else .error value

/-- Why a packet is not encoded or a datagram is not decoded. -/
inductive LegacyPacketError where
  | unknownPeer (peer : String)
  | packetTooShort (minimum actual : ℕ)
  | replayed (seqno receivedSeqno : UInt32)
  | farFuture (seqno receivedSeqno distance count : UInt32)
  | unsupportedCompression (compression : CompressionLevel)
  | compressionFailed (compression : CompressionLevel) (message : String)
  | decompressionFailed (compression : CompressionLevel) (message : String)
  | unsupportedCipher (nid : ℤ)
  | invalidCipherKeyLength (nid : ℤ) (expected actual : ℕ)
  | cipherFailed (nid : ℤ) (message : String)
  | digestMismatch (nid : ℤ) (length : ℕ)
  | digestFailed (nid : ℤ) (message : String)
  | invalidDigestLength (nid : ℤ) (requested actual : ℕ)
  | unsupportedDigest (nid : ℤ) (length : ℕ)
  | invalidCompression (value : ℤ)
  | invalidKeyMaterialLength (expected actual : ℕ)
  | packet (error : DeviceError)
deriving DecidableEq

/-- The ciphers of packets. -/
inductive LegacyCipherAlgorithm where
  | none
  | aes128Cbc
  | aes192Cbc
  | aes256Cbc
  | unsupported (nid : ℤ)
deriving DecidableEq

/-- The digests of packets, with the length to which they are cut. -/
inductive LegacyDigest where
  | none
  | sha1 (length : ℕ)
  | sha256 (length : ℕ)
  | sha384 (length : ℕ)
  | sha512 (length : ℕ)
  | unsupported (nid : ℤ) (length : ℕ)
deriving DecidableEq

/-- The primitives from other crates, and which of them are built in. -/
structure LegacyPrimitives where
  lzoAvailable : Bool
  opensslCipherKeyLen : ℤ → ℕ
  opensslCipherIvLen : ℤ → ℕ
  opensslDigestLen : ℤ → Option ℕ
  /-- The keyed hash of a packet, not yet truncated. -/
  hmac : LegacyDigest → List UInt8 → List UInt8 → Except LegacyPacketError (List UInt8)
  /-- Encryption under a cipher with a key and an initial vector. -/
  encryptCbc : LegacyCipherAlgorithm → List UInt8 → List UInt8 → List UInt8 → List UInt8
  decryptCbc : LegacyCipherAlgorithm → List UInt8 → List UInt8 → List UInt8 →
    Except LegacyPacketError (List UInt8)
  opensslEncrypt : ℤ → List UInt8 → List UInt8 → Except LegacyPacketError (List UInt8)
  opensslDecrypt : ℤ → List UInt8 → List UInt8 → Except LegacyPacketError (List UInt8)
  compress : CompressionLevel → List UInt8 → Except LegacyPacketError (List UInt8)
  decompress : CompressionLevel → List UInt8 → Except LegacyPacketError (List UInt8)

namespace LegacyCipherAlgorithm

/-- The cipher of a number. -/
def fromNid (nid : ℤ) : LegacyCipherAlgorithm :=
  if nid ≤ 0 then .none
  else if nid = 419 then .aes128Cbc
  else if nid = 423 then .aes192Cbc
  else if nid = 427 then .aes256Cbc
  else .unsupported nid

/-- The number of a cipher. -/
def nid : LegacyCipherAlgorithm → ℤ
  | .none => 0
  | .aes128Cbc => 419
  | .aes192Cbc => 423
  | .aes256Cbc => 427
  | .unsupported nid => nid

/-- The length of a key of the cipher. -/
def keyLen (p : LegacyPrimitives) : LegacyCipherAlgorithm → ℕ
  | .none => 0
  | .aes128Cbc => 16
  | .aes192Cbc => 24
  | .aes256Cbc => 32
  | .unsupported nid => p.opensslCipherKeyLen nid

/-- The length of an initial vector of the cipher. -/
def ivLen (p : LegacyPrimitives) : LegacyCipherAlgorithm → ℕ
  | .none => 0
  | .aes128Cbc | .aes192Cbc | .aes256Cbc => 16
  | .unsupported nid => p.opensslCipherIvLen nid

/-- The length of a key and an initial vector together. -/
def keyMaterialLen (p : LegacyPrimitives) (a : LegacyCipherAlgorithm) : ℕ :=
  a.keyLen p + a.ivLen p

end LegacyCipherAlgorithm

/-- A cipher, and the bytes of its key and of its initial vector. -/
structure LegacyCipher where
  algorithm : LegacyCipherAlgorithm := .none
  keyMaterial : List UInt8 := []
deriving DecidableEq

namespace LegacyCipher

/-- The key and the initial vector, when they have the right length. -/
def aesKeyIv (p : LegacyPrimitives) (c : LegacyCipher) :
    Except LegacyPacketError (List UInt8 × List UInt8) :=
  let expected := c.algorithm.keyMaterialLen p
  if c.keyMaterial.length ≠ expected then
    .error (.invalidCipherKeyLength c.algorithm.nid expected c.keyMaterial.length)
  else .ok (c.keyMaterial.splitAt (c.algorithm.keyLen p))

/-- A packet, encrypted. -/
def encrypt (p : LegacyPrimitives) (c : LegacyCipher) (packet : List UInt8) :
    Except LegacyPacketError (List UInt8) :=
  match c.algorithm with
  | .none => .ok packet
  | .unsupported nid => p.opensslEncrypt nid c.keyMaterial packet
  | _ => do
    let (key, iv) ← c.aesKeyIv p
    return p.encryptCbc c.algorithm key iv packet

/-- A packet, decrypted. -/
def decrypt (p : LegacyPrimitives) (c : LegacyCipher) (packet : List UInt8) :
    Except LegacyPacketError (List UInt8) :=
  match c.algorithm with
  | .none => .ok packet
  | .unsupported nid => p.opensslDecrypt nid c.keyMaterial packet
  | _ => do
    let (key, iv) ← c.aesKeyIv p
    p.decryptCbc c.algorithm key iv packet

end LegacyCipher

namespace LegacyDigest

/-- The length of a digest that is not cut. -/
def maximumLengthForNid (p : LegacyPrimitives) (nid : ℤ) : Option ℕ :=
  if nid = 64 then some 20
  else if nid = 672 then some 32
  else if nid = 673 then some 48
  else if nid = 674 then some 64
  else p.opensslDigestLen nid

/-- A length that is asked for, or the whole length when it is smaller. -/
def effectiveLengthForNid (p : LegacyPrimitives) (nid : ℤ) (requested : ℕ) : ℕ :=
  match maximumLengthForNid p nid with
  | some maximum => if maximum < requested then maximum else requested
  | .none => requested

/-- The digest of a number, cut to a length. -/
def fromNidAndLength (p : LegacyPrimitives) (nid : ℤ) (length : ℕ) : LegacyDigest :=
  if nid ≤ 0 then .none
  else
    let length := effectiveLengthForNid p nid length
    if nid = 64 then .sha1 length
    else if nid = 672 then .sha256 length
    else if nid = 673 then .sha384 length
    else if nid = 674 then .sha512 length
    else .unsupported nid length

/-- The number of a digest. -/
def nid : LegacyDigest → ℤ
  | .none => 0
  | .sha1 _ => 64
  | .sha256 _ => 672
  | .sha384 _ => 673
  | .sha512 _ => 674
  | .unsupported nid _ => nid

/-- The length to which the digest is cut. -/
def length : LegacyDigest → ℕ
  | .none => 0
  | .sha1 length | .sha256 length | .sha384 length | .sha512 length | .unsupported _ length =>
    length

/-- The keyed hash of a packet. -/
def create (p : LegacyPrimitives) (d : LegacyDigest) (key packet : List UInt8) :
    Except LegacyPacketError (List UInt8) :=
  if d = .none then .ok []
  else do
    let mac ← p.hmac d key packet
    .ok (mac.take d.length)

/-- The keyed hash of a packet is the expected one. -/
def verify (p : LegacyPrimitives) (d : LegacyDigest) (key packet expected : List UInt8) :
    Except LegacyPacketError Unit := do
  let actual ← d.create p key packet
  if constantTimeEq actual expected then .ok () else .error (.digestMismatch d.nid d.length)

end LegacyDigest

/-- A digest with its key. -/
structure LegacyDigestState where
  algorithm : LegacyDigest := .none
  key : List UInt8 := []
deriving DecidableEq

namespace LegacyDigestState

/-- The bytes that the digest adds to a datagram. -/
def length (d : LegacyDigestState) : ℕ := d.algorithm.length

/-- A packet and its keyed hash behind it. -/
def append (p : LegacyPrimitives) (d : LegacyDigestState) (packet : List UInt8) :
    Except LegacyPacketError (List UInt8) :=
  if d.algorithm = .none then .ok packet
  else do
    let mac ← d.algorithm.create p d.key packet
    .ok (packet ++ mac)

/-- The datagram without its digest, which must be right. -/
def verifyAndStrip (p : LegacyPrimitives) (d : LegacyDigestState) (packet : List UInt8) :
    Except LegacyPacketError (List UInt8) :=
  if d.algorithm = .none then .ok packet
  else if packet.length < d.length then .error (.packetTooShort d.length packet.length)
  else do
    let (body, mac) := packet.splitAt (packet.length - d.length)
    d.algorithm.verify p d.key body mac
    .ok body

end LegacyDigestState

/-- How the packets of one direction are made. -/
structure LegacyPacketDirection where
  compression : CompressionLevel := .none
  cipher : LegacyCipher := {}
  digest : LegacyDigestState := {}
deriving DecidableEq

/-- The value of a hexadecimal digit. -/
def hexValue (byte : UInt8) : Option UInt8 :=
  if 48 ≤ byte ∧ byte ≤ 57 then some (byte - 48)
  else if 97 ≤ byte ∧ byte ≤ 102 then some (byte - 97 + 10)
  else if 65 ≤ byte ∧ byte ≤ 70 then some (byte - 65 + 10)
  else none

/-- At most `maxLen` bytes, up to the first pair of characters that are not digits. -/
def hexToBin (src : List UInt8) : ℕ → List UInt8
  | 0 => []
  | maxLen + 1 =>
    match src with
    | high :: low :: rest =>
      match hexValue high, hexValue low with
      | some high, some low => (high <<< 4 ||| low) :: hexToBin rest maxLen
      | _, _ => []
    | _ => []

namespace LegacyPacketDirection

/-- The library for this compression is missing. -/
def compressionIsUnavailable (p : LegacyPrimitives) : CompressionLevel → Bool
  | .lzoLow | .lzoHigh => !p.lzoAvailable
  | _ => false

/-- The direction that a peer has given the key for. -/
def fromLegacyAnswerKey (p : LegacyPrimitives) (message : AnswerKeyMessage) :
    Except LegacyPacketError LegacyPacketDirection := do
  let compression ← (CompressionLevel.tryFrom message.compression).mapError .invalidCompression
  if compressionIsUnavailable p compression then throw (.unsupportedCompression compression)
  let cipherAlgorithm := LegacyCipherAlgorithm.fromNid message.cipher
  if let .unsupported nid := cipherAlgorithm then throw (.unsupportedCipher nid)
  let requested := message.macLength.toNat
  let digestAlgorithm := LegacyDigest.fromNidAndLength p message.digest requested
  if let .unsupported nid length := digestAlgorithm then throw (.unsupportedDigest nid length)
  -- The largest length asks for the full digest.
  if requested ≠ 2 ^ 64 - 1 ∧ requested ≠ digestAlgorithm.length then
    throw (.invalidDigestLength digestAlgorithm.nid requested digestAlgorithm.length)
  let expectedKeyLen :=
    if cipherAlgorithm = .none then 1 else cipherAlgorithm.keyMaterialLen p
  let key := hexToBin message.key.toUTF8.toList expectedKeyLen
  if key.length ≠ expectedKeyLen then
    throw (.invalidKeyMaterialLength expectedKeyLen key.length)
  let cipherKey := if cipherAlgorithm = .none then [] else key
  return { compression, cipher := ⟨cipherAlgorithm, cipherKey⟩, digest := ⟨digestAlgorithm, key⟩ }

/-- A packet, compressed. -/
def compress (p : LegacyPrimitives) (d : LegacyPacketDirection) (packet : List UInt8) :
    Except LegacyPacketError (List UInt8) :=
  match d.compression with
  | .none => .ok packet
  | compression => p.compress compression packet

/-- A packet, as it was before the compression. -/
def uncompress (p : LegacyPrimitives) (d : LegacyPacketDirection) (packet : List UInt8) :
    Except LegacyPacketError (List UInt8) :=
  match d.compression with
  | .none => .ok packet
  | compression => p.decompress compression packet

/-- The datagram of a number and a payload. -/
def sealDatagram (p : LegacyPrimitives) (d : LegacyPacketDirection) (seqno : UInt32)
    (payload : List UInt8) : Except LegacyPacketError (List UInt8) := do
  let framed := Bytes.bigEndian legacySeqnoLen seqno.toNat ++ payload
  let encrypted ← d.cipher.encrypt p framed
  d.digest.append p encrypted

/-- The sequence number and the payload of a datagram that passes the digest and the cipher. -/
def openDatagram (p : LegacyPrimitives) (d : LegacyPacketDirection) (datagram : List UInt8) :
    Except LegacyPacketError (UInt32 × List UInt8) := do
  let minimum := legacySeqnoLen + d.digest.length
  if datagram.length < minimum then throw (.packetTooShort minimum datagram.length)
  let authenticated ← d.digest.verifyAndStrip p datagram
  let decrypted ← d.cipher.decrypt p authenticated
  if decrypted.length < legacySeqnoLen then
    throw (.packetTooShort legacySeqnoLen decrypted.length)
  let seqno := UInt32.ofNat (Bytes.ofBigEndian (decrypted.take legacySeqnoLen))
  return (seqno, decrypted.drop legacySeqnoLen)

end LegacyPacketDirection

end RustyTinc

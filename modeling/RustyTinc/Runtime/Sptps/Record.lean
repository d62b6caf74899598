import Mathlib.Tactic

/-!
The records of SPTPS: their constants, their errors, and the states of a handshake.
-/

namespace RustyTinc

/-- The version of the protocol in KEX records. -/
def sptpsVersion : UInt8 := 0
/-- The type of the records of a handshake; smaller ones are of the application. -/
def sptpsHandshake : UInt8 := 128
/-- What an encrypted record adds to its payload in a datagram. -/
def sptpsDatagramOverhead : ℕ := 21
/-- The length of a sequence number. -/
def sptpsSeqnoLen : ℕ := 4
/-- The length of a tag. -/
def sptpsTagLen : ℕ := 16
/-- The length of a header on a stream: the length and the type. -/
def sptpsTcpHeaderLen : ℕ := 3
/-- What an encrypted record adds to its payload on a stream. -/
def sptpsTcpAuthOverhead : ℕ := 19
/-- The length of a nonce. -/
def sptpsKexNonceLen : ℕ := 32
/-- The length of a public key in a KEX record. -/
def sptpsKexPubkeyLen : ℕ := 32
/-- The length of a KEX record. -/
def sptpsKexLen : ℕ := 1 + sptpsKexNonceLen + sptpsKexPubkeyLen
/-- The length of a signature. -/
def ed25519SignatureLen : ℕ := 64

/-- What a session waits for. -/
inductive SptpsHandshakeState where
  | kex
  | secondaryKex
  | sig
  | ack
deriving DecidableEq

/-- Why a session refuses a record or a call. -/
inductive SptpsError where
  | invalidRecordType (recordType : UInt8)
  | invalidKexLength (expected actual : ℕ)
  | invalidKexVersion (version : UInt8)
  | duplicateKex
  | invalidSignatureLength (expected actual : ℕ)
  | invalidEd25519PublicKey
  | signatureVerificationFailed
  | randomFailed (message : String)
  | missingHandshakeState (field : String)
  | unexpectedHandshakeRecord (state : SptpsHandshakeState) (len : ℕ)
  | packetTooShort (minimum actual : ℕ)
  | recordTooLarge (maximum actual : ℕ)
  | invalidRecordLength (expected actual : ℕ)
  | unexpectedSeqno (expected actual : UInt32)
  | replay (seqno expectedSeqno : UInt32)
  | farFuture (seqno expectedSeqno distance count : UInt32)
  | authenticationFailed
deriving DecidableEq

/-- A decoded record. -/
structure SptpsRecord where
  seqno : UInt32
  recordType : UInt8
  payload : List UInt8
deriving DecidableEq

end RustyTinc

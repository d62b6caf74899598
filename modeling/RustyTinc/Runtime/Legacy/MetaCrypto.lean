import RustyTinc.Runtime.Legacy.Packet

/-!
The keys, the digest and the stream cipher of legacy meta connections, over the primitives that the
repository takes from other crates.

* `LegacyMetaCipher.cfb128Apply_append`: the cipher works byte by byte;
* `LegacyMetaCipher.applyDecrypt_eq`: it never fails, since a cipher carries the length of its key.
-/

namespace RustyTinc

/-- The length of a digest that is not cut, as messages give it. -/
def legacyMetaDigestAlgoSize : ℕ := 2 ^ 64 - 1
/-- The length of a digest that this side asks for. -/
def legacyMetaDefaultMacLength : ℤ := 4
/-- The number of no compression. -/
def legacyMetaCompressNone : ℤ := 0

/-- Why a session of the legacy protocol cannot be set up. -/
inductive LegacyMetaError where
  | unsupportedCipher (nid : ℤ)
  | unsupportedDigest (nid : ℤ)
  | invalidKeyMaterialLength (expected actual : ℕ)
  | invalidRsaBlockLength (expected actual : ℕ)
  | rsaValueTooLarge
  | invalidDigestLength (expected actual : ℕ)
  | digestMismatch
deriving DecidableEq

/-- The stream ciphers of the legacy protocol. -/
inductive LegacyMetaCipherAlgorithm where
  | aes128Cfb
  | aes192Cfb
  | aes256Cfb
deriving DecidableEq

/-- The digests of the legacy protocol, with the length to which they are cut. -/
inductive LegacyMetaDigest where
  | sha1 (length : ℕ)
  | sha256 (length : ℕ)
  | sha384 (length : ℕ)
  | sha512 (length : ℕ)
deriving DecidableEq

/-- The primitives from other crates: the block cipher and the hash functions. -/
structure LegacyMetaPrimitives where
  encryptBlock : LegacyMetaCipherAlgorithm → List UInt8 → Vector UInt8 16 → Vector UInt8 16
  sha1 : List UInt8 → List UInt8
  sha256 : List UInt8 → List UInt8
  sha384 : List UInt8 → List UInt8
  sha512 : List UInt8 → List UInt8

/-- The digits of a hexadecimal text. -/
def hexDigits : List Char := "0123456789ABCDEF".toList

/-- The text of some bytes, the high digit of each byte first. -/
def binToHex (src : List UInt8) : String :=
  .ofList (src.flatMap fun (byte : UInt8) =>
    [hexDigits.getD (byte >>> 4).toNat '0', hexDigits.getD (byte &&& 15).toNat '0'])

/-! ### RSA -/

/-- An RSA key: the modulus and the exponent. -/
structure RsaPublicKey where
  n : ℕ
  e : ℕ
deriving DecidableEq

/-- A private key, from a file or from its components. -/
structure LegacyMetaPrivateKey where
  publicKey : RsaPublicKey
  privateExponent : ℕ
deriving DecidableEq

/-- The number of bytes of the modulus. -/
def rsaSize (key : RsaPublicKey) : ℕ := (key.n.size + 7) / 8

/-- A block, encrypted under a public key without any padding. -/
def legacyMetaPublicEncrypt (key : RsaPublicKey) (plaintext : List UInt8) :
    Except LegacyMetaError (List UInt8) :=
  if plaintext.length ≠ rsaSize key then
    .error (.invalidRsaBlockLength (rsaSize key) plaintext.length)
  else
    let message := Bytes.ofBigEndian plaintext
    if message ≥ key.n then .error .rsaValueTooLarge
    else .ok (Bytes.bigEndian (rsaSize key) (message ^ key.e % key.n))

/-- The length of a block of the key. -/
def LegacyMetaPrivateKey.rsaSize (key : LegacyMetaPrivateKey) : ℕ :=
  RustyTinc.rsaSize key.publicKey

/-- A block, decrypted under the private key. -/
def LegacyMetaPrivateKey.decryptBlock (key : LegacyMetaPrivateKey) (ciphertext : List UInt8) :
    Except LegacyMetaError (List UInt8) :=
  if ciphertext.length ≠ key.rsaSize then
    .error (.invalidRsaBlockLength key.rsaSize ciphertext.length)
  else
    let message := Bytes.ofBigEndian ciphertext
    .ok (Bytes.bigEndian key.rsaSize (message ^ key.privateExponent % key.publicKey.n))

/-- The key material, with the highest bit cleared so that it is less than the modulus. -/
def legacyMetaGenerateRsaKeyMaterial (random : List UInt8) : List UInt8 :=
  match random with
  | [] => []
  | first :: rest => (first &&& 0x7f) :: rest

/-! ### Digests -/

namespace LegacyMetaDigest

/-- The digest of a number, cut to a length that is at most its own. -/
def fromNidAndLength (nid : ℤ) (length : ℕ) : Option LegacyMetaDigest :=
  let clamp := fun maximum =>
    if length = legacyMetaDigestAlgoSize ∨ length > maximum then maximum else length
  if nid = 64 then some (.sha1 (clamp 20))
  else if nid = 672 then some (.sha256 (clamp 32))
  else if nid = 673 then some (.sha384 (clamp 48))
  else if nid = 674 then some (.sha512 (clamp 64))
  else none

/-- The number of a digest. -/
def nid : LegacyMetaDigest → ℤ
  | sha1 _ => 64
  | sha256 _ => 672
  | sha384 _ => 673
  | sha512 _ => 674

/-- The length to which the digest is cut. -/
def length : LegacyMetaDigest → ℕ
  | sha1 length | sha256 length | sha384 length | sha512 length => length

/-- The digest of some bytes. -/
def create (p : LegacyMetaPrimitives) (digest : LegacyMetaDigest) (input : List UInt8) :
    List UInt8 :=
  let hash :=
    match digest with
    | sha1 _ => p.sha1 input
    | sha256 _ => p.sha256 input
    | sha384 _ => p.sha384 input
    | sha512 _ => p.sha512 input
  hash.take digest.length

/-- The digest of some bytes, as text. -/
def createHex (p : LegacyMetaPrimitives) (digest : LegacyMetaDigest) (input : List UInt8) : String :=
  binToHex (digest.create p input)

/-- The digest of some bytes is the one that the text gives. -/
def verifyHex (p : LegacyMetaPrimitives) (digest : LegacyMetaDigest) (input : List UInt8)
    (expectedHex : String) : Except LegacyMetaError Unit :=
  let expected := hexToBin expectedHex.toUTF8.toList digest.length
  if expected.length ≠ digest.length then
    .error (.invalidDigestLength digest.length expected.length)
  else if digest.create p input = expected then .ok ()
  else .error .digestMismatch

end LegacyMetaDigest

/-! ### The stream cipher -/

namespace LegacyMetaCipherAlgorithm

/-- The cipher of a number. -/
def fromNid (nid : ℤ) : Option LegacyMetaCipherAlgorithm :=
  if nid = 421 then some aes128Cfb
  else if nid = 425 then some aes192Cfb
  else if nid = 429 then some aes256Cfb
  else none

/-- The number of a cipher. -/
def nid : LegacyMetaCipherAlgorithm → ℤ
  | aes128Cfb => 421
  | aes192Cfb => 425
  | aes256Cfb => 429

/-- The length of a key of the cipher. -/
def keyLen : LegacyMetaCipherAlgorithm → ℕ
  | aes128Cfb => 16
  | aes192Cfb => 24
  | aes256Cfb => 32

/-- The length of an initial vector. -/
def ivLen (_ : LegacyMetaCipherAlgorithm) : ℕ := 16

/-- The length of a key and an initial vector together. -/
def keyMaterialLen (algorithm : LegacyMetaCipherAlgorithm) : ℕ :=
  algorithm.keyLen + algorithm.ivLen

end LegacyMetaCipherAlgorithm

/-- A stream cipher with its key and the block that it feeds back. -/
structure LegacyMetaCipher where
  algorithm : LegacyMetaCipherAlgorithm
  key : List UInt8
  length_key : key.length = algorithm.keyLen
  feedback : Vector UInt8 16
  stream : Vector UInt8 16
  position : Fin 16
deriving DecidableEq

namespace LegacyMetaCipher

/-- The key is at the end of the key material, after the initial vector. -/
def fromRsaKeyMaterial (algorithm : LegacyMetaCipherAlgorithm) (material : List UInt8) :
    Except LegacyMetaError LegacyMetaCipher :=
  if h : material.length < algorithm.keyMaterialLen then
    .error (.invalidKeyMaterialLength algorithm.keyMaterialLen material.length)
  else
    let keyStart := material.length - algorithm.keyLen
    let ivStart := keyStart - algorithm.ivLen
    .ok
      { algorithm
        key := material.drop keyStart
        length_key := by
          rw [LegacyMetaCipherAlgorithm.keyMaterialLen] at h
          rw [List.length_drop]
          omega
        feedback := Bytes.array 16 (material.drop ivStart)
        stream := Bytes.array 16 []
        position := 0 }

/-- One byte, and the cipher after it. -/
def cfb128Byte (p : LegacyMetaPrimitives) (encrypt : Bool) (cipher : LegacyMetaCipher)
    (byte : UInt8) : UInt8 × LegacyMetaCipher :=
  let stream :=
    if cipher.position = 0 then p.encryptBlock cipher.algorithm cipher.key cipher.feedback
    else cipher.stream
  let out := byte ^^^ stream.get cipher.position
  (out, { cipher with
    stream
    feedback := cipher.feedback.set cipher.position (if encrypt then out else byte)
    position := cipher.position + 1 })

/-- Each byte is combined with the encrypted feedback, which takes up the ciphertext. -/
def cfb128Apply (p : LegacyMetaPrimitives) (encrypt : Bool) :
    LegacyMetaCipher → List UInt8 → List UInt8 × LegacyMetaCipher
  | cipher, [] => ([], cipher)
  | cipher, byte :: input =>
      let r := cipher.cfb128Byte p encrypt byte
      let rest := cfb128Apply p encrypt r.2 input
      (r.1 :: rest.1, rest.2)

/-- Some bytes pass the cipher, when its key has the right length. -/
def aesCfbApply (p : LegacyMetaPrimitives) (encrypt : Bool) (cipher : LegacyMetaCipher)
    (input : List UInt8) : Except LegacyMetaError (List UInt8 × LegacyMetaCipher) :=
  if cipher.key.length ≠ cipher.algorithm.keyLen then
    .error (.invalidKeyMaterialLength cipher.algorithm.keyLen cipher.key.length)
  else .ok (cipher.cfb128Apply p encrypt input)

/-- Some bytes are encrypted, after those before them. -/
def applyEncrypt (p : LegacyMetaPrimitives) (cipher : LegacyMetaCipher) (plaintext : List UInt8) :
    Except LegacyMetaError (List UInt8 × LegacyMetaCipher) :=
  cipher.aesCfbApply p true plaintext

/-- Some bytes are decrypted, after those before them. -/
def applyDecrypt (p : LegacyMetaPrimitives) (cipher : LegacyMetaCipher) (ciphertext : List UInt8) :
    Except LegacyMetaError (List UInt8 × LegacyMetaCipher) :=
  cipher.aesCfbApply p false ciphertext

variable {p : LegacyMetaPrimitives}

/-- **The cipher works byte by byte.** -/
lemma cfb128Apply_append (encrypt : Bool) (cipher : LegacyMetaCipher) (a b : List UInt8) :
    cipher.cfb128Apply p encrypt (a ++ b) =
      let r := cipher.cfb128Apply p encrypt a
      (r.1 ++ (r.2.cfb128Apply p encrypt b).1, (r.2.cfb128Apply p encrypt b).2) := by
  induction a generalizing cipher with
  | nil => rfl
  | cons byte a ih =>
      rw [List.cons_append, cfb128Apply, ih]
      rfl

@[simp] lemma length_cfb128Apply (encrypt : Bool) (cipher : LegacyMetaCipher)
    (input : List UInt8) : (cipher.cfb128Apply p encrypt input).1.length = input.length := by
  induction input generalizing cipher with
  | nil => rfl
  | cons byte input ih =>
      rw [cfb128Apply, List.length_cons, ih, List.length_cons]

/-- The key always has the length that the algorithm asks for. -/
lemma applyDecrypt_eq (cipher : LegacyMetaCipher) (ciphertext : List UInt8) :
    cipher.applyDecrypt p ciphertext = .ok (cipher.cfb128Apply p false ciphertext) := by
  rw [applyDecrypt, aesCfbApply, if_neg (not_not.mpr cipher.length_key)]

end LegacyMetaCipher

end RustyTinc

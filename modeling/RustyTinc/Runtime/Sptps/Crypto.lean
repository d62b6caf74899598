import RustyTinc.Library.Bytes
import RustyTinc.Runtime.Sptps.Record

/-!
The keys of SPTPS, the key derivation and the record cipher, over the primitives that the
repository takes from other crates.

* `decrypt_encrypt`, `encrypt_of_decrypt`: what was encrypted is decrypted, and nothing else;
* `SptpsKex.tryFromSlice_toBytes`: KEX records read back;
* `signatureMessage_inj`: the message of a signature determines the role, both KEX records and
  the label.
-/

namespace RustyTinc

/-- The public key of a node. -/
structure TincEd25519PublicKey where
  bytes : Vector UInt8 32
deriving DecidableEq

/-- The private key of a node, as tinc stores it, with its public key. -/
structure TincEd25519PrivateKey where
  expandedPrivateKey : Vector UInt8 64
  publicKey : TincEd25519PublicKey
deriving DecidableEq

/-- A key for one handshake. -/
structure SptpsEphemeralKey where
  expandedPrivateKey : Vector UInt8 64
  publicKey : Vector UInt8 32
deriving DecidableEq

/-- The key of one direction; the record cipher takes its first half. -/
structure SptpsKey where
  bytes : Vector UInt8 64
deriving DecidableEq

/-- The primitives from other crates: stream cipher, authenticator, keyed hash and curve. -/
structure Primitives where
  /-- The key stream byte at a position, for a key, a sequence number and a block counter. -/
  chacha20 : Vector UInt8 32 → UInt32 → ℕ → ℕ → UInt8
  poly1305 : List UInt8 → List UInt8 → Vector UInt8 16
  hmacSha512 : List UInt8 → List UInt8 → Vector UInt8 64
  sign : TincEd25519PrivateKey → List UInt8 → Vector UInt8 64
  verify : TincEd25519PublicKey → List UInt8 → List UInt8 → Except SptpsError Unit
  ephemeralFromSeed : Vector UInt8 32 → SptpsEphemeralKey
  computeShared : SptpsEphemeralKey → Vector UInt8 32 → Except SptpsError (Vector UInt8 32)

/-! ### The record cipher -/

/-- The part of a key that the stream cipher takes. -/
def SptpsKey.chachaKey (key : SptpsKey) : Vector UInt8 32 := Bytes.array 32 key.bytes.toList

/-- Some bytes, combined with the key stream from a block on. -/
def chacha20XorInPlace (p : Primitives) (key : SptpsKey) (seqno : UInt32) (counter : ℕ)
    (data : List UInt8) : List UInt8 :=
  data.mapIdx fun i b => b ^^^ p.chacha20 key.chachaKey seqno counter i

/-- The key stream from a block on. -/
def chacha20Block (p : Primitives) (key : SptpsKey) (seqno : UInt32) (counter len : ℕ) :
    List UInt8 :=
  chacha20XorInPlace p key seqno counter (List.replicate len 0)

/-- The texts are equal; all their bytes are looked at. -/
def constantTimeEq (left right : List UInt8) : Bool :=
  if left.length ≠ right.length then false
  else (left.zip right).foldl (fun diff x => diff ||| (x.1 ^^^ x.2)) 0 = 0

/-- Some bytes, encrypted and followed by their tag. -/
def sptpsChachaPoly1305Encrypt (p : Primitives) (key : SptpsKey) (seqno : UInt32)
    (plaintext : List UInt8) : List UInt8 :=
  let polyKey := chacha20Block p key seqno 0 32
  let ciphertext := chacha20XorInPlace p key seqno 1 plaintext
  ciphertext ++ (p.poly1305 polyKey ciphertext).toList

/-- The bytes before the tag, decrypted when the tag is right. -/
def sptpsChachaPoly1305Decrypt (p : Primitives) (key : SptpsKey) (seqno : UInt32)
    (ciphertextAndTag : List UInt8) : Except SptpsError (List UInt8) :=
  if ciphertextAndTag.length < sptpsTagLen then
    .error (.packetTooShort sptpsTagLen ciphertextAndTag.length)
  else
    let ciphertext := ciphertextAndTag.take (ciphertextAndTag.length - sptpsTagLen)
    let tag := ciphertextAndTag.drop (ciphertextAndTag.length - sptpsTagLen)
    let polyKey := chacha20Block p key seqno 0 32
    if constantTimeEq (p.poly1305 polyKey ciphertext).toList tag then
      .ok (chacha20XorInPlace p key seqno 1 ciphertext)
    else .error .authenticationFailed

lemma constantTimeEq_self (bytes : List UInt8) : constantTimeEq bytes bytes = true := by
  have hfold : ∀ bytes : List UInt8,
      (bytes.zip bytes).foldl (fun diff x => diff ||| (x.1 ^^^ x.2)) (0 : UInt8) = 0 := by
    intro bytes
    induction bytes with
    | nil => rfl
    | cons b bytes ih => simpa using ih
  rw [constantTimeEq, if_neg (not_not.mpr rfl), hfold]
  rfl

@[simp] lemma length_chacha20XorInPlace (p : Primitives) (key : SptpsKey) (seqno : UInt32)
    (counter : ℕ) (data : List UInt8) :
    (chacha20XorInPlace p key seqno counter data).length = data.length := by
  simp [chacha20XorInPlace]

lemma chacha20XorInPlace_twice (p : Primitives) (key : SptpsKey) (seqno : UInt32) (counter : ℕ)
    (data : List UInt8) :
    chacha20XorInPlace p key seqno counter (chacha20XorInPlace p key seqno counter data) = data := by
  refine List.ext_getElem (by simp) fun i h1 h2 => ?_
  simp only [chacha20XorInPlace, List.getElem_mapIdx]
  rw [UInt8.xor_assoc, UInt8.xor_self, UInt8.xor_zero]

@[simp] lemma length_sptpsChachaPoly1305Encrypt (p : Primitives) (key : SptpsKey) (seqno : UInt32)
    (plaintext : List UInt8) :
    (sptpsChachaPoly1305Encrypt p key seqno plaintext).length = plaintext.length + sptpsTagLen := by
  simp [sptpsChachaPoly1305Encrypt, sptpsTagLen]

/-- **What was encrypted is decrypted.** -/
lemma decrypt_encrypt (p : Primitives) (key : SptpsKey) (seqno : UInt32) (plaintext : List UInt8) :
    sptpsChachaPoly1305Decrypt p key seqno (sptpsChachaPoly1305Encrypt p key seqno plaintext) =
      .ok plaintext := by
  have hlen := length_sptpsChachaPoly1305Encrypt p key seqno plaintext
  rw [sptpsChachaPoly1305Decrypt, if_neg (by omega), hlen, Nat.add_sub_cancel]
  have htake : (sptpsChachaPoly1305Encrypt p key seqno plaintext).take plaintext.length =
      chacha20XorInPlace p key seqno 1 plaintext := by
    rw [sptpsChachaPoly1305Encrypt, List.take_left' (length_chacha20XorInPlace ..)]
  have hdrop : (sptpsChachaPoly1305Encrypt p key seqno plaintext).drop plaintext.length =
      (p.poly1305 (chacha20Block p key seqno 0 32)
        (chacha20XorInPlace p key seqno 1 plaintext)).toList := by
    rw [sptpsChachaPoly1305Encrypt, List.drop_left' (length_chacha20XorInPlace ..)]
  simp only [htake, hdrop, constantTimeEq_self, if_true, chacha20XorInPlace_twice]

/-- The comparison compares every byte. -/
lemma eq_of_constantTimeEq {left right : List UInt8} (h : constantTimeEq left right = true) :
    left = right := by
  have hfold : ∀ (zipped : List (UInt8 × UInt8)) (diff : UInt8),
      zipped.foldl (fun diff x => diff ||| (x.1 ^^^ x.2)) diff = 0 →
        diff = 0 ∧ ∀ x ∈ zipped, x.1 = x.2 := by
    intro zipped
    induction zipped with
    | nil => exact fun diff hzero => ⟨hzero, by simp⟩
    | cons x zipped ih =>
        intro diff hzero
        obtain ⟨hor, hrest⟩ := ih _ hzero
        obtain ⟨hdiff, hxor⟩ := UInt8.or_eq_zero_iff.mp hor
        exact ⟨hdiff, List.forall_mem_cons.mpr ⟨UInt8.xor_eq_zero_iff.mp hxor, hrest⟩⟩
  rw [constantTimeEq] at h
  split_ifs at h with hlen
  have hbytes := (hfold _ _ (of_decide_eq_true h)).2
  have hlen' : left.length = right.length := not_not.mp hlen
  refine List.ext_getElem hlen' fun i hleft hright => ?_
  have hmem := List.getElem_mem (l := left.zip right) (n := i) (by
    rw [List.length_zip]
    omega)
  rw [List.getElem_zip] at hmem
  exact hbytes _ hmem

/-- **What is decrypted was encrypted.** -/
lemma encrypt_of_decrypt {p : Primitives} {key : SptpsKey} {seqno : UInt32}
    {body plaintext : List UInt8}
    (h : sptpsChachaPoly1305Decrypt p key seqno body = .ok plaintext) :
    body = sptpsChachaPoly1305Encrypt p key seqno plaintext := by
  rw [sptpsChachaPoly1305Decrypt] at h
  simp only at h
  split_ifs at h with hlen htag
  obtain rfl := Except.ok.inj h
  have htag' := eq_of_constantTimeEq htag
  rw [sptpsChachaPoly1305Encrypt]
  simp only [chacha20XorInPlace_twice]
  rw [htag', List.take_append_drop]

/-! ### Key derivation -/

/-- The keys of the two roles, derived from one handshake. -/
structure SptpsKeyMaterial where
  key0 : SptpsKey
  key1 : SptpsKey
deriving DecidableEq

/-- The blocks of the loop of `sptps_prf`, after the block that was hashed last. -/
def sptpsPrfBlocks (p : Primitives) (secret seed : List UInt8) : ℕ → List UInt8 → List UInt8
  | 0, _ => []
  | blocks + 1, block =>
      let inner := (p.hmacSha512 secret (block ++ seed)).toList
      (p.hmacSha512 secret (inner ++ seed)).toList ++ sptpsPrfBlocks p secret seed blocks inner

/-- So many bytes of a chain of keyed hashes. -/
def sptpsPrf (p : Primitives) (secret seed : List UInt8) (len : ℕ) : List UInt8 :=
  (sptpsPrfBlocks p secret seed ((len + 63) / 64) (List.replicate 64 0)).take len

namespace SptpsKeyMaterial

/-- The two keys in some bytes. -/
def new (bytes : List UInt8) : SptpsKeyMaterial :=
  ⟨⟨Bytes.array 64 bytes⟩, ⟨Bytes.array 64 (bytes.drop 64)⟩⟩

/-- The keys of a handshake, from the shared secret, the nonces and the label. -/
def derive (p : Primitives) (sharedSecret : Vector UInt8 32)
    (initiatorNonce responderNonce : Vector UInt8 32) (label : List UInt8) : SptpsKeyMaterial :=
  let seed := "key expansion".toUTF8.data.toList ++ initiatorNonce.toList ++
    responderNonce.toList ++ label
  new (sptpsPrf p sharedSecret.toList seed 128)

/-- The key for receiving and the key for sending. -/
def keysForRole (m : SptpsKeyMaterial) (initiator : Bool) : SptpsKey × SptpsKey :=
  if initiator then (m.key0, m.key1) else (m.key1, m.key0)

lemma keysForRole_not (m : SptpsKeyMaterial) (initiator : Bool) :
    m.keysForRole (!initiator) = (m.keysForRole initiator).swap := by
  cases initiator <;> rfl

end SptpsKeyMaterial

/-! ### KEX records -/

/-- What a KEX record holds. -/
@[ext] structure SptpsKex where
  version : UInt8
  nonce : Vector UInt8 32
  publicKey : Vector UInt8 32
deriving DecidableEq

namespace SptpsKex

/-- A KEX of this version. -/
def new (nonce publicKey : Vector UInt8 32) : SptpsKex := ⟨sptpsVersion, nonce, publicKey⟩

/-- The KEX of a record. -/
def tryFromSlice (bytes : List UInt8) : Except SptpsError SptpsKex :=
  if bytes.length ≠ sptpsKexLen then .error (.invalidKexLength sptpsKexLen bytes.length)
  else if bytes.headD 0 ≠ sptpsVersion then .error (.invalidKexVersion (bytes.headD 0))
  else .ok (new (Bytes.array 32 (bytes.drop 1)) (Bytes.array 32 (bytes.drop (1 + 32))))

/-- The record of a KEX. -/
def toBytes (kex : SptpsKex) : List UInt8 :=
  kex.version :: (kex.nonce.toList ++ kex.publicKey.toList)

@[simp] lemma length_toBytes (kex : SptpsKex) : kex.toBytes.length = sptpsKexLen := by
  simp [toBytes, sptpsKexLen, sptpsKexNonceLen, sptpsKexPubkeyLen]

lemma toBytes_inj {k k' : SptpsKex} (h : k.toBytes = k'.toBytes) : k = k' := by
  obtain ⟨hversion, hrest⟩ := List.cons_eq_cons.mp h
  obtain ⟨hnonce, hpublic⟩ := List.append_inj hrest (by simp)
  exact SptpsKex.ext hversion (Bytes.toList_inj hnonce) (Bytes.toList_inj hpublic)

/-- **KEX records read back.** -/
lemma tryFromSlice_toBytes (nonce publicKey : Vector UInt8 32) :
    tryFromSlice (new nonce publicKey).toBytes = .ok (new nonce publicKey) := by
  rw [tryFromSlice, if_neg (by simp), if_neg (by simp [toBytes, new])]
  have hdrop : (new nonce publicKey).toBytes.drop (1 + 32) = publicKey.toList := by
    rw [← List.drop_drop]
    exact List.drop_left' (by simp [new])
  rw [hdrop, Bytes.array_toList]
  simp only [toBytes, List.drop_succ_cons, List.drop_zero, new]
  rw [Bytes.array_append]

end SptpsKex

/-- What a side signs: its role, both KEX records and the label. -/
def sptpsSignatureMessage (initiator : Bool) (kex0 kex1 : SptpsKex) (label : List UInt8) :
    List UInt8 :=
  (if initiator then 1 else 0) :: (kex0.toBytes ++ kex1.toBytes ++ label)

/-- **The message of a signature determines everything that it is about.** -/
lemma signatureMessage_inj {initiator initiator' : Bool} {k0 k0' k1 k1' : SptpsKex}
    {label label' : List UInt8}
    (h : sptpsSignatureMessage initiator k0 k1 label =
      sptpsSignatureMessage initiator' k0' k1' label') :
    initiator = initiator' ∧ k0 = k0' ∧ k1 = k1' ∧ label = label' := by
  obtain ⟨hrole, hrest⟩ := List.cons_eq_cons.mp h
  obtain ⟨hkex, rfl⟩ := List.append_inj hrest (by simp)
  obtain ⟨h0, h1⟩ := List.append_inj hkex (by simp)
  refine ⟨?_, SptpsKex.toBytes_inj h0, SptpsKex.toBytes_inj h1, rfl⟩
  cases initiator <;> cases initiator' <;> simp_all

end RustyTinc

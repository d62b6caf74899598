import RustyTinc.Library.Stateful
import RustyTinc.Runtime.Sptps.Crypto
import RustyTinc.Runtime.Sptps.ReplayWindow

/-!
The framing of SPTPS records, for datagrams and for a TCP stream.

* `exec_encode`: a record that can be encoded is sealed with the sending key and the next
  sequence number;
* `exec_decode_seal`: a codec that holds the key and expects the sequence number of a sealed
  record decodes it;
* `exec_decode_keys`: decoding never changes a key, whatever it is given.
-/

namespace RustyTinc

/-- The keys and counters of a session over datagrams. -/
structure SptpsDatagramCodec where
  inKey : Option SptpsKey
  outKey : Option SptpsKey
  inReplay : SptpsReplayWindow
  outSeqno : UInt32

/-- The keys and counters of a session over a stream. -/
structure SptpsTcpCodec where
  inKey : Option SptpsKey
  outKey : Option SptpsKey
  inSeqno : UInt32
  outSeqno : UInt32

/-- A type that may be sent. -/
def validateRecordType (recordType : UInt8) : Except SptpsError Unit :=
  if recordType > sptpsHandshake then .error (.invalidRecordType recordType) else .ok ()

/-- A type that may arrive. -/
def validateDecodedRecordType (recordType : UInt8) : Except SptpsError Unit :=
  if recordType ≤ sptpsHandshake then .ok () else .error (.invalidRecordType recordType)

/-- A body, encrypted when there is a key. -/
def sealBody (p : Primitives) (key : Option SptpsKey) (seqno : UInt32) (body : List UInt8) :
    List UInt8 :=
  match key with
  | some key => sptpsChachaPoly1305Encrypt p key seqno body
  | none => body

namespace SptpsDatagramCodec

/-- Nothing has been sent or received, and there are no keys. -/
def new (replayWindowBytes : ℕ) : SptpsDatagramCodec :=
  ⟨none, none, SptpsReplayWindow.new replayWindowBytes, 0⟩

/-- The datagram of a record. -/
def encode (p : Primitives) (recordType : UInt8) (payload : List UInt8) :
    Stateful SptpsError SptpsDatagramCodec (List UInt8) := do
  Stateful.ofExcept (validateRecordType recordType)
  let codec ← get
  modify fun codec => { codec with outSeqno := codec.outSeqno + 1 }
  let body := recordType :: payload
  return Bytes.bigEndian sptpsSeqnoLen codec.outSeqno.toNat ++
    sealBody p codec.outKey codec.outSeqno body

/-- The replay window accepts a number. -/
def acceptSeqno (seqno : UInt32) : Stateful SptpsError SptpsDatagramCodec Unit :=
  .zoom inReplay (fun codec w => { codec with inReplay := w }) (.ofFn (·.accept seqno))

/-- The plaintext of a datagram, once its sequence number is accepted. -/
def openBody (p : Primitives) (seqno : UInt32) (body : List UInt8) :
    Stateful SptpsError SptpsDatagramCodec (List UInt8) := do
  let codec ← get
  match codec.inKey with
  | some key => do
      let plaintext ← .ofExcept (sptpsChachaPoly1305Decrypt p key seqno body)
      acceptSeqno seqno
      return plaintext
  | none =>
      if seqno ≠ codec.inReplay.expectedSeqno then
        throw (.unexpectedSeqno codec.inReplay.expectedSeqno seqno)
      else do
        acceptSeqno seqno
        return body

/-- The record of a datagram. -/
def decode (p : Primitives) (datagram : List UInt8) :
    Stateful SptpsError SptpsDatagramCodec SptpsRecord := do
  let codec ← get
  let encrypted := codec.inKey.isSome
  let minimum := if encrypted then sptpsDatagramOverhead else sptpsSeqnoLen + 1
  if datagram.length < minimum then
    throw (.packetTooShort minimum datagram.length)
  else
    let seqno := UInt32.ofNat (Bytes.ofBigEndian (datagram.take sptpsSeqnoLen))
    let plaintext ← openBody p seqno (datagram.drop sptpsSeqnoLen)
    match plaintext with
    | [] => throw (.packetTooShort minimum datagram.length)
    | recordType :: payload => do
        Stateful.ofExcept (validateDecodedRecordType recordType)
        if ¬ encrypted ∧ recordType ≠ sptpsHandshake then
          throw (.invalidRecordType recordType)
        else
          return ⟨seqno, recordType, payload⟩

/-- Whether a datagram is one of the peer; nothing changes. -/
def verifyDatagram (p : Primitives) (codec : SptpsDatagramCodec) (datagram : List UInt8) :
    Except SptpsError Unit :=
  match codec.inKey with
  | none => .error .authenticationFailed
  | some key =>
      if datagram.length < sptpsDatagramOverhead then
        .error (.packetTooShort sptpsDatagramOverhead datagram.length)
      else do
        let seqno := UInt32.ofNat (Bytes.ofBigEndian (datagram.take sptpsSeqnoLen))
        codec.inReplay.verify seqno
        let _ ← sptpsChachaPoly1305Decrypt p key seqno (datagram.drop sptpsSeqnoLen)
        return ()

/-- Decoding only changes the replay window. -/
lemma decode_moves (p : Primitives) (datagram : List UInt8) :
    (decode p datagram).Moves fun c c' => ∃ w, c' = { c with inReplay := w } := by
  have hrefl : ∀ c : SptpsDatagramCodec, ∃ w, c = { c with inReplay := w } :=
    fun c => ⟨c.inReplay, rfl⟩
  have htrans : ∀ c c' c'' : SptpsDatagramCodec, (∃ w, c' = { c with inReplay := w }) →
      (∃ w, c'' = { c' with inReplay := w }) → ∃ w, c'' = { c with inReplay := w } := by
    rintro c _ _ ⟨_, rfl⟩ ⟨w, rfl⟩
    exact ⟨w, rfl⟩
  have haccept : ∀ seqno, (acceptSeqno seqno).Moves fun c c' => ∃ w, c' = { c with inReplay := w } :=
    fun _ _ => ⟨_, rfl⟩
  refine .bind htrans (.get hrefl) fun codec => .ite (fun _ => .throw hrefl _) fun _ => ?_
  refine .bind htrans (.bind htrans (.get hrefl) fun codec => ?_) fun plaintext => ?_
  · split
    · refine .bind htrans (.ofExcept hrefl _) fun plaintext => ?_
      exact .bind htrans (haccept _) fun _ => .pure hrefl _
    · refine .ite (fun _ => .throw hrefl _) fun _ => ?_
      exact .bind htrans (haccept _) fun _ => .pure hrefl _
  · split
    · exact .throw hrefl _
    · refine .bind htrans (.ofExcept hrefl _) fun _ => ?_
      exact .ite (fun _ => .throw hrefl _) fun _ => .pure hrefl _

/-- **A datagram that was sealed with the receiving key is decoded in order.** -/
lemma exec_decode (p : Primitives) {codec : SptpsDatagramCodec} {recordType : UInt8}
    {payload : List UInt8} (htype : recordType ≤ sptpsHandshake)
    (hplain : codec.inKey = none → recordType = sptpsHandshake) :
    (decode p (Bytes.bigEndian sptpsSeqnoLen codec.inReplay.expectedSeqno.toNat ++
      sealBody p codec.inKey codec.inReplay.expectedSeqno (recordType :: payload))).exec codec =
        (.ok ⟨codec.inReplay.expectedSeqno, recordType, payload⟩,
          { codec with
            inReplay := codec.inReplay.settle codec.inReplay.expectedSeqno true }) := by
  obtain ⟨inKey, outKey, window, outSeqno⟩ := codec
  have hvalid : validateDecodedRecordType recordType = .ok () := by
    rw [validateDecodedRecordType, if_pos htype]
  have hnum : UInt32.ofNat (Bytes.ofBigEndian
      (Bytes.bigEndian sptpsSeqnoLen window.expectedSeqno.toNat)) = window.expectedSeqno := by
    rw [Bytes.ofBigEndian_bigEndian window.expectedSeqno.toNat_lt, UInt32.ofNat_toNat]
  have hlen : (Bytes.bigEndian sptpsSeqnoLen window.expectedSeqno.toNat).length = sptpsSeqnoLen :=
    Bytes.length_bigEndian _ _
  have haccept := window.accept_expected
  cases inKey with
  | none =>
      obtain rfl := hplain rfl
      simp [decode, openBody, acceptSeqno, Stateful.exec_bind, sealBody, List.take_left' hlen,
        List.drop_left' hlen, hnum, haccept, hvalid, hlen]
  | some key =>
      have hsize :
          ¬ sptpsSeqnoLen + (payload.length + 1 + sptpsTagLen) < sptpsDatagramOverhead := by
        simp only [sptpsSeqnoLen, sptpsTagLen, sptpsDatagramOverhead]
        omega
      simp [decode, openBody, acceptSeqno, Stateful.exec_bind, sealBody, List.take_left' hlen,
        List.drop_left' hlen, hnum, haccept, hvalid, hlen, decrypt_encrypt, hsize]

end SptpsDatagramCodec

namespace SptpsTcpCodec

/-- Nothing has been sent or received, and there are no keys. -/
def new : SptpsTcpCodec := ⟨none, none, 0, 0⟩

/-- The bytes of a record on a stream. -/
def encode (p : Primitives) (recordType : UInt8) (payload : List UInt8) :
    Stateful SptpsError SptpsTcpCodec (List UInt8) := do
  Stateful.ofExcept (validateRecordType recordType)
  if 65535 < payload.length then
    throw (.recordTooLarge 65535 payload.length)
  else
    let codec ← get
    modify fun codec => { codec with outSeqno := codec.outSeqno + 1 }
    return Bytes.bigEndian 2 payload.length ++
      sealBody p codec.outKey codec.outSeqno (recordType :: payload)

/-- The plaintext of a record, with its header. -/
def openRecord (p : Primitives) (seqno : UInt32) (key : Option SptpsKey) (record : List UInt8) :
    Except SptpsError (List UInt8) :=
  match key with
  | some key => do
      let plaintext ← sptpsChachaPoly1305Decrypt p key seqno (record.drop 2)
      return record.take 2 ++ plaintext
  | none => .ok record

/-- The record of some bytes of a stream. -/
def decode (p : Primitives) (record : List UInt8) :
    Stateful SptpsError SptpsTcpCodec SptpsRecord := do
  if record.length < sptpsTcpHeaderLen then
    throw (.packetTooShort sptpsTcpHeaderLen record.length)
  else
    let codec ← get
    let length := Bytes.ofBigEndian (record.take 2)
    let expected :=
      length + if codec.inKey.isSome then sptpsTcpAuthOverhead else sptpsTcpHeaderLen
    if record.length ≠ expected then
      throw (.invalidRecordLength expected record.length)
    else
      let seqno := codec.inSeqno
      modify fun codec => { codec with inSeqno := codec.inSeqno + 1 }
      let plaintext ← .ofExcept (openRecord p seqno codec.inKey record)
      let recordType := plaintext.getD 2 0
      Stateful.ofExcept (validateDecodedRecordType recordType)
      if codec.inKey.isNone ∧ recordType ≠ sptpsHandshake then
        throw (.invalidRecordType recordType)
      else
        return ⟨seqno, recordType, plaintext.drop 3⟩

/-- Decoding only changes the number of the next record that is received. -/
lemma decode_moves (p : Primitives) (record : List UInt8) :
    (decode p record).Moves fun c c' => ∃ n, c' = { c with inSeqno := n } := by
  have hrefl : ∀ c : SptpsTcpCodec, ∃ n, c = { c with inSeqno := n } := fun c => ⟨c.inSeqno, rfl⟩
  have htrans : ∀ c c' c'' : SptpsTcpCodec, (∃ n, c' = { c with inSeqno := n }) →
      (∃ n, c'' = { c' with inSeqno := n }) → ∃ n, c'' = { c with inSeqno := n } := by
    rintro c _ _ ⟨_, rfl⟩ ⟨n, rfl⟩
    exact ⟨n, rfl⟩
  refine .ite (fun _ => .throw hrefl _) fun _ => .bind htrans (.get hrefl) fun codec => ?_
  refine .ite (fun _ => .throw hrefl _) fun _ => .bind htrans (.modify fun _ => ⟨_, rfl⟩) ?_
  refine fun _ => .bind htrans (.ofExcept hrefl _) fun plaintext => ?_
  refine .bind htrans (.ofExcept hrefl _) fun _ => ?_
  exact .ite (fun _ => .throw hrefl _) fun _ => .pure hrefl _

/-- **A record that was sealed with the receiving key is decoded in order.** -/
lemma exec_decode (p : Primitives) {codec : SptpsTcpCodec} {recordType : UInt8}
    {payload : List UInt8} (htype : recordType ≤ sptpsHandshake) (hsize : payload.length ≤ 65535)
    (hplain : codec.inKey = none → recordType = sptpsHandshake) :
    (decode p (Bytes.bigEndian 2 payload.length ++
      sealBody p codec.inKey codec.inSeqno (recordType :: payload))).exec codec =
        (.ok ⟨codec.inSeqno, recordType, payload⟩,
          { codec with inSeqno := codec.inSeqno + 1 }) := by
  obtain ⟨inKey, outKey, inSeqno, outSeqno⟩ := codec
  have hvalid : validateDecodedRecordType recordType = .ok () := by
    rw [validateDecodedRecordType, if_pos htype]
  have hnum : Bytes.ofBigEndian (Bytes.bigEndian 2 payload.length) = payload.length :=
    Bytes.ofBigEndian_bigEndian (by omega)
  have hlen : (Bytes.bigEndian 2 payload.length).length = 2 := Bytes.length_bigEndian _ _
  have hdrop : (Bytes.bigEndian 2 payload.length ++ recordType :: payload).drop 3 = payload := by
    rw [List.drop_append, hlen, List.drop_eq_nil_of_le (by omega)]
    rfl
  have hget : (Bytes.bigEndian 2 payload.length ++ recordType :: payload)[2]? =
      some recordType := by
    rw [List.getElem?_append_right (by omega), hlen]
    rfl
  cases inKey with
  | none =>
      obtain rfl := hplain rfl
      have hexpected : 2 + (payload.length + 1) = payload.length + sptpsTcpHeaderLen := by
        simp only [sptpsTcpHeaderLen]
        omega
      simp [decode, openRecord, Stateful.exec_bind, sealBody, List.take_left' hlen, hnum, hvalid,
        hlen, hexpected, hdrop, hget]
  | some key =>
      have hheader : sptpsTcpHeaderLen ≤ payload.length + sptpsTcpAuthOverhead := by
        simp only [sptpsTcpHeaderLen, sptpsTcpAuthOverhead]
        omega
      have hexpected :
          2 + (payload.length + 1 + sptpsTagLen) = payload.length + sptpsTcpAuthOverhead := by
        simp only [sptpsTagLen, sptpsTcpAuthOverhead]
        omega
      simp [decode, openRecord, Stateful.exec_bind, sealBody, List.take_left' hlen,
        List.drop_left' hlen, hnum, hvalid, hlen, decrypt_encrypt, hheader, hexpected, hdrop]

end SptpsTcpCodec

/-- The codec of a session, in one of the two modes. -/
inductive SptpsHandshakeCodec where
  | datagram (codec : SptpsDatagramCodec)
  | tcp (codec : SptpsTcpCodec)

namespace SptpsHandshakeCodec

/-- The key for receiving. -/
def inKey : SptpsHandshakeCodec → Option SptpsKey
  | datagram codec => codec.inKey
  | tcp codec => codec.inKey

/-- The key for sending. -/
def outKey : SptpsHandshakeCodec → Option SptpsKey
  | datagram codec => codec.outKey
  | tcp codec => codec.outKey

/-- What arrives from now on is under this key. -/
def setInKey (key : SptpsKey) : SptpsHandshakeCodec → SptpsHandshakeCodec
  | datagram codec => datagram { codec with inKey := some key }
  | tcp codec => tcp { codec with inKey := some key }

/-- What is sent from now on is under this key. -/
def setOutKey (key : SptpsKey) : SptpsHandshakeCodec → SptpsHandshakeCodec
  | datagram codec => datagram { codec with outKey := some key }
  | tcp codec => tcp { codec with outKey := some key }

/-- The bytes of a record, in the mode of the session. -/
def encode (p : Primitives) (recordType : UInt8) (payload : List UInt8) :
    Stateful SptpsError SptpsHandshakeCodec (List UInt8) :=
  .ofFn fun
    | datagram codec =>
        let r := (SptpsDatagramCodec.encode p recordType payload).exec codec
        (r.1, datagram r.2)
    | tcp codec =>
        let r := (SptpsTcpCodec.encode p recordType payload).exec codec
        (r.1, tcp r.2)

/-- The record of some bytes, in the mode of the session. -/
def decode (p : Primitives) (record : List UInt8) :
    Stateful SptpsError SptpsHandshakeCodec SptpsRecord :=
  .ofFn fun
    | datagram codec =>
        let r := (SptpsDatagramCodec.decode p record).exec codec
        (r.1, datagram r.2)
    | tcp codec =>
        let r := (SptpsTcpCodec.decode p record).exec codec
        (r.1, tcp r.2)

/-! ### Sealed records -/

/-- The session goes over a stream. -/
def isTcp : SptpsHandshakeCodec → Bool
  | datagram _ => false
  | tcp _ => true

/-- The sequence number of the next record that is received in order. -/
def nextIn : SptpsHandshakeCodec → UInt32
  | datagram codec => codec.inReplay.expectedSeqno
  | tcp codec => codec.inSeqno

/-- The sequence number of the next record that is sent. -/
def nextOut : SptpsHandshakeCodec → UInt32
  | datagram codec => codec.outSeqno
  | tcp codec => codec.outSeqno

/-- The codec after it has sent a record. -/
def sent : SptpsHandshakeCodec → SptpsHandshakeCodec
  | datagram codec => datagram { codec with outSeqno := codec.outSeqno + 1 }
  | tcp codec => tcp { codec with outSeqno := codec.outSeqno + 1 }

/-- The codec after it has received a record in order. -/
def received : SptpsHandshakeCodec → SptpsHandshakeCodec
  | datagram codec =>
      datagram { codec with inReplay := codec.inReplay.settle codec.inReplay.expectedSeqno true }
  | tcp codec => tcp { codec with inSeqno := codec.inSeqno + 1 }

section Fields

variable (codec : SptpsHandshakeCodec) (key : SptpsKey)

@[simp] lemma isTcp_sent : codec.sent.isTcp = codec.isTcp := by cases codec <;> rfl
@[simp] lemma inKey_sent : codec.sent.inKey = codec.inKey := by cases codec <;> rfl
@[simp] lemma outKey_sent : codec.sent.outKey = codec.outKey := by cases codec <;> rfl
@[simp] lemma nextIn_sent : codec.sent.nextIn = codec.nextIn := by cases codec <;> rfl
@[simp] lemma nextOut_sent : codec.sent.nextOut = codec.nextOut + 1 := by cases codec <;> rfl

@[simp] lemma isTcp_received : codec.received.isTcp = codec.isTcp := by cases codec <;> rfl
@[simp] lemma inKey_received : codec.received.inKey = codec.inKey := by cases codec <;> rfl
@[simp] lemma outKey_received : codec.received.outKey = codec.outKey := by cases codec <;> rfl
@[simp] lemma nextOut_received : codec.received.nextOut = codec.nextOut := by cases codec <;> rfl

@[simp] lemma nextIn_received : codec.received.nextIn = codec.nextIn + 1 := by
  cases codec with
  | datagram codec => exact codec.inReplay.settle_expected
  | tcp codec => rfl

@[simp] lemma isTcp_setInKey : (codec.setInKey key).isTcp = codec.isTcp := by cases codec <;> rfl
@[simp] lemma inKey_setInKey : (codec.setInKey key).inKey = some key := by cases codec <;> rfl
@[simp] lemma outKey_setInKey : (codec.setInKey key).outKey = codec.outKey := by
  cases codec <;> rfl
@[simp] lemma nextIn_setInKey : (codec.setInKey key).nextIn = codec.nextIn := by
  cases codec <;> rfl
@[simp] lemma nextOut_setInKey : (codec.setInKey key).nextOut = codec.nextOut := by
  cases codec <;> rfl

@[simp] lemma isTcp_setOutKey : (codec.setOutKey key).isTcp = codec.isTcp := by cases codec <;> rfl
@[simp] lemma inKey_setOutKey : (codec.setOutKey key).inKey = codec.inKey := by
  cases codec <;> rfl
@[simp] lemma outKey_setOutKey : (codec.setOutKey key).outKey = some key := by cases codec <;> rfl
@[simp] lemma nextIn_setOutKey : (codec.setOutKey key).nextIn = codec.nextIn := by
  cases codec <;> rfl
@[simp] lemma nextOut_setOutKey : (codec.setOutKey key).nextOut = codec.nextOut := by
  cases codec <;> rfl

end Fields

/-- The bytes of a record. -/
def sealRecord (p : Primitives) (isTcp : Bool) (key : Option SptpsKey) (seqno : UInt32)
    (recordType : UInt8) (payload : List UInt8) : List UInt8 :=
  (if isTcp then Bytes.bigEndian 2 payload.length else Bytes.bigEndian sptpsSeqnoLen seqno.toNat) ++
    sealBody p key seqno (recordType :: payload)

/-- Whether a codec can encode a record. -/
def Encodable (isTcp : Bool) (recordType : UInt8) (payload : List UInt8) : Prop :=
  recordType ≤ sptpsHandshake ∧ (isTcp = true → payload.length ≤ 65535)

variable {p : Primitives} (codec : SptpsHandshakeCodec) (recordType : UInt8)
  (payload : List UInt8)

/-- **A record that can be encoded is sealed.** -/
lemma exec_encode (h : Encodable codec.isTcp recordType payload) :
    (encode p recordType payload).exec codec =
      (.ok (sealRecord p codec.isTcp codec.outKey codec.nextOut recordType payload),
        codec.sent) := by
  have hvalid : validateRecordType recordType = .ok () := by
    rw [validateRecordType, if_neg (UInt8.not_lt.mpr h.1)]
  cases codec with
  | datagram codec =>
      simp [encode, SptpsDatagramCodec.encode, Stateful.exec_bind, hvalid, sealRecord, isTcp,
        sent, outKey, nextOut]
  | tcp codec =>
      have hlen : ¬ 65535 < payload.length := not_lt.mpr (h.2 rfl)
      simp [encode, SptpsTcpCodec.encode, Stateful.exec_bind, hvalid, sealRecord, isTcp, sent,
        outKey, nextOut, hlen]

/-- A record that cannot be encoded leaves the codec as it is. -/
lemma exec_encode_error (h : ¬ Encodable codec.isTcp recordType payload) :
    ∃ e, (encode p recordType payload).exec codec = (.error e, codec) := by
  by_cases htype : recordType ≤ sptpsHandshake
  · have hvalid : validateRecordType recordType = .ok () := by
      rw [validateRecordType, if_neg (UInt8.not_lt.mpr htype)]
    cases codec with
    | datagram codec => exact absurd ⟨htype, by simp [isTcp]⟩ h
    | tcp codec =>
        have hlen : 65535 < payload.length := by
          by_contra hle
          exact h ⟨htype, fun _ => not_lt.mp hle⟩
        exact ⟨.recordTooLarge 65535 payload.length, by
          simp [encode, SptpsTcpCodec.encode, Stateful.exec_bind, hvalid, hlen]⟩
  · have hvalid : validateRecordType recordType = .error (.invalidRecordType recordType) := by
      rw [validateRecordType, if_pos (UInt8.not_le.mp htype)]
    refine ⟨.invalidRecordType recordType, ?_⟩
    cases codec with
    | datagram codec =>
        simp [encode, SptpsDatagramCodec.encode, Stateful.exec_bind, hvalid]
    | tcp codec => simp [encode, SptpsTcpCodec.encode, Stateful.exec_bind, hvalid]

lemma length_sealBody_some (key : SptpsKey) (seqno : UInt32) (body : List UInt8) :
    (sealBody p (some key) seqno body).length = body.length + sptpsTagLen :=
  length_sptpsChachaPoly1305Encrypt p key seqno body

/-- **A sealed record is decoded** by a codec that holds its key and expects its number. -/
lemma exec_decode_seal (h : Encodable codec.isTcp recordType payload)
    (hplain : codec.inKey = none → recordType = sptpsHandshake) :
    (decode p (sealRecord p codec.isTcp codec.inKey codec.nextIn recordType payload)).exec codec =
      (.ok ⟨codec.nextIn, recordType, payload⟩, codec.received) := by
  cases codec with
  | datagram codec =>
      exact congrArg (Prod.map id datagram) (SptpsDatagramCodec.exec_decode p h.1 hplain)
  | tcp codec =>
      exact congrArg (Prod.map id tcp) (SptpsTcpCodec.exec_decode p h.1 (h.2 rfl) hplain)

/-- Decoding leaves the keys alone, whatever it is given. -/
lemma exec_decode_keys (bytes : List UInt8) :
    ((decode p bytes).exec codec).2.inKey = codec.inKey ∧
      ((decode p bytes).exec codec).2.outKey = codec.outKey := by
  cases codec with
  | datagram codec =>
      obtain ⟨w, hw⟩ := SptpsDatagramCodec.decode_moves p bytes codec
      simp [decode, hw, inKey, outKey]
  | tcp codec =>
      obtain ⟨n, hn⟩ := SptpsTcpCodec.decode_moves p bytes codec
      simp [decode, hn, inKey, outKey]

/-- Decoding leaves the sending direction alone. -/
lemma exec_decode_nextOut (bytes : List UInt8) :
    ((decode p bytes).exec codec).2.nextOut = codec.nextOut ∧
      ((decode p bytes).exec codec).2.isTcp = codec.isTcp := by
  cases codec with
  | datagram codec =>
      obtain ⟨w, hw⟩ := SptpsDatagramCodec.decode_moves p bytes codec
      simp [decode, hw, nextOut, isTcp]
  | tcp codec =>
      obtain ⟨n, hn⟩ := SptpsTcpCodec.decode_moves p bytes codec
      simp [decode, hn, nextOut, isTcp]

end SptpsHandshakeCodec

end RustyTinc

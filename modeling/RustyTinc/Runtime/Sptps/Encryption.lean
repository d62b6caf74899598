import RustyTinc.Runtime.Sptps.Nonces

/-!
What encryption keeps out of a session, and what it keeps in.

* `decodeAll_inserted`: datagrams that were not encrypted under the receiving key have no
  influence on the others;
* `run_encrypted`: a session only delivers application records that it has decrypted, and sends
  none in the clear once it has a sending key.
-/

namespace RustyTinc

/-! ### Forged datagrams -/

namespace SptpsDatagramCodec

/-- The sequence number that a datagram carries. -/
def seqnoOf (datagram : List UInt8) : UInt32 :=
  UInt32.ofNat (Bytes.ofBigEndian (datagram.take sptpsSeqnoLen))

/-- The datagrams are decoded one after another, whatever comes of them. -/
def decodeAll (p : Primitives) : SptpsDatagramCodec → List (List UInt8) →
    List (Except SptpsError SptpsRecord) × SptpsDatagramCodec
  | codec, [] => ([], codec)
  | codec, datagram :: rest =>
      let r := (decode p datagram).exec codec
      (r.1 :: (decodeAll p r.2 rest).1, (decodeAll p r.2 rest).2)

section Forged

variable {p : Primitives} {codec : SptpsDatagramCodec} {key : SptpsKey} {datagram : List UInt8}

/-- A datagram that is not decrypted changes nothing. -/
lemma exec_decode_forged (hkey : codec.inKey = some key)
    (hforged : ∀ plaintext, sptpsChachaPoly1305Decrypt p key (seqnoOf datagram)
      (datagram.drop sptpsSeqnoLen) ≠ .ok plaintext) :
    ∃ e, (decode p datagram).exec codec = (.error e, codec) := by
  rw [decode, Stateful.exec_bind, Stateful.exec_get]
  simp only [hkey, Option.isSome_some, if_true, Stateful.exec_ite, Stateful.exec_throw]
  split_ifs with hshort
  · exact ⟨_, rfl⟩
  · rw [Stateful.exec_bind, openBody, Stateful.exec_bind, Stateful.exec_get]
    simp only [hkey]
    rw [Stateful.exec_bind, Stateful.exec_ofExcept]
    cases hdecrypt : sptpsChachaPoly1305Decrypt p key (seqnoOf datagram)
        (datagram.drop sptpsSeqnoLen) with
    | ok plaintext => exact absurd hdecrypt (hforged plaintext)
    | error e =>
        rw [seqnoOf] at hdecrypt
        rw [hdecrypt]
        exact ⟨e, rfl⟩

/-- Decoding keeps the key. -/
lemma inKey_decode (hkey : codec.inKey = some key) (datagram : List UInt8) :
    ((decode p datagram).exec codec).2.inKey = some key := by
  obtain ⟨w, hw⟩ := decode_moves p datagram codec
  rw [hw]
  exact hkey

/-- The part of decoding that authenticates a datagram and checks its number. -/
lemma exec_openBody (hkey : codec.inKey = some key) (seqno : UInt32) (body : List UInt8) :
    (∃ plaintext codec', (openBody p seqno body).exec codec = (.ok plaintext, codec')) ↔
      (∃ plaintext, sptpsChachaPoly1305Decrypt p key seqno body = .ok plaintext) ∧
        (codec.inReplay.accept seqno).1 = .ok () := by
  rw [openBody, Stateful.exec_bind, Stateful.exec_get]
  simp only [hkey]
  rw [Stateful.exec_bind, Stateful.exec_ofExcept]
  cases hdecrypt : sptpsChachaPoly1305Decrypt p key seqno body with
  | error e => simp
  | ok plaintext =>
      simp only
      rw [Stateful.exec_bind, acceptSeqno, Stateful.exec_zoom, Stateful.exec_ofFn]
      rcases codec.inReplay.accept seqno with ⟨_ | _, w⟩ <;> simp

/-- **A datagram is verified exactly when decoding authenticates it and accepts its number.** -/
lemma verifyDatagram_eq_ok (hkey : codec.inKey = some key) (datagram : List UInt8) :
    verifyDatagram p codec datagram = .ok () ↔ sptpsDatagramOverhead ≤ datagram.length ∧
      ∃ plaintext codec', (openBody p (seqnoOf datagram) (datagram.drop sptpsSeqnoLen)).exec codec =
        (.ok plaintext, codec') := by
  rw [exec_openBody hkey, verifyDatagram, hkey]
  simp only
  split_ifs with hshort
  · simp only [false_iff, not_and]
    omega
  · rw [SptpsReplayWindow.verify, SptpsReplayWindow.check_fst, ← SptpsReplayWindow.accept]
    rw [← seqnoOf, and_iff_right (not_lt.mp hshort)]
    rcases (codec.inReplay.accept (seqnoOf datagram)).1 with e | ⟨⟩
    · simp [bind, Except.bind]
    · cases sptpsChachaPoly1305Decrypt p key (seqnoOf datagram) (datagram.drop sptpsSeqnoLen) <;>
        simp [bind, Except.bind, pure, Except.pure]

end Forged

/-- **Forged datagrams have no influence**: those that are inserted into a stream and were not
produced by encryption under the key of the codec are answered with errors, and the results of
the others and the codec at the end are as without them. A datagram is verified exactly when
decoding it passes the authentication and the replay check. -/
theorem decodeAll_inserted (p : Primitives) (Produced : SptpsKey → UInt32 → List UInt8 → Prop)
    (hproduced : ∀ key seqno body plaintext,
      sptpsChachaPoly1305Decrypt p key seqno body = .ok plaintext → Produced key seqno body)
    (codec : SptpsDatagramCodec) (key : SptpsKey) (hkey : codec.inKey = some key)
    (stream : List (List UInt8 × Bool))
    (hforged : ∀ x ∈ stream, x.2 = true →
      ¬ Produced key (seqnoOf x.1) (x.1.drop sptpsSeqnoLen)) :
    let run := decodeAll p codec (stream.map Prod.fst)
    let results := run.1.zip (stream.map Prod.snd)
    let others := decodeAll p codec ((stream.filter fun x => !x.2).map Prod.fst)
    run.1.length = stream.length ∧
      (results.filter fun x => !x.2).map Prod.fst = others.1 ∧ run.2 = others.2 ∧
      (∀ x ∈ results, x.2 = true → ∃ e, x.1 = .error e) ∧
      ∀ datagram, verifyDatagram p codec datagram = .ok () ↔
        sptpsDatagramOverhead ≤ datagram.length ∧ ∃ plaintext codec',
          (openBody p (seqnoOf datagram) (datagram.drop sptpsSeqnoLen)).exec codec =
            (.ok plaintext, codec') := by
  suffices h : ∀ codec : SptpsDatagramCodec, codec.inKey = some key →
      let run := decodeAll p codec (stream.map Prod.fst)
      let results := run.1.zip (stream.map Prod.snd)
      let others := decodeAll p codec ((stream.filter fun x => !x.2).map Prod.fst)
      run.1.length = stream.length ∧
        (results.filter fun x => !x.2).map Prod.fst = others.1 ∧ run.2 = others.2 ∧
        ∀ x ∈ results, x.2 = true → ∃ e, x.1 = .error e by
    obtain ⟨hlength, hresults, hlast, herrors⟩ := h codec hkey
    exact ⟨hlength, hresults, hlast, herrors, verifyDatagram_eq_ok hkey⟩
  clear hkey codec
  induction stream with
  | nil => exact fun codec _ => ⟨rfl, rfl, rfl, fun x hx => absurd hx List.not_mem_nil⟩
  | cons x stream ih =>
      intro codec hkey
      obtain ⟨datagram, inserted⟩ := x
      obtain ⟨hx, hrest⟩ := List.forall_mem_cons.mp hforged
      cases inserted with
      | true =>
          obtain ⟨e, hexec⟩ := exec_decode_forged (p := p) hkey fun plaintext hdecrypt =>
            hx rfl (hproduced key _ _ plaintext hdecrypt)
          obtain ⟨hlength, hresults, hlast, herrors⟩ := ih hrest codec hkey
          simp only [List.map_cons, decodeAll, hexec, List.zip_cons_cons, List.length_cons]
          refine ⟨congrArg (· + 1) hlength, hresults, hlast, ?_⟩
          exact List.forall_mem_cons.mpr ⟨fun _ => ⟨e, rfl⟩, herrors⟩
      | false =>
          obtain ⟨hlength, hresults, hlast, herrors⟩ := ih hrest _ (inKey_decode (p := p) hkey datagram)
          simp only [List.map_cons, decodeAll, List.zip_cons_cons, List.length_cons, Bool.not_false,
            List.filter_cons_of_pos]
          refine ⟨congrArg (· + 1) hlength, congrArg _ hresults, hlast, ?_⟩
          exact List.forall_mem_cons.mpr ⟨fun h => absurd h Bool.false_ne_true, herrors⟩

/-- A datagram that is no output of encryption, between two that are. -/
theorem decodeAll_inserted_between :
    let p := SptpsHandshakeSession.oneSignature
    let key : SptpsKey := ⟨SptpsHandshakeSession.zeros 64⟩
    let codec : SptpsDatagramCodec := ⟨some key, none, .new 4, 0⟩
    let sealed := fun seqno : UInt32 =>
      SptpsHandshakeCodec.sealRecord p false (some key) seqno 0 [7]
    let forged : List UInt8 := [0, 0, 0, 9] ++ List.replicate 18 1
    (decodeAll p codec [sealed 0, forged, sealed 1]).2 =
        (decodeAll p codec [sealed 0, sealed 1]).2 ∧
      (decodeAll p codec [sealed 0, sealed 1]).1 = [.ok ⟨0, 0, [7]⟩, .ok ⟨1, 0, [7]⟩] := by
  intro p key codec sealed forged
  have hforged : ¬ ∃ plaintext, forged.drop sptpsSeqnoLen =
      sptpsChachaPoly1305Encrypt p key (seqnoOf forged) plaintext := by
    rintro ⟨plaintext, h⟩
    have hlast := congrArg List.getLast? h
    simp [forged, sptpsSeqnoLen, sptpsChachaPoly1305Encrypt, p, key,
      SptpsHandshakeSession.oneSignature, SptpsHandshakeSession.zeros] at hlast
  have hinserted := decodeAll_inserted p
    (fun key seqno body => ∃ plaintext, body = sptpsChachaPoly1305Encrypt p key seqno plaintext)
    (fun key seqno body plaintext h => ⟨plaintext, encrypt_of_decrypt h⟩) codec key rfl
    [(sealed 0, false), (forged, true), (sealed 1, false)] (by simpa using hforged)
  exact ⟨hinserted.2.2.1, by decide +kernel⟩

/-- An application record has been decrypted. -/
lemma decode_decrypts {p : Primitives} {codec codec' : SptpsDatagramCodec} {datagram : List UInt8}
    {record : SptpsRecord} (h : (decode p datagram).exec codec = (.ok record, codec'))
    (htype : record.recordType ≠ sptpsHandshake) :
    ∃ key, codec.inKey = some key ∧ sptpsChachaPoly1305Decrypt p key (seqnoOf datagram)
      (datagram.drop sptpsSeqnoLen) = .ok (record.recordType :: record.payload) := by
  rw [decode, Stateful.exec_bind, Stateful.exec_get] at h
  generalize hmin : (if codec.inKey.isSome then sptpsDatagramOverhead else sptpsSeqnoLen + 1) =
    minimum at h
  simp only [hmin, Stateful.exec_ite, Stateful.exec_throw] at h
  split_ifs at h with hshort
  · cases h
  · rw [Stateful.exec_bind_eq_ok] at h
    obtain ⟨plaintext, t, hopen, hrest⟩ := h
    cases plaintext with
    | nil => cases hrest
    | cons recordType payload =>
        simp only at hrest
        rw [Stateful.exec_bind_eq_ok] at hrest
        obtain ⟨_, _, -, hrest⟩ := hrest
        simp only [Stateful.exec_ite, Stateful.exec_throw, Stateful.exec_pure] at hrest
        split_ifs at hrest with hplain
        · cases hrest
        · have hrecord := Except.ok.inj (congrArg Prod.fst hrest)
          subst hrecord
          cases hkey : codec.inKey with
          | none => exact absurd ⟨by simp [hkey], htype⟩ hplain
          | some key =>
              rw [openBody, Stateful.exec_bind, Stateful.exec_get] at hopen
              simp only [hkey] at hopen
              rw [Stateful.exec_bind_eq_ok] at hopen
              obtain ⟨body, _, hdecrypt, haccept⟩ := hopen
              rw [Stateful.exec_bind_eq_ok] at haccept
              obtain ⟨_, _, -, hpure⟩ := haccept
              obtain rfl := Except.ok.inj (congrArg Prod.fst hpure)
              exact ⟨key, rfl, congrArg Prod.fst hdecrypt⟩

end SptpsDatagramCodec

namespace SptpsTcpCodec

/-- A record on a stream is decrypted with the key and the sequence number. -/
lemma decode_decrypts {p : Primitives} {codec codec' : SptpsTcpCodec} {bytes : List UInt8}
    {record : SptpsRecord} (h : (decode p bytes).exec codec = (.ok record, codec'))
    (htype : record.recordType ≠ sptpsHandshake) :
    ∃ key, codec.inKey = some key ∧ sptpsChachaPoly1305Decrypt p key codec.inSeqno
      (bytes.drop 2) = .ok (record.recordType :: record.payload) := by
  rw [decode, Stateful.exec_ite, Stateful.exec_throw] at h
  split_ifs at h with hshort
  · cases h
  · rw [Stateful.exec_bind, Stateful.exec_get] at h
    simp only [Stateful.exec_ite, Stateful.exec_throw] at h
    by_cases hlength : bytes.length ≠ Bytes.ofBigEndian (bytes.take 2) +
        if codec.inKey.isSome then sptpsTcpAuthOverhead else sptpsTcpHeaderLen
    · rw [if_pos hlength] at h
      cases h
    · rw [if_neg hlength, Stateful.exec_bind, Stateful.exec_modify] at h
      simp only at h
      rw [Stateful.exec_bind_eq_ok] at h
      obtain ⟨plaintext, t, hopen, hrest⟩ := h
      rw [Stateful.exec_bind_eq_ok] at hrest
      obtain ⟨_, _, -, hrest⟩ := hrest
      simp only [Stateful.exec_ite, Stateful.exec_throw, Stateful.exec_pure] at hrest
      split_ifs at hrest with hplain
      · cases hrest
      · have hrecord := Except.ok.inj (congrArg Prod.fst hrest)
        subst hrecord
        have hopen' : openRecord p codec.inSeqno codec.inKey bytes = .ok plaintext :=
          congrArg Prod.fst hopen
        cases hkey : codec.inKey with
        | none => exact absurd ⟨by simp [hkey], htype⟩ hplain
        | some key =>
            unfold openRecord at hopen'
            rw [hkey] at hopen'
            refine ⟨key, rfl, ?_⟩
            cases hdecrypt : sptpsChachaPoly1305Decrypt p key codec.inSeqno (bytes.drop 2) with
            | error e =>
                simp only [hdecrypt] at hopen'
                cases hopen'
            | ok body =>
                simp only [hdecrypt] at hopen'
                obtain rfl := Except.ok.inj hopen'
                -- a body with its type is never empty
                have hsize := congrArg List.length (encrypt_of_decrypt hdecrypt)
                rw [hkey] at hlength
                simp only [Option.isSome_some, if_true, not_not] at hlength
                simp only [List.length_drop, length_sptpsChachaPoly1305Encrypt, sptpsTagLen,
                  sptpsTcpAuthOverhead] at hsize hlength
                have htake : (bytes.take 2).length = 2 := by
                  rw [List.length_take]
                  omega
                cases body with
                | nil =>
                    simp only [List.length_nil] at hsize
                    omega
                | cons recordType payload =>
                    have hget : (bytes.take 2 ++ recordType :: payload).getD 2 0 = recordType := by
                      rw [List.getD_eq_getElem?_getD, List.getElem?_append_right (by omega), htake]
                      rfl
                    have hdrop : (bytes.take 2 ++ recordType :: payload).drop 3 = payload := by
                      rw [List.drop_append, htake, List.drop_eq_nil_of_le (by omega)]
                      rfl
                    rw [hget, hdrop]

end SptpsTcpCodec

namespace SptpsHandshakeSession

/-- The plaintext of a record, decrypted with the receiving key. -/
def Decrypts (p : Primitives) (codec : SptpsHandshakeCodec) (bytes plaintext : List UInt8) : Prop :=
  ∃ key, codec.inKey = some key ∧
    match codec with
    | .datagram _ => sptpsChachaPoly1305Decrypt p key (SptpsDatagramCodec.seqnoOf bytes)
        (bytes.drop sptpsSeqnoLen) = .ok plaintext
    | .tcp codec => sptpsChachaPoly1305Decrypt p key codec.inSeqno (bytes.drop 2) = .ok plaintext

/-- A record of either transport is decrypted with the key. -/
lemma decode_decrypts {p : Primitives} {codec codec' : SptpsHandshakeCodec} {bytes : List UInt8}
    {record : SptpsRecord}
    (h : (SptpsHandshakeCodec.decode p bytes).exec codec = (.ok record, codec'))
    (htype : record.recordType ≠ sptpsHandshake) :
    Decrypts p codec bytes (record.recordType :: record.payload) := by
  cases codec with
  | datagram codec =>
      have hdecode : ((SptpsDatagramCodec.decode p bytes).exec codec).1 = .ok record :=
        congrArg Prod.fst h
      exact SptpsDatagramCodec.decode_decrypts (Prod.ext hdecode rfl) htype
  | tcp codec =>
      have hdecode : ((SptpsTcpCodec.decode p bytes).exec codec).1 = .ok record :=
        congrArg Prod.fst h
      exact SptpsTcpCodec.decode_decrypts (Prod.ext hdecode rfl) htype

/-- When a session refuses to send an application record. -/
lemma sendRecord_refused_iff {p : Primitives} {s : SptpsHandshakeSession} {recordType : UInt8}
    (htype : recordType < sptpsHandshake) (payload : List UInt8) :
    (∃ e s', (sendRecord p recordType payload).exec s = (.error e, s')) ↔
      s.codec.isTcp = true ∧ 65535 < payload.length := by
  rw [sendRecord, Stateful.exec_ite, if_neg (UInt8.not_le.mpr htype), encode, Stateful.exec_zoom]
  by_cases hencodable : SptpsHandshakeCodec.Encodable s.codec.isTcp recordType payload
  · rw [SptpsHandshakeCodec.exec_encode _ _ _ hencodable]
    refine iff_of_false (by simp) fun h => ?_
    have := hencodable.2 h.1
    omega
  · obtain ⟨e, herror⟩ := SptpsHandshakeCodec.exec_encode_error (p := p) _ _ _ hencodable
    rw [herror]
    refine iff_of_true ⟨e, _, rfl⟩ ?_
    by_contra hsmall
    refine hencodable ⟨UInt8.le_of_lt htype, fun htcp => ?_⟩
    by_contra hlarge
    exact hsmall ⟨htcp, by omega⟩

/-- **Application data and encryption**: in every state of every run, a session refuses to send
application data without a key exactly when there is one or the data does not fit into a record,
and it delivers no application data that it has not decrypted. -/
theorem run_encrypted (p : Primitives) (s : SptpsHandshakeSession) (calls : List SessionCall) :
    let t := (runCalls p s calls).2
    (∀ recordType payload, recordType < sptpsHandshake →
      ((t.codec.outKey = none →
          ∃ e t', (sendRecord p recordType payload).exec t = (.error e, t')) ↔
        t.codec.outKey ≠ none ∨ t.codec.isTcp = true ∧ 65535 < payload.length)) ∧
    ∀ fresh bytes events t' recordType payload,
      (receiveDatagram p fresh bytes).exec t = (.ok events, t') →
        .applicationRecord recordType payload ∈ events →
          Decrypts p t.codec bytes (recordType :: payload) := by
  intro t
  refine ⟨fun recordType payload htype => ?_, ?_⟩
  · rw [sendRecord_refused_iff htype, imp_iff_not_or]
  · intro fresh bytes events t' recordType payload hreceive hmem
    rcases receiveDatagram_ok hreceive with rfl | ⟨rfl, -⟩ | ⟨record, codec, hdecode, hlt, rfl, -⟩
    · cases hmem
    · simp at hmem
    · simp only [List.mem_singleton, SptpsHandshakeEvent.applicationRecord.injEq] at hmem
      obtain ⟨rfl, rfl⟩ := hmem
      exact decode_decrypts hdecode (UInt8.ne_of_lt hlt)

/-- **A session that has just started sends application data in the clear.** -/
theorem run_encrypted_bob : Started oneSignature bob ∧ bob.codec.outKey = none ∧
    ((sendRecord oneSignature 0 [7, 7]).exec bob).1 = .ok [0, 2, 0, 7, 7] :=
  ⟨⟨false, bobKey, aliceKey.publicKey, [], ⟨zeros 64, zeros 32⟩, bobKex.nonce, Or.inr rfl⟩, rfl,
    by decide +kernel⟩

end SptpsHandshakeSession

end RustyTinc

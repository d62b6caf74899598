import RustyTinc.Library.FramePieces
import RustyTinc.Runtime.Meta.Sends

/-!
What one end of an activated connection sends arrives at the other end.

* `decodeMetaLine_encodeMetaLine`: the line of a message reads back;
* `pieces_send`: what the receiver makes of the pieces of a send;
* `sends_arrive_iff`: the sends arrive when their packet bodies fit into the buffer and are not cut
  after a part that looks like a record.
-/

namespace RustyTinc

/-! ### Lines read back -/

/-- Only a carriage return ends with the byte of a carriage return. -/
lemma utf8EncodeChar_last {c : Char}
    (h : (String.utf8EncodeChar c).getLast? = some carriageReturn) : c = '\r' := by
  have hcontinuation : ∀ n : ℕ, some (UInt8.ofNat (n % 64 + 128)) ≠ some carriageReturn := by
    intro n heq
    have hnat := congrArg UInt8.toNat (Option.some.inj heq)
    rw [UInt8.toNat_ofNat', carriageReturn] at hnat
    have hcr : (13 : UInt8).toNat = 13 := rfl
    omega
  rw [String.utf8EncodeChar] at h
  split_ifs at h with hascii
  · have hbyte : UInt8.ofNat c.val.toNat = carriageReturn := Option.some.inj h
    have hnat := congrArg UInt8.toNat hbyte
    rw [UInt8.toNat_ofNat', carriageReturn] at hnat
    have hcr : (13 : UInt8).toNat = 13 := rfl
    have hval : c.val.toNat = 13 := by omega
    exact Char.ext (UInt32.toNat_inj.mp hval)
  · exact absurd h (hcontinuation _)
  · exact absurd h (hcontinuation _)
  · exact absurd h (hcontinuation _)

lemma fromUTF8?_utf8 (text : String) : String.fromUTF8? ⟨(utf8 text).toArray⟩ = some text := by
  have hbytes : (⟨(utf8 text).toArray⟩ : ByteArray) = text.toByteArray := by
    rw [utf8, Array.toArray_toList]
    rfl
  rw [hbytes, String.fromUTF8?, dif_pos text.isValidUTF8]
  rfl

lemma utf8_append_singleton (text : String) (c : Char) :
    utf8 (text ++ String.ofList [c]) = utf8 text ++ String.utf8EncodeChar c := by
  simp [utf8, List.utf8Encode_singleton]

/-- A text that does not end with a carriage return is read back from a line. -/
lemma decodeMetaLine_utf8 {text : String} (h : text.toList.getLast? ≠ some '\r') :
    decodeMetaLine (utf8 text ++ [newline]) = .ok text := by
  have hlast : (utf8 text).getLast? ≠ some carriageReturn := by
    rcases List.eq_nil_or_concat text.toList with hnil | ⟨init, c, hconcat⟩
    · obtain rfl : text = "" := by rw [← String.toList_inj, hnil, String.toList_empty]
      simp [utf8]
    · have htext : text = String.ofList init ++ String.ofList [c] := by
        rw [← String.toList_inj, hconcat]
        simp
      rw [hconcat, List.concat_eq_append, List.getLast?_concat] at h
      intro hbyte
      rw [htext, utf8_append_singleton, List.getLast?_append_of_ne_nil _
        String.utf8EncodeChar_ne_nil] at hbyte
      exact h (congrArg some (utf8EncodeChar_last hbyte))
  have hpop : popByte newline (utf8 text ++ [newline]) = utf8 text := by
    simp [popByte]
  rw [decodeMetaLine, hpop, popByte, if_neg hlast, fromUTF8?_utf8]

/-- **The line of a message reads back.** -/
lemma decodeMetaLine_encodeMetaLine {m : MetaMessage} (h : m.Parsed) :
    decodeMetaLine (encodeMetaLine m) = .ok m.display := by
  have hrequest : ∀ r : Request, Text.IsWord (toString r.number).toList := by
    intro r
    cases r <;> exact ⟨by decide, Text.forall_mem_of_all (by decide)⟩
  have hwords : ∀ word ∈ (toString m.request.number).toList :: m.words.map String.toList,
      Text.IsWord word := by
    refine List.forall_mem_cons.mpr ⟨hrequest m.request, fun word hword => ?_⟩
    obtain ⟨s, hs, rfl⟩ := List.mem_map.mp hword
    exact h.words_word s hs
  refine decodeMetaLine_utf8 fun hlast => ?_
  rw [m.toList_display] at hlast
  exact absurd (Text.unwords_last hwords hlast) (by decide)

/-! ### Records that are not sealed with the key -/

/-- A record is accepted only if it opens under the key. -/
lemma SptpsHandshakeCodec.decode_opens {p : Primitives} {codec codec' : SptpsHandshakeCodec}
    {key : SptpsKey} {bytes : List UInt8} {record : SptpsRecord} (htcp : codec.isTcp = true)
    (hkey : codec.inKey = some key) (h : (decode p bytes).exec codec = (.ok record, codec')) :
    ∃ seqno plaintext, sptpsChachaPoly1305Decrypt p key seqno (bytes.drop 2) = .ok plaintext := by
  cases codec with
  | datagram codec => cases htcp
  | tcp codec =>
      have hkey' : codec.inKey = some key := hkey
      have hdecode : ((SptpsTcpCodec.decode p bytes).exec codec).1 = .ok record :=
        congrArg Prod.fst h
      rw [SptpsTcpCodec.decode, Stateful.exec_ite, Stateful.exec_throw] at hdecode
      split_ifs at hdecode with hshort
      rw [Stateful.exec_bind, Stateful.exec_get] at hdecode
      simp only [Stateful.exec_ite, Stateful.exec_throw] at hdecode
      by_cases hlength : bytes.length ≠ Bytes.ofBigEndian (bytes.take 2) +
          if codec.inKey.isSome then sptpsTcpAuthOverhead else sptpsTcpHeaderLen
      · rw [if_pos hlength] at hdecode
        cases hdecode
      · rw [if_neg hlength, Stateful.exec_bind, Stateful.exec_modify] at hdecode
        simp only at hdecode
        rw [Stateful.exec_bind, Stateful.exec_ofExcept, hkey', SptpsTcpCodec.openRecord] at hdecode
        cases hopen : sptpsChachaPoly1305Decrypt p key codec.inSeqno (bytes.drop 2) with
        | error e =>
            rw [hopen] at hdecode
            cases hdecode
        | ok plaintext => exact ⟨_, plaintext, hopen⟩

/-- No part of a packet opens as a record under the key, whatever its number. -/
def Unforged (p : Primitives) (key : SptpsKey) (packet : List UInt8) : Prop :=
  ∀ seqno size plaintext,
    sptpsChachaPoly1305Decrypt p key seqno ((packet.take size).drop 2) ≠ .ok plaintext

/-! ### Pieces of the stream -/

/-- A part of a packet body that looks as if it began with a whole record. -/
def BeginsWithRecord (begun : List UInt8) : Prop :=
  2 ≤ begun.length ∧ Bytes.ofBigEndian (begun.take 2) + sptpsTcpAuthOverhead ≤ begun.length

instance : DecidablePred BeginsWithRecord := fun begun =>
  inferInstanceAs (Decidable (2 ≤ begun.length ∧
    Bytes.ofBigEndian (begun.take 2) + sptpsTcpAuthOverhead ≤ begun.length))

/-- Packet bodies are read as a whole, records are not limited. -/
def metaFormat : FrameReader.Format UInt8 MetaPiece where
  items := MetaPiece.bytes
  Fits
    | .record _ => True
    | .body packet => packet.length ≤ maxMetaBufferSize
  Waits
    | .record _, _ => True
    | .body _, begun => ¬ BeginsWithRecord begun

namespace MetaConnectionDriver

/-- Nothing has arrived of the next frame, and none is announced. -/
def AtRest (d : MetaConnectionDriver) : Prop := d.decoder = .new ∧ d.pendingTcpPacket = none

/-- The driver receives records that are sealed with the key. -/
structure Opens (d : MetaConnectionDriver) (codec : SptpsHandshakeCodec) (key : SptpsKey) :
    Prop where
  carries : d.Carries codec
  isTcp : codec.isTcp = true
  inKey : codec.inKey = some key

/-- The states in which the pieces of the other side arrive. -/
def Takes (p : Primitives) (key : SptpsKey) (d : MetaConnectionDriver) : MetaPiece → Prop
  | .record bytes => ∃ codec payload, d.Opens codec key ∧ payload.length ≤ 65535 ∧
      bytes = sealMeta p key codec.nextIn payload ∧ d.decoder = .new
  | .body packet => ∃ codec, d.Opens codec key ∧ packet ≠ [] ∧
      d.decoder = ⟨[], some ⟨.sptpsPacket, packet.length⟩⟩

section Pieces

variable {p : Primitives} {key : SptpsKey} {d : MetaConnectionDriver}
  {codec : SptpsHandshakeCodec} {payload packet begun left : List UInt8}

/-- Only the authentication matters for the keys. -/
lemma Opens.of_auth {d' : MetaConnectionDriver} (h : d.Opens codec key) (hauth : d'.auth = d.auth) :
    d'.Opens codec key where
  carries := by
    obtain ⟨hstate, hbypass, hpeer, hsession⟩ := h.carries
    rw [← hauth] at hstate hbypass hpeer hsession
    exact ⟨hstate, hbypass, hpeer, hsession⟩
  isTcp := h.isTcp
  inKey := h.inKey

lemma Opens.framing (h : d.Opens codec key) : d.framing = .records true := by
  obtain ⟨session, hsession, rfl⟩ := h.carries.session
  have hlines : ¬ (d.auth.state = .expectId ∨ d.auth.usesPlaintextMeta = true) := by
    rw [h.carries.state, h.carries.usesPlaintextMeta]
    simp
  rw [framing, if_neg hlines, MetaConnectionAuth.sptpsInEncrypted, hsession, Option.any_some,
    h.inKey, Option.isSome_some]

lemma length_sealMeta (seqno : UInt32) :
    (sealMeta p key seqno payload).length = payload.length + sptpsTcpAuthOverhead := by
  rw [sealMeta, SptpsHandshakeCodec.sealRecord, if_pos rfl, List.length_append,
    Bytes.length_bigEndian, SptpsHandshakeCodec.length_sealBody_some, List.length_cons]
  simp only [sptpsTagLen, sptpsTcpAuthOverhead]
  omega

/-- The first two bytes of a record say where it ends. -/
lemma expectedSptpsFrameLen_sealMeta {seqno : UInt32} (hlen : payload.length ≤ 65535)
    (hsplit : sealMeta p key seqno payload = begun ++ left) (hlong : 2 ≤ begun.length)
    (pending : Option MetaBodyRequest) :
    MetaStreamDecoder.expectedSptpsFrameLen ⟨begun, pending⟩ true =
      some (payload.length + sptpsTcpAuthOverhead) := by
  have htake : begun.take 2 = Bytes.bigEndian 2 payload.length := by
    rw [← @List.take_append_of_le_length _ begun left _ hlong, ← hsplit, sealMeta,
      SptpsHandshakeCodec.sealRecord, if_pos rfl, List.take_left' (Bytes.length_bigEndian 2 _)]
  rw [MetaStreamDecoder.expectedSptpsFrameLen, if_neg (not_lt.mpr hlong), htake,
    Bytes.ofBigEndian_bigEndian (by omega), if_pos rfl]

lemma nextFrame_of_pendingBody_none (decoder : MetaStreamDecoder) (h : decoder.pendingBody = none) :
    decoder.nextFrame (.records true) = decoder.nextRecordFrame true := by
  rw [MetaStreamDecoder.nextFrame_eq, MetaStreamDecoder.nextBodyFrame, h, Option.bind_none,
    Option.none_or, MetaStreamDecoder.nextOtherFrame]

/-- The place of the next bytes when nothing had arrived. -/
lemma extend_decoder {pending : Option MetaBodyRequest} (h : d.decoder = ⟨[], pending⟩)
    (data : List UInt8) : (d.extend data).decoder = ⟨data, pending⟩ := by
  rw [extend, MetaStreamDecoder.extend, h, List.nil_append]

/-- There is room up to the end of the next frame. -/
lemma room_of_frameEnd {n : ℕ} (h : d.frameEnd = some n)
    (hfits : ∀ body, d.decoder.pendingBody = some body → body.length ≤ maxMetaBufferSize)
    (hlt : d.decoder.buffer.length < n) : d.room = some (n - d.decoder.buffer.length) := by
  rw [room_frameEnd h hfits, if_neg (by omega)]

/-- Between two frames the reader waits for a whole record. -/
lemma expects_record (h : d.Opens codec key) (hdecoder : d.decoder = .new)
    (hlen : payload.length ≤ 65535) : (metaReader p).Expects extend room metaFormat d
      (.record (sealMeta p key codec.nextIn payload)) where
  items_ne := by
    refine List.length_pos_iff.mp ?_
    show 0 < (sealMeta p key codec.nextIn payload).length
    rw [length_sealMeta]
    simp [sptpsTcpAuthOverhead]
  waits_nil := trivial
  room _ begun left hsplit hleft := by
    have hlength := congrArg List.length (show sealMeta p key codec.nextIn payload = _ from hsplit)
    have hpos := List.length_pos_iff.mpr hleft
    rw [length_sealMeta, List.length_append] at hlength
    simp only [sptpsTcpAuthOverhead] at hlength
    have hextend := extend_decoder hdecoder begun
    have hframing : (d.extend begun).framing = .records true := h.framing
    have hend : (d.extend begun).frameEnd = some
        (if 2 ≤ begun.length then payload.length + sptpsTcpAuthOverhead else 2) := by
      rw [frameEnd, hextend, hframing]
      show some ((MetaStreamDecoder.expectedSptpsFrameLen _ true).getD 2) = _
      split_ifs with hlong
      · rw [expectedSptpsFrameLen_sealMeta hlen hsplit hlong, Option.getD_some]
      · rw [MetaStreamDecoder.expectedSptpsFrameLen, if_pos (not_le.mp hlong), Option.getD_none]
    have hbuffer : (d.extend begun).decoder.buffer.length = begun.length := by rw [hextend]
    have hroom := room_of_frameEnd hend (by rw [hextend]; simp) (by
      rw [hbuffer]
      simp only [sptpsTcpAuthOverhead]
      split_ifs <;> omega)
    refine ⟨_, hroom, ?_, fun _ => trivial⟩
    rw [hbuffer]
    simp only [sptpsTcpAuthOverhead]
    split_ifs <;> omega
  stuck begun left hsplit hleft _ := by
    have hlength := congrArg List.length (show sealMeta p key codec.nextIn payload = _ from hsplit)
    have hpos := List.length_pos_iff.mpr hleft
    rw [length_sealMeta, List.length_append] at hlength
    have hframing : (d.extend begun).framing = .records true := h.framing
    refine readerOf_stuck.mpr ?_
    rw [hframing, extend_decoder hdecoder, nextFrame_of_pendingBody_none _ rfl,
      MetaStreamDecoder.nextRecordFrame]
    by_cases hlong : 2 ≤ begun.length
    · rw [expectedSptpsFrameLen_sealMeta hlen hsplit hlong, Option.bind_some,
        if_pos (by simp only; omega)]
    · rw [MetaStreamDecoder.expectedSptpsFrameLen, if_pos (by simpa using hlong), Option.bind_none]

/-- A part of a body is taken for a record exactly when it looks like one. -/
lemma nextRecordFrame_eq_none {pending : Option MetaBodyRequest} :
    MetaStreamDecoder.nextRecordFrame ⟨begun, pending⟩ true = none ↔ ¬ BeginsWithRecord begun := by
  rw [MetaStreamDecoder.nextRecordFrame, MetaStreamDecoder.expectedSptpsFrameLen, BeginsWithRecord]
  by_cases hlong : begun.length < 2
  · rw [if_pos hlong]
    simp [hlong]
  · rw [if_neg hlong, if_pos rfl, Option.bind_some]
    split_ifs with hshort
    · simp only [true_iff]
      exact fun h => absurd h.2 (not_le.mpr hshort)
    · simp only [false_iff, not_not]
      exact ⟨not_lt.mp hlong, not_lt.mp hshort⟩

/-- The next frame when a part of a body has arrived. -/
lemma nextFrame_body (hlen : begun.length < packet.length) :
    MetaStreamDecoder.nextFrame (.records true) ⟨begun, some ⟨.sptpsPacket, packet.length⟩⟩ =
      MetaStreamDecoder.nextRecordFrame ⟨begun, some ⟨.sptpsPacket, packet.length⟩⟩ true := by
  rw [MetaStreamDecoder.nextFrame_eq, MetaStreamDecoder.nextBodyFrame, Option.bind_some,
    if_pos hlen, Option.none_or, MetaStreamDecoder.nextOtherFrame]

/-- A reader that has read the header waits for the packet. -/
lemma expects_body (h : d.Opens codec key) (hne : packet ≠ [])
    (hdecoder : d.decoder = ⟨[], some ⟨.sptpsPacket, packet.length⟩⟩) :
    (metaReader p).Expects extend room metaFormat d (.body packet) where
  items_ne := hne
  waits_nil := by
    show ¬ BeginsWithRecord []
    decide
  room hfits begun left hsplit hleft := by
    have hlength := congrArg List.length (show packet = begun ++ left from hsplit)
    have hpos := List.length_pos_iff.mpr hleft
    rw [List.length_append] at hlength
    have hextend := extend_decoder hdecoder begun
    have hbuffer : (d.extend begun).decoder.buffer.length = begun.length := by rw [hextend]
    have hroom := room_of_frameEnd (d := d.extend begun) (n := packet.length)
      (by rw [frameEnd, hextend]) (by
        rw [hextend]
        rintro body hbody
        obtain rfl := Option.some.inj hbody
        exact hfits) (by omega)
    exact ⟨_, hroom, by omega, fun hlt => absurd hlt (by omega)⟩
  stuck begun left hsplit hleft hwaits := by
    have hlength := congrArg List.length (show packet = begun ++ left from hsplit)
    have hpos := List.length_pos_iff.mpr hleft
    rw [List.length_append] at hlength
    have hframing : (d.extend begun).framing = .records true := h.framing
    refine readerOf_stuck.mpr ?_
    rw [hframing, extend_decoder hdecoder, nextFrame_body (by omega)]
    exact nextRecordFrame_eq_none.mpr hwaits

lemma expects_of_takes (d : MetaConnectionDriver) (x : MetaPiece) (h : d.Takes p key x) :
    (metaReader p).Expects extend room metaFormat d x := by
  cases x with
  | record bytes =>
      obtain ⟨codec, payload, hopens, hlen, rfl, hdecoder⟩ := h
      exact expects_record hopens hdecoder hlen
  | body packet =>
      obtain ⟨codec, hopens, hne, hdecoder⟩ := h
      exact expects_body hopens hne hdecoder

/-- A body that does not fit is not loaded. -/
lemma fits_of_room (hdecoder : d.decoder = ⟨begun, some ⟨.sptpsPacket, packet.length⟩⟩)
    (hroom : d.room ≠ none) : packet.length ≤ maxMetaBufferSize := by
  by_contra hlarge
  refine hroom ?_
  rw [room, nextInputWindow, hdecoder]
  simp only
  rw [if_pos (not_le.mp hlarge)]

/-- A record that is not sealed with the key is refused. -/
lemma handleFrame_unforged (h : d.Opens codec key) (hforged : Unforged p key packet) (size : ℕ)
    {t : MetaConnectionDriver × MetaConnectionStep} :
    (handleFrame p (.sptpsRecord (packet.take size))).exec (d, 0) ≠ (.ok (), t) := by
  obtain ⟨peer, hpeer⟩ := h.carries.peer
  obtain ⟨session, hsession, rfl⟩ := h.carries.session
  have hstate : d.auth.state ≠ .expectId := by
    rw [h.carries.state]
    simp
  rw [exec_handleRecord _ hstate hpeer hsession]
  have hrefused : ∀ events s, (SptpsHandshakeSession.receiveDatagram p (d.auth.entropy 0)
      (packet.take size)).exec session ≠ (.ok events, s) := by
    intro events s hexec
    rw [SptpsHandshakeSession.receiveDatagram, Stateful.exec_bind, Stateful.exec_zoom] at hexec
    rcases hdecode : (SptpsHandshakeCodec.decode p (packet.take size)).exec session.codec with
      ⟨_ | record, codec⟩
    · rw [hdecode] at hexec
      cases hexec
    · obtain ⟨seqno, plaintext, hopen⟩ :=
        SptpsHandshakeCodec.decode_opens h.isTcp h.inKey hdecode
      exact hforged seqno size plaintext hopen
  rcases hexec : (SptpsHandshakeSession.receiveDatagram p (d.auth.entropy 0)
    (packet.take size)).exec session with ⟨_ | events, s⟩
  · simp
  · exact absurd hexec (hrefused events s)

/-- If no part of the packet opens as a record, the reader insists on the whole of it. -/
lemma insists_body (h : d.Opens codec key) (hforged : Unforged p key packet)
    (hdecoder : d.decoder = ⟨[], some ⟨.sptpsPacket, packet.length⟩⟩) :
    (metaReader p).Insists extend room metaFormat d (.body packet) where
  fits begun left hsplit hleft hroom := fits_of_room (extend_decoder hdecoder begun) hroom
  waits begun left hsplit hleft w t hd := by
    have hlength := congrArg List.length (show packet = begun ++ left from hsplit)
    have hpos := List.length_pos_iff.mpr hleft
    rw [List.length_append] at hlength
    have hframing : (d.extend begun).framing = .records true := h.framing
    have hshort : begun.length < packet.length := by omega
    have hnext := nextFrame_body hshort
    cases hd with
    | stuck hstuck =>
        have hnone := readerOf_stuck.mp hstuck
        rw [hframing, extend_decoder hdecoder, hnext] at hnone
        exact nextRecordFrame_eq_none.mp hnone
    | step hstep _ =>
        -- a part of the body is taken for a record
        obtain ⟨frame, decoder, u, hframe, hhandle, -⟩ := exec_handleNextFrame_eq_ok hstep
        rw [hframing, extend_decoder hdecoder, hnext, MetaStreamDecoder.nextRecordFrame] at hframe
        obtain ⟨size, -, htake⟩ := Option.bind_eq_some_iff.mp hframe
        split_ifs at htake
        obtain ⟨hrecord, -⟩ := Prod.mk.inj (Option.some.inj htake)
        obtain rfl := Except.ok.inj hrecord
        have hpart : begun.take size = packet.take (min size begun.length) := by
          rw [show packet = begun ++ left from hsplit, List.take_append_of_le_length (by omega),
            ← List.take_take, List.take_length]
        have hopens : ((d.extend begun).taken decoder).Opens codec key := h.of_auth rfl
        refine absurd hhandle ?_
        show (handleFrame p (.sptpsRecord (begun.take size))).exec _ ≠ _
        rw [hpart]
        exact handleFrame_unforged hopens hforged _

/-! ### What the receiver makes of a piece -/

/-- An application record is opened, and what is in it is handed on. -/
lemma exec_handleFrame_seal (h : d.Opens codec key) (hlen : payload.length ≤ 65535) :
    ∃ raw d', d'.Opens codec.received key ∧ d'.decoder = d.decoder ∧
      d'.pendingTcpPacket = d.pendingTcpPacket ∧
      (handleFrame p (.sptpsRecord (sealMeta p key codec.nextIn payload))).exec (d, 0) =
        let r := (handleSptpsApplication p (applyAuthStep p 1) sptpsMetaRecord payload).exec (d', 0)
        (r.1, (r.2.1, ⟨raw, []⟩ + r.2.2)) := by
  obtain ⟨peer, hpeer⟩ := h.carries.peer
  obtain ⟨session, hsession, rfl⟩ := h.carries.session
  have hstate : d.auth.state ≠ .expectId := by
    rw [h.carries.state]
    simp
  have hdecode := SptpsHandshakeCodec.exec_decode_seal (p := p) session.codec sptpsMetaRecord payload
    ⟨by decide, fun _ => hlen⟩ (by rw [h.inKey]; simp)
  rw [h.isTcp, h.inKey] at hdecode
  have hreceive : (SptpsHandshakeSession.receiveDatagram p (d.auth.entropy 0)
      (sealMeta p key session.codec.nextIn payload)).exec session =
        (.ok [.applicationRecord sptpsMetaRecord payload],
          { session with codec := session.codec.received }) := by
    rw [SptpsHandshakeSession.receiveDatagram, Stateful.exec_bind, Stateful.exec_zoom, sealMeta,
      hdecode]
    rfl
  let auth := answered d.auth { session with codec := session.codec.received }
  have hopens : ({ d with auth := auth } : MetaConnectionDriver).Opens session.codec.received key :=
    { carries := ⟨h.carries.state, h.carries.bypass, h.carries.peer, _, rfl, rfl⟩
      isTcp := by rw [SptpsHandshakeCodec.isTcp_received, h.isTcp]
      inKey := by rw [SptpsHandshakeCodec.inKey_received, h.inKey] }
  refine ⟨session.outbound, { d with auth := auth }, hopens, rfl, rfl, ?_⟩
  rw [exec_handleRecord _ hstate hpeer hsession, hreceive]
  exact exec_applyAuthStep_application session.outbound sptpsMetaRecord payload

/-- The line of a message, in an activated connection. -/
lemma exec_application_line (hstate : d.auth.state = .activated) (hpending : d.pendingTcpPacket = none)
    {m : MetaMessage} (hm : m.Parsed) (hread : m.readBack = m) :
    (handleSptpsApplication p (applyAuthStep p 1) sptpsMetaRecord (encodeMetaLine m)).exec (d, 0) =
      (.ok (), (d.observe .sptpsApplication m, ⟨[], [.message m]⟩)) := by
  rw [handleSptpsApplication, if_neg (not_not.mpr rfl), Stateful.exec_bind, Stateful.exec_get]
  simp only [hpending]
  rw [Stateful.exec_bind, Stateful.exec_ofExcept, decodeMetaLine_encodeMetaLine hm]
  simp only [Except.mapError]
  rw [exec_handleMetaLine, hm.parse_display, hread]
  simp only [hstate, ne_eq, not_true_eq_false, if_false]
  rfl

/-- A packet whose header came before. -/
lemma exec_application_packet (hpending : d.pendingTcpPacket = some payload.length) :
    (handleSptpsApplication p (applyAuthStep p 1) sptpsMetaRecord payload).exec (d, 0) =
      (.ok (), ({ d with pendingTcpPacket := none }, ⟨[], [.tcpPacket payload]⟩)) := by
  rw [handleSptpsApplication, if_neg (not_not.mpr rfl), Stateful.exec_bind, Stateful.exec_get]
  simp only [hpending]
  rw [Stateful.exec_bind, Stateful.exec_modify]
  simp only [ne_eq, not_true_eq_false, if_false]
  rfl

/-- The next frame is all that has arrived. -/
lemma step_of_frame {pending : Option MetaBodyRequest} {bytes : List UInt8}
    {frame : MetaStreamFrame} {t : MetaConnectionDriver} {w : MetaConnectionStep}
    (h : d.Opens codec key) (hdecoder : d.decoder = ⟨[], pending⟩)
    (hframe : MetaStreamDecoder.nextFrame (.records true) ⟨bytes, pending⟩ = some (.ok frame, .new))
    (hexec : (handleFrame p frame).exec (d.taken .new, 0) = (.ok (), (t, w))) :
    (metaReader p).Step (d.extend bytes) w (t.noted ⟨d.auth, frame, w.events⟩) := by
  have hframing : (d.extend bytes).framing = .records true := h.framing
  have htaken : (d.extend bytes).taken .new = d.taken .new := rfl
  show (handleNextFrame p MetaStreamDecoder.nextFrame).exec (d.extend bytes, 0) = _
  rw [exec_handleNextFrame_ok (by rw [hframing, extend_decoder hdecoder, hframe]), htaken, hexec]
  simp only [Stateful.map_ok, zero_add]
  rfl

/-- A record that is there as a whole. -/
lemma nextFrame_sealMeta {seqno : UInt32} (hlen : payload.length ≤ 65535) :
    MetaStreamDecoder.nextFrame (.records true) ⟨sealMeta p key seqno payload, none⟩ =
      some (.ok (.sptpsRecord (sealMeta p key seqno payload)), .new) := by
  have hlength : (sealMeta p key seqno payload).length = payload.length + sptpsTcpAuthOverhead :=
    length_sealMeta seqno
  have hlong : 2 ≤ (sealMeta p key seqno payload).length := by
    simp only [hlength, sptpsTcpAuthOverhead]
    omega
  have hexpected := expectedSptpsFrameLen_sealMeta hlen (List.append_nil _).symm hlong none
  rw [nextFrame_of_pendingBody_none _ rfl, MetaStreamDecoder.nextRecordFrame, hexpected,
    Option.bind_some, if_neg (by simp only [hlength]; omega), ← hlength,
    MetaStreamDecoder.takeBytes]
  simp [MetaStreamDecoder.new]

/-- **The line of a message arrives.** -/
lemma step_line (h : d.Opens codec key) (hrest : d.AtRest) {m : MetaMessage} (hm : m.Parsed)
    (hread : m.readBack = m) (hlen : (encodeMetaLine m).length ≤ 65535) :
    ∃ raw d', (metaReader p).Step
        (d.extend (sealMeta p key codec.nextIn (encodeMetaLine m))) ⟨raw, [.message m]⟩ d' ∧
      d'.Opens codec.received key ∧ d'.decoder = (d.observe .sptpsApplication m).decoder ∧
        d'.pendingTcpPacket = (d.observe .sptpsApplication m).pendingTcpPacket := by
  have hopens : (d.taken .new).Opens codec key := h.of_auth rfl
  obtain ⟨raw, d', hopens', hdecoder, hpending, hexec⟩ :=
    exec_handleFrame_seal (p := p) hopens hlen
  have hline := exec_application_line (p := p) (d := d') hopens'.carries.state
    (hpending.trans hrest.2) hm hread
  have hsum : (⟨raw, []⟩ + ⟨[], [.message m]⟩ : MetaConnectionStep) = ⟨raw, [.message m]⟩ :=
    MetaConnectionStep.ext (List.append_nil raw) rfl
  simp only [hline, hsum] at hexec
  have hstep := step_of_frame h hrest.1 (nextFrame_sealMeta hlen) hexec
  have hsame : ∀ d' : MetaConnectionDriver, d'.decoder = .new → d'.pendingTcpPacket = none →
      (d'.observe .sptpsApplication m).decoder = (d.observe .sptpsApplication m).decoder ∧
        (d'.observe .sptpsApplication m).pendingTcpPacket =
          (d.observe .sptpsApplication m).pendingTcpPacket ∧
        (d'.observe .sptpsApplication m).auth = d'.auth := by
    rintro ⟨auth, _, _, handled⟩ rfl rfl
    obtain ⟨auth', _, _, handled'⟩ := d
    obtain ⟨rfl, rfl⟩ : _ ∧ _ := hrest
    cases m <;> exact ⟨rfl, rfl, rfl⟩
  obtain ⟨hdecoder', hpending', hauth⟩ := hsame d' hdecoder (hpending.trans hrest.2)
  exact ⟨raw, _, hstep, hopens'.of_auth hauth, hdecoder', hpending'⟩

/-- **A packet within a record arrives.** -/
lemma step_packet (h : d.Opens codec key) (hdecoder : d.decoder = .new)
    (hpending : d.pendingTcpPacket = some packet.length) (hlen : packet.length ≤ 65535) :
    ∃ raw d', (metaReader p).Step (d.extend (sealMeta p key codec.nextIn packet))
        ⟨raw, [.tcpPacket packet]⟩ d' ∧ d'.Opens codec.received key ∧ d'.AtRest := by
  have hopens : (d.taken .new).Opens codec key := h.of_auth rfl
  obtain ⟨raw, d', hopens', hdecoder', hpending', hexec⟩ :=
    exec_handleFrame_seal (p := p) hopens hlen
  have hpacket := exec_application_packet (p := p) (hpending'.trans hpending)
  have hsum : (⟨raw, []⟩ + ⟨[], [.tcpPacket packet]⟩ : MetaConnectionStep) =
      ⟨raw, [.tcpPacket packet]⟩ := MetaConnectionStep.ext (List.append_nil raw) rfl
  simp only [hpacket, hsum] at hexec
  exact ⟨raw, _, step_of_frame h hdecoder (nextFrame_sealMeta hlen) hexec, hopens'.of_auth rfl,
    hdecoder', rfl⟩

/-- **A packet between records arrives.** -/
lemma step_body (h : d.Opens codec key)
    (hdecoder : d.decoder = ⟨[], some ⟨.sptpsPacket, packet.length⟩⟩)
    (hpending : d.pendingTcpPacket = none) :
    ∃ d', (metaReader p).Step (d.extend packet) ⟨[], [.sptpsPacket packet]⟩ d' ∧
      d'.Opens codec key ∧ d'.AtRest := by
  have hframe : MetaStreamDecoder.nextFrame (.records true)
      ⟨packet, some ⟨.sptpsPacket, packet.length⟩⟩ = some (.ok (.body .sptpsPacket packet), .new) := by
    rw [MetaStreamDecoder.nextFrame_eq, MetaStreamDecoder.nextBodyFrame, Option.bind_some,
      if_neg (lt_irrefl _)]
    simp [MetaStreamDecoder.takeBytes, MetaStreamDecoder.new]
  have hexec : (handleFrame p (.body .sptpsPacket packet)).exec (d.taken .new, 0) =
      (.ok (), (d.taken .new, ⟨[], [.sptpsPacket packet]⟩)) := rfl
  exact ⟨_, step_of_frame h hdecoder hframe hexec, h.of_auth rfl, rfl, hpending⟩

lemma stuck_of_new (h : d.Opens codec key) (hdecoder : d.decoder = .new) :
    (metaReader p).Stuck d := by
  refine readerOf_stuck.mpr ?_
  rw [h.framing, hdecoder]
  rfl

/-- The length in the header of a packet. -/
lemma toNat_length (hlen : packet.length < 2 ^ 15) :
    (UInt16.ofNat packet.length).toNat = packet.length := by
  rw [UInt16.toNat_ofNat']
  omega

/-- The message that comes first reads back. -/
lemma first_reads {s : MetaSend} (hsend : s.Sendable) (haccepted : s.Accepted) :
    s.first.Parsed ∧ s.first.readBack = s.first := by
  have hlen := haccepted.2
  cases s with
  | message m =>
      obtain ⟨⟨line, hline⟩, hid, -, -⟩ := hsend
      refine ⟨parseMetaMessage_parsed hline, ?_⟩
      cases m with
      | id m => exact absurd rfl hid
      | _ => rfl
  | tcpPacket packet => exact ⟨(toNat_length hlen).trans_lt hlen, rfl⟩
  | sptpsPacket packet => exact ⟨(toNat_length hlen).trans_lt hlen, rfl⟩

/-- **What the receiver makes of a send.** -/
lemma pieces_send (h : d.Opens codec key) (hrest : d.AtRest) {s : MetaSend} (hsend : s.Sendable)
    (haccepted : s.Accepted) :
    ∃ w d', (metaReader p).Pieces extend metaFormat (Takes p key) d (s.pieces p key codec.nextIn) w
        d' ∧ w.events = s.events ∧ d'.Opens (s.advance .received codec) key ∧ d'.AtRest := by
  obtain ⟨hm, hread⟩ := first_reads hsend haccepted
  obtain ⟨raw, d₁, hstep, hopens, hdecoder, hpending⟩ :=
    step_line (p := p) h hrest hm hread haccepted.1
  have hheader : Takes p key d (.record (sealMeta p key codec.nextIn (encodeMetaLine s.first))) :=
    ⟨codec, _, h, haccepted.1, rfl, hrest.1⟩
  have hlen := haccepted.2
  cases s with
  | message m =>
      have hsame : d.observe .sptpsApplication m = d := by
        obtain ⟨-, -, hpacket, hsptps⟩ := hsend
        cases m with
        | tcpPacket m => exact absurd rfl hpacket
        | sptpsTcpPacket m => exact absurd rfl hsptps
        | _ => rfl
      rw [MetaSend.first, hsame] at hdecoder hpending
      have hrest₁ : d₁.AtRest := ⟨hdecoder.trans hrest.1, hpending.trans hrest.2⟩
      have hstuck := stuck_of_new (p := p) hopens hrest₁.1
      exact ⟨_, d₁, .cons hheader (.step hstep (.stuck hstuck)) (.nil hstuck), rfl, hopens, hrest₁⟩
  | tcpPacket packet =>
      have hdecoder₁ : d₁.decoder = .new := hdecoder.trans hrest.1
      have hpending₁ : d₁.pendingTcpPacket = some packet.length :=
        hpending.trans (congrArg some (toNat_length hlen))
      have hlen' : packet.length ≤ 65535 := by
        have hlt : packet.length < 2 ^ 15 := hlen
        omega
      obtain ⟨raw', d₂, hstep', hopens', hrest'⟩ :=
        step_packet (p := p) hopens hdecoder₁ hpending₁ hlen'
      have hbody : Takes p key d₁ (.record (sealMeta p key codec.received.nextIn packet)) :=
        ⟨codec.received, packet, hopens, hlen', rfl, hdecoder₁⟩
      rw [MetaSend.pieces, ← SptpsHandshakeCodec.nextIn_received]
      have hstuck := stuck_of_new (p := p) hopens' hrest'.1
      exact ⟨_, d₂, .cons hheader (.step hstep (.stuck (stuck_of_new hopens hdecoder₁)))
        (.cons hbody (.step hstep' (.stuck hstuck)) (.nil hstuck)), rfl, hopens', hrest'⟩
  | sptpsPacket packet =>
      have hdecoder₁ : d₁.decoder = ⟨[], some ⟨.sptpsPacket, packet.length⟩⟩ := by
        rw [hdecoder]
        have hlen' : (UInt16.ofNat packet.length).toNat = packet.length := toNat_length hlen
        show d.decoder.expectBody .sptpsPacket (UInt16.ofNat packet.length).toNat = _
        rw [hlen', hrest.1]
        rfl
      obtain ⟨d₂, hstep', hopens', hrest'⟩ :=
        step_body (p := p) hopens hdecoder₁ (hpending.trans hrest.2)
      have hstuck := stuck_of_new (p := p) hopens' hrest'.1
      by_cases hnil : packet = []
      · -- an empty packet is there with its header
        subst hnil
        rw [extend, MetaStreamDecoder.extend_nil] at hstep'
        exact ⟨_, d₂, .cons hheader (.step hstep (.step hstep' (.stuck hstuck))) (.nil hstuck), rfl,
          hopens', hrest'⟩
      · have hbody : Takes p key d₁ (.body packet) := ⟨codec.received, hopens, hnil, hdecoder₁⟩
        have hwait : (metaReader p).Stuck d₁ := by
          have hstuck₁ := (expects_body (p := p) hopens hnil hdecoder₁).stuck [] packet rfl hnil
            (expects_body (p := p) hopens hnil hdecoder₁).waits_nil
          rwa [extend, MetaStreamDecoder.extend_nil] at hstuck₁
        rw [MetaSend.pieces]
        simp only [if_neg hnil]
        exact ⟨_, d₂, .cons hheader (.step hstep (.stuck hwait))
          (.cons hbody (.step hstep' (.stuck hstuck)) (.nil hstuck)), rfl, hopens', hrest'⟩

end Pieces

end MetaConnectionDriver

/-! ### Any number of sends -/

namespace MetaSend

/-- The number of records of a send. -/
def records : MetaSend → UInt32
  | tcpPacket _ => 2
  | _ => 1

/-- The pieces of any number of sends, from a number on. -/
def allPieces (p : Primitives) (key : SptpsKey) : UInt32 → List MetaSend → List MetaPiece
  | _, [] => []
  | seqno, send :: rest => send.pieces p key seqno ++ allPieces p key (seqno + send.records) rest

/-- What happens to a codec with any number of sends. -/
def advanceAll (step : SptpsHandshakeCodec → SptpsHandshakeCodec) (codec : SptpsHandshakeCodec)
    (sends : List MetaSend) : SptpsHandshakeCodec :=
  sends.foldl (advance step) codec

variable {p : Primitives} {key : SptpsKey} {codec codec' : SptpsHandshakeCodec}
  {sends before after : List MetaSend} {packet : List UInt8}

lemma nextOut_advance (send : MetaSend) :
    (send.advance .sent codec).nextOut = codec.nextOut + send.records := by
  cases send with
  | tcpPacket packet =>
      rw [advance, SptpsHandshakeCodec.nextOut_sent, SptpsHandshakeCodec.nextOut_sent,
        UInt32.add_assoc]
      rfl
  | _ => exact SptpsHandshakeCodec.nextOut_sent codec

lemma nextIn_advance (send : MetaSend) :
    (send.advance .received codec).nextIn = codec.nextIn + send.records := by
  cases send with
  | tcpPacket packet =>
      rw [advance, SptpsHandshakeCodec.nextIn_received, SptpsHandshakeCodec.nextIn_received,
        UInt32.add_assoc]
      rfl
  | _ => exact SptpsHandshakeCodec.nextIn_received codec

/-- A send keeps what a step of the codec keeps. -/
lemma advance_keeps {step : SptpsHandshakeCodec → SptpsHandshakeCodec}
    {P : SptpsHandshakeCodec → Prop} (hstep : ∀ codec, P codec → P (step codec)) (h : P codec)
    (send : MetaSend) : P (send.advance step codec) := by
  cases send with
  | tcpPacket packet => exact hstep _ (hstep _ h)
  | _ => exact hstep _ h

end MetaSend

lemma MetaSend.advanceAll_keeps {step : SptpsHandshakeCodec → SptpsHandshakeCodec}
    {P : SptpsHandshakeCodec → Prop} (hstep : ∀ codec, P codec → P (step codec))
    {codec : SptpsHandshakeCodec} (h : P codec) (sends : List MetaSend) :
    P (advanceAll step codec sends) := by
  induction sends generalizing codec with
  | nil => exact h
  | cons s rest ih => exact ih (advance_keeps hstep h s)

lemma SptpsHandshakeCodec.Matches.step {codec codec' : SptpsHandshakeCodec}
    (h : codec.Matches codec') : codec.sent.Matches codec'.received := by
  obtain ⟨htcp, hkeys, hback, hnumbers, hnumbers'⟩ := h
  exact ⟨by simpa using htcp, by simpa using hkeys, by simpa using hback, by simp [hnumbers],
    by simp [hnumbers']⟩

/-- **Two codecs still match** after a send has arrived. -/
lemma SptpsHandshakeCodec.Matches.advanceAll {codec codec' : SptpsHandshakeCodec}
    (h : codec.Matches codec') (sends : List MetaSend) :
    (MetaSend.advanceAll .sent codec sends).Matches
      (MetaSend.advanceAll .received codec' sends) := by
  induction sends generalizing codec codec' with
  | nil => exact h
  | cons send rest ih =>
      refine ih ?_
      cases send with
      | tcpPacket packet => exact h.step.step
      | _ => exact h.step

namespace MetaConnectionDriver

section Sends

variable {p : Primitives} {key : SptpsKey} {a a' d : MetaConnectionDriver}
  {codec : SptpsHandshakeCodec} {sends before after : List MetaSend} {packet : List UInt8}

/-- **What any number of sends put on the stream.** -/
theorem exec_sendAll (h : a.Carries codec) (htcp : codec.isTcp = true)
    (hkey : codec.outKey = some key) (hsends : ∀ s ∈ sends, s.Sendable)
    {out : List (List UInt8)} (hexec : (sendAll p sends).exec a = (.ok out, a')) :
    out.flatten = metaFormat.flat (MetaSend.allPieces p key codec.nextOut sends) ∧
      a'.Carries (MetaSend.advanceAll .sent codec sends) ∧ ∀ s ∈ sends, s.Accepted := by
  induction sends generalizing a codec out with
  | nil =>
      cases hexec
      exact ⟨rfl, h, by simp⟩
  | cons s rest ih =>
      obtain ⟨hs, hrest⟩ := List.forall_mem_cons.mp hsends
      obtain ⟨bytes, a₁, hfirst, hexec⟩ := Stateful.exec_bind_eq_ok.mp hexec
      obtain ⟨more, a₂, hmore, hpure⟩ := Stateful.exec_bind_eq_ok.mp hexec
      cases hpure
      obtain ⟨hbytes, hcarries, haccepted⟩ := exec_send h htcp hkey hs hfirst
      have htcp' : (s.advance .sent codec).isTcp = true :=
        MetaSend.advance_keeps (P := fun c => c.isTcp = true) (fun c hc => by simpa using hc) htcp s
      have hkey' : (s.advance .sent codec).outKey = some key :=
        MetaSend.advance_keeps (P := fun c => c.outKey = some key) (fun c hc => by simpa using hc)
          hkey s
      obtain ⟨hflat, hcarries', haccepted'⟩ := ih hcarries htcp' hkey' hrest hmore
      refine ⟨?_, hcarries', List.forall_mem_cons.mpr ⟨haccepted, haccepted'⟩⟩
      rw [List.flatten_append, hbytes, hflat, MetaSend.nextOut_advance, MetaSend.allPieces,
        FrameReader.Format.flat_append]
      rfl

/-- **What the receiver makes of any number of sends.** -/
theorem pieces_sendAll (h : d.Opens codec key) (hrest : d.AtRest)
    (hsends : ∀ s ∈ sends, s.Sendable ∧ s.Accepted) :
    ∃ w d', (metaReader p).Pieces extend metaFormat (Takes p key) d
        (MetaSend.allPieces p key codec.nextIn sends) w d' ∧
      w.events = sends.flatMap MetaSend.events ∧
        d'.Opens (MetaSend.advanceAll .received codec sends) key ∧ d'.AtRest := by
  induction sends generalizing d codec with
  | nil => exact ⟨0, d, .nil (stuck_of_new h hrest.1), rfl, h, hrest⟩
  | cons s rest ih =>
      obtain ⟨⟨hsend, haccepted⟩, hrest'⟩ := List.forall_mem_cons.mp hsends
      obtain ⟨w, d₁, hpieces, hevents, hopens, hrest₁⟩ := pieces_send (p := p) h hrest hsend haccepted
      obtain ⟨w', d', hpieces', hevents', hopens', hrest'⟩ := ih hopens hrest₁ hrest'
      rw [MetaSend.nextIn_advance] at hpieces'
      refine ⟨w + w', d', hpieces.append hpieces', ?_, hopens', hrest'⟩
      rw [MetaConnectionStep.events_add, hevents, hevents', List.flatMap_cons]

/-- What is sent in two parts is sent in one. -/
lemma sendAll_append {out : List (List UInt8)}
    (h : (sendAll p (before ++ after)).exec a = (.ok out, a')) :
    ∃ begun a₁ more, (sendAll p before).exec a = (.ok begun, a₁) ∧
      (sendAll p after).exec a₁ = (.ok more, a') ∧ out = begun ++ more := by
  induction before generalizing a out with
  | nil => exact ⟨[], a, out, rfl, h, rfl⟩
  | cons s rest ih =>
      obtain ⟨bytes, a₁, hfirst, h⟩ := Stateful.exec_bind_eq_ok.mp h
      obtain ⟨more, a₂, hmore, hpure⟩ := Stateful.exec_bind_eq_ok.mp h
      cases hpure
      obtain ⟨begun, a₃, left, hbegun, hleft, rfl⟩ := ih hmore
      refine ⟨bytes ++ begun, a₃, left, ?_, hleft, by rw [List.append_assoc]⟩
      exact Stateful.exec_bind_eq_ok.mpr ⟨bytes, a₁, hfirst,
        Stateful.exec_bind_eq_ok.mpr ⟨begun, a₃, hbegun, rfl⟩⟩

lemma allPieces_append (codec : SptpsHandshakeCodec) (before after : List MetaSend) :
    MetaSend.allPieces p key codec.nextOut (before ++ after) =
      MetaSend.allPieces p key codec.nextOut before ++
        MetaSend.allPieces p key (MetaSend.advanceAll .sent codec before).nextOut after := by
  induction before generalizing codec with
  | nil => rfl
  | cons s rest ih =>
      rw [List.cons_append, MetaSend.allPieces, MetaSend.allPieces, ← MetaSend.nextOut_advance, ih,
        List.append_assoc]
      rfl

/-- A packet between records comes after its header. -/
lemma allPieces_sptpsPacket (codec : SptpsHandshakeCodec) (hne : packet ≠ []) :
    ∃ zs, MetaSend.allPieces p key codec.nextOut (before ++ .sptpsPacket packet :: after) =
      (MetaSend.allPieces p key codec.nextOut before ++ [.record (sealMeta p key
        (MetaSend.advanceAll .sent codec before).nextOut
        (encodeMetaLine (MetaSend.sptpsPacket packet).first))]) ++ .body packet :: zs := by
  rw [allPieces_append, MetaSend.allPieces, MetaSend.pieces]
  simp only [if_neg hne]
  exact ⟨_, by rw [List.append_assoc]; rfl⟩

/-- A body on the stream is that of a packet which comes after its header. -/
lemma exists_of_allPieces (codec : SptpsHandshakeCodec) {ys zs : List MetaPiece}
    (h : MetaSend.allPieces p key codec.nextOut sends = ys ++ .body packet :: zs) :
    ∃ before after, sends = before ++ .sptpsPacket packet :: after ∧
      ys = MetaSend.allPieces p key codec.nextOut before ++ [.record (sealMeta p key
        (MetaSend.advanceAll .sent codec before).nextOut
        (encodeMetaLine (MetaSend.sptpsPacket packet).first))] := by
  induction sends generalizing codec ys with
  | nil => simp [MetaSend.allPieces] at h
  | cons s rest ih =>
      rw [MetaSend.allPieces] at h
      have hcases : (∃ ys', ys = s.pieces p key codec.nextOut ++ ys' ∧
          MetaSend.allPieces p key (codec.nextOut + s.records) rest = ys' ++ .body packet :: zs) ∨
          ∃ zs', s.pieces p key codec.nextOut = ys ++ .body packet :: zs' := by
        rcases List.append_eq_append_iff.mp h with hlater | ⟨_ | ⟨x, zs'⟩, hs, htail⟩
        · exact Or.inl hlater
        · exact Or.inl ⟨[], by rw [hs, List.append_nil, List.append_nil], htail.symm⟩
        · obtain ⟨rfl, -⟩ := List.cons.inj htail
          exact Or.inr ⟨zs', hs⟩
      rcases hcases with ⟨ys', rfl, hrest⟩ | ⟨zs', hs⟩
      · rw [← MetaSend.nextOut_advance] at hrest
        obtain ⟨before, after, rfl, rfl⟩ := ih _ hrest
        refine ⟨s :: before, after, rfl, ?_⟩
        rw [MetaSend.allPieces, ← MetaSend.nextOut_advance, List.append_assoc]
        rfl
      · -- the body is among the pieces of the first send
        cases s with
        | message m => cases ys <;> simp [MetaSend.pieces] at hs
        | tcpPacket packet' =>
            rcases ys with _ | ⟨_, _ | ⟨_, ys⟩⟩ <;> simp [MetaSend.pieces] at hs
        | sptpsPacket packet' =>
            rw [MetaSend.pieces] at hs
            rcases ys with _ | ⟨y, ys⟩
            · cases (List.cons.inj hs).1
            · obtain ⟨rfl, hbody⟩ := List.cons.inj hs
              split_ifs at hbody
              · simp at hbody
              · rcases ys with _ | ⟨_, ys⟩
                · obtain ⟨hpacket, -⟩ := List.cons.inj hbody
                  obtain rfl : packet' = packet := MetaPiece.body.inj hpacket
                  exact ⟨[], rest, rfl, rfl⟩
                · simp at hbody

end Sends

/-! ### When the sends arrive -/

/-- No packet between records is larger than the buffer. -/
def WellSized (sends : List MetaSend) : Prop :=
  ∀ packet, .sptpsPacket packet ∈ sends → packet.length ≤ maxMetaBufferSize

/-- No chunk ends in a packet between records after a part of it that looks as if it began with a
record. -/
def CutsWell (p : Primitives) (a : MetaConnectionDriver) (sends : List MetaSend)
    (chunks : List (List UInt8)) : Prop :=
  ∀ before packet after begun left, sends = before ++ .sptpsPacket packet :: after →
    packet = begun ++ left → left ≠ [] → ∀ out a₁ header a₂,
      (sendAll p before).exec a = (.ok out, a₁) →
      (sendMetaMessage p (MetaSend.sptpsPacket packet).first).exec a₁ = (.ok header, a₂) →
        ∀ done later, chunks = done ++ later → done.flatten = out.flatten ++ header ++ begun →
          ¬ BeginsWithRecord begun

/-- The chunks are received, exactly what was sent comes out, and the two ends match. -/
def Arrives (p : Primitives) (a' d : MetaConnectionDriver) (sends : List MetaSend)
    (chunks : List (List UInt8)) : Prop :=
  ∃ step d', (receiveChunks p chunks).exec d = (.ok step, d') ∧
    step.events = sends.flatMap MetaSend.events ∧ a'.Matches d' ∧ d'.AtRest

section Arrival

variable {p : Primitives} {key : SptpsKey} {a a' d : MetaConnectionDriver}
  {codec : SptpsHandshakeCodec} {sends : List MetaSend} {chunks out : List (List UInt8)}

/-- The pieces fit exactly if the sends are well sized. -/
lemma fits_iff (codec : SptpsHandshakeCodec) (sends : List MetaSend) :
    (∀ x ∈ MetaSend.allPieces p key codec.nextOut sends, metaFormat.Fits x) ↔ WellSized sends := by
  constructor
  · intro h packet hpacket
    obtain ⟨before, after, rfl⟩ := List.append_of_mem hpacket
    by_cases hnil : packet = []
    · subst hnil
      exact Nat.zero_le _
    · refine h (.body packet) ?_
      rw [allPieces_append]
      refine List.mem_append_right _ (List.mem_append_left _ ?_)
      rw [MetaSend.pieces]
      simp [hnil]
  · intro h x hx
    cases x with
    | record bytes => trivial
    | body packet =>
        obtain ⟨ys, zs, hsplit⟩ := List.append_of_mem hx
        obtain ⟨before, after, rfl, -⟩ := exists_of_allPieces codec hsplit
        exact h packet (List.mem_append_right _ List.mem_cons_self)

/-- The bytes before a packet. -/
lemma flatten_before (h : a.Carries codec) (htcp : codec.isTcp = true)
    (hkey : codec.outKey = some key) {before : List MetaSend} (hbefore : ∀ s ∈ before, s.Sendable)
    {packet : List UInt8} {a₁ a₂ : MetaConnectionDriver} {header : List UInt8}
    (hout : (sendAll p before).exec a = (.ok out, a₁))
    (hheader : (sendMetaMessage p (MetaSend.sptpsPacket packet).first).exec a₁ = (.ok header, a₂)) :
    out.flatten ++ header = metaFormat.flat (MetaSend.allPieces p key codec.nextOut before ++
      [.record (sealMeta p key (MetaSend.advanceAll .sent codec before).nextOut
        (encodeMetaLine (MetaSend.sptpsPacket packet).first))]) := by
  obtain ⟨hflat, hcarries, -⟩ := exec_sendAll h htcp hkey hbefore hout
  have htcp' : (MetaSend.advanceAll .sent codec before).isTcp = true :=
    MetaSend.advanceAll_keeps (P := fun c => c.isTcp = true) (fun c hc => by simpa using hc) htcp _
  have hkey' : (MetaSend.advanceAll .sent codec before).outKey = some key :=
    MetaSend.advanceAll_keeps (P := fun c => c.outKey = some key) (fun c hc => by simpa using hc)
      hkey _
  have hid : (MetaSend.sptpsPacket packet).first.request ≠ .id := by
    simp [MetaSend.first, MetaMessage.request]
  obtain ⟨rfl, -, -⟩ := exec_sendMetaMessage_ok hcarries htcp' hkey' hid hheader
  rw [hflat, FrameReader.Format.flat_append]
  simp [metaFormat, FrameReader.Format.flat, MetaPiece.bytes]

/-- In terms of the sends, the pieces end well exactly if the stream is cut well. -/
lemma endsWell_iff (h : a.Carries codec) (htcp : codec.isTcp = true)
    (hkey : codec.outKey = some key) (hsends : ∀ s ∈ sends, s.Sendable)
    (hexec : (sendAll p sends).exec a = (.ok out, a')) :
    metaFormat.EndsWell [] (MetaSend.allPieces p key codec.nextOut sends) chunks ↔
      CutsWell p a sends chunks := by
  constructor
  · rintro hends before packet after begun left rfl rfl hleft out a₁ header a₂ hout hheader
      done later hchunks hdone
    have hbefore : ∀ s ∈ before, s.Sendable := fun s hs => hsends s (List.mem_append_left _ hs)
    have hflat := flatten_before h htcp hkey hbefore hout hheader
    have hne : begun ++ left ≠ [] := List.append_ne_nil_of_right_ne_nil begun hleft
    obtain ⟨zs, hpieces⟩ := allPieces_sptpsPacket codec hne
    exact hends done later hchunks _ (.body (begun ++ left)) zs begun left hpieces rfl hleft
      (by rw [List.nil_append, hdone, hflat])
  · rintro hcuts done later hchunks ys x zs begun left hsplit hx hleft hdone
    cases x with
    | record bytes => trivial
    | body packet =>
        obtain ⟨before, after, rfl, rfl⟩ := exists_of_allPieces codec hsplit
        have hbefore : ∀ s ∈ before, s.Sendable := fun s hs => hsends s (List.mem_append_left _ hs)
        obtain ⟨out₁, a₁, more, hout, hmore, -⟩ := sendAll_append hexec
        obtain ⟨bytes, a₂, hsend, -⟩ := Stateful.exec_bind_eq_ok.mp hmore
        obtain ⟨-, hsend⟩ := exec_sendPacket_ok hsend
        obtain ⟨header, a₃, hheader, -⟩ := Stateful.exec_bind_eq_ok.mp hsend
        refine hcuts before packet after begun left rfl hx hleft out₁ a₁ header a₃ hout hheader done
          later hchunks ?_
        rw [flatten_before h htcp hkey hbefore hout hheader, ← hdone, List.nil_append]

lemma Carries.codec_eq {codec' : SptpsHandshakeCodec} (h : a.Carries codec) (h' : a.Carries codec') :
    codec = codec' := by
  obtain ⟨session, hsession, rfl⟩ := h.session
  obtain ⟨session', hsession', rfl⟩ := h'.session
  obtain rfl := Option.some.inj (hsession.symm.trans hsession')
  rfl

/-- **What is sent arrives**, however it is cut, when every packet between records fits into the
buffer and no chunk ends in such a packet after a part that looks as if it began with a record;
and only then, unless a part of a packet happens to open as a record under the key. -/
theorem sends_arrive_iff (hmatch : a.Matches d) (hrest : d.AtRest)
    (hsends : ∀ s ∈ sends, s.Sendable) (hsent : (sendAll p sends).exec a = (.ok out, a'))
    (hcut : chunks.flatten = out.flatten) :
    (WellSized sends ∧ CutsWell p a sends chunks → Arrives p a' d sends chunks) ∧
      ((∀ codec key, a.Carries codec → codec.outKey = some key →
          ∀ packet, .sptpsPacket packet ∈ sends → Unforged p key packet) →
        Arrives p a' d sends chunks → WellSized sends ∧ CutsWell p a sends chunks) := by
  obtain ⟨codec, codec', hcarries, hcarries', hcodecs⟩ := hmatch
  obtain ⟨key, hkey, hkey'⟩ := hcodecs.keys
  have hopens : d.Opens codec' key := ⟨hcarries', hcodecs.isTcp.2, hkey'⟩
  obtain ⟨hflat, ha', haccepted⟩ := exec_sendAll hcarries hcodecs.isTcp.1 hkey hsends hsent
  obtain ⟨w, d', hpieces, hevents, hopens', hrest'⟩ := pieces_sendAll (p := p) hopens hrest
    fun s hs => ⟨hsends s hs, haccepted s hs⟩
  rw [← hcodecs.numbers] at hpieces
  have hnil : d.extend [] = d := (metaReader_lawful (p := p)).push_nil d
  have hstuck : (metaReader p).Stuck (d.extend []) := by
    rw [hnil]
    exact stuck_of_new hopens hrest.1
  have hstream : [] ++ chunks.flatten =
      metaFormat.flat (MetaSend.allPieces p key codec.nextOut sends) := by
    rw [List.nil_append, hcut, hflat]
  have hcuts : metaFormat.EndsWell [] (MetaSend.allPieces p key codec.nextOut sends) chunks ↔
      CutsWell p a sends chunks :=
    endsWell_iff hcarries hcodecs.isTcp.1 hkey hsends hsent
  constructor
  · rintro ⟨hsizes, hwell⟩
    have hcalls := hpieces.calls metaReader_lawful expects_of_takes ((fits_iff codec sends).mpr hsizes)
      (hpieces.begins expects_of_takes) hstuck hstream (hcuts.mpr hwell)
    rw [hnil] at hcalls
    exact ⟨w, d', hcalls, hevents, ⟨_, _, ha', hopens'.carries, hcodecs.advanceAll sends⟩, hrest'⟩
  · rintro hforged ⟨step, t, hcalls, -⟩
    have hinsists : ∀ s, ∀ x ∈ MetaSend.allPieces p key codec.nextOut sends,
        Takes p key s x → (metaReader p).Insists extend room metaFormat s x := by
      intro s x hx htakes
      cases x with
      | record bytes => exact ⟨fun _ _ _ _ _ => trivial, fun _ _ _ _ _ _ _ => trivial⟩
      | body packet =>
          obtain ⟨codec'', hopens'', -, hdecoder⟩ := htakes
          obtain ⟨ys, zs, hsplit⟩ := List.append_of_mem hx
          obtain ⟨before, after, rfl, -⟩ := exists_of_allPieces codec hsplit
          exact insists_body hopens'' (hforged codec key hcarries hkey packet
            (List.mem_append_right _ List.mem_cons_self)) hdecoder
    have hwaits : ∀ x ∈ (MetaSend.allPieces p key codec.nextOut sends).head?,
        metaFormat.Waits x [] := by
      intro x hx
      cases x with
      | record bytes => trivial
      | body packet => exact fun h => absurd h.1 (by simp)
    rw [← hnil] at hcalls
    obtain ⟨hfits, hends⟩ := hpieces.of_calls metaReader_lawful expects_of_takes hinsists
      (hpieces.begins expects_of_takes) hstuck hstream hwaits hcalls
    exact ⟨(fits_iff codec sends).mp hfits, hcuts.mp hends⟩

end Arrival

/-! ### A packet that is too large for the receiver -/

section Example

open SptpsHandshakeSession

/-- The other end of the connection of `activatedDriver`. -/
def activatedPeer : MetaConnectionDriver :=
  { activatedDriver with
    auth := { activatedDriver.auth with
      myself := "beta"
      peer := some "alpha"
      outgoing := false
      privateKey := bobKey
      peerKey := aliceKey.publicKey } }

lemma activatedPeer_matches : activatedPeer.Matches activatedDriver := by
  refine ⟨.tcp ⟨some ⟨zeros 64⟩, some ⟨zeros 64⟩, 0, 0⟩, .tcp ⟨some ⟨zeros 64⟩, some ⟨zeros 64⟩, 0, 0⟩,
    ⟨rfl, rfl, ⟨_, rfl⟩, _, rfl, rfl⟩, ⟨rfl, rfl, ⟨_, rfl⟩, _, rfl, rfl⟩, ⟨rfl, rfl⟩, ?_, ?_, rfl, rfl⟩
  · exact ⟨_, rfl, rfl⟩
  · exact ⟨_, rfl, rfl⟩

/-- A ping and a packet of each kind. -/
def threeSends : List MetaSend :=
  [.message .ping, .tcpPacket [1, 2, 3], .sptpsPacket [0, 0, 1, 1, 1]]

/-- The bytes that a list of sends puts on the stream. -/
def sentBytes (sends : List MetaSend) : List (List UInt8) :=
  match ((sendAll oneSignature sends).exec activatedPeer).1 with
  | .ok out => out
  | .error _ => []

/-- Three sends, in chunks that end within a record and within a packet. -/
theorem threeSends_arrive :
    let chunks := [(sentBytes threeSends).flatten.take 30, (sentBytes threeSends).flatten.drop 30]
    ∃ a', Arrives oneSignature a' activatedDriver threeSends chunks := by
  intro chunks
  have hsent : ((sendAll oneSignature threeSends).exec activatedPeer).1 =
      .ok (sentBytes threeSends) := by decide +kernel
  have hsends : ∀ s ∈ threeSends, s.Sendable := by
    intro s hs
    simp only [threeSends, List.mem_cons, List.not_mem_nil, or_false] at hs
    rcases hs with rfl | rfl | rfl
    · exact ⟨⟨"8".toList, by decide +kernel⟩, by decide, by decide, by decide⟩
    · trivial
    · trivial
  have hcut : chunks.flatten = (sentBytes threeSends).flatten := by
    simp [chunks]
  refine ⟨_, (sends_arrive_iff activatedPeer_matches ⟨rfl, rfl⟩ hsends (Prod.ext hsent rfl) hcut).1
    ⟨?_, ?_⟩⟩
  · intro packet hpacket
    simp only [threeSends, List.mem_cons, List.not_mem_nil, or_false, reduceCtorEq, false_or,
      MetaSend.sptpsPacket.injEq] at hpacket
    subst hpacket
    decide
  · -- a record is longer than the packet
    rintro before packet after begun left hsplit rfl - out a₁ header a₂ - - done later - - hbegins
    have hmem : MetaSend.sptpsPacket (begun ++ left) ∈ threeSends := by
      rw [hsplit]
      exact List.mem_append_right _ List.mem_cons_self
    simp only [threeSends, List.mem_cons, List.not_mem_nil, or_false, reduceCtorEq, false_or,
      MetaSend.sptpsPacket.injEq] at hmem
    have hlen := congrArg List.length hmem
    have hlong := hbegins.2
    simp only [List.length_append, List.length_cons, List.length_nil, sptpsTcpAuthOverhead]
      at hlen hlong
    omega

/-- One byte more than the receiver has room for. -/
def largePacket : List UInt8 := List.replicate 2177 1

/-- **A packet that the sender accepts makes the receiver fail.** -/
theorem largePacket_fails :
    activatedPeer.Matches activatedDriver ∧ activatedDriver.AtRest ∧
      ((sendAll oneSignature [.sptpsPacket largePacket]).exec activatedPeer).1 =
        .ok (sentBytes [.sptpsPacket largePacket]) ∧
      ((receiveChunks oneSignature [(sentBytes [.sptpsPacket largePacket]).flatten]).exec
        activatedDriver).1 = .error (.stream (.inputBufferFull 2176 2177)) :=
  ⟨activatedPeer_matches, ⟨rfl, rfl⟩, by decide +kernel, by decide +kernel⟩

end Example

end MetaConnectionDriver

end RustyTinc

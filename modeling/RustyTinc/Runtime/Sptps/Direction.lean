import RustyTinc.Runtime.Sptps.PacketCodec

/-!
One direction of a session that sends datagrams, over a network that may lose them, repeat them,
put them in any order and add its own.

* `Received`: what the receiver has accepted of the records that were sealed for it;
* `Received.accepts_iff`: a record that is not far from the newest one is accepted exactly when it
  was not accepted before;
* `Direction.decode`: what a datagram that nobody has forged brings about.
-/

namespace RustyTinc

open Bytes

/-- The number behind the largest one. -/
def nextIndex (accepted : List ℕ) : ℕ := accepted.foldr (fun i n => max (i + 1) n) 0

lemma lt_nextIndex {accepted : List ℕ} {i : ℕ} (h : i ∈ accepted) : i < nextIndex accepted := by
  induction accepted with
  | nil => cases h
  | cons j rest ih =>
      rw [nextIndex, List.foldr_cons]
      rcases List.mem_cons.mp h with rfl | h
      · exact lt_max_of_lt_left (Nat.lt_succ_self i)
      · exact lt_max_of_lt_right (ih h)

/-- What was accepted, newest first, of the records that were sealed from the number `first` on. -/
structure Received (wb first : ℕ) (records delivered : List SptpsDecodedRecord)
    (window : SptpsReplayWindow) (accepted : List ℕ) : Prop where
  delivered_eq : delivered = accepted.reverse.filterMap (records[·]?)
  lt_length : ∀ i ∈ accepted, i < records.length
  windowBytes_eq : window.windowBytes = wb
  expected_eq : window.expectedSeqno.toNat = first + nextIndex accepted
  tracks : ∃ before, (∀ n ∈ before, n < first) ∧ SlidingWindow.Tracks (8 * wb) window.bit
    window.expectedSeqno.toNat (accepted.map (first + ·) ++ before)

namespace Received

variable {wb first i : ℕ} {records delivered : List SptpsDecodedRecord} {window : SptpsReplayWindow}
  {accepted : List ℕ} {record : SptpsDecodedRecord}

lemma start (hwindow : window.windowBytes = wb) (hexp : window.expectedSeqno.toNat = first) :
    Received wb first [] [] window [] := by
  obtain ⟨before, htracks⟩ :=
    SlidingWindow.Tracks.exists_seen (8 * wb) window.bit window.expectedSeqno.toNat
  refine ⟨rfl, fun i hi => absurd hi List.not_mem_nil, hwindow, hexp, before, ?_, htracks⟩
  intro n hn
  exact hexp ▸ htracks.lt_next n hn

lemma nodup (h : Received wb first records delivered window accepted) : accepted.Nodup := by
  obtain ⟨before, -, htracks⟩ := h.tracks
  exact (List.nodup_append.mp htracks.nodup).1.of_map _

lemma append (h : Received wb first records delivered window accepted)
    (record : SptpsDecodedRecord) :
    Received wb first (records ++ [record]) delivered window accepted := by
  refine ⟨?_, fun i hi => ?_, h.windowBytes_eq, h.expected_eq, h.tracks⟩
  · rw [h.delivered_eq]
    refine List.filterMap_congr fun i hi => ?_
    rw [List.getElem?_append_left (h.lt_length i (List.mem_reverse.mp hi))]
  · rw [List.length_append]
    exact Nat.lt_add_right _ (h.lt_length i hi)

variable (hwb : 0 < wb) (hbits : 8 * wb < 2 ^ 32) (hmax : first + i < 2 ^ 32 - 1)

include hmax in
lemma toNat_seqno : (UInt32.ofNat (first + i)).toNat = first + i :=
  UInt32.toNat_ofNat_of_lt' (by show first + i < 2 ^ 32; omega)

include hmax in
lemma seqno_ne_max : UInt32.ofNat (first + i) ≠ U32.max := by
  intro heq
  have hnat := congrArg UInt32.toNat heq
  rw [toNat_seqno hmax] at hnat
  exact absurd hnat hmax.ne

include hwb hbits hmax in
/-- A record is accepted. -/
lemma accept (h : Received wb first records delivered window accepted)
    (hrecord : records[i]? = some record) {window' : SptpsReplayWindow}
    (hacc : window.accept (UInt32.ofNat (first + i)) = (.ok (), window')) :
    i ∉ accepted ∧ Received wb first records (delivered ++ [record]) window' (i :: accepted) := by
  have hne := seqno_ne_max hmax
  obtain ⟨before, hbefore, htracks⟩ := h.tracks
  obtain ⟨hwb', htracks'⟩ :=
    SptpsReplayWindow.accept_tracks hwb hbits h.windowBytes_eq htracks hacc hne
  obtain ⟨-, hexp⟩ := SptpsReplayWindow.accept_expectedSeqno hwb h.windowBytes_eq hacc hne
  rw [toNat_seqno hmax] at htracks' hexp
  refine ⟨fun hi => ?_, ?_, ?_, hwb', ?_, before, hbefore, htracks'⟩
  · refine (List.nodup_cons.mp htracks'.nodup).1 (List.mem_append_left _ ?_)
    exact List.mem_map_of_mem hi
  · rw [h.delivered_eq, List.reverse_cons, List.filterMap_append, List.filterMap_cons, hrecord]
    rfl
  · intro j hj
    rcases List.mem_cons.mp hj with rfl | hj
    · exact (List.getElem?_eq_some_iff.mp hrecord).1
    · exact h.lt_length j hj
  · rw [hexp, h.expected_eq]
    show _ = first + max (i + 1) (nextIndex accepted)
    omega

/-- A number is refused. -/
lemma reject (h : Received wb first records delivered window accepted) {seqno : UInt32}
    {e : SptpsError} {window' : SptpsReplayWindow}
    (hacc : window.accept seqno = (.error e, window')) :
    Received wb first records delivered window' accepted := by
  obtain ⟨far, rfl⟩ := SptpsReplayWindow.accept_error hacc
  exact ⟨h.delivered_eq, h.lt_length, h.windowBytes_eq, h.expected_eq, h.tracks⟩

include hwb hbits hmax in
/-- **A record that is not far from the newest one** is accepted exactly when it is new. -/
lemma accepts_iff (h : Received wb first records delivered window accepted)
    (hahead : i < nextIndex accepted + 8 * wb) (hbehind : nextIndex accepted ≤ i + 8 * wb) :
    (window.accept (UInt32.ofNat (first + i))).1 = .ok () ↔ i ∉ accepted := by
  have hnum := toNat_seqno hmax
  have hexp := h.expected_eq
  rcases lt_or_ge i (nextIndex accepted) with hlt | hge
  · obtain ⟨before, hbefore, htracks⟩ := h.tracks
    have hlt' : UInt32.ofNat (first + i) < window.expectedSeqno := by
      rw [UInt32.lt_iff_toNat_lt, hnum, hexp]
      omega
    rw [SptpsReplayWindow.accept_of_lt_iff hwb hbits h.windowBytes_eq htracks hlt', hnum,
      and_iff_right (by omega), List.mem_append, not_or, List.mem_map]
    constructor
    · exact fun hnew hi => hnew.1 ⟨i, hi, rfl⟩
    · refine fun hi => ⟨fun ⟨j, hj, heq⟩ => hi ?_, fun hi => ?_⟩
      · rwa [← Nat.add_left_cancel heq]
      · exact absurd (hbefore _ hi) (by omega)
  · have hle : window.expectedSeqno ≤ UInt32.ofNat (first + i) := by
      rw [UInt32.le_iff_toNat_le, hnum, hexp]
      omega
    rw [SptpsReplayWindow.accept_of_near hbits h.windowBytes_eq hle (by omega) (seqno_ne_max hmax)]
    exact iff_of_true rfl fun hi => absurd (lt_nextIndex hi) (not_lt.mpr hge)

end Received

/-! ### Sealed records -/

/-- A record under the number `n`. -/
def sealedRecord (p : Primitives) (key : SptpsKey) (n : ℕ) (record : SptpsDecodedRecord) :
    List UInt8 :=
  bigEndian sptpsSeqnoLen (UInt32.ofNat n).toNat ++
    sealBody p (some key) (UInt32.ofNat n) (record.recordType :: record.payload)

/-- A sealed record is decoded when its number passes. -/
lemma exec_decode_sealedRecord (p : Primitives) {codec : SptpsDatagramCodec} {key : SptpsKey}
    (hkey : codec.inKey = some key) (n : ℕ) {record : SptpsDecodedRecord}
    (htype : record.recordType < sptpsHandshake) :
    (SptpsDatagramCodec.decode p (sealedRecord p key n record)).exec codec =
      ((codec.inReplay.accept (UInt32.ofNat n)).1.map
        fun _ => ⟨UInt32.ofNat n, record.recordType, record.payload⟩,
        { codec with inReplay := (codec.inReplay.accept (UInt32.ofNat n)).2 }) := by
  obtain ⟨inKey, outKey, window, outSeqno⟩ := codec
  obtain rfl : inKey = some key := hkey
  have hvalid : validateDecodedRecordType record.recordType = .ok () := by
    rw [validateDecodedRecordType, if_pos (UInt8.le_of_lt htype)]
  rw [sealedRecord]
  generalize UInt32.ofNat n = seqno
  have hnum : UInt32.ofNat (ofBigEndian (bigEndian sptpsSeqnoLen seqno.toNat)) = seqno := by
    rw [ofBigEndian_bigEndian seqno.toNat_lt, UInt32.ofNat_toNat]
  have hlen : (bigEndian sptpsSeqnoLen seqno.toNat).length = sptpsSeqnoLen := length_bigEndian _ _
  have hsize :
      ¬ sptpsSeqnoLen + (record.payload.length + 1 + sptpsTagLen) < sptpsDatagramOverhead := by
    simp only [sptpsSeqnoLen, sptpsTagLen, sptpsDatagramOverhead]
    omega
  rcases haccept : window.accept seqno with ⟨_ | ⟨⟩, window'⟩
  all_goals
    simp [SptpsDatagramCodec.decode, SptpsDatagramCodec.openBody, SptpsDatagramCodec.acceptSeqno,
      Stateful.exec_bind, sealBody, List.take_left' hlen, List.drop_left' hlen, hnum, haccept, hvalid,
      hlen, decrypt_encrypt, hsize]

/-- Whether a codec takes a datagram for encrypted under its key. -/
def Decrypted (p : Primitives) (codec : SptpsDatagramCodec) (datagram : List UInt8) : Prop :=
  ∃ key plaintext, codec.inKey = some key ∧
    sptpsChachaPoly1305Decrypt p key (SptpsDatagramCodec.seqnoOf datagram)
      (datagram.drop sptpsSeqnoLen) = .ok plaintext

/-- One direction of a session: what was sealed on one side under a key, from the number `first` on,
what was delivered on the other side, and the codecs of both sides. -/
structure Direction (p : Primitives) (wb first : ℕ) (records : List SptpsDecodedRecord)
    (datagrams : List (List UInt8)) (delivered : List SptpsDecodedRecord)
    (sender receiver : SptpsDatagramCodec) : Prop where
  keys : ∃ key, sender.outKey = some key ∧ receiver.inKey = some key ∧
    datagrams = records.mapIdx fun i record => sealedRecord p key (first + i) record
  outSeqno_eq : sender.outSeqno = UInt32.ofNat (first + records.length)
  application : ∀ record ∈ records, record.recordType < sptpsHandshake
  received : first + records.length < 2 ^ 32 - 1 →
    ∃ accepted, Received wb first records delivered receiver.inReplay accepted

namespace Direction

variable {p : Primitives} {wb first : ℕ} {records delivered : List SptpsDecodedRecord}
  {datagrams : List (List UInt8)} {sender receiver : SptpsDatagramCodec}

/-- A change on either side that does not concern this direction. -/
lemma congr (h : Direction p wb first records datagrams delivered sender receiver)
    {sender' receiver' : SptpsDatagramCodec} (hkey : sender'.outKey = sender.outKey)
    (hseqno : sender'.outSeqno = sender.outSeqno) (hkey' : receiver'.inKey = receiver.inKey)
    (hreplay : receiver'.inReplay = receiver.inReplay) :
    Direction p wb first records datagrams delivered sender' receiver' where
  keys := by
    rw [hkey, hkey']
    exact h.keys
  outSeqno_eq := hseqno.trans h.outSeqno_eq
  application := h.application
  received := by
    rw [hreplay]
    exact h.received

/-- A record is sent. -/
lemma send (h : Direction p wb first records datagrams delivered sender receiver)
    {record : SptpsDecodedRecord} (htype : record.recordType < sptpsHandshake) :
    Direction p wb first (records ++ [record])
      (datagrams ++ [bigEndian sptpsSeqnoLen sender.outSeqno.toNat ++
        sealBody p sender.outKey sender.outSeqno (record.recordType :: record.payload)])
      delivered { sender with outSeqno := sender.outSeqno + 1 } receiver := by
  obtain ⟨key, hout, hin, hdatagrams⟩ := h.keys
  refine ⟨⟨key, hout, hin, ?_⟩, ?_, fun r hr => ?_, fun hmax => ?_⟩
  · rw [List.mapIdx_append, List.mapIdx_cons, List.mapIdx_nil, ← hdatagrams, hout, h.outSeqno_eq,
      sealedRecord, Nat.zero_add]
  · show sender.outSeqno + 1 = _
    rw [h.outSeqno_eq, List.length_append, List.length_singleton, ← Nat.add_assoc]
    exact (UInt32.ofNat_add _ 1).symm
  · rcases List.mem_append.mp hr with hr | hr
    · exact h.application r hr
    · exact List.mem_singleton.mp hr ▸ htype
  · rw [List.length_append, List.length_singleton] at hmax
    obtain ⟨accepted, hreceived⟩ := h.received (by omega)
    exact ⟨accepted, hreceived.append record⟩

/-- **A datagram that nobody has forged** is one that was sealed, or is refused. -/
lemma decode (hwb : 0 < wb) (hbits : 8 * wb < 2 ^ 32)
    (h : Direction p wb first records datagrams delivered sender receiver) {datagram : List UInt8}
    (hgenuine : Decrypted p receiver datagram → datagram ∈ datagrams) :
    let r := (SptpsDatagramCodec.decode p datagram).exec receiver
    (∀ record, r.1 = .ok record → record.recordType < sptpsHandshake ∧
      Direction p wb first records datagrams (delivered ++ [⟨record.recordType, record.payload⟩])
        sender r.2) ∧
    ∀ e, r.1 = .error e → Direction p wb first records datagrams delivered sender r.2 := by
  intro r
  obtain ⟨key, hout, hin, hdatagrams⟩ := h.keys
  by_cases hmem : datagram ∈ datagrams
  · rw [hdatagrams] at hmem
    obtain ⟨i, hi, hsealed⟩ := List.mem_iff_getElem.mp hmem
    rw [List.length_mapIdx] at hi
    rw [List.getElem_mapIdx] at hsealed
    have htype := h.application _ (List.getElem_mem hi)
    have hr : r = _ :=
      (congrArg (fun d => (SptpsDatagramCodec.decode p d).exec receiver) hsealed.symm).trans
        (exec_decode_sealedRecord p hin (first + i) htype)
    rcases haccept : receiver.inReplay.accept (UInt32.ofNat (first + i)) with ⟨e | ⟨⟩, window⟩
    · rw [haccept] at hr
      rw [hr]
      refine ⟨fun record heq => (by cases heq), fun _ _ => ⟨⟨key, hout, hin, hdatagrams⟩, h.outSeqno_eq,
        h.application, fun hmax => ?_⟩⟩
      obtain ⟨accepted, hreceived⟩ := h.received hmax
      exact ⟨accepted, hreceived.reject haccept⟩
    · rw [haccept] at hr
      rw [hr]
      refine ⟨fun record heq => ?_, fun e heq => (by cases heq)⟩
      obtain rfl := Except.ok.inj heq
      refine ⟨htype, ⟨key, hout, hin, hdatagrams⟩, h.outSeqno_eq, h.application, fun hmax => ?_⟩
      obtain ⟨accepted, hreceived⟩ := h.received hmax
      have hrecord : records[i]? = some records[i] := List.getElem?_eq_getElem hi
      exact ⟨i :: accepted, (hreceived.accept hwb hbits (by omega) hrecord haccept).2⟩
  · have hforged : ∀ plaintext, sptpsChachaPoly1305Decrypt p key
        (SptpsDatagramCodec.seqnoOf datagram) (datagram.drop sptpsSeqnoLen) ≠ .ok plaintext :=
      fun plaintext hopen => hmem (hgenuine ⟨key, plaintext, hin, hopen⟩)
    obtain ⟨e, hr⟩ := SptpsDatagramCodec.exec_decode_forged hin hforged
    have hr' : r = _ := hr
    rw [hr']
    exact ⟨fun record heq => (by cases heq), fun _ _ => h⟩

/-- **What a sealed record brings about** when it is not far from the newest one: it is delivered,
unless it was before. -/
lemma decode_near (hwb : 0 < wb) (hbits : 8 * wb < 2 ^ 32)
    (h : Direction p wb first records datagrams delivered sender receiver) {accepted : List ℕ}
    (hreceived : Received wb first records delivered receiver.inReplay accepted) {i : ℕ}
    {record : SptpsDecodedRecord} {datagram : List UInt8}
    (hmax : first + records.length < 2 ^ 32 - 1) (hrecord : records[i]? = some record)
    (hdatagram : datagrams[i]? = some datagram)
    (hahead : i < nextIndex accepted + 8 * wb) (hbehind : nextIndex accepted ≤ i + 8 * wb) :
    (i ∉ accepted → ∃ seqno, ((SptpsDatagramCodec.decode p datagram).exec receiver).1 =
      .ok ⟨seqno, record.recordType, record.payload⟩) ∧
    (i ∈ accepted → ∃ e, ((SptpsDatagramCodec.decode p datagram).exec receiver).1 = .error e) := by
  obtain ⟨key, hout, hin, hdatagrams⟩ := h.keys
  obtain ⟨hi, hget⟩ := List.getElem?_eq_some_iff.mp hrecord
  have hsealed : datagram = sealedRecord p key (first + i) record := by
    rw [hdatagrams, List.getElem?_mapIdx, hrecord] at hdatagram
    exact (Option.some.inj hdatagram).symm
  have htype := h.application record (hget ▸ List.getElem_mem hi)
  have hiff := hreceived.accepts_iff hwb hbits (by omega) hahead hbehind
  rw [hsealed, exec_decode_sealedRecord p hin (first + i) htype]
  rcases haccept : receiver.inReplay.accept (UInt32.ofNat (first + i)) with ⟨e | ⟨⟩, window⟩
  · rw [haccept] at hiff
    refine ⟨fun hnew => ?_, fun _ => ⟨e, rfl⟩⟩
    cases hiff.mpr hnew
  · rw [haccept] at hiff
    exact ⟨fun _ => ⟨_, rfl⟩, fun hold => absurd hold (hiff.mp rfl)⟩

end Direction

end RustyTinc

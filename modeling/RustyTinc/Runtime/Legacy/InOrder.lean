import RustyTinc.Core.SubnetText
import RustyTinc.Runtime.Legacy.UdpCodec

/-!
Legacy datagrams that arrive in the order in which their packets were encoded.

* `LegacyPacketDirection.openDatagram_of_sealDatagram`: a datagram opens to what it was made of;
* `LegacyPeerState.decode_next`: what the receiver does with the next datagram of its peer;
* `LegacyUdpCodec.decode_in_order_iff`: the packets that come out again.
-/

namespace RustyTinc

/-- The primitives undo each other, and no ciphertext is shorter than its plaintext. -/
structure LegacyPrimitives.Inverts (p : LegacyPrimitives) : Prop where
  decryptCbc {cipher : LegacyCipherAlgorithm} {key iv : List UInt8}
    (hkey : key.length = cipher.keyLen p) (hiv : iv.length = cipher.ivLen p)
    (packet : List UInt8) :
    p.decryptCbc cipher key iv (p.encryptCbc cipher key iv packet) = .ok packet
  le_encryptCbc {cipher : LegacyCipherAlgorithm} {key iv : List UInt8}
    (hkey : key.length = cipher.keyLen p) (hiv : iv.length = cipher.ivLen p)
    (packet : List UInt8) : packet.length ≤ (p.encryptCbc cipher key iv packet).length
  opensslDecrypt {nid : ℤ} {key packet encrypted : List UInt8} :
    p.opensslEncrypt nid key packet = .ok encrypted →
      p.opensslDecrypt nid key encrypted = .ok packet ∧ packet.length ≤ encrypted.length
  decompress {compression : CompressionLevel} {packet compressed : List UInt8} :
    packet.length ≤ mtu → p.compress compression packet = .ok compressed →
      p.decompress compression compressed = .ok packet

/-- The keyed hash of a digest is at least as long as the part of it that is sent. -/
def LegacyDigest.Fits (p : LegacyPrimitives) (d : LegacyDigest) : Prop :=
  ∀ key packet mac, p.hmac d key packet = .ok mac → d.length ≤ mac.length

/-- The key and the initial vector have the lengths of their cipher. -/
lemma LegacyCipher.aesKeyIv_eq_ok {p : LegacyPrimitives} {c : LegacyCipher} {r}
    (h : c.aesKeyIv p = .ok r) :
    r.1.length = c.algorithm.keyLen p ∧ r.2.length = c.algorithm.ivLen p := by
  rw [aesKeyIv] at h
  split_ifs at h with hlen
  obtain rfl := Except.ok.inj h
  rw [not_not, LegacyCipherAlgorithm.keyMaterialLen] at hlen
  rw [List.splitAt_eq]
  constructor
  · show (c.keyMaterial.take _).length = _
    rw [List.length_take]
    omega
  · show (c.keyMaterial.drop _).length = _
    rw [List.length_drop]
    omega

/-- What a cipher has encrypted it decrypts again. -/
lemma LegacyCipher.decrypt_of_encrypt {p : LegacyPrimitives} (hp : p.Inverts) {c : LegacyCipher}
    {packet encrypted : List UInt8} (h : c.encrypt p packet = .ok encrypted) :
    c.decrypt p encrypted = .ok packet ∧ packet.length ≤ encrypted.length := by
  -- the three block ciphers take the same steps
  have hcbc : ∀ encrypted,
      (c.aesKeyIv p >>= fun keys => pure (p.encryptCbc c.algorithm keys.1 keys.2 packet)) =
        Except.ok encrypted →
      (c.aesKeyIv p >>= fun keys => p.decryptCbc c.algorithm keys.1 keys.2 encrypted) =
        .ok packet ∧ packet.length ≤ encrypted.length := by
    intro encrypted h
    rcases hkey : c.aesKeyIv p with e | ⟨key, iv⟩
    · rw [hkey] at h
      cases h
    · rw [hkey] at h
      obtain rfl := Except.ok.inj h
      obtain ⟨hkeyLen, hivLen⟩ := aesKeyIv_eq_ok hkey
      exact ⟨hp.decryptCbc hkeyLen hivLen packet, hp.le_encryptCbc hkeyLen hivLen packet⟩
  unfold encrypt at h
  unfold decrypt
  split at h
  · obtain rfl := Except.ok.inj h
    exact ⟨rfl, le_refl _⟩
  · exact hp.opensslDecrypt h
  · exact hcbc _ h

/-- What a digest was appended to is left when the digest is stripped. -/
lemma LegacyDigestState.verifyAndStrip_of_append {p : LegacyPrimitives} {d : LegacyDigestState}
    (hfits : d.algorithm.Fits p) {packet datagram : List UInt8}
    (h : d.append p packet = .ok datagram) :
    d.verifyAndStrip p datagram = .ok packet ∧
      packet.length + d.length = datagram.length := by
  rw [append] at h
  rw [verifyAndStrip]
  split_ifs at h with hnone
  · obtain rfl := Except.ok.inj h
    rw [if_pos hnone, LegacyDigestState.length, hnone]
    exact ⟨rfl, rfl⟩
  · obtain ⟨mac, hmac, h⟩ := bind_eq_ok.mp h
    obtain rfl := Except.ok.inj h
    have hcreate := hmac
    rw [LegacyDigest.create, if_neg hnone] at hmac
    obtain ⟨hash, hhash, hmac⟩ := bind_eq_ok.mp hmac
    have hlen : mac.length = d.length := by
      obtain rfl := Except.ok.inj hmac
      rw [List.length_take]
      exact min_eq_left (hfits _ _ _ hhash)
    have hsplit : (packet ++ mac).splitAt ((packet ++ mac).length - d.length) = (packet, mac) := by
      rw [List.splitAt_eq, List.length_append, hlen, Nat.add_sub_cancel, List.take_left,
        List.drop_left]
    have hverify : d.algorithm.verify p d.key packet mac = .ok () := by
      rw [LegacyDigest.verify, hcreate]
      simp only [bind, Except.bind, constantTimeEq_self, if_true]
    have hlong : d.length ≤ (packet ++ mac).length := by
      rw [List.length_append, hlen]
      exact Nat.le_add_left _ _
    rw [if_neg hnone, if_neg (not_lt.mpr hlong), hsplit]
    simp only [hverify, bind, Except.bind, List.length_append, hlen]
    exact ⟨trivial, trivial⟩

namespace LegacyPacketDirection

/-- A datagram opens to the number and the payload that it was made of. -/
lemma openDatagram_of_sealDatagram {p : LegacyPrimitives} (hp : p.Inverts)
    {d : LegacyPacketDirection} (hfits : d.digest.algorithm.Fits p) {seqno : UInt32}
    {payload datagram : List UInt8} (h : d.sealDatagram p seqno payload = .ok datagram) :
    d.openDatagram p datagram = .ok (seqno, payload) := by
  obtain ⟨encrypted, hencrypt, happend⟩ := bind_eq_ok.mp h
  obtain ⟨hdecrypt, hle⟩ := LegacyCipher.decrypt_of_encrypt hp hencrypt
  obtain ⟨hstrip, hlen⟩ := LegacyDigestState.verifyAndStrip_of_append hfits happend
  have hnumber : (Bytes.bigEndian legacySeqnoLen seqno.toNat).length = legacySeqnoLen :=
    Bytes.length_bigEndian _ _
  rw [List.length_append, hnumber] at hle
  have hlong : ¬ datagram.length < legacySeqnoLen + d.digest.length := by omega
  have hframed : ¬ (Bytes.bigEndian legacySeqnoLen seqno.toNat ++ payload).length <
      legacySeqnoLen := by
    rw [List.length_append, hnumber]
    omega
  have htake : (Bytes.bigEndian legacySeqnoLen seqno.toNat ++ payload).take legacySeqnoLen =
      Bytes.bigEndian legacySeqnoLen seqno.toNat := List.take_left' hnumber
  have hdrop : (Bytes.bigEndian legacySeqnoLen seqno.toNat ++ payload).drop legacySeqnoLen =
      payload := List.drop_left' hnumber
  have hofNat : UInt32.ofNat (Bytes.ofBigEndian (Bytes.bigEndian legacySeqnoLen seqno.toNat)) =
      seqno := by
    rw [Bytes.ofBigEndian_bigEndian seqno.toNat_lt, UInt32.ofNat_toNat]
  simp only [openDatagram, hlong, hstrip, hdecrypt, hframed, htake, hdrop, hofNat, if_false, bind,
    Except.bind, pure, Except.pure]

lemma uncompress_of_compress {p : LegacyPrimitives} (hp : p.Inverts) {d : LegacyPacketDirection}
    {packet compressed : List UInt8} (hmtu : packet.length ≤ mtu)
    (h : d.compress p packet = .ok compressed) : d.uncompress p compressed = .ok packet := by
  unfold compress at h
  unfold uncompress
  split at h
  · exact h.symm.trans rfl
  · exact hp.decompress hmtu h

end LegacyPacketDirection

/-! ### The window of the receiver -/

namespace LegacyReplayWindow

/-- The last number that passes a window of this size when all numbers up to it arrive in order:
behind the wrap guard a number is far ahead of the window that was reset. -/
def Reaches (windowBytes n : ℕ) : Prop :=
  n ≤ maxLegacySeqno.toNat + 1 ∨ windowBytes < 4 ∨ n < 8 * windowBytes

lemma Reaches.mono {windowBytes m n : ℕ} (h : Reaches windowBytes n) (hle : m ≤ n) :
    Reaches windowBytes m :=
  h.imp hle.trans (Or.imp_right hle.trans_lt)

variable {w : LegacyReplayWindow} {seqno : UInt32}

lemma settle_farFuture (h : w.farFuture = 0) : (w.settle seqno).farFuture = 0 := by
  have hclear : ∀ v : LegacyReplayWindow, (v.clearLate seqno).farFuture = v.farFuture := by
    intro v
    rw [clearLate]
    split_ifs <;> rfl
  show (w.clearPassed seqno).farFuture = 0
  rw [clearPassed]
  split_ifs
  · exact hclear _
  · exact h

/-- The next number passes. -/
lemma accept_next (hnext : seqno = w.receivedSeqno + 1) :
    w.accept seqno = (.ok (), w.settle seqno) := by
  rw [accept, if_neg fun h => h.2 hnext]

/-- A number further ahead passes when the window is small or holds it. -/
lemma accept_ahead (hlt : w.receivedSeqno < seqno) (hnext : seqno ≠ w.receivedSeqno + 1)
    (hmax : seqno ≠ U32.max) (hfar : w.farFuture = 0) :
    (w.accept seqno).1 = .ok () ↔
      w.windowBytes < 4 ∨ seqno.toNat < w.receivedSeqno.toNat + 8 * w.windowBytes := by
  have hmax' : seqno.toNat ≠ 2 ^ 32 - 1 := fun h => hmax (UInt32.toNat_inj.mp h)
  have hbound := seqno.toNat_lt
  have hcut := toNat_futureCutoff (w := w)
  have hcount : U32.saturatingAdd w.farFuture 1 = 1 := by
    rw [hfar]
    decide
  simp only [accept, hcount]
  split_ifs with hne hcutoff hfew hle hout
  · -- the first number that is counted
    rw [UInt32.le_iff_toNat_le, hcut] at hcutoff
    have hquarter : 1 ≤ w.windowBytes >>> 2 := by
      have hle := UInt32.le_iff_toNat_le.mp hfew
      rw [U32.tryFrom] at hle
      split_ifs at hle with h32
      · rwa [UInt32.toNat_ofNat_of_lt' h32] at hle
      · omega
    rw [Nat.shiftRight_eq_div_pow] at hquarter
    simp only [false_iff]
    omega
  · -- the window is too small to count
    refine iff_of_true rfl (Or.inl ?_)
    by_contra hbig
    refine hfew ?_
    rw [UInt32.le_iff_toNat_le]
    rw [U32.tryFrom]
    have hquarter : 1 ≤ w.windowBytes >>> 2 := by
      rw [Nat.shiftRight_eq_div_pow]
      omega
    split_ifs with h32
    · rwa [UInt32.toNat_ofNat_of_lt' h32]
    · decide
  · exact absurd hlt (UInt32.not_lt.mpr hle)
  · exact absurd hlt (UInt32.not_lt.mpr hle)
  · refine iff_of_true rfl (Or.inr ?_)
    rw [UInt32.not_le, UInt32.lt_iff_toNat_lt, hcut] at hcutoff
    omega
  · refine iff_of_true rfl (Or.inl ?_)
    by_contra hbig
    refine hne ⟨?_, hnext⟩
    rw [windowBits]
    omega

end LegacyReplayWindow

/-! ### The packets of one sender -/

namespace LegacyPeerState

/-- The state of a receiver after the first `n` datagrams, in order: behind the wrap guard the
window is reset by each. -/
structure InOrder (peer : LegacyPeerState) (n : ℕ) : Prop where
  receivedSeqno : peer.replay.receivedSeqno.toNat = if n ≤ maxLegacySeqno.toNat then n else 0
  farFuture : peer.replay.farFuture = 0

lemma inOrder_of_replay_new {peer : LegacyPeerState} {windowBytes : ℕ}
    (h : peer.replay = .new windowBytes) : peer.InOrder 0 := by
  constructor
  · rw [h]
    rfl
  · rw [h]
    rfl

/-- Whether the next number passes, and the window that it leaves. -/
lemma InOrder.accept {peer : LegacyPeerState} {n : ℕ} {seqno : UInt32} (h : peer.InOrder n)
    (hseqno : seqno.toNat = n + 1) (hmax : seqno ≠ U32.max) :
    ((peer.replay.accept seqno).1 = .ok () ↔
      LegacyReplayWindow.Reaches peer.replay.windowBytes (n + 1)) ∧
    ((peer.replay.accept seqno).1 = .ok () →
      (peer.replay.accept seqno).2.windowBytes = peer.replay.windowBytes ∧
        (peer.replay.accept seqno).2.receivedSeqno = seqno ∧
        (n ≤ maxLegacySeqno.toNat → (peer.replay.accept seqno).2.farFuture = 0)) := by
  have hrec := h.receivedSeqno
  have hbound := seqno.toNat_lt
  have hlt : peer.replay.receivedSeqno < seqno := by
    rw [UInt32.lt_iff_toNat_lt]
    split_ifs at hrec <;> omega
  have hrecMax : peer.replay.receivedSeqno ≠ U32.max := fun heq => by
    rw [UInt32.lt_iff_toNat_lt, heq, U32.toNat_max] at hlt
    omega
  have hsucc := LegacyReplayWindow.toNat_succ hrecMax
  by_cases hn : n ≤ maxLegacySeqno.toNat
  · -- below the guard the number is the next one
    rw [if_pos hn] at hrec
    have hnext : seqno = peer.replay.receivedSeqno + 1 := by
      rw [← UInt32.toNat_inj, hsucc, hrec, hseqno]
    rw [LegacyReplayWindow.accept_next hnext]
    refine ⟨iff_of_true rfl (Or.inl (by omega)), fun _ => ?_⟩
    exact ⟨LegacyReplayWindow.settle_windowBytes _ _,
      (LegacyReplayWindow.settle_receivedSeqno _ _).trans (if_pos hlt),
      fun _ => LegacyReplayWindow.settle_farFuture h.farFuture⟩
  · rw [if_neg hn] at hrec
    have hguard : maxLegacySeqno.toNat = 1073741824 := rfl
    have hnext : seqno ≠ peer.replay.receivedSeqno + 1 := fun heq => by
      rw [← UInt32.toNat_inj, hsucc, hrec, hseqno] at heq
      omega
    refine ⟨?_, fun hok => ?_⟩
    · rw [LegacyReplayWindow.accept_ahead hlt hnext hmax h.farFuture, hrec, hseqno, zero_add,
        LegacyReplayWindow.Reaches]
      omega
    · rcases LegacyReplayWindow.accept_above hlt hmax with ⟨w, hacc, hwb, hw⟩ | ⟨e, far, hacc, -⟩
      · rw [hacc]
        exact ⟨hwb, hw, fun hle => absurd hle hn⟩
      · rw [hacc] at hok
        cases hok

/-- What a receiver does with the next datagram. -/
lemma InOrder.decode {p : LegacyPrimitives} {peer : LegacyPeerState} {n : ℕ} {seqno : UInt32}
    {datagram payload : List UInt8} (h : peer.InOrder n) (hseqno : seqno.toNat = n + 1)
    (hmax : seqno ≠ U32.max) (hopen : peer.incoming.openDatagram p datagram = .ok (seqno, payload))
    {packet : VpnPacket} (hpayload : peer.incoming.uncompress p payload = .ok packet.data)
    (hpacket : VpnPacket.new packet.data = .ok packet) :
    ((peer.decode p datagram).1 = .ok packet ↔
      LegacyReplayWindow.Reaches peer.replay.windowBytes (n + 1)) ∧
    (LegacyReplayWindow.Reaches peer.replay.windowBytes (n + 1) →
      (peer.decode p datagram).2.InOrder (n + 1) ∧
        (peer.decode p datagram).2.replay.windowBytes = peer.replay.windowBytes) := by
  obtain ⟨hiff, hnext⟩ := h.accept hseqno hmax
  rw [LegacyPeerState.decode, hopen, ← hiff]
  rcases hacc : peer.replay.accept seqno with ⟨error | _, replay⟩
  · simp only [hacc]
    refine ⟨⟨fun h => ?_, fun h => ?_⟩, fun h => ?_⟩ <;> cases h
  · rw [hacc] at hnext
    obtain ⟨hwb, hrec, hfar⟩ := hnext rfl
    simp only [hacc]
    refine ⟨iff_of_true ?_ trivial, fun _ => ?_⟩
    · rw [guardWrap_incoming, hpayload]
      simp only [bind, Except.bind, hpacket, Except.mapError]
    · have hrec' : replay.receivedSeqno.toNat = n + 1 := (congrArg _ hrec).trans hseqno
      by_cases hwrap : maxLegacySeqno < replay.receivedSeqno
      · rw [guardWrap, if_pos hwrap]
        refine ⟨⟨?_, rfl⟩, hwb⟩
        rw [if_neg]
        · rfl
        · rw [UInt32.lt_iff_toNat_lt, hrec'] at hwrap
          omega
      · rw [guardWrap, if_neg hwrap]
        rw [UInt32.lt_iff_toNat_lt, hrec'] at hwrap
        refine ⟨⟨?_, hfar (by omega)⟩, hwb⟩
        rw [if_pos (by omega)]
        exact hrec'

/-- What a sender does with a packet. -/
lemma encode_eq_ok {p : LegacyPrimitives} {peer peer' : LegacyPeerState} {packet : VpnPacket}
    {datagram : List UInt8} (h : peer.encode p packet = .ok (datagram, peer')) :
    (∃ compressed, peer.outgoing.compress p packet.data = .ok compressed ∧
      peer.outgoing.sealDatagram p (peer.sentSeqno + 1) compressed = .ok datagram) ∧
      peer' = { peer with sentSeqno := peer.sentSeqno + 1 } := by
  obtain ⟨compressed, hcompress, h⟩ := bind_eq_ok.mp h
  obtain ⟨datagram', hseal, h⟩ := bind_eq_ok.mp h
  obtain ⟨rfl, rfl⟩ := Prod.mk.inj (Except.ok.inj h)
  exact ⟨⟨compressed, hcompress, hseal⟩, rfl⟩

end LegacyPeerState

namespace LegacyUdpCodec

/-- What `encode` answers for each of the packets, one after another. -/
def encodeAll (p : LegacyPrimitives) (target : String) : LegacyUdpCodec → List VpnPacket →
    List (Except LegacyPacketError (List UInt8)) × LegacyUdpCodec
  | codec, [] => ([], codec)
  | codec, packet :: packets =>
    let (result, next) := codec.encode p target packet
    let (results, last) := encodeAll p target next packets
    (result :: results, last)

/-- The packets of a sender that is `n` packets ahead, decoded in order by a receiver that has
decoded these. -/
lemma decodeAll_encodeAll {p : LegacyPrimitives} (hp : p.Inverts) {target : String}
    {packets : List VpnPacket} {sender : LegacyUdpCodec} {outPeer inPeer : LegacyPeerState}
    {n : ℕ} (hout : sender.peers.get? target = some outPeer)
    (hdirection : outPeer.outgoing = inPeer.incoming)
    (hfits : inPeer.incoming.digest.algorithm.Fits p) (hsent : outPeer.sentSeqno.toNat = n)
    (hin : inPeer.InOrder n) (hreaches : LegacyReplayWindow.Reaches inPeer.replay.windowBytes n)
    (hlen : n + packets.length < 2 ^ 32 - 1)
    (hpackets : ∀ packet ∈ packets, VpnPacket.new packet.data = .ok packet)
    {datagrams : List (List UInt8)}
    (hencode : (sender.encodeAll p target packets).1 = datagrams.map .ok) :
    (inPeer.decodeAll p datagrams).1.map LegacyDecoded.result = packets.map .ok ↔
      LegacyReplayWindow.Reaches inPeer.replay.windowBytes (n + packets.length) := by
  induction packets generalizing sender outPeer inPeer n datagrams with
  | nil =>
      obtain rfl := List.map_eq_nil_iff.mp hencode.symm
      exact iff_of_true rfl hreaches
  | cons packet packets ih =>
      rw [List.length_cons] at hlen ⊢
      rw [encodeAll] at hencode
      obtain ⟨datagram, datagrams, rfl, hfirst, hrest⟩ := List.map_eq_cons_iff.mp hencode.symm
      rw [encode, hout] at hfirst hrest
      rcases hencoded : outPeer.encode p packet with error | ⟨datagram', outPeer'⟩
      · simp only [hencoded] at hfirst
        cases hfirst
      · simp only [hencoded, Except.ok.injEq] at hfirst hrest
        subst hfirst
        obtain ⟨⟨compressed, hcompress, hseal⟩, rfl⟩ :=
          LegacyPeerState.encode_eq_ok hencoded
        have hnew := hpackets packet List.mem_cons_self
        have hmtu : packet.data.length ≤ mtu := by
          rw [VpnPacket.new] at hnew
          split_ifs at hnew with hlong
          exact not_lt.mp hlong
        rw [hdirection] at hcompress hseal
        have hseqno : (outPeer.sentSeqno + 1).toNat = n + 1 := by
          rw [LegacyReplayWindow.toNat_succ, hsent]
          intro heq
          rw [heq, U32.toNat_max] at hsent
          omega
        have hmax : outPeer.sentSeqno + 1 ≠ U32.max := fun heq => by
          rw [heq, U32.toNat_max] at hseqno
          omega
        obtain ⟨hiff, hnext⟩ := hin.decode hseqno hmax
          (LegacyPacketDirection.openDatagram_of_sealDatagram hp hfits hseal)
          (LegacyPacketDirection.uncompress_of_compress hp hmtu hcompress) hnew
        have hsplit : n + (packets.length + 1) = n + 1 + packets.length := by omega
        rw [LegacyPeerState.decodeAll, List.map_cons, List.map_cons, List.cons_eq_cons, hiff, hsplit]
        by_cases hstep : LegacyReplayWindow.Reaches inPeer.replay.windowBytes (n + 1)
        · obtain ⟨hinOrder, hwb⟩ := hnext hstep
          have hincoming := LegacyPeerState.decode_incoming p inPeer datagram
          have hpeer := (OrdMap.get?_insert sender.peers target target
            { outPeer with sentSeqno := outPeer.sentSeqno + 1 }).trans (if_pos rfl)
          rw [and_iff_right hstep, ← hwb]
          refine ih hpeer ?_ ?_ hseqno hinOrder (hwb.symm ▸ hstep)
            (by omega) (fun packet hmem => hpackets packet (List.mem_cons_of_mem _ hmem)) hrest.symm
          · rw [hincoming]
            exact hdirection
          · rw [hincoming]
            exact hfits
        · exact iff_of_false (fun h => hstep h.1) fun h => hstep (h.mono (by omega))

/-- **Legacy datagrams in order exactly below the wrap guard**: what a sender encodes with fresh
counters, a receiver with the same direction decodes in the same order to the same packets if and
only if the numbers do not pass the guard, or the receiver has a window of less than four bytes, or
one that holds all numbers. -/
theorem decode_in_order_iff {p : LegacyPrimitives} (hp : p.Inverts)
    {sender receiver : LegacyUdpCodec} {target source : String} {outPeer inPeer : LegacyPeerState}
    (hout : sender.peers.get? target = some outPeer)
    (hin : receiver.peers.get? source = some inPeer)
    (hdirection : outPeer.outgoing = inPeer.incoming)
    (hfits : inPeer.incoming.digest.algorithm.Fits p) (hsent : outPeer.sentSeqno = 0)
    (hreplay : inPeer.replay = .new inPeer.replay.windowBytes) {packets : List VpnPacket}
    (hlen : packets.length < 2 ^ 32 - 1)
    (hpackets : ∀ packet ∈ packets, VpnPacket.new packet.data = .ok packet)
    {datagrams : List (List UInt8)}
    (hencode : (sender.encodeAll p target packets).1 = datagrams.map .ok) :
    (receiver.decodeAll p source datagrams).1.map LegacyDecoded.result = packets.map .ok ↔
      packets.length ≤ maxLegacySeqno.toNat + 1 ∨ inPeer.replay.windowBytes < 4 ∨
        packets.length < 8 * inPeer.replay.windowBytes := by
  have hsent' : outPeer.sentSeqno.toNat = 0 := congrArg _ hsent
  have hall := decodeAll_encodeAll hp hout hdirection hfits hsent'
    (LegacyPeerState.inOrder_of_replay_new hreplay) (Or.inl (Nat.zero_le _)) (by omega) hpackets
    hencode
  rwa [zero_add, ← decodeAll_log p source datagrams hin] at hall

/-- `DEFAULT_REPLAY_WINDOW_BYTES` -/
def defaultReplayWindowBytes : ℕ := 32

/-- Keyed hashes of two packets, and nothing to encrypt or to compress. -/
def digestPrimitives : LegacyPrimitives :=
  { hashedPrimitives with decryptCbc := fun _ _ _ packet => .ok packet }

lemma digestPrimitives_inverts : digestPrimitives.Inverts where
  decryptCbc _ _ _ := rfl
  le_encryptCbc _ _ packet := le_refl packet.length
  opensslDecrypt h := nomatch h
  decompress _ h := nomatch h

/-- A peer whose packets are neither compressed nor encrypted nor hashed. -/
def plainCodec (peer : String) : LegacyUdpCodec where
  peers := OrdMap.empty.insert peer (.new defaultReplayWindowBytes)
  replayWindowBytes := defaultReplayWindowBytes

/-- Packets that need no primitive are all encoded. -/
lemma encodeAll_plain {p : LegacyPrimitives} {target : String} {packets : List VpnPacket}
    {codec : LegacyUdpCodec} {peer : LegacyPeerState} (hpeer : codec.peers.get? target = some peer)
    (hplain : peer.outgoing = {}) :
    ∃ datagrams : List (List UInt8),
      (codec.encodeAll p target packets).1 = datagrams.map .ok := by
  induction packets generalizing codec peer with
  | nil => exact ⟨[], rfl⟩
  | cons packet packets ih =>
      let next : LegacyPeerState :=
        { peer with outgoing := {}, sentSeqno := peer.sentSeqno + 1 }
      let datagram := Bytes.bigEndian legacySeqnoLen next.sentSeqno.toNat ++ packet.data
      have hencoded : peer.encode p packet = .ok (datagram, next) := by
        unfold LegacyPeerState.encode
        rw [hplain]
        rfl
      have hencode : codec.encode p target packet =
          (.ok datagram, { codec with peers := codec.peers.insert target next }) := by
        rw [encode, hpeer]
        simp only [hencoded]
      obtain ⟨datagrams, hdatagrams⟩ :=
        @ih { codec with peers := codec.peers.insert target next } next
          (by rw [OrdMap.get?_insert, if_pos rfl]) rfl
      rw [encodeAll, hencode]
      exact ⟨datagram :: datagrams, congrArg (_ :: ·) hdatagrams⟩

/-- With the default window the packet that follows the wrap guard is lost. -/
theorem decode_in_order_stops :
    ∃ packets : List VpnPacket, packets.length < 2 ^ 32 - 1 ∧
      (∀ packet ∈ packets, VpnPacket.new packet.data = .ok packet) ∧
      ∃ datagrams : List (List UInt8), ((plainCodec "beta").encodeAll digestPrimitives "beta" packets).1 =
          datagrams.map .ok ∧
        ((plainCodec "alpha").decodeAll digestPrimitives "alpha" datagrams).1.map
          LegacyDecoded.result ≠ packets.map .ok := by
  have hpeer : ∀ name, (plainCodec name).peers.get? name =
      some (.new defaultReplayWindowBytes) := fun name =>
    (OrdMap.get?_insert _ _ _ _).trans (if_pos rfl)
  obtain ⟨datagrams, hdatagrams⟩ := @encodeAll_plain digestPrimitives "beta"
    (List.replicate (2 ^ 30 + 2) ⟨[0], 0⟩) _ _ (hpeer "beta") rfl
  have hpackets : ∀ packet ∈ List.replicate (2 ^ 30 + 2) (⟨[0], 0⟩ : VpnPacket),
      VpnPacket.new packet.data = .ok packet := by
    intro packet hmem
    rw [List.eq_of_mem_replicate hmem]
    rfl
  have hlen : (List.replicate (2 ^ 30 + 2) (⟨[0], 0⟩ : VpnPacket)).length = 2 ^ 30 + 2 :=
    List.length_replicate
  refine ⟨_, hlen.trans_lt (by norm_num), hpackets, datagrams, hdatagrams, fun hdecoded => ?_⟩
  have hall := (decodeAll_encodeAll (n := 0) digestPrimitives_inverts (hpeer "beta") rfl
    (fun _ _ _ _ => Nat.zero_le _) rfl (LegacyPeerState.inOrder_of_replay_new rfl)
    (Or.inl (Nat.zero_le _)) (by rw [hlen]; norm_num) hpackets hdatagrams).mp
    (by rwa [← decodeAll_log _ _ _ (hpeer "alpha")])
  rw [hlen] at hall
  rcases hall with hguard | hsmall | hlarge
  · exact absurd hguard (by decide)
  · exact absurd hsmall (by decide)
  · exact absurd hlarge (by decide)

/-- Three packets under a key of one byte, with their numbers and their keyed hashes. -/
def hashedStream : List (List UInt8 × List UInt8) :=
  [([0, 0, 0, 1, 1, 2, 3, 4], [123, 8, 215, 166]), ([0, 0, 0, 2, 5, 6], [202, 255, 8, 72]),
    ([0, 0, 0, 3], [86, 155, 196, 130])]

/-- The keyed hashes of these packets, and nothing to encrypt or to compress. -/
def streamPrimitives : LegacyPrimitives :=
  { digestPrimitives with
    hmac := fun digest _ packet =>
      (hashedStream.lookup packet).elim (.error (.digestFailed digest.nid "not computed")) .ok }

lemma streamPrimitives_inverts : streamPrimitives.Inverts where
  decryptCbc _ _ _ := rfl
  le_encryptCbc _ _ packet := le_refl packet.length
  opensslDecrypt h := nomatch h
  decompress _ h := nomatch h

/-- All keyed hashes have four bytes. -/
lemma streamPrimitives_fits (digest : LegacyDigest) (hdigest : digest.length = 4) :
    digest.Fits streamPrimitives := by
  intro key packet mac hmac
  have hmacs : ∀ entry ∈ hashedStream, entry.2.length = 4 := by decide
  change (hashedStream.lookup packet).elim _ _ = _ at hmac
  cases hlookup : hashedStream.lookup packet with
  | none =>
      rw [hlookup] at hmac
      cases hmac
  | some mac' =>
      rw [hlookup] at hmac
      obtain rfl := Except.ok.inj hmac
      obtain ⟨before, after, hsplit, -⟩ := List.lookup_eq_some_iff.mp hlookup
      rw [hdigest]
      exact (hmacs (packet, mac') (hsplit ▸ by simp)).ge

/-- A window of four bytes, and nothing to encrypt, to hash or to compress. -/
def shortCodec (peer : String) : LegacyUdpCodec where
  peers := OrdMap.empty.insert peer (.new 4)
  replayWindowBytes := 4

/-- More packets than the window has bits. -/
def countedPackets : List VpnPacket := (List.range 40).map fun i => ⟨[UInt8.ofNat i], 0⟩

/-- Each packet behind its number. -/
def countedDatagrams : List (List UInt8) :=
  (List.range 40).map fun i => [0, 0, 0, UInt8.ofNat (i + 1), UInt8.ofNat i]

/-- Packets come out again under a digest, and while the window moves past its own length. -/
theorem decode_in_order_iff_streams :
    (digestCodec.decodeAll streamPrimitives "alpha"
        (hashedStream.map fun (packet, mac) => packet ++ mac)).1.map LegacyDecoded.result =
      [⟨[1, 2, 3, 4], 0⟩, ⟨[5, 6], 0⟩, ⟨[], 0⟩].map .ok ∧
    (((shortCodec "alpha").decodeAll digestPrimitives "alpha" countedDatagrams).1.map
        LegacyDecoded.result = countedPackets.map .ok ↔
      40 ≤ maxLegacySeqno.toNat + 1 ∨ 4 < 4 ∨ 40 < 8 * 4) := by
  constructor
  · refine (@decode_in_order_iff streamPrimitives streamPrimitives_inverts
      { peers := OrdMap.empty.insert "beta" { digestPeer with outgoing := digestPeer.incoming }
        replayWindowBytes := 4 }
      digestCodec "beta" "alpha" { digestPeer with outgoing := digestPeer.incoming } digestPeer
      ((OrdMap.get?_insert _ _ _ _).trans (if_pos rfl)) (by decide +kernel) rfl
      (streamPrimitives_fits _ (by decide +kernel)) (by decide +kernel) (by decide +kernel)
      [⟨[1, 2, 3, 4], 0⟩, ⟨[5, 6], 0⟩, ⟨[], 0⟩] (by decide) ?_ _
      (by decide +kernel)).mpr (Or.inl (by decide))
    intro packet hmem
    fin_cases hmem <;> rfl
  · refine @decode_in_order_iff digestPrimitives digestPrimitives_inverts (shortCodec "beta")
      (shortCodec "alpha") "beta" "alpha" (.new 4) (.new 4)
      ((OrdMap.get?_insert _ _ _ _).trans (if_pos rfl))
      ((OrdMap.get?_insert _ _ _ _).trans (if_pos rfl)) rfl (fun _ _ _ _ => Nat.zero_le _) rfl rfl
      countedPackets (by decide) (fun packet hmem => ?_) countedDatagrams (by decide +kernel)
    obtain ⟨i, -, rfl⟩ := List.mem_map.mp hmem
    rfl

end LegacyUdpCodec

end RustyTinc

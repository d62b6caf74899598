import RustyTinc.Library.OrdMap
import RustyTinc.Runtime.Legacy.ReplayWindow

/-!
The codec of legacy UDP datagrams.

* `LegacyUdpCodec.acceptedSeqnos`: the numbers that a sequence of datagrams gets accepted;
* `LegacyUdpCodec.decode_no_replay`: as long as the wrap guard leaves the window alone no number
  is accepted twice, and once it has reset it every datagram can be replayed.
-/

namespace RustyTinc

/-- `MAX_LEGACY_SEQNO` -/
def maxLegacySeqno : UInt32 := 1073741824

/-- The two directions of a peer and their counters. -/
structure LegacyPeerState where
  incoming : LegacyPacketDirection := {}
  outgoing : LegacyPacketDirection := {}
  sentSeqno : UInt32 := 0
  replay : LegacyReplayWindow
deriving DecidableEq

namespace LegacyPeerState

/-- A peer without keys. -/
def new (replayWindowBytes : ℕ) : LegacyPeerState := { replay := .new replayWindowBytes }

/-- The numbers of the peer begin anew. -/
def resetIncomingKeyState (peer : LegacyPeerState) : LegacyPeerState :=
  { peer with replay := peer.replay.reset }

/-- The peer has sent a new key. -/
def applyIncomingLegacyAnswerKey (p : LegacyPrimitives) (peer : LegacyPeerState)
    (message : AnswerKeyMessage) : Except LegacyPacketError LegacyPeerState := do
  let incoming ← LegacyPacketDirection.fromLegacyAnswerKey p message
  return { peer with incoming }.resetIncomingKeyState

/-- `LegacyUdpCodec::encode`, on the state of the target. -/
def encode (p : LegacyPrimitives) (peer : LegacyPeerState) (packet : VpnPacket) :
    Except LegacyPacketError (List UInt8 × LegacyPeerState) := do
  let compressed ← peer.outgoing.compress p packet.data
  let seqno := peer.sentSeqno + 1
  let datagram ← peer.outgoing.sealDatagram p seqno compressed
  return (datagram, { peer with sentSeqno := seqno })

/-- The guard against the wrap of the sequence numbers. -/
def guardWrap (peer : LegacyPeerState) : LegacyPeerState :=
  if maxLegacySeqno < peer.replay.receivedSeqno then peer.resetIncomingKeyState else peer

/-- `LegacyUdpCodec::decode`, on the state of the source. -/
def decode (p : LegacyPrimitives) (peer : LegacyPeerState) (datagram : List UInt8) :
    Except LegacyPacketError VpnPacket × LegacyPeerState :=
  match peer.incoming.openDatagram p datagram with
  | .error error => (.error error, peer)
  | .ok (seqno, payload) =>
    match peer.replay.accept seqno with
    | (.error error, replay) => (.error error, { peer with replay })
    | (.ok (), replay) =>
      let peer := { peer with replay }.guardWrap
      (do
        let payload ← peer.incoming.uncompress p payload
        (VpnPacket.new payload).mapError .packet, peer)

end LegacyPeerState

/-- The peers whose datagrams are encoded and decoded. -/
structure LegacyUdpCodec where
  peers : OrdMap String LegacyPeerState := .empty
  replayWindowBytes : ℕ

namespace LegacyUdpCodec

/-- A peer has sent a new key. -/
def applyIncomingLegacyAnswerKey (p : LegacyPrimitives) (codec : LegacyUdpCodec) (peer : String)
    (message : AnswerKeyMessage) : Except LegacyPacketError Unit × LegacyUdpCodec :=
  let state := (codec.peers.get? peer).getD (.new codec.replayWindowBytes)
  match state.applyIncomingLegacyAnswerKey p message with
  | .error error => (.error error, { codec with peers := codec.peers.insert peer state })
  | .ok state => (.ok (), { codec with peers := codec.peers.insert peer state })

/-- A packet for a peer. -/
def encode (p : LegacyPrimitives) (codec : LegacyUdpCodec) (target : String)
    (packet : VpnPacket) : Except LegacyPacketError (List UInt8) × LegacyUdpCodec :=
  match codec.peers.get? target with
  | none => (.error (.unknownPeer target), codec)
  | some peer =>
    match peer.encode p packet with
    | .error error => (.error error, codec)
    | .ok (datagram, peer) =>
      (.ok datagram, { codec with peers := codec.peers.insert target peer })

/-- A datagram from a peer. -/
def decode (p : LegacyPrimitives) (codec : LegacyUdpCodec) (source : String)
    (datagram : List UInt8) : Except LegacyPacketError VpnPacket × LegacyUdpCodec :=
  match codec.peers.get? source with
  | none => (.error (.unknownPeer source), codec)
  | some peer =>
    let (result, peer) := peer.decode p datagram
    (result, { codec with peers := codec.peers.insert source peer })

end LegacyUdpCodec

/-! ### Sequences of datagrams -/

/-- A datagram that was passed to `decode`, with the number that the replay window accepted. -/
structure LegacyDecoded where
  datagram : List UInt8
  seqno : Option UInt32
  result : Except LegacyPacketError VpnPacket

/-- The numbers that were accepted. -/
def acceptedSeqnos (log : List LegacyDecoded) : List UInt32 := log.filterMap LegacyDecoded.seqno

/-- The datagrams that were decoded to a packet. -/
def decodedDatagrams (log : List LegacyDecoded) : List (List UInt8) :=
  (log.filter fun entry => entry.result.isOk).map LegacyDecoded.datagram

namespace LegacyPeerState

/-- The number of a datagram, if the replay window accepts it. -/
def acceptedSeqno (p : LegacyPrimitives) (peer : LegacyPeerState) (datagram : List UInt8) :
    Option UInt32 :=
  match peer.incoming.openDatagram p datagram with
  | .error _ => none
  | .ok (seqno, _) =>
    match (peer.replay.accept seqno).1 with
    | .error _ => none
    | .ok () => some seqno

/-- Datagrams that arrive one after the other. -/
def decodeAll (p : LegacyPrimitives) : LegacyPeerState → List (List UInt8) →
    List LegacyDecoded × LegacyPeerState
  | peer, [] => ([], peer)
  | peer, datagram :: datagrams =>
    let (result, next) := peer.decode p datagram
    let (log, last) := next.decodeAll p datagrams
    (⟨datagram, peer.acceptedSeqno p datagram, result⟩ :: log, last)

end LegacyPeerState

namespace LegacyUdpCodec

/-- The number under which a datagram would be accepted. -/
def acceptedSeqno (p : LegacyPrimitives) (codec : LegacyUdpCodec) (source : String)
    (datagram : List UInt8) : Option UInt32 :=
  (codec.peers.get? source).bind fun peer => peer.acceptedSeqno p datagram

/-- Datagrams that arrive from one peer, one after the other. -/
def decodeAll (p : LegacyPrimitives) (source : String) : LegacyUdpCodec → List (List UInt8) →
    List LegacyDecoded × LegacyUdpCodec
  | codec, [] => ([], codec)
  | codec, datagram :: datagrams =>
    let (result, next) := codec.decode p source datagram
    let (log, last) := decodeAll p source next datagrams
    (⟨datagram, codec.acceptedSeqno p source datagram, result⟩ :: log, last)

end LegacyUdpCodec

/-- If every decoded datagram carries the number that was accepted for it, then no datagram is
decoded twice unless its number is accepted twice. -/
lemma nodup_decodedDatagrams {log : List LegacyDecoded} {number : List UInt8 → Option UInt32}
    (h : ∀ entry ∈ log, entry.result.isOk → ∃ seqno,
      entry.seqno = some seqno ∧ number entry.datagram = some seqno)
    (hnodup : (acceptedSeqnos log).Nodup) : (decodedDatagrams log).Nodup := by
  refine List.Nodup.of_map number ?_
  have hnumber : (decodedDatagrams log).map number =
      (acceptedSeqnos (log.filter fun entry => entry.result.isOk)).map some := by
    rw [decodedDatagrams, acceptedSeqnos, List.map_map]
    clear hnodup
    induction log with
    | nil => rfl
    | cons entry log ih =>
        have ih := ih fun entry hentry => h entry (List.mem_cons_of_mem _ hentry)
        rw [List.filter_cons]
        split_ifs with hok
        · obtain ⟨seqno, hseqno, hnumber⟩ := h entry List.mem_cons_self hok
          rw [List.map_cons, List.filterMap_cons_some hseqno, List.map_cons, ih,
            Function.comp_apply, hnumber]
        · exact ih
  rw [hnumber]
  refine List.Nodup.map (Option.some_injective _) (hnodup.sublist ?_)
  exact List.filter_sublist.filterMap _

namespace LegacyPeerState

/-- What `decode` does: the window refuses the datagram and at most counts it, or it accepts its
number. -/
lemma decode_cases (p : LegacyPrimitives) (peer : LegacyPeerState) (datagram : List UInt8) :
    (peer.acceptedSeqno p datagram = none ∧ (peer.decode p datagram).1.isOk = false ∧
      ∃ far, (peer.decode p datagram).2 =
        { peer with replay := { peer.replay with farFuture := far } }) ∨
    ∃ seqno payload replay, peer.incoming.openDatagram p datagram = .ok (seqno, payload) ∧
      peer.replay.accept seqno = (.ok (), replay) ∧
      peer.acceptedSeqno p datagram = some seqno ∧
      (peer.decode p datagram).2 = ({ peer with replay } : LegacyPeerState).guardWrap := by
  rw [acceptedSeqno, decode]
  rcases hopen : peer.incoming.openDatagram p datagram with error | ⟨seqno, payload⟩
  · exact Or.inl ⟨rfl, rfl, peer.replay.farFuture, rfl⟩
  · rcases hacc : peer.replay.accept seqno with ⟨error | _, replay⟩
    · obtain ⟨far, rfl⟩ := LegacyReplayWindow.accept_error hacc
      refine Or.inl ?_
      simp only [hacc]
      exact ⟨trivial, rfl, far, rfl⟩
    · refine Or.inr ⟨seqno, payload, replay, rfl, hacc, ?_⟩
      simp only [hacc]
      exact ⟨trivial, trivial⟩

@[simp] lemma guardWrap_incoming (peer : LegacyPeerState) :
    peer.guardWrap.incoming = peer.incoming := by
  rw [guardWrap]
  split_ifs <;> rfl

@[simp] lemma decode_incoming (p : LegacyPrimitives) (peer : LegacyPeerState)
    (datagram : List UInt8) : (peer.decode p datagram).2.incoming = peer.incoming := by
  rcases decode_cases p peer datagram with ⟨-, -, far, heq⟩ | ⟨_, _, _, -, -, -, heq⟩
  · rw [heq]
  · rw [heq, guardWrap_incoming]

/-- The window refuses the numbers in a list that contains those accepted. -/
structure Guarded (peer : LegacyPeerState) (accepted : List UInt32) : Prop where
  pos : 0 < peer.replay.windowBytes
  le_max : peer.replay.receivedSeqno ≤ maxLegacySeqno
  tracks : ∃ closed, SlidingWindow.Tracks (8 * peer.replay.windowBytes) peer.replay.bit
    (peer.replay.receivedSeqno.toNat + 1) closed ∧ (accepted.map UInt32.toNat).Sublist closed

lemma ne_max_of_le {seqno : UInt32} (h : seqno ≤ maxLegacySeqno) : seqno ≠ U32.max := by
  rintro rfl
  exact absurd h (by decide)

/-- A datagram below the wrap guard. -/
def BelowGuard (p : LegacyPrimitives) (incoming : LegacyPacketDirection) (datagram : List UInt8) : Prop :=
  ∀ seqno payload, incoming.openDatagram p datagram = .ok (seqno, payload) →
    seqno ≤ maxLegacySeqno

/-- A datagram below the guard adds its number. -/
lemma Guarded.decode {p : LegacyPrimitives} {peer : LegacyPeerState} {accepted : List UInt32}
    (h : peer.Guarded accepted) {datagram : List UInt8} (hbelow : BelowGuard p peer.incoming datagram) :
    (peer.decode p datagram).2.Guarded ((peer.acceptedSeqno p datagram).toList ++ accepted) := by
  obtain ⟨closed, htracks, hsub⟩ := h.tracks
  rcases decode_cases p peer datagram with ⟨hnone, -, far, heq⟩ |
    ⟨seqno, _, replay, hopen, hacc, hsome, heq⟩
  · rw [heq, hnone]
    exact ⟨h.pos, h.le_max, closed, htracks, hsub⟩
  · have hseqno := hbelow _ _ hopen
    obtain ⟨hwb, hmax, -, htracks'⟩ := LegacyReplayWindow.accept_tracks h.pos
      (ne_max_of_le h.le_max) (ne_max_of_le hseqno) htracks hacc
    have hle : replay.receivedSeqno ≤ maxLegacySeqno :=
      LegacyReplayWindow.accept_le h.le_max hseqno hacc
    have hguard : ({ peer with replay } : LegacyPeerState).guardWrap = { peer with replay } := by
      rw [guardWrap, if_neg (UInt32.not_lt.mpr hle)]
    rw [heq, hsome, hguard]
    refine ⟨hwb ▸ h.pos, hle, _, hwb ▸ htracks', ?_⟩
    exact (hsub.trans (List.sublist_append_right _ _)).cons_cons _

lemma Guarded.nodup {peer : LegacyPeerState} {accepted : List UInt32}
    (h : peer.Guarded accepted) : accepted.Nodup := by
  obtain ⟨closed, htracks, hsub⟩ := h.tracks
  exact (htracks.nodup.sublist hsub).of_map _

lemma acceptedSeqnos_cons (entry : LegacyDecoded) (log : List LegacyDecoded) :
    acceptedSeqnos (entry :: log) = entry.seqno.toList ++ acceptedSeqnos log := by
  rcases h : entry.seqno with _ | seqno
  · rw [acceptedSeqnos, List.filterMap_cons_none h]
    rfl
  · rw [acceptedSeqnos, List.filterMap_cons_some h]
    rfl

/-- Below the wrap guard, a sequence of datagrams keeps the window guarded. -/
lemma Guarded.decodeAll {p : LegacyPrimitives} {datagrams : List (List UInt8)}
    {peer : LegacyPeerState} {accepted : List UInt32} (h : peer.Guarded accepted)
    (hbelow : ∀ datagram ∈ datagrams, BelowGuard p peer.incoming datagram) :
    (peer.decodeAll p datagrams).2.Guarded
      ((acceptedSeqnos (peer.decodeAll p datagrams).1).reverse ++ accepted) := by
  induction datagrams generalizing peer accepted with
  | nil => exact h
  | cons datagram datagrams ih =>
      have hstep := h.decode (hbelow datagram List.mem_cons_self)
      have hbelow' : ∀ datagram' ∈ datagrams,
          BelowGuard p (peer.decode p datagram).2.incoming datagram' := by
        intro datagram' hmem
        rw [decode_incoming]
        exact hbelow _ (List.mem_cons_of_mem _ hmem)
      have hrest := ih hstep hbelow'
      rw [LegacyPeerState.decodeAll]
      show LegacyPeerState.Guarded _ ((acceptedSeqnos (_ :: _)).reverse ++ accepted)
      rw [acceptedSeqnos_cons, List.reverse_append, List.append_assoc]
      have hrev : ∀ o : Option UInt32, o.toList.reverse = o.toList := by
        rintro (_ | _) <;> rfl
      rw [hrev]
      exact hrest

/-- A datagram is decoded only when its number is accepted. -/
lemma seqno_of_decoded {p : LegacyPrimitives} {datagrams : List (List UInt8)}
    {peer : LegacyPeerState} {entry : LegacyDecoded}
    (hentry : entry ∈ (peer.decodeAll p datagrams).1) (hok : entry.result.isOk = true) :
    ∃ seqno, entry.seqno = some seqno ∧
      (peer.incoming.openDatagram p entry.datagram).toOption.map Prod.fst = some seqno := by
  induction datagrams generalizing peer with
  | nil => cases hentry
  | cons datagram datagrams ih =>
      rw [LegacyPeerState.decodeAll] at hentry
      rcases List.mem_cons.mp hentry with rfl | hentry
      · rcases decode_cases p peer datagram with ⟨-, herr, -⟩ | ⟨seqno, _, _, hopen, -, hsome, -⟩
        · rw [show (peer.decode p datagram).1.isOk = true from hok] at herr
          cases herr
        · exact ⟨seqno, hsome, by rw [hopen]; rfl⟩
      · have hrest := ih hentry
        rwa [decode_incoming] at hrest

/-- A number above the guard is accepted in the end when its datagram is repeated, and the guard
resets the window. -/
lemma decodeAll_wrap {p : LegacyPrimitives} {peer : LegacyPeerState}
    (hpos : 0 < peer.replay.windowBytes) (hle : peer.replay.receivedSeqno ≤ maxLegacySeqno)
    {datagram payload : List UInt8} {seqno : UInt32}
    (hopen : peer.incoming.openDatagram p datagram = .ok (seqno, payload))
    (hwrap : maxLegacySeqno < seqno) (hmax : seqno ≠ U32.max) :
    ∃ n, acceptedSeqnos (peer.decodeAll p (List.replicate n datagram)).1 = [seqno] ∧
      (peer.decodeAll p (List.replicate n datagram)).2 = peer.resetIncomingKeyState := by
  have hlt : peer.replay.receivedSeqno < seqno := UInt32.lt_of_le_of_lt hle hwrap
  induction hcount : peer.replay.windowBytes / 4 - peer.replay.farFuture.toNat
    using Nat.strong_induction_on generalizing peer with
  | _ count ih =>
      rcases LegacyReplayWindow.accept_above hlt hmax with
        ⟨replay, hacc, hwb, hrec⟩ | ⟨error, far, hacc, hfar, hbound⟩
      · -- accepted: the guard sees the number
        refine ⟨1, ?_⟩
        have hguard : ({ peer with replay } : LegacyPeerState).guardWrap =
            peer.resetIncomingKeyState := by
          rw [guardWrap, if_pos (hrec.symm ▸ hwrap), resetIncomingKeyState, resetIncomingKeyState,
            LegacyReplayWindow.reset_eq_new, LegacyReplayWindow.reset_eq_new, hwb]
        have hsome : peer.acceptedSeqno p datagram = some seqno := by
          rw [acceptedSeqno, hopen]
          simp only [hacc]
        have hnext : (peer.decode p datagram).2 = peer.resetIncomingKeyState := by
          rw [decode, hopen]
          simp only [hacc, hguard]
        rw [List.replicate_one, LegacyPeerState.decodeAll, hsome]
        exact ⟨rfl, hnext⟩
      · -- counted: one repetition less is left
        have hnext : peer.decode p datagram =
            (.error error, { peer with replay := { peer.replay with farFuture := far } }) := by
          rw [decode, hopen]
          simp only [hacc]
        have hnone : peer.acceptedSeqno p datagram = none := by
          rw [acceptedSeqno, hopen]
          simp only [hacc]
        have hless : peer.replay.windowBytes / 4 - far.toNat < count := by omega
        obtain ⟨n, hlog, hlast⟩ := @ih _ hless
          { peer with replay := { peer.replay with farFuture := far } } hpos hle hopen hlt rfl
        refine ⟨n + 1, ?_⟩
        rw [List.replicate_succ, LegacyPeerState.decodeAll, hnext, hnone]
        exact ⟨hlog, hlast⟩

lemma acceptedSeqnos_append (log log' : List LegacyDecoded) :
    acceptedSeqnos (log ++ log') = acceptedSeqnos log ++ acceptedSeqnos log' :=
  List.filterMap_append

lemma decodeAll_append (p : LegacyPrimitives) (datagrams datagrams' : List (List UInt8))
    (peer : LegacyPeerState) :
    (peer.decodeAll p (datagrams ++ datagrams')).1 = (peer.decodeAll p datagrams).1 ++
      ((peer.decodeAll p datagrams).2.decodeAll p datagrams').1 := by
  induction datagrams generalizing peer with
  | nil => rfl
  | cons datagram datagrams ih =>
      rw [List.cons_append, LegacyPeerState.decodeAll, LegacyPeerState.decodeAll]
      exact congrArg _ (ih _)

/-- Right after an installation of a key the window has accepted nothing. -/
lemma guarded_of_replay_new {peer : LegacyPeerState} {windowBytes : ℕ} (hpos : 0 < windowBytes)
    (h : peer.replay = .new windowBytes) : peer.Guarded [] := by
  refine ⟨?_, ?_, [0], ?_, List.nil_sublist _⟩
  · rw [h]
    exact hpos
  · rw [h]
    exact UInt32.zero_le
  · rw [h]
    exact LegacyReplayWindow.new_tracks windowBytes

end LegacyPeerState

namespace LegacyUdpCodec

/-- The peer of the source does all the work. -/
lemma decodeAll_log (p : LegacyPrimitives) (source : String) (datagrams : List (List UInt8))
    {codec : LegacyUdpCodec} {peer : LegacyPeerState}
    (hpeer : codec.peers.get? source = some peer) :
    (codec.decodeAll p source datagrams).1 = (peer.decodeAll p datagrams).1 := by
  induction datagrams generalizing codec peer with
  | nil => rfl
  | cons datagram datagrams ih =>
      have hdecode : codec.decode p source datagram = ((peer.decode p datagram).1,
          { codec with peers := codec.peers.insert source (peer.decode p datagram).2 }) := by
        rw [decode, hpeer]
      have hnext := @ih { codec with peers := codec.peers.insert source (peer.decode p datagram).2 }
        (peer.decode p datagram).2 (by rw [OrdMap.get?_insert, if_pos rfl])
      rw [decodeAll, LegacyPeerState.decodeAll, hdecode, acceptedSeqno, hpeer]
      exact congrArg _ hnext

/-- An installation of an incoming key resets the window of the peer. -/
lemma replay_of_applyIncoming {p : LegacyPrimitives} {codec codec' : LegacyUdpCodec}
    {source : String} {message : AnswerKeyMessage}
    (h : codec.applyIncomingLegacyAnswerKey p source message = (.ok (), codec'))
    {peer : LegacyPeerState} (hpeer : codec'.peers.get? source = some peer) :
    peer.replay = .new peer.replay.windowBytes := by
  rw [applyIncomingLegacyAnswerKey, LegacyPeerState.applyIncomingLegacyAnswerKey] at h
  rcases hdir : LegacyPacketDirection.fromLegacyAnswerKey p message with error | incoming
  · rw [hdir] at h
    cases h
  · rw [hdir] at h
    obtain ⟨-, rfl⟩ := Prod.mk.inj h
    rw [OrdMap.get?_insert, if_pos rfl, Option.some_inj] at hpeer
    rw [← hpeer]
    rfl

/-- **Legacy datagrams are not replayed exactly below the wrap guard**: after an installation of an
incoming key, no sequence of datagrams drawn from a set gets a number accepted twice or a datagram
decoded twice, if and only if no datagram of the set that passes digest and cipher carries a number
above the guard. -/
theorem decode_no_replay_iff (p : LegacyPrimitives) {codec codec' : LegacyUdpCodec}
    {source : String} {message : AnswerKeyMessage}
    (hinstall : codec.applyIncomingLegacyAnswerKey p source message = (.ok (), codec'))
    {peer : LegacyPeerState} (hpeer : codec'.peers.get? source = some peer)
    (hwb : 0 < peer.replay.windowBytes) (arriving : Set (List UInt8))
    (hmax : ∀ datagram ∈ arriving, ∀ seqno payload,
      peer.incoming.openDatagram p datagram = .ok (seqno, payload) → seqno ≠ U32.max) :
    (∀ datagrams : List (List UInt8), (∀ datagram ∈ datagrams, datagram ∈ arriving) →
      (acceptedSeqnos (codec'.decodeAll p source datagrams).1).Nodup ∧
        (decodedDatagrams (codec'.decodeAll p source datagrams).1).Nodup) ↔
      ∀ datagram ∈ arriving, ∀ seqno payload,
        peer.incoming.openDatagram p datagram = .ok (seqno, payload) → seqno ≤ maxLegacySeqno := by
  have hreplay := replay_of_applyIncoming hinstall hpeer
  have hstart : peer.Guarded [] := LegacyPeerState.guarded_of_replay_new hwb hreplay
  constructor
  · -- a datagram above the guard, repeated until it was accepted twice
    intro hall datagram hmem seqno payload hopen
    refine UInt32.not_lt.mp fun hwrap => ?_
    have hne := hmax datagram hmem _ _ hopen
    obtain ⟨n, hlog, hlast⟩ :=
      LegacyPeerState.decodeAll_wrap hwb hstart.le_max hopen hwrap hne
    have hreset : peer.resetIncomingKeyState = peer := by
      rw [LegacyPeerState.resetIncomingKeyState, LegacyReplayWindow.reset_eq_new, ← hreplay]
    have hnodup := (hall (List.replicate n datagram ++ List.replicate n datagram) ?_).1
    · rw [decodeAll_log p source _ hpeer, LegacyPeerState.decodeAll_append,
        LegacyPeerState.acceptedSeqnos_append, hlast, hreset, hlog] at hnodup
      simp at hnodup
    · intro datagram' hmem'
      rcases List.mem_append.mp hmem' with h | h
      · rwa [List.eq_of_mem_replicate h]
      · rwa [List.eq_of_mem_replicate h]
  · intro hbelow datagrams harriving
    have hend := hstart.decodeAll fun datagram hmem => hbelow datagram (harriving datagram hmem)
    have hnodup := hend.nodup
    rw [List.append_nil, List.nodup_reverse] at hnodup
    rw [decodeAll_log p source _ hpeer]
    refine ⟨hnodup, @nodup_decodedDatagrams _
      (fun datagram => (peer.incoming.openDatagram p datagram).toOption.map Prod.fst) ?_ hnodup⟩
    exact fun _ hentry hok => LegacyPeerState.seqno_of_decoded hentry hok

/-- The first packet under a key of one byte, and one above the guard, with their keyed hashes. -/
def hashedPackets : List (List UInt8 × List UInt8) :=
  [([0, 0, 0, 1, 1, 2, 3, 4], [123, 8, 215, 166]),
    ([64, 0, 0, 1, 1, 2, 3, 4], [218, 70, 177, 61])]

/-- The keyed hash of these packets, and nothing else built in. -/
def hashedPrimitives : LegacyPrimitives where
  lzoAvailable := false
  opensslCipherKeyLen _ := 0
  opensslCipherIvLen _ := 0
  opensslDigestLen _ := none
  hmac digest _ packet :=
    match hashedPackets.lookup packet with
    | some mac => .ok mac
    | none => .error (.digestFailed digest.nid "not computed")
  encryptCbc _ _ _ packet := packet
  decryptCbc cipher _ _ _ := .error (.cipherFailed cipher.nid "not computed")
  opensslEncrypt nid _ _ := .error (.unsupportedCipher nid)
  opensslDecrypt nid _ _ := .error (.unsupportedCipher nid)
  compress compression _ := .error (.compressionFailed compression "not computed")
  decompress compression _ := .error (.decompressionFailed compression "not computed")

/-- No cipher, a digest of four bytes, and a key of one byte. -/
def digestAnswerKey : AnswerKeyMessage where
  fromNode := "alpha"
  toNode := "beta"
  key := "2A"
  cipher := 0
  digest := 672
  macLength := 4
  compression := 0
  address := none

/-- A window of four bytes under this key. -/
def digestCodec : LegacyUdpCodec :=
  (applyIncomingLegacyAnswerKey hashedPrimitives { replayWindowBytes := 4 } "alpha"
    digestAnswerKey).2

/-- After a datagram above the guard has arrived twice, the first datagram is decoded again. -/
theorem decode_replay :
    let log := (digestCodec.decodeAll hashedPrimitives "alpha"
      [[0, 0, 0, 1, 1, 2, 3, 4, 123, 8, 215, 166], [64, 0, 0, 1, 1, 2, 3, 4, 218, 70, 177, 61],
        [64, 0, 0, 1, 1, 2, 3, 4, 218, 70, 177, 61], [0, 0, 0, 1, 1, 2, 3, 4, 123, 8, 215, 166]]).1
    ¬ (acceptedSeqnos log).Nodup ∧ ¬ (decodedDatagrams log).Nodup := by
  decide +kernel

/-- The peer that has sent the key. -/
def digestPeer : LegacyPeerState := (digestCodec.peers.get? "alpha").getD (.new 4)

/-- Replays of the first packet alone are refused. -/
theorem decode_no_replay_iff_first :
    (∀ datagrams : List (List UInt8),
      (∀ datagram ∈ datagrams, datagram ∈
        ({[0, 0, 0, 1, 1, 2, 3, 4, 123, 8, 215, 166]} : Set (List UInt8))) →
      (acceptedSeqnos (digestCodec.decodeAll hashedPrimitives "alpha" datagrams).1).Nodup ∧
        (decodedDatagrams (digestCodec.decodeAll hashedPrimitives "alpha" datagrams).1).Nodup) ↔
      ∀ datagram ∈ ({[0, 0, 0, 1, 1, 2, 3, 4, 123, 8, 215, 166]} : Set (List UInt8)),
        ∀ seqno payload, digestPeer.incoming.openDatagram hashedPrimitives datagram =
          .ok (seqno, payload) → seqno ≤ maxLegacySeqno := by
  refine @decode_no_replay_iff hashedPrimitives { replayWindowBytes := 4 } digestCodec "alpha"
    digestAnswerKey (Prod.ext (by decide +kernel) rfl) digestPeer (by decide +kernel)
    (by decide +kernel) _ ?_
  intro datagram hmem seqno payload hopen
  have hfirst : digestPeer.incoming.openDatagram hashedPrimitives
      [0, 0, 0, 1, 1, 2, 3, 4, 123, 8, 215, 166] = .ok (1, [1, 2, 3, 4]) := by
    decide +kernel
  rw [Set.mem_singleton_iff.mp hmem, hfirst] at hopen
  obtain ⟨rfl, -⟩ := Prod.mk.inj (Except.ok.inj hopen)
  decide

end LegacyUdpCodec

end RustyTinc

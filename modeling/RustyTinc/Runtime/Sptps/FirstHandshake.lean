import RustyTinc.Runtime.Sptps.Duplex

/-!
The first handshake of two honest sessions, record by record: each side sends a KEX record and
then a signature, the initiator first.

* `Setting.FirstAt`: where a session of the first handshake stands;
* `FirstAt.kexReceived`, `FirstAt.sigReceived`: what each record brings about;
* `FirstAt.keys_match`: the keys of two sessions that have completed it.
-/

namespace RustyTinc

open SptpsHandshakeSession

namespace Setting

variable {c : Setting} {hist : History} {b : Bool}

/-- One step of the handshake is one record. -/
lemma Carries.eq_single {pos : ℕ} {seqno seqno' : UInt32} {records : List (List UInt8)}
    (h : c.Carries hist b (pos, seqno) records [] (nextPos pos, seqno')) :
    records = [c.recordAt hist b pos seqno sptpsHandshake (c.payload hist b pos)] ∧
      seqno' = seqno + 1 := by
  have hpos := pos_lt_nextPos pos
  generalize hplace : (nextPos pos, seqno') = place at h
  cases h with
  | nil =>
      obtain ⟨heq, -⟩ := Prod.mk.inj hplace
      omega
  | @handshake _ _ rest _ _ hrest =>
      subst hplace
      have hnext := pos_lt_nextPos (nextPos pos)
      generalize hstop : (nextPos pos, seqno') = stop at hrest
      cases hrest with
      | nil =>
          obtain ⟨-, rfl⟩ := Prod.mk.inj hstop
          exact ⟨rfl, rfl⟩
      | handshake hrest =>
          subst hstop
          have hle : nextPos (nextPos pos) ≤ nextPos pos := hrest.pos_le
          omega

/-- Without a step there is no record. -/
lemma Carries.eq_nil {pos : ℕ} {seqno seqno' : UInt32} {records : List (List UInt8)}
    (h : c.Carries hist b (pos, seqno) records [] (pos, seqno')) :
    records = [] ∧ seqno' = seqno := by
  generalize hplace : (pos, seqno') = place at h
  cases h with
  | nil =>
      obtain ⟨-, rfl⟩ := Prod.mk.inj hplace
      exact ⟨rfl, rfl⟩
  | handshake hrest =>
      subst hplace
      have hpos := pos_lt_nextPos pos
      have hle : nextPos pos ≤ pos := hrest.pos_le
      omega

/-! ### The two records of a side -/

variable (c hist b)

/-- The KEX record of a side. -/
def kexRecord : List UInt8 := c.recordAt hist b 0 0 sptpsHandshake (c.payload hist b 0)

/-- The signature record of a side. -/
def sigRecord : List UInt8 := c.recordAt hist b 1 1 sptpsHandshake (c.payload hist b 1)

/-- What a session of the first handshake has done so far. -/
inductive Stage where
  | kexSent
  | kexReceived
  | complete

namespace Stage

/-- What a session waits for at a stage. -/
def state : Stage → SptpsHandshakeState
  | kexSent => .kex
  | kexReceived => .sig
  | complete => .secondaryKex

/-- The handshakes that are complete. -/
def handshakes : Stage → ℕ
  | kexSent | kexReceived => 0
  | complete => 1

/-- The number of the record that a session waits for at a stage. -/
def nextIn : Stage → UInt32
  | kexSent => 0
  | kexReceived => 1
  | complete => 2

/-- The initiator signs when it has received the KEX record of its peer. -/
def nextOut (b : Bool) : Stage → UInt32
  | kexSent => 1
  | kexReceived => if b then 2 else 1
  | complete => 2

end Stage

/-- A session of side `b` that has come to a stage of the first handshake, with the records that
it has queued. -/
structure FirstAt (stage : Stage) (outbound : List (List UInt8)) (s : SptpsHandshakeSession) :
    Prop where
  side : c.SideInv hist b stage.handshakes s
  state_eq : s.state = stage.state
  nextIn_eq : s.codec.nextIn = stage.nextIn
  nextOut_eq : s.codec.nextOut = stage.nextOut b
  outbound_eq : s.outbound = outbound

variable {c hist b}

/-- The KEX record of a side does not depend on what its peer chooses. -/
lemma kexRecord_choose (x : Vector UInt8 32 × Vector UInt8 32) :
    c.kexRecord (hist.choose (!b) 0 x) b = c.kexRecord hist b := by
  have hne : b ≠ !b := (not_ne_self b).symm
  have hpayload : c.payload (hist.choose (!b) 0 x) b 0 = c.payload hist b 0 :=
    payload_choose (by rw [Before, if_neg hne])
  have hkey : c.sealKey (hist.choose (!b) 0 x) b 0 = c.sealKey hist b 0 := sealKey_choose (by omega)
  rw [kexRecord, kexRecord, recordAt, recordAt, hpayload, hkey]

namespace FirstAt

variable {s : SptpsHandshakeSession} {stage : Stage} {outbound : List (List UInt8)}

lemma drained (h : c.FirstAt hist b stage outbound s) :
    c.FirstAt hist b stage [] s.drainOutbound.2 :=
  ⟨h.side.drained, h.state_eq, h.nextIn_eq, h.nextOut_eq, rfl⟩

/-- A session that has not heard of its peer does not depend on what the peer chooses. -/
lemma choose (h : c.FirstAt hist b .kexSent outbound s) (x : Vector UInt8 32 × Vector UInt8 32) :
    c.FirstAt (hist.choose (!b) 0 x) b .kexSent outbound s := by
  have hle : recvPos s.state 0 ≤ 3 * 0 := by
    rw [h.state_eq]
    exact le_rfl
  exact ⟨h.side.choose hle, h.state_eq, h.nextIn_eq, h.nextOut_eq, h.outbound_eq⟩

/-- A session that starts has sent its KEX record. -/
lemma start {window : ℕ} {x : Vector UInt8 32 × Vector UInt8 32} (htcp : c.isTcp = false)
    (hist : History) (hx : hist b 0 = x) :
    ∃ s, startWithEphemeral c.prims b (c.key b) (c.key (!b)).publicKey c.label window
        (c.prims.ephemeralFromSeed x.1) x.2 = .ok s ∧
      c.FirstAt hist b .kexSent [c.kexRecord hist b] s := by
  let s₀ : SptpsHandshakeSession := ⟨b, c.label, c.key b, (c.key (!b)).publicKey,
    .datagram (.new window), .kex, none, none, none, none, [], []⟩
  have hstart : startWithEphemeral c.prims b (c.key b) (c.key (!b)).publicKey c.label window
      (c.prims.ephemeralFromSeed x.1) x.2 =
        .ok (kexSent c.prims s₀ (c.prims.ephemeralFromSeed x.1) x.2) := by
    rw [startWithEphemeral, SptpsHandshakeSession.start, exec_sendKexWith]
    rfl
  have heph : c.prims.ephemeralFromSeed x.1 = c.ephemeral hist b 0 := by rw [ephemeral, hx]
  have hkex : SptpsKex.new x.2 (c.ephemeral hist b 0).publicKey = c.kex hist b 0 := by
    rw [kex, hx]
  refine ⟨_, hstart, ⟨⟨rfl, rfl, rfl, rfl, htcp.symm, ?_, rfl, rfl, fun _ => ?_, ?_, rfl, ?_⟩,
    rfl, rfl, rfl, ?_⟩⟩
  · simp [kexSent, s₀]
  · rw [kexSent, heph, hkex]
    exact ⟨rfl, rfl⟩
  · simp [kexSent, s₀]
  · simp [kexSent, s₀]
  · rw [kexSent, queued, heph, hkex, kexRecord, recordAt, htcp]
    rfl

/-- **The KEX record of the peer** is answered by a signature of the initiator. -/
lemma kexReceived (h : c.FirstAt hist b .kexSent outbound s) (fresh : Fresh) :
    ∃ t, (receiveDatagram c.prims fresh (c.kexRecord hist (!b))).exec s = (.ok [], t) ∧
      c.FirstAt hist b .kexReceived (outbound ++ if b then [c.sigRecord hist b] else []) t := by
  have hstate : s.state = .kex := h.state_eq
  have hnextIn : s.codec.nextIn = 0 := h.nextIn_eq
  have hnextOut : s.codec.nextOut = 1 := h.nextOut_eq
  have hside : c.SideInv hist b 0 s := h.side
  have hexec := exec_receiveDatagram_recordAt hside fresh sptpsHandshake (c.payload hist (!b) 0)
    (UInt8.le_refl _) (fun _ => length_payload 0) fun _ => rfl
  have hplace : recvPos s.state 0 = 0 := by rw [hstate]; rfl
  rw [if_pos rfl, hplace, hnextIn] at hexec
  let s₁ : SptpsHandshakeSession := { s with codec := s.codec.received }
  have hside₁ : c.SideInv hist b 0 s₁ := hside.received
  have hdata : SptpsKex.tryFromSlice (c.payload hist (!b) 0) = .ok (c.kex hist (!b) 0) := by
    have hpayload : c.payload hist (!b) 0 = (c.kex hist (!b) 0).toBytes := payload_kex 0
    rw [hpayload]
    exact SptpsKex.tryFromSlice_toBytes _ _
  have hhis : s₁.hisKex = none := by
    rw [hside₁.hisKex_eq]
    exact if_neg (by rw [show s₁.state = .kex from hstate]; simp)
  have hown := hside₁.own (Or.inl hstate)
  have hanswer := exec_answerKex (p := c.prims) hhis hown.2 hdata
  obtain ⟨records, hmoved⟩ := hside₁.kexAnswered hstate
  have hplaces := hmoved.carries
  have hsend : sendPos b s₁.state 0 = 1 := by rw [show s₁.state = .kex from hstate]; rfl
  have hnextOut₁ : s₁.codec.nextOut = 1 := by
    rw [show s₁.codec.nextOut = s.codec.nextOut from SptpsHandshakeCodec.nextOut_received _,
      hnextOut]
  have hstate' : (kexAnswered c.prims s₁ (c.kex hist b 0) (c.kex hist (!b) 0)).state = .sig := rfl
  have hrecords : records = (if b then [c.sigRecord hist b] else []) ∧
      (kexAnswered c.prims s₁ (c.kex hist b 0) (c.kex hist (!b) 0)).codec.nextOut =
        Stage.kexReceived.nextOut b := by
    rw [hsend, hnextOut₁, hstate'] at hplaces
    cases b with
    | false => exact Carries.eq_nil hplaces
    | true => exact Carries.eq_single hplaces
  have houtbound := hmoved.outbound_eq
  rw [show s₁.outbound = outbound from h.outbound_eq, hrecords.1] at houtbound
  refine ⟨_, ?_, ⟨hmoved.inv, hstate', ?_, hrecords.2, houtbound⟩⟩
  · have hstate₁ : s₁.state = .kex := hstate
    rw [kexRecord, hexec]
    exact (exec_receiveHandshake_kex hstate₁).trans hanswer
  · show (kexAnswered c.prims s₁ (c.kex hist b 0) (c.kex hist (!b) 0)).codec.nextIn = 1
    rw [SideInv.nextIn_kexAnswered,
      show s₁.codec.nextIn = s.codec.nextIn + 1 from SptpsHandshakeCodec.nextIn_received _,
      hnextIn]
    rfl

/-- A signature of the peer, where it is expected, is accepted. -/
lemma acceptsSig (hc : c.Correct) (h : c.SideInv hist b 0 s) (hstate : s.state = .sig) :
    AcceptsSig c.prims s (c.payload hist (!b) 1) (c.kex hist b 0) (c.kex hist (!b) 0)
      (c.ephemeral hist b 0) (c.sharedSecret hist 0) := by
  have hown := h.own (Or.inr hstate)
  have hpayload : c.payload hist (!b) 1 = (c.prims.sign (c.key (!b)) (sptpsSignatureMessage (!b)
      (c.kex hist (!b) 0) (c.kex hist (!(!b)) 0) c.label)).toList := payload_sig 0
  rw [hpayload, Bool.not_not]
  refine ⟨by simp [ed25519SignatureLen], ?_, hown.2, ?_, hown.1, hc.computeShared b 0⟩
  · rw [h.hisKex_eq, if_pos hstate]
  · rw [h.peerKey_eq, h.initiator_eq, h.label_eq]
    exact hc.verify_sign (!b) _

/-- **The signature of the peer** completes the handshake, and the responder signs. -/
lemma sigReceived (hc : c.Correct) (h : c.FirstAt hist b .kexReceived outbound s)
    (fresh : Fresh) :
    ∃ t, (receiveDatagram c.prims fresh (c.sigRecord hist (!b))).exec s =
        (.ok [.handshakeComplete], t) ∧
      c.FirstAt hist b .complete (outbound ++ if b then [] else [c.sigRecord hist b]) t := by
  have hstate : s.state = .sig := h.state_eq
  have hnextIn : s.codec.nextIn = 1 := h.nextIn_eq
  have hside : c.SideInv hist b 0 s := h.side
  have hexec := exec_receiveDatagram_recordAt hside fresh sptpsHandshake (c.payload hist (!b) 1)
    (UInt8.le_refl _) (fun _ => length_payload 1) fun _ => rfl
  have hplace : recvPos s.state 0 = 1 := by rw [hstate]; rfl
  rw [if_pos rfl, hplace, hnextIn] at hexec
  let s₁ : SptpsHandshakeSession := { s with codec := s.codec.received }
  have hside₁ : c.SideInv hist b 0 s₁ := hside.received
  have hsig := exec_receiveSig_ok (acceptsSig hc hside₁ hstate)
  rw [hside₁.isSome_outKey hstate] at hsig
  obtain ⟨records, hmoved⟩ := hside₁.sigAccepted hstate
  have hplaces := hmoved.carries
  have hnextOut₁ : s₁.codec.nextOut = Stage.kexReceived.nextOut b := by
    rw [show s₁.codec.nextOut = s.codec.nextOut from SptpsHandshakeCodec.nextOut_received _,
      h.nextOut_eq]
  let t : SptpsHandshakeSession :=
    { sigAccepted c.prims s₁ (c.kex hist b 0) (c.kex hist (!b) 0) (c.sharedSecret hist 0) with
      state := .secondaryKex }
  have hsend : sendPos b s₁.state 0 = if b then 3 else 1 := by
    rw [show s₁.state = .sig from hstate]
    rfl
  have hrecords : records = (if b then [] else [c.sigRecord hist b]) ∧ t.codec.nextOut = 2 := by
    rw [hsend, hnextOut₁] at hplaces
    cases b with
    | false =>
        have hsign : c.Carries hist false (1, 1) records [] (nextPos 1, t.codec.nextOut) := hplaces
        exact Carries.eq_single hsign
    | true =>
        have hsign : c.Carries hist true (3, 2) records [] (3, t.codec.nextOut) := hplaces
        exact Carries.eq_nil hsign
  have houtbound := hmoved.outbound_eq
  rw [show s₁.outbound = outbound from h.outbound_eq, hrecords.1] at houtbound
  refine ⟨t, ?_, ⟨hmoved.inv, rfl, ?_, hrecords.2, houtbound⟩⟩
  · have hstate₁ : s₁.state = .sig := hstate
    rw [sigRecord, hexec]
    exact (exec_receiveHandshake_sig hstate₁ hsig).trans (if_neg (by simp))
  · show t.codec.nextIn = 2
    rw [show t.codec.nextIn = s₁.codec.nextIn from sigAccepted_nextIn ..,
      show s₁.codec.nextIn = s.codec.nextIn + 1 from SptpsHandshakeCodec.nextIn_received _,
      hnextIn]
    rfl

/-- **Two sessions that have completed the handshake** hold the same keys. -/
lemma keys_match (h : c.FirstAt hist b .complete outbound s) :
    s.codec.inKey = c.sealKey hist (!b) 3 ∧ s.codec.outKey = c.sealKey hist b 3 ∧
      s.isEstablished = true := by
  have hin := h.side.inKey_eq
  have hout := h.side.outKey_eq
  rw [h.state_eq] at hin hout
  have hin' : s.codec.inKey = c.sealKey hist (!b) 3 := hin
  have hout' : s.codec.outKey = c.sealKey hist b 3 := hout
  refine ⟨hin', hout', ?_⟩
  rw [isEstablished, hin', hout', sealKey_eq_some (by omega), sealKey_eq_some (by omega)]
  rfl

end FirstAt

end Setting

end RustyTinc

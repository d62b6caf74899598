import RustyTinc.Runtime.Sptps.Handshake

/-!
The handshakes of two honest SPTPS sessions, one after the other. What a side sends is a stream
of handshake records, three for each handshake but two for the first one, with application
records in between. The place in this stream decides the contents and the key of a record.

* `Setting.Carries`: the records between two places of the stream;
* `Setting.SideInv`: where a session stands, from the choices that both sides have made;
* `SideInv.receiveHandshake`, `SideInv.kexSent`, `SideInv.sent`, `SideInv.received`:
  how the operations move a session along its stream and along that of its peer.
-/

namespace RustyTinc

open SptpsHandshakeSession

/-- What two sessions agree on, and the keys that they hold: the initiator is side `true`. -/
structure Setting where
  prims : Primitives
  label : List UInt8
  isTcp : Bool
  key : Bool → TincEd25519PrivateKey

/-- The seed and the nonce that each side has chosen for each handshake. -/
abbrev History := Bool → ℕ → Vector UInt8 32 × Vector UInt8 32

/-- The choices with one more made. -/
def History.choose (hist : History) (b : Bool) (n : ℕ) (x : Vector UInt8 32 × Vector UInt8 32) :
    History :=
  fun b' n' => if b' = b ∧ n' = n then x else hist b' n'

namespace Setting

/-- The primitives do what they promise: the signatures of both sides verify, and both sides of
a key agreement arrive at the same secret. -/
structure Correct (c : Setting) : Prop where
  verify_sign : ∀ b message,
    c.prims.verify (c.key b).publicKey message (c.prims.sign (c.key b) message).toList = .ok ()
  agree : ∀ seed seed', ∃ sharedSecret,
    c.prims.computeShared (c.prims.ephemeralFromSeed seed)
        (c.prims.ephemeralFromSeed seed').publicKey = .ok sharedSecret ∧
      c.prims.computeShared (c.prims.ephemeralFromSeed seed')
        (c.prims.ephemeralFromSeed seed).publicKey = .ok sharedSecret

variable (c : Setting) (hist : History)

/-- The key that a side has drawn for a handshake. -/
def ephemeral (b : Bool) (n : ℕ) : SptpsEphemeralKey := c.prims.ephemeralFromSeed (hist b n).1

/-- What a side sends in the KEX record of a handshake. -/
def kex (b : Bool) (n : ℕ) : SptpsKex := .new (hist b n).2 (c.ephemeral hist b n).publicKey

/-- The secret that both sides share after handshake `n`. -/
def sharedSecret (n : ℕ) : Vector UInt8 32 :=
  match c.prims.computeShared (c.ephemeral hist true n) (c.kex hist false n).publicKey with
  | .ok sharedSecret => sharedSecret
  | .error _ => Vector.replicate 32 0

/-- The key material of handshake `n`. -/
def material (n : ℕ) : SptpsKeyMaterial :=
  keyMaterial c.prims true c.label (c.sharedSecret hist n) (c.kex hist true n) (c.kex hist false n)

/-- The key under which a side sends at a place of its stream. -/
def sealKey (b : Bool) (pos : ℕ) : Option SptpsKey :=
  if pos < 3 then none else some ((c.material hist (pos / 3 - 1)).keysForRole b).2

/-- The handshake record at a place of the stream of a side: KEX, SIG or ACK. -/
def payload (b : Bool) (pos : ℕ) : List UInt8 :=
  if pos % 3 = 0 then (c.kex hist b (pos / 3)).toBytes
  else if pos % 3 = 1 then
    (c.prims.sign (c.key b) (sptpsSignatureMessage b (c.kex hist b (pos / 3))
      (c.kex hist (!b) (pos / 3)) c.label)).toList
  else []

/-- The place after a handshake record; the first handshake has no ACK. -/
def nextPos (pos : ℕ) : ℕ := if pos = 1 then 3 else pos + 1

/-- The bytes of a record at a place of the stream of a side. -/
def recordAt (b : Bool) (pos : ℕ) (seqno : UInt32) (recordType : UInt8) (payload : List UInt8) :
    List UInt8 :=
  SptpsHandshakeCodec.sealRecord c.prims c.isTcp (c.sealKey hist b pos) seqno recordType payload

/-- The records of a side between two places of its stream and two sequence numbers, and the
application records among them. -/
inductive Carries (b : Bool) :
    ℕ × UInt32 → List (List UInt8) → List (UInt8 × List UInt8) → ℕ × UInt32 → Prop
  | nil (place : ℕ × UInt32) : Carries b place [] [] place
  | app {pos : ℕ} {seqno : UInt32} {recordType : UInt8} {body : List UInt8}
      {records : List (List UInt8)} {apps : List (UInt8 × List UInt8)} {stop : ℕ × UInt32}
      (hpos : 3 ≤ pos) (htype : recordType < sptpsHandshake)
      (hlen : c.isTcp = true → body.length ≤ 65535)
      (h : Carries b (pos, seqno + 1) records apps stop) :
      Carries b (pos, seqno) (c.recordAt hist b pos seqno recordType body :: records)
        ((recordType, body) :: apps) stop
  | handshake {pos : ℕ} {seqno : UInt32} {records : List (List UInt8)}
      {apps : List (UInt8 × List UInt8)} {stop : ℕ × UInt32}
      (h : Carries b (nextPos pos, seqno + 1) records apps stop) :
      Carries b (pos, seqno)
        (c.recordAt hist b pos seqno sptpsHandshake (c.payload hist b pos) :: records) apps stop

variable {c hist}

lemma pos_lt_nextPos (pos : ℕ) : pos < nextPos pos := by
  rw [nextPos]
  split_ifs <;> omega

namespace Carries

variable {b : Bool} {place place' place'' : ℕ × UInt32} {records records' : List (List UInt8)}
  {apps apps' : List (UInt8 × List UInt8)}

/-- Places only move on. -/
lemma pos_le (h : c.Carries hist b place records apps place') : place.1 ≤ place'.1 := by
  induction h with
  | nil => exact le_rfl
  | app _ _ _ _ ih => exact ih
  | @handshake pos _ _ _ _ _ ih => exact (pos_lt_nextPos pos).le.trans ih

/-- What follows is appended. -/
lemma append (h : c.Carries hist b place records apps place')
    (h' : c.Carries hist b place' records' apps' place'') :
    c.Carries hist b place (records ++ records') (apps ++ apps') place'' := by
  induction h with
  | nil => exact h'
  | app hpos htype hlen _ ih => exact .app hpos htype hlen (ih h')
  | handshake _ ih => exact .handshake (ih h')

lemma eq_of_nil (h : c.Carries hist b place [] apps place') : apps = [] ∧ place = place' := by
  cases h
  exact ⟨rfl, rfl⟩

end Carries

/-! ### Later choices -/

section Choose

variable {b : Bool} {n : ℕ} {x : Vector UInt8 32 × Vector UInt8 32}

lemma choose_self : hist.choose b n x b n = x := if_pos ⟨rfl, rfl⟩

lemma choose_of_ne {b' : Bool} {n' : ℕ} (h : b' ≠ b ∨ n' ≠ n) :
    hist.choose b n x b' n' = hist b' n' :=
  if_neg fun h' => h.elim (fun hb => hb h'.1) fun hn => hn h'.2

lemma kex_choose {b' : Bool} {n' : ℕ} (h : b' ≠ b ∨ n' ≠ n) :
    c.kex (hist.choose b n x) b' n' = c.kex hist b' n' := by
  simp only [kex, ephemeral, choose_of_ne h]

lemma ephemeral_choose {b' : Bool} {n' : ℕ} (h : b' ≠ b ∨ n' ≠ n) :
    c.ephemeral (hist.choose b n x) b' n' = c.ephemeral hist b' n' := by
  simp only [ephemeral, choose_of_ne h]

lemma material_choose {n' : ℕ} (h : n' ≠ n) :
    c.material (hist.choose b n x) n' = c.material hist n' := by
  simp only [material, sharedSecret, kex_choose (Or.inr h), ephemeral_choose (Or.inr h)]

/-- Keys do not depend on choices for handshakes that are not complete. -/
lemma sealKey_choose {b' : Bool} {pos : ℕ} (h : pos < 3 * n + 3) :
    c.sealKey (hist.choose b n x) b' pos = c.sealKey hist b' pos := by
  rw [sealKey, sealKey]
  split_ifs with hpos
  · rfl
  · rw [material_choose (by omega)]

/-- A side has not sent anything that depends on the choice that `b` makes for handshake `n`. -/
def Before (b : Bool) (n : ℕ) (b' : Bool) (pos : ℕ) : Prop :=
  pos ≤ if b' = b then 3 * n else 3 * n + 1

/-- A choice does not change what has been sent before it. -/
lemma payload_choose {b' : Bool} {pos : ℕ} (h : Before b n b' (pos + 1)) :
    c.payload (hist.choose b n x) b' pos = c.payload hist b' pos := by
  rw [Before] at h
  rw [payload, payload]
  have hown : b' ≠ b ∨ pos / 3 ≠ n := by
    by_cases hb : b' = b
    · rw [if_pos hb] at h
      exact Or.inr (by omega)
    · exact Or.inl hb
  have hother : pos % 3 = 1 → (!b') ≠ b ∨ pos / 3 ≠ n := by
    intro hmod
    by_cases hb : b' = b
    · rw [if_pos hb] at h
      exact Or.inr (by omega)
    · rw [if_neg hb] at h
      exact Or.inr (by omega)
  split_ifs with hmod hmod'
  · rw [kex_choose hown]
  · rw [kex_choose hown, kex_choose (hother hmod')]
  · rfl

/-- Records that were sent before a choice do not depend on it. -/
lemma Carries.choose {b' : Bool} {place place' : ℕ × UInt32} {records : List (List UInt8)}
    {apps : List (UInt8 × List UInt8)} (h : c.Carries hist b' place records apps place')
    (hbefore : Before b n b' place'.1) :
    c.Carries (hist.choose b n x) b' place records apps place' := by
  have hle : place'.1 ≤ 3 * n + 1 := by
    rw [Before] at hbefore
    split_ifs at hbefore <;> omega
  induction h with
  | nil place => exact .nil place
  | @app pos seqno recordType body records apps stop hpos htype hlen h ih =>
      have hstop : pos ≤ stop.1 := h.pos_le
      have hrecord : c.recordAt hist b' pos seqno recordType body =
          c.recordAt (hist.choose b n x) b' pos seqno recordType body := by
        rw [recordAt, recordAt, sealKey_choose (by omega)]
      rw [hrecord]
      exact .app hpos htype hlen (ih hbefore hle)
  | @handshake pos seqno records apps stop h ih =>
      have hstop : nextPos pos ≤ stop.1 := h.pos_le
      have hnext := pos_lt_nextPos pos
      have hpayload : c.payload (hist.choose b n x) b' pos = c.payload hist b' pos := by
        refine payload_choose ?_
        rw [Before] at hbefore ⊢
        omega
      have hrecord : c.recordAt hist b' pos seqno sptpsHandshake (c.payload hist b' pos) =
          c.recordAt (hist.choose b n x) b' pos seqno sptpsHandshake
            (c.payload (hist.choose b n x) b' pos) := by
        rw [recordAt, recordAt, sealKey_choose (by omega), hpayload]
      rw [hrecord]
      exact .handshake (ih hbefore hle)

end Choose

/-! ### Where a session stands -/

/-- How far a session is in the stream of its peer. -/
def recvPos (state : SptpsHandshakeState) (n : ℕ) : ℕ :=
  match state with
  | .secondaryKex | .kex => 3 * n
  | .sig => 3 * n + 1
  | .ack => 3 * n + 2

/-- How far a session is in its own stream; after its first signature an initiator only goes on
with the first key. -/
def sendPos (b : Bool) (state : SptpsHandshakeState) (n : ℕ) : ℕ :=
  match state with
  | .secondaryKex => 3 * n
  | .kex => 3 * n + 1
  | .sig => if b then nextPos (3 * n + 1) else 3 * n + 1
  | .ack => 3 * n + 3

/-- A session of side `b` that has completed `n` handshakes. -/
structure SideInv (c : Setting) (hist : History) (b : Bool) (n : ℕ)
    (s : SptpsHandshakeSession) : Prop where
  initiator_eq : s.initiator = b
  label_eq : s.label = c.label
  myKey_eq : s.myKey = c.key b
  peerKey_eq : s.peerKey = (c.key (!b)).publicKey
  isTcp_eq : s.codec.isTcp = c.isTcp
  pos : s.state = .secondaryKex ∨ s.state = .ack → 1 ≤ n
  inKey_eq : s.codec.inKey = c.sealKey hist (!b) (recvPos s.state n)
  outKey_eq : s.codec.outKey = c.sealKey hist b (if s.state = .ack then 3 * n + 3 else 3 * n)
  own : s.state = .kex ∨ s.state = .sig →
    s.ecdh = some (c.ephemeral hist b n) ∧ s.myKex = some (c.kex hist b n)
  idle : s.state = .secondaryKex ∨ s.state = .ack → s.myKex = none
  hisKex_eq : s.hisKex = if s.state = .sig then some (c.kex hist (!b) n) else none
  pending : s.state = .ack → s.pendingKeyMaterial = some (c.material hist n)

section Keys

variable {b : Bool} {n : ℕ}

lemma sealKey_eq_some {pos : ℕ} (h : 3 ≤ pos) :
    c.sealKey hist b pos = some ((c.material hist (pos / 3 - 1)).keysForRole b).2 :=
  if_neg (by omega)

lemma sealKey_succ (k : ℕ) (hk : k < 3) :
    c.sealKey hist b (3 * n + k) = c.sealKey hist b (3 * n) := by
  have hdiv : (3 * n + k) / 3 = 3 * n / 3 := by omega
  rw [sealKey, sealKey, hdiv]
  exact if_congr (by omega) rfl rfl

/-- Both sides of a handshake agree on the secret. -/
lemma Correct.computeShared (hc : c.Correct) (b : Bool) (n : ℕ) :
    c.prims.computeShared (c.ephemeral hist b n) (c.kex hist (!b) n).publicKey =
      .ok (c.sharedSecret hist n) := by
  obtain ⟨sharedSecret, hinit, hresp⟩ := hc.agree (hist true n).1 (hist false n).1
  have hshared : c.sharedSecret hist n = sharedSecret := by
    rw [Setting.sharedSecret]
    exact (by rw [show c.prims.computeShared (c.ephemeral hist true n)
      (c.kex hist false n).publicKey = .ok sharedSecret from hinit])
  rw [hshared]
  cases b
  · exact hresp
  · exact hinit

/-- Both sides of a handshake derive the same key material. -/
lemma keyMaterial_eq (c : Setting) (hist : History) (b : Bool) (n : ℕ) :
    keyMaterial c.prims b c.label (c.sharedSecret hist n) (c.kex hist b n) (c.kex hist (!b) n) =
      c.material hist n := by
  cases b <;> rfl

/-- The receiving key of a side is the sending key of the other one. -/
lemma keysForRole_fst (c : Setting) (hist : History) (b : Bool) (n : ℕ) :
    some ((c.material hist n).keysForRole b).1 = c.sealKey hist (!b) (3 * n + 3) := by
  have hdiv : (3 * n + 3) / 3 - 1 = n := by omega
  rw [sealKey_eq_some (by omega), hdiv, SptpsKeyMaterial.keysForRole_not]
  rfl

lemma keysForRole_snd (c : Setting) (hist : History) (b : Bool) (n : ℕ) :
    some ((c.material hist n).keysForRole b).2 = c.sealKey hist b (3 * n + 3) := by
  have hdiv : (3 * n + 3) / 3 - 1 = n := by omega
  rw [sealKey_eq_some (by omega), hdiv]

end Keys

namespace SideInv

variable {b : Bool} {n : ℕ} {s : SptpsHandshakeSession}

/-- A side whose peer has not got its next KEX record does not depend on it. -/
lemma choose (h : c.SideInv hist b n s) {N : ℕ} {x : Vector UInt8 32 × Vector UInt8 32}
    (hle : recvPos s.state n ≤ 3 * N) : c.SideInv (hist.choose (!b) N x) b n s := by
  have hself : b ≠ !b := by cases b <;> simp
  have hin : recvPos s.state n < 3 * N + 3 := by omega
  have hout : (if s.state = .ack then 3 * n + 3 else 3 * n) < 3 * N + 3 := by
    cases hstate : s.state <;> rw [hstate] at hle <;> simp only [recvPos] at hle <;> simp <;> omega
  refine ⟨h.initiator_eq, h.label_eq, h.myKey_eq, h.peerKey_eq, h.isTcp_eq, h.pos, ?_, ?_, ?_,
    h.idle, ?_, ?_⟩
  · rw [h.inKey_eq, sealKey_choose hin]
  · rw [h.outKey_eq, sealKey_choose hout]
  · rw [ephemeral_choose (Or.inl hself), kex_choose (Or.inl hself)]
    exact h.own
  · rw [h.hisKex_eq]
    split_ifs with hstate
    · rw [hstate, recvPos] at hle
      rw [kex_choose (Or.inr (by omega))]
    · rfl
  · intro hstate
    rw [hstate, recvPos] at hle
    rw [material_choose (by omega)]
    exact h.pending hstate

/-- What a side sends under a choice of its peer was sent after it. -/
lemma before (h : c.SideInv hist b n s) {N : ℕ} (hle : recvPos s.state n ≤ 3 * N) :
    Before (!b) N b (sendPos b s.state n) := by
  have hself : b ≠ !b := by cases b <;> simp
  rw [Before, if_neg hself]
  cases hstate : s.state <;> rw [hstate] at hle <;> simp only [recvPos] at hle <;>
    simp only [sendPos]
  · omega
  · omega
  · rw [nextPos]
    split_ifs <;> omega
  · omega

end SideInv

/-! ### How a session moves -/

/-- A side has moved on and queued the records in between. -/
structure Moved (c : Setting) (hist hist' : History) (b : Bool) (n n' : ℕ)
    (s s' : SptpsHandshakeSession) (records : List (List UInt8)) : Prop where
  inv : c.SideInv hist' b n' s'
  outbound_eq : s'.outbound = s.outbound ++ records
  carries : c.Carries hist' b (sendPos b s.state n, s.codec.nextOut) records []
    (sendPos b s'.state n', s'.codec.nextOut)

section Moves

variable {b : Bool} {n : ℕ} {s : SptpsHandshakeSession}

lemma length_payload (pos : ℕ) : (c.payload hist b pos).length ≤ 65535 := by
  rw [payload]
  split_ifs <;> simp [sptpsKexLen, sptpsKexNonceLen, sptpsKexPubkeyLen]

lemma payload_kex (n : ℕ) : c.payload hist b (3 * n) = (c.kex hist b n).toBytes := by
  have hdiv : 3 * n / 3 = n := by omega
  rw [payload, if_pos (by omega), hdiv]

lemma payload_sig (n : ℕ) : c.payload hist b (3 * n + 1) =
    (c.prims.sign (c.key b) (sptpsSignatureMessage b (c.kex hist b n) (c.kex hist (!b) n)
      c.label)).toList := by
  have hdiv : (3 * n + 1) / 3 = n := by omega
  rw [payload, if_neg (by omega), if_pos (by omega), hdiv]

lemma payload_ack (n : ℕ) : c.payload hist b (3 * n + 2) = [] := by
  rw [payload, if_neg (by omega), if_neg (by omega)]

/-- One handshake record, queued where the stream of a side is. -/
lemma carries_single (c : Setting) (hist : History) (b : Bool) (pos : ℕ) (seqno : UInt32) :
    c.Carries hist b (pos, seqno)
      [c.recordAt hist b pos seqno sptpsHandshake (c.payload hist b pos)] []
      (nextPos pos, seqno + 1) :=
  .handshake (.nil _)

lemma nextPos_kex (n : ℕ) : nextPos (3 * n) = 3 * n + 1 := if_neg (by omega)

lemma nextPos_ack (n : ℕ) : nextPos (3 * n + 2) = 3 * n + 3 := if_neg (by omega)

namespace SideInv

/-- Receiving a record in order changes nothing but the number of the next one. -/
lemma received (h : c.SideInv hist b n s) :
    c.SideInv hist b n { s with codec := s.codec.received } := by
  refine ⟨h.initiator_eq, h.label_eq, h.myKey_eq, h.peerKey_eq, ?_, h.pos, ?_, ?_, h.own, h.idle,
    h.hisKex_eq, h.pending⟩
  · exact (SptpsHandshakeCodec.isTcp_received _).trans h.isTcp_eq
  · exact (SptpsHandshakeCodec.inKey_received _).trans h.inKey_eq
  · exact (SptpsHandshakeCodec.outKey_received _).trans h.outKey_eq

/-- Sending a record changes nothing but the number of the next one. -/
lemma sent (h : c.SideInv hist b n s) :
    c.SideInv hist b n { s with codec := s.codec.sent } := by
  refine ⟨h.initiator_eq, h.label_eq, h.myKey_eq, h.peerKey_eq, ?_, h.pos, ?_, ?_, h.own, h.idle,
    h.hisKex_eq, h.pending⟩
  · exact (SptpsHandshakeCodec.isTcp_sent _).trans h.isTcp_eq
  · exact (SptpsHandshakeCodec.inKey_sent _).trans h.inKey_eq
  · exact (SptpsHandshakeCodec.outKey_sent _).trans h.outKey_eq

lemma drained (h : c.SideInv hist b n s) : c.SideInv hist b n { s with outbound := [] } :=
  ⟨h.initiator_eq, h.label_eq, h.myKey_eq, h.peerKey_eq, h.isTcp_eq, h.pos, h.inKey_eq,
    h.outKey_eq, h.own, h.idle, h.hisKex_eq, h.pending⟩

/-- The record that a side queues is the one at its place, when its key is that of the place. -/
lemma sealRecord_eq (h : c.SideInv hist b n s) {pos : ℕ}
    (hkey : s.codec.outKey = c.sealKey hist b pos) (recordType : UInt8) (body : List UInt8) :
    SptpsHandshakeCodec.sealRecord c.prims s.codec.isTcp s.codec.outKey s.codec.nextOut recordType
      body = c.recordAt hist b pos s.codec.nextOut recordType body := by
  rw [h.isTcp_eq, hkey, recordAt]

/-- **A new handshake** starts with a choice and a KEX record. -/
lemma kexSent (h : c.SideInv hist b n s) (hstate : s.state = .secondaryKex)
    (x : Vector UInt8 32 × Vector UInt8 32) :
    c.Moved hist (hist.choose b n x) b n n s
      (SptpsHandshakeSession.kexSent c.prims { s with state := .kex }
        (c.prims.ephemeralFromSeed x.1) x.2)
      [c.recordAt (hist.choose b n x) b (3 * n) s.codec.nextOut sptpsHandshake
        (c.payload (hist.choose b n x) b (3 * n))] := by
  have hself : (!b) ≠ b := by cases b <;> simp
  have hin : s.codec.inKey = c.sealKey (hist.choose b n x) (!b) (3 * n) := by
    rw [h.inKey_eq, hstate, sealKey_choose (by omega)]
    rfl
  have hout : s.codec.outKey = c.sealKey (hist.choose b n x) b (3 * n) := by
    rw [h.outKey_eq, hstate, sealKey_choose (by omega)]
    rfl
  have hkex : c.kex (hist.choose b n x) b n =
      .new x.2 (c.prims.ephemeralFromSeed x.1).publicKey := by
    rw [Setting.kex, Setting.ephemeral, choose_self]
  have heph : c.ephemeral (hist.choose b n x) b n = c.prims.ephemeralFromSeed x.1 := by
    rw [Setting.ephemeral, choose_self]
  refine ⟨⟨h.initiator_eq, h.label_eq, h.myKey_eq, h.peerKey_eq, ?_,
    by simp [SptpsHandshakeSession.kexSent], ?_, ?_, ?_, ?_, ?_, ?_⟩, ?_, ?_⟩
  · exact (SptpsHandshakeCodec.isTcp_sent _).trans h.isTcp_eq
  · exact (SptpsHandshakeCodec.inKey_sent _).trans hin
  · exact (SptpsHandshakeCodec.outKey_sent _).trans hout
  · rw [heph, hkex]
    exact fun _ => ⟨rfl, rfl⟩
  · simp [SptpsHandshakeSession.kexSent]
  · simpa [SptpsHandshakeSession.kexSent, hstate] using h.hisKex_eq
  · simp [SptpsHandshakeSession.kexSent]
  · rw [payload_kex, hkex, recordAt, ← h.isTcp_eq, ← hout]
    rfl
  · have hsend : sendPos b s.state n = 3 * n := by rw [hstate]; rfl
    have hcarries := carries_single c (hist.choose b n x) b (3 * n) s.codec.nextOut
    rw [nextPos_kex] at hcarries
    rw [hsend]
    simpa [SptpsHandshakeSession.kexSent, sendPos] using hcarries

/-- The signature that a side sends is the one at its place. -/
lemma sigSent_eq (h : c.SideInv hist b n s) (hstate : s.state ≠ .ack) :
    SptpsHandshakeCodec.sealRecord c.prims s.codec.isTcp s.codec.outKey s.codec.nextOut
        sptpsHandshake (c.prims.sign s.myKey (sptpsSignatureMessage s.initiator (c.kex hist b n)
          (c.kex hist (!b) n) s.label)).toList =
      c.recordAt hist b (3 * n + 1) s.codec.nextOut sptpsHandshake
        (c.payload hist b (3 * n + 1)) := by
  rw [payload_sig, recordAt, sealKey_succ 1 (by omega), h.isTcp_eq, h.outKey_eq, if_neg hstate,
    h.myKey_eq, h.initiator_eq, h.label_eq]

/-- **A KEX record is answered**: the initiator signs. -/
lemma kexAnswered (h : c.SideInv hist b n s) (hstate : s.state = .kex) :
    ∃ records, c.Moved hist hist b n n s
      (s.kexAnswered c.prims (c.kex hist b n) (c.kex hist (!b) n)) records := by
  have hin : s.codec.inKey = c.sealKey hist (!b) (3 * n + 1) := by
    rw [h.inKey_eq, hstate, recvPos, sealKey_succ 1 (by omega)]
  have hout : s.codec.outKey = c.sealKey hist b (3 * n) := by
    rw [h.outKey_eq, hstate]
    rfl
  have hown := h.own (Or.inl hstate)
  have hsig := h.sigSent_eq (by simp [hstate])
  have hsend : sendPos b s.state n = 3 * n + 1 := by rw [hstate]; rfl
  have hinit := h.initiator_eq
  cases b
  · have hexec : s.kexAnswered c.prims (c.kex hist false n) (c.kex hist (!false) n) =
        { s with hisKex := some (c.kex hist (!false) n), state := .sig } := by
      rw [SptpsHandshakeSession.kexAnswered, hinit]
      rfl
    rw [hexec]
    refine ⟨[], ⟨hinit, h.label_eq, h.myKey_eq, h.peerKey_eq, h.isTcp_eq, by simp, hin, hout,
      fun _ => hown, by simp, rfl, by simp⟩, (List.append_nil _).symm, ?_⟩
    rw [hsend]
    exact Carries.nil _
  · have hexec : s.kexAnswered c.prims (c.kex hist true n) (c.kex hist (!true) n) =
        { sigSent c.prims { s with hisKex := some (c.kex hist (!true) n) } (c.kex hist true n)
            (c.kex hist (!true) n) with state := .sig } := by
      rw [SptpsHandshakeSession.kexAnswered, hinit]
      rfl
    rw [hexec]
    refine ⟨[c.recordAt hist true (3 * n + 1) s.codec.nextOut sptpsHandshake
        (c.payload hist true (3 * n + 1))], ⟨hinit, h.label_eq, h.myKey_eq, h.peerKey_eq, ?_,
      by simp, ?_, ?_, fun _ => hown, by simp, rfl, by simp⟩, ?_, ?_⟩
    · exact (SptpsHandshakeCodec.isTcp_sent _).trans h.isTcp_eq
    · exact (SptpsHandshakeCodec.inKey_sent _).trans hin
    · exact (SptpsHandshakeCodec.outKey_sent _).trans hout
    · rw [← hsig]
      rfl
    · rw [hsend]
      simpa [sigSent, sendPos] using carries_single c hist true (3 * n + 1)
        s.codec.nextOut

/-- The state and the number of handshakes after a signature is accepted. -/
def afterSig (n : ℕ) : SptpsHandshakeState × ℕ := if n = 0 then (.secondaryKex, 1) else (.ack, n)

lemma isSome_outKey (h : c.SideInv hist b n s) (hstate : s.state = .sig) :
    s.codec.outKey.isSome = decide (n ≠ 0) := by
  rw [h.outKey_eq, hstate, if_neg (by simp), sealKey]
  by_cases hn : n = 0
  · simp [hn]
  · rw [if_neg (by omega), decide_eq_true hn]
    rfl

/-- What a side queues when it accepts a signature is what follows in its stream. -/
lemma sigAccepted_carries (h : c.SideInv hist b n s) (hstate : s.state = .sig) :
    let t := s.sigAccepted c.prims (c.kex hist b n) (c.kex hist (!b) n) (c.sharedSecret hist n)
    ∃ records, t.outbound = s.outbound ++ records ∧
      c.Carries hist b (sendPos b .sig n, s.codec.nextOut) records []
        (sendPos b (afterSig n).1 (afterSig n).2, t.codec.nextOut) := by
  have hsome := h.isSome_outKey hstate
  have hout : s.codec.outKey = c.sealKey hist b (3 * n + 2) := by
    rw [h.outKey_eq, hstate, sealKey_succ 2 (by omega)]
    rfl
  obtain ⟨hqueued, hnext⟩ := s.sigAccepted_queued c.prims (c.kex hist b n) (c.kex hist (!b) n)
    (c.sharedSecret hist n)
  simp only [hqueued, hnext]
  -- First the responder signs; the initiator has signed before.
  have hsigned : ∃ records,
      (if s.initiator then s else s.sigSent c.prims (c.kex hist b n) (c.kex hist (!b) n)).outbound =
        s.outbound ++ records ∧
      c.Carries hist b (sendPos b .sig n, s.codec.nextOut) records [] (nextPos (3 * n + 1),
        (if s.initiator then s else
          s.sigSent c.prims (c.kex hist b n) (c.kex hist (!b) n)).codec.nextOut) := by
    have hsig := h.sigSent_eq (by simp [hstate])
    have hinit := h.initiator_eq
    cases b
    · rw [if_neg (by simp [hinit])]
      refine ⟨[c.recordAt hist false (3 * n + 1) s.codec.nextOut sptpsHandshake
        (c.payload hist false (3 * n + 1))], ?_, ?_⟩
      · rw [← hsig]
        rfl
      · rw [sigSent, queued_codec, SptpsHandshakeCodec.nextOut_sent]
        exact carries_single ..
    · rw [if_pos hinit]
      exact ⟨[], (List.append_nil _).symm, Carries.nil _⟩
  have hsame : ∀ t : SptpsHandshakeSession,
      t = (if s.initiator then s else s.sigSent c.prims (c.kex hist b n) (c.kex hist (!b) n)) →
        t.codec.isTcp = s.codec.isTcp ∧ t.codec.outKey = s.codec.outKey := by
    rintro t rfl
    split_ifs <;> simp [sigSent]
  generalize (if s.initiator then s else
    s.sigSent c.prims (c.kex hist b n) (c.kex hist (!b) n)) = t at hsigned hsame
  obtain ⟨records, hrecords, hcarries⟩ := hsigned
  obtain ⟨htcp, hkey⟩ := hsame t rfl
  rw [hsome, afterSig]
  by_cases hn : n = 0
  · subst hn
    exact ⟨records, hrecords, hcarries⟩
  · -- A rekey is acknowledged at the end.
    have hnext' : nextPos (3 * n + 1) = 3 * n + 2 := if_neg (by omega)
    rw [hnext'] at hcarries
    have hack := hcarries.append (carries_single c hist b (3 * n + 2) t.codec.nextOut)
    rw [nextPos_ack] at hack
    rw [decide_eq_true hn, if_pos rfl, if_neg hn]
    refine ⟨records ++ [c.recordAt hist b (3 * n + 2) t.codec.nextOut sptpsHandshake
      (c.payload hist b (3 * n + 2))], ?_, ?_⟩
    · rw [payload_ack, recordAt, ← h.isTcp_eq, ← hout, ← htcp, ← hkey, ← List.append_assoc,
        ← hrecords]
      rfl
    · simpa [sendPos] using hack

/-- **A signature is accepted**: the responder signs, and a rekey is acknowledged. -/
lemma sigAccepted (h : c.SideInv hist b n s) (hstate : s.state = .sig) :
    ∃ records, c.Moved hist hist b n (afterSig n).2 s
      { s.sigAccepted c.prims (c.kex hist b n) (c.kex hist (!b) n) (c.sharedSecret hist n) with
        state := (afterSig n).1 } records := by
  obtain ⟨records, hqueued, hcarries⟩ := h.sigAccepted_carries hstate
  have hsome := h.isSome_outKey hstate
  have hmaterial := keyMaterial_eq c hist b n
  have hin := keysForRole_fst c hist b n
  have hout := keysForRole_snd c hist b n
  refine ⟨records, ⟨?_, ?_, ?_, ?_, ?_, ?_, ?_, ?_, ?_, fun _ => ?_, ?_, ?_⟩, hqueued, ?_⟩
  · exact (sigAccepted_initiator ..).trans h.initiator_eq
  · exact (sigAccepted_label ..).trans h.label_eq
  · exact (sigAccepted_myKey ..).trans h.myKey_eq
  · exact (sigAccepted_peerKey ..).trans h.peerKey_eq
  · exact (sigAccepted_isTcp ..).trans h.isTcp_eq
  · rw [afterSig]
    split_ifs with hn
    · exact fun _ => le_rfl
    · exact fun _ => Nat.pos_of_ne_zero hn
  · rw [sigAccepted_inKey, hsome, h.inKey_eq, h.initiator_eq, h.label_eq, hmaterial, hin, hstate,
      afterSig]
    by_cases hn : n = 0
    · subst hn
      rfl
    · rw [decide_eq_true hn, if_pos rfl, if_neg hn, recvPos, recvPos, sealKey_succ 1 (by omega),
        sealKey_succ 2 (by omega)]
  · rw [sigAccepted_outKey, h.initiator_eq, h.label_eq, hmaterial, hout, afterSig]
    by_cases hn : n = 0
    · subst hn
      rfl
    · rw [if_neg hn, if_pos rfl]
  · rw [afterSig]
    split_ifs <;> simp
  · exact sigAccepted_myKex ..
  · have hne : (afterSig n).1 ≠ .sig := by
      rw [afterSig]
      split_ifs <;> simp
    rw [if_neg hne]
    exact sigAccepted_hisKex ..
  · rw [sigAccepted_pendingKeyMaterial, hsome, h.initiator_eq, h.label_eq, hmaterial, afterSig]
    by_cases hn : n = 0
    · simp [hn]
    · simp [hn]
  · rw [hstate]
    exact hcarries

/-- **An acknowledgement completes a rekey.** -/
lemma ackReceived (h : c.SideInv hist b n s) (hstate : s.state = .ack) :
    c.Moved hist hist b n (n + 1) s
      { s with
        pendingKeyMaterial := none
        codec := s.codec.setInKey ((c.material hist n).keysForRole s.initiator).1
        state := .secondaryKex } [] := by
  have hin := keysForRole_fst c hist b n
  have hout : s.codec.outKey = c.sealKey hist b (3 * (n + 1)) := by
    rw [h.outKey_eq, hstate, if_pos rfl]
    rfl
  refine ⟨⟨h.initiator_eq, h.label_eq, h.myKey_eq, h.peerKey_eq, ?_, fun _ => Nat.le_add_left _ _,
    ?_, ?_, by simp, fun _ => h.idle (Or.inr hstate), ?_, by simp⟩, (List.append_nil _).symm, ?_⟩
  · exact (SptpsHandshakeCodec.isTcp_setInKey _ _).trans h.isTcp_eq
  · rw [h.initiator_eq]
    exact (SptpsHandshakeCodec.inKey_setInKey _ _).trans hin
  · exact (SptpsHandshakeCodec.outKey_setInKey _ _).trans hout
  · have hhis := h.hisKex_eq
    rw [hstate] at hhis
    exact hhis
  · have hsend : sendPos b s.state n = 3 * n + 3 := by rw [hstate]; rfl
    have hnext : (s.codec.setInKey ((c.material hist n).keysForRole s.initiator).1).nextOut =
        s.codec.nextOut := SptpsHandshakeCodec.nextOut_setInKey _ _
    rw [hsend, hnext]
    exact Carries.nil _

end SideInv

lemma Moved.trans {hist' : History} {n' n'' : ℕ} {s' s'' : SptpsHandshakeSession}
    {records records' : List (List UInt8)} (h : c.Moved hist hist' b n n' s s' records)
    (h' : c.Moved hist' hist' b n' n'' s' s'' records') :
    c.Moved hist hist' b n n'' s s'' (records ++ records') where
  inv := h'.inv
  outbound_eq := by rw [h'.outbound_eq, h.outbound_eq, List.append_assoc]
  carries := h.carries.append h'.carries

/-- What a handshake record of the peer, at the place where it is expected, brings about. -/
structure Handled (c : Setting) (hist : History) (b : Bool) (n : ℕ)
    (x : Vector UInt8 32 × Vector UInt8 32) (s : SptpsHandshakeSession)
    (result : Except SptpsError (List SptpsHandshakeEvent) × SptpsHandshakeSession) : Prop where
  ok : ∃ events, result.1 = .ok events ∧ ∀ e ∈ events, e = .handshakeComplete
  nextIn_eq : result.2.codec.nextIn = s.codec.nextIn
  moved : ∃ hist' n' records, (hist' = hist ∨ s.state = .secondaryKex ∧ hist' = hist.choose b n x) ∧
    c.Moved hist hist' b n n' s result.2 records ∧
    recvPos result.2.state n' = nextPos (recvPos s.state n)

namespace SideInv

lemma nextIn_kexAnswered (p : Primitives) (myKex hisKex : SptpsKex) :
    (s.kexAnswered p myKex hisKex).codec.nextIn = s.codec.nextIn := by
  cases hinit : s.initiator <;> simp [SptpsHandshakeSession.kexAnswered, sigSent, hinit]

/-- **Every handshake record is handled** in the state that expects it. -/
lemma receiveHandshake (hc : c.Correct) (h : c.SideInv hist b n s)
    (x : Vector UInt8 32 × Vector UInt8 32) :
    c.Handled hist b n x s
      ((SptpsHandshakeSession.receiveHandshake c.prims (.ok x)
        (c.payload hist (!b) (recvPos s.state n))).exec s) := by
  have hkexData : SptpsKex.tryFromSlice (c.payload hist (!b) (3 * n)) =
      .ok (c.kex hist (!b) n) := by
    rw [payload_kex]
    exact SptpsKex.tryFromSlice_toBytes _ _
  cases hstate : s.state with
  | kex =>
      have hown := h.own (Or.inl hstate)
      have hhis : s.hisKex = none := by rw [h.hisKex_eq, if_neg (by simp [hstate])]
      obtain ⟨records, hmoved⟩ := h.kexAnswered hstate
      rw [exec_receiveHandshake_kex hstate, recvPos, exec_answerKex hhis hown.2 hkexData]
      refine ⟨⟨[], rfl, by simp⟩, nextIn_kexAnswered _ _ _, hist, n, records, Or.inl rfl, hmoved, ?_⟩
      rw [hstate]
      exact (nextPos_kex n).symm
  | secondaryKex =>
      have hself : (!b) ≠ b := by cases b <;> simp
      have hmy : s.myKex = none := h.idle (Or.inl hstate)
      have hhis : s.hisKex = none := by rw [h.hisKex_eq, if_neg (by simp [hstate])]
      have hsent := h.kexSent hstate x
      obtain ⟨records, hanswered⟩ := hsent.inv.kexAnswered rfl
      rw [kex_choose (Or.inl hself)] at hanswered
      have hkexSent : (sendKex c.prims (.ok x)).exec s =
          (.ok (), s.kexSent c.prims (c.prims.ephemeralFromSeed x.1) x.2) := by
        show (sendKexWith c.prims (c.prims.ephemeralFromSeed x.1) x.2).exec s = _
        rw [exec_sendKexWith, if_neg (by simp [hmy])]
      have hkex : c.kex (hist.choose b n x) b n =
          .new x.2 (c.prims.ephemeralFromSeed x.1).publicKey := by
        rw [Setting.kex, Setting.ephemeral, choose_self]
      have hown : (s.kexSent c.prims (c.prims.ephemeralFromSeed x.1) x.2).myKex =
          some (c.kex (hist.choose b n x) b n) := hkex ▸ rfl
      have hanswer := exec_answerKex (p := c.prims)
        (s := s.kexSent c.prims (c.prims.ephemeralFromSeed x.1) x.2) hhis hown hkexData
      rw [exec_receiveHandshake_secondaryKex hstate, Stateful.exec_bind_ok hkexSent, recvPos,
        hanswer]
      have hsame : (s.kexSent c.prims (c.prims.ephemeralFromSeed x.1) x.2).kexAnswered c.prims
          (c.kex (hist.choose b n x) b n) (c.kex hist (!b) n) =
          (SptpsHandshakeSession.kexSent c.prims { s with state := .kex }
            (c.prims.ephemeralFromSeed x.1) x.2).kexAnswered c.prims
              (c.kex (hist.choose b n x) b n) (c.kex hist (!b) n) := by
        cases hinit : s.initiator <;>
          simp [SptpsHandshakeSession.kexAnswered, sigSent, SptpsHandshakeSession.kexSent, queued,
            hinit]
      rw [hsame]
      refine ⟨⟨[], rfl, by simp⟩, ?_, _, n, _, Or.inr ⟨hstate, rfl⟩, hsent.trans hanswered, ?_⟩
      · rw [nextIn_kexAnswered]
        exact SptpsHandshakeCodec.nextIn_sent _
      · rw [hstate]
        exact (nextPos_kex n).symm
  | sig =>
      have hown := h.own (Or.inr hstate)
      have hhis : s.hisKex = some (c.kex hist (!b) n) := by rw [h.hisKex_eq, if_pos hstate]
      have hacc : AcceptsSig c.prims s (c.payload hist (!b) (3 * n + 1)) (c.kex hist b n)
          (c.kex hist (!b) n) (c.ephemeral hist b n) (c.sharedSecret hist n) := by
        rw [payload_sig, Bool.not_not]
        refine ⟨by simp [ed25519SignatureLen], hhis, hown.2, ?_, hown.1, hc.computeShared b n⟩
        rw [h.peerKey_eq, h.initiator_eq, h.label_eq]
        exact hc.verify_sign (!b) _
      have hsig := exec_receiveSig_ok hacc
      rw [h.isSome_outKey hstate] at hsig
      obtain ⟨records, hmoved⟩ := h.sigAccepted hstate
      rw [recvPos, exec_receiveHandshake_sig hstate hsig]
      by_cases hn : n = 0
      · subst hn
        refine ⟨⟨_, rfl, by simp⟩, sigAccepted_nextIn .., hist, _, records, Or.inl rfl, hmoved, ?_⟩
        rw [hstate]
        rfl
      · have hnext : nextPos (3 * n + 1) = 3 * n + 2 := if_neg (by omega)
        rw [afterSig, if_neg hn] at hmoved
        rw [if_pos (decide_eq_true hn)]
        refine ⟨⟨_, rfl, by simp⟩, sigAccepted_nextIn .., hist, n, records, Or.inl rfl, hmoved, ?_⟩
        rw [hstate]
        exact hnext.symm
  | ack =>
      have hpending := h.pending hstate
      have hmoved := h.ackReceived hstate
      have hexec : (SptpsHandshakeSession.receiveHandshake c.prims (.ok x)
          (c.payload hist (!b) (3 * n + 2))).exec s = (.ok [.handshakeComplete],
            { s with
              pendingKeyMaterial := none
              codec := s.codec.setInKey ((c.material hist n).keysForRole s.initiator).1
              state := .secondaryKex }) := by
        have hack := exec_receiveAck (s := s) []
        rw [hpending] at hack
        simp [SptpsHandshakeSession.receiveHandshake, setState, Stateful.exec_bind, hstate,
          payload_ack, hack]
      rw [recvPos, hexec]
      refine ⟨⟨_, rfl, by simp⟩, SptpsHandshakeCodec.nextIn_setInKey _ _, hist, n + 1, [],
        Or.inl rfl, hmoved, ?_⟩
      rw [hstate]
      exact (nextPos_ack n).symm

end SideInv

end Moves

end Setting

end RustyTinc

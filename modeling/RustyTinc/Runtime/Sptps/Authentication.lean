import RustyTinc.Runtime.Sptps.Handshake

/-!
Authentication of SPTPS sessions against an attacker who delivers what he likes.

* `SessionInv`: what holds of a session, relative to the KEX pairs that its peer vouches for;
* `AttackStep`: the steps of any number of sessions, where signatures under one honest key are
  not forged;
* `run_authenticated`: the keys of a session always come from a KEX pair that a session of the
  honest peer has signed in the opposite role and under the same label.
-/

namespace RustyTinc

namespace SptpsHandshakeSession

/-- Key material that comes from a KEX pair of the session, signed by it and vouched for. -/
def DerivedFrom (p : Primitives) (vouched : SptpsKex → SptpsKex → Prop)
    (s : SptpsHandshakeSession) (material : SptpsKeyMaterial) : Prop :=
  ∃ (myKex hisKex : SptpsKex) (ecdh : SptpsEphemeralKey) (sharedSecret : Vector UInt8 32),
    myKex.publicKey = ecdh.publicKey ∧ p.computeShared ecdh hisKex.publicKey = .ok sharedSecret ∧
      material = keyMaterial p s.initiator s.label sharedSecret myKex hisKex ∧
      (myKex, hisKex) ∈ s.signed ∧ vouched myKex hisKex

/-- What holds of a session whose peer vouches for some KEX pairs. -/
structure SessionInv (p : Primitives) (vouched : SptpsKex → SptpsKex → Prop)
    (s : SptpsHandshakeSession) : Prop where
  ephemeral : ∀ myKex ecdh, s.myKex = some myKex → s.ecdh = some ecdh →
    myKex.publicKey = ecdh.publicKey
  idle : s.state = .secondaryKex ∨ s.state = .ack → s.hisKex = none
  /-- An initiator signs as soon as it has both KEX records. -/
  signed : s.initiator = true → ∀ myKex hisKex, s.myKex = some myKex → s.hisKex = some hisKex →
    (myKex, hisKex) ∈ s.signed
  inKey : ∀ key, s.codec.inKey = some key →
    ∃ material, DerivedFrom p vouched s material ∧ key = (material.keysForRole s.initiator).1
  outKey : ∀ key, s.codec.outKey = some key →
    ∃ material, DerivedFrom p vouched s material ∧ key = (material.keysForRole s.initiator).2
  pending : ∀ material, s.pendingKeyMaterial = some material → DerivedFrom p vouched s material

/-- What no operation of a session changes, and the signatures that it only adds to. -/
structure Grows (s s' : SptpsHandshakeSession) : Prop where
  initiator_eq : s'.initiator = s.initiator
  label_eq : s'.label = s.label
  myKey_eq : s'.myKey = s.myKey
  peerKey_eq : s'.peerKey = s.peerKey
  signed_subset : s.signed ⊆ s'.signed

section Session

variable {p : Primitives} {vouched : SptpsKex → SptpsKex → Prop} {s s' : SptpsHandshakeSession}

lemma Grows.refl (s : SptpsHandshakeSession) : Grows s s :=
  ⟨rfl, rfl, rfl, rfl, List.Subset.refl _⟩

lemma Grows.trans {s'' : SptpsHandshakeSession} (h : Grows s s') (h' : Grows s' s'') :
    Grows s s'' :=
  ⟨h'.initiator_eq.trans h.initiator_eq, h'.label_eq.trans h.label_eq,
    h'.myKey_eq.trans h.myKey_eq, h'.peerKey_eq.trans h.peerKey_eq,
    List.Subset.trans h.signed_subset h'.signed_subset⟩

lemma DerivedFrom.mono {vouched' : SptpsKex → SptpsKex → Prop} {material : SptpsKeyMaterial}
    (h : DerivedFrom p vouched s material) (hgrows : Grows s s')
    (hvouched : ∀ myKex hisKex, vouched myKex hisKex → vouched' myKex hisKex) :
    DerivedFrom p vouched' s' material := by
  obtain ⟨myKex, hisKex, ecdh, sharedSecret, hpub, hshared, rfl, hmem, hv⟩ := h
  refine ⟨myKex, hisKex, ecdh, sharedSecret, hpub, hshared, ?_, hgrows.signed_subset hmem,
    hvouched _ _ hv⟩
  rw [hgrows.initiator_eq, hgrows.label_eq]

/-- The invariant does not depend on who vouches for more pairs. -/
lemma SessionInv.mono {vouched' : SptpsKex → SptpsKex → Prop} (h : SessionInv p vouched s)
    (hvouched : ∀ myKex hisKex, vouched myKex hisKex → vouched' myKex hisKex) :
    SessionInv p vouched' s where
  ephemeral := h.ephemeral
  idle := h.idle
  signed := h.signed
  inKey key hkey := by
    obtain ⟨material, hm, heq⟩ := h.inKey key hkey
    exact ⟨material, hm.mono (Grows.refl s) hvouched, heq⟩
  outKey key hkey := by
    obtain ⟨material, hm, heq⟩ := h.outKey key hkey
    exact ⟨material, hm.mono (Grows.refl s) hvouched, heq⟩
  pending material hm := (h.pending material hm).mono (Grows.refl s) hvouched

/-- The keys of a session stay derived when it grows without a change of its keys. -/
lemma SessionInv.of_grows (h : SessionInv p vouched s) (hgrows : Grows s s')
    (hin : s'.codec.inKey = s.codec.inKey) (hout : s'.codec.outKey = s.codec.outKey)
    (hpending : s'.pendingKeyMaterial = s.pendingKeyMaterial)
    (hephemeral : ∀ myKex ecdh, s'.myKex = some myKex → s'.ecdh = some ecdh →
      myKex.publicKey = ecdh.publicKey)
    (hidle : s'.state = .secondaryKex ∨ s'.state = .ack → s'.hisKex = none)
    (hsigned : s'.initiator = true → ∀ myKex hisKex, s'.myKex = some myKex →
      s'.hisKex = some hisKex → (myKex, hisKex) ∈ s'.signed) : SessionInv p vouched s' where
  ephemeral := hephemeral
  idle := hidle
  signed := hsigned
  inKey key hkey := by
    obtain ⟨material, hm, heq⟩ := h.inKey key (hin ▸ hkey)
    exact ⟨material, hm.mono hgrows fun _ _ hv => hv, hgrows.initiator_eq ▸ heq⟩
  outKey key hkey := by
    obtain ⟨material, hm, heq⟩ := h.outKey key (hout ▸ hkey)
    exact ⟨material, hm.mono hgrows fun _ _ hv => hv, hgrows.initiator_eq ▸ heq⟩
  pending material hm := (h.pending material (hpending ▸ hm)).mono hgrows fun _ _ hv => hv

/-- What an operation keeps of a session, whether or not it fails. -/
def Keeps (p : Primitives) (vouched : SptpsKex → SptpsKex → Prop)
    (s s' : SptpsHandshakeSession) : Prop :=
  Grows s s' ∧ SessionInv p vouched s'

lemma SessionInv.setState_keeps (h : SessionInv p vouched s) (state : SptpsHandshakeState)
    (hidle : state = .secondaryKex ∨ state = .ack → s.hisKex = none) :
    Keeps p vouched s { s with state := state } := by
  have hgrows : Grows s { s with state := state } := ⟨rfl, rfl, rfl, rfl, List.Subset.refl _⟩
  exact ⟨hgrows, h.of_grows hgrows rfl rfl rfl h.ephemeral hidle h.signed⟩

/-- Sending a KEX record, in a state without the one of the peer. -/
lemma SessionInv.sendKex_keeps (h : SessionInv p vouched s) (hhis : s.hisKex = none) (fresh : Fresh) :
    Keeps p vouched s ((sendKex p fresh).exec s).2 ∧
      ((sendKex p fresh).exec s).2.hisKex = none ∧
      ((sendKex p fresh).exec s).2.state = s.state ∧
      (((sendKex p fresh).exec s).1 = .ok () → ((sendKex p fresh).exec s).2.myKex.isSome) := by
  cases fresh with
  | error e => exact ⟨⟨Grows.refl s, h⟩, hhis, rfl, fun hok => absurd hok (by
      simp [sendKex, Stateful.exec_bind])⟩
  | ok r =>
      have hexec : (sendKex p (.ok r)).exec s =
          (sendKexWith p (p.ephemeralFromSeed r.1) r.2).exec s := rfl
      rw [hexec, exec_sendKexWith]
      split_ifs with hmy
      · exact ⟨⟨Grows.refl s, h⟩, hhis, rfl, fun _ => hmy⟩
      · have hgrows : Grows s (s.kexSent p (p.ephemeralFromSeed r.1) r.2) :=
          ⟨rfl, rfl, rfl, rfl, List.Subset.refl _⟩
        refine ⟨⟨hgrows, h.of_grows hgrows ?_ ?_ rfl ?_ ?_ ?_⟩, hhis, rfl, fun _ => rfl⟩
        · exact SptpsHandshakeCodec.inKey_sent s.codec
        · exact SptpsHandshakeCodec.outKey_sent s.codec
        · rintro myKex ecdh hmyKex hecdh
          cases hmyKex
          cases hecdh
          rfl
        · exact fun _ => hhis
        · intro _ myKex hisKex _ hhis'
          exact absurd (hhis.symm.trans hhis') (by simp)

/-- Answering a KEX record: an initiator signs at once. -/
lemma SessionInv.kexAnswered_keeps (h : SessionInv p vouched s) {myKex hisKex : SptpsKex}
    (hmy : s.myKex = some myKex) : Keeps p vouched s (s.kexAnswered p myKex hisKex) := by
  have hsigned : (s.kexAnswered p myKex hisKex).signed =
      if s.initiator then (myKex, hisKex) :: s.signed else s.signed := by
    cases hinit : s.initiator <;> simp [kexAnswered, sigSent, hinit]
  have hkeys : (s.kexAnswered p myKex hisKex).codec.inKey = s.codec.inKey ∧
      (s.kexAnswered p myKex hisKex).codec.outKey = s.codec.outKey := by
    cases hinit : s.initiator <;> simp [kexAnswered, sigSent, hinit]
  have hsame : (s.kexAnswered p myKex hisKex).initiator = s.initiator ∧
      (s.kexAnswered p myKex hisKex).label = s.label ∧
      (s.kexAnswered p myKex hisKex).myKey = s.myKey ∧
      (s.kexAnswered p myKex hisKex).peerKey = s.peerKey ∧
      (s.kexAnswered p myKex hisKex).pendingKeyMaterial = s.pendingKeyMaterial ∧
      (s.kexAnswered p myKex hisKex).ecdh = s.ecdh ∧
      (s.kexAnswered p myKex hisKex).myKex = s.myKex ∧
      (s.kexAnswered p myKex hisKex).hisKex = some hisKex := by
    cases hinit : s.initiator <;> simp [kexAnswered, sigSent, hinit]
  obtain ⟨hinit, hlabel, hmyKey, hpeer, hpending, hecdh, hmyKex, hhisKex⟩ := hsame
  have hgrows : Grows s (s.kexAnswered p myKex hisKex) := by
    refine ⟨hinit, hlabel, hmyKey, hpeer, ?_⟩
    rw [hsigned]
    split_ifs
    · exact fun _ hx => List.mem_cons_of_mem _ hx
    · exact List.Subset.refl _
  refine ⟨hgrows, h.of_grows hgrows hkeys.1 hkeys.2 hpending ?_ (by simp [kexAnswered]) ?_⟩
  · rw [hmyKex, hecdh]
    exact h.ephemeral
  · intro hinit' myKex' hisKex' hmy' hhis'
    rw [hinit] at hinit'
    rw [hmyKex, hmy] at hmy'
    rw [hhisKex] at hhis'
    cases hmy'
    cases hhis'
    rw [hsigned, if_pos hinit']
    exact List.mem_cons_self

/-- Receiving a KEX record; a session that waits for one in `SecondaryKex` has sent its own. -/
lemma SessionInv.answerKex_keeps (h : SessionInv p vouched s)
    (hstate : s.state = .kex ∨ s.myKex.isSome) (data : List UInt8) :
    Keeps p vouched s ((answerKex p data).exec s).2 := by
  by_cases hnew : s.hisKex = none ∧ ∃ kex, SptpsKex.tryFromSlice data = .ok kex
  · obtain ⟨hhis, hisKex, hdata⟩ := hnew
    cases hmy : s.myKex with
    | some myKex =>
        rw [exec_answerKex hhis hmy hdata]
        refine h.kexAnswered_keeps hmy
    | none =>
        have hkex := exec_receiveKex_ok (p := p) hhis hdata
        obtain ⟨e, herror⟩ := exec_sendSig_error (p := p)
          (s := { s with hisKex := some hisKex }) (Or.inl hmy)
        rw [herror] at hkex
        have hgrows : ∀ state, Grows s { s with hisKex := some hisKex, state := state } :=
          fun _ => ⟨rfl, rfl, rfl, rfl, List.Subset.refl _⟩
        have hkexState : s.state = .kex := hstate.resolve_right (by simp [hmy])
        have hunsigned : ∀ myKex hisKex', s.myKex = some myKex →
            some hisKex = some hisKex' → (myKex, hisKex') ∈ s.signed :=
          fun myKex _ hmy' _ => absurd (hmy.symm.trans hmy') (by simp)
        cases hinit : s.initiator with
        | true =>
            have hexec : (answerKex p data).exec s =
                (.error e, { s with hisKex := some hisKex }) := by
              simp [answerKex, Stateful.exec_bind, hkex, hinit]
            rw [hexec]
            exact ⟨hgrows s.state, h.of_grows (hgrows s.state) rfl rfl rfl h.ephemeral
              (by simp [hkexState]) fun _ => hunsigned⟩
        | false =>
            have hexec : (answerKex p data).exec s =
                (.ok [], { s with hisKex := some hisKex, state := .sig }) := by
              simp [answerKex, setState, Stateful.exec_bind, hkex, hinit]
            rw [hexec]
            exact ⟨hgrows .sig, h.of_grows (hgrows .sig) rfl rfl rfl h.ephemeral (by simp)
              fun _ => hunsigned⟩
  · obtain ⟨e, herror⟩ := exec_receiveKex_error (p := p) (s := s) data (by
      rcases not_and_or.mp hnew with hhis | hdata
      · exact Or.inl hhis
      · exact Or.inr fun kex hkex => hdata ⟨kex, hkex⟩)
    have hexec : (answerKex p data).exec s = (.error e, s) := by
      simp [answerKex, Stateful.exec_bind, herror]
    rw [hexec]
    exact ⟨Grows.refl s, h⟩

/-- Accepting a signature over a KEX pair that the peer vouches for. -/
lemma SessionInv.sigAccepted_keeps {data : List UInt8} {myKex hisKex : SptpsKex}
    {ecdh : SptpsEphemeralKey} {sharedSecret : Vector UInt8 32} (h : SessionInv p vouched s)
    (hacc : AcceptsSig p s data myKex hisKex ecdh sharedSecret) (hv : vouched myKex hisKex) :
    Keeps p vouched s (s.sigAccepted p myKex hisKex sharedSecret) := by
  set t := s.sigAccepted p myKex hisKex sharedSecret with ht
  have hsigned := s.sigAccepted_signed p myKex hisKex sharedSecret
  have hgrows : Grows s t := by
    refine ⟨by simp [ht], by simp [ht], by simp [ht], by simp [ht], ?_⟩
    rw [hsigned]
    split_ifs
    · exact List.Subset.refl _
    · exact fun _ hx => List.mem_cons_of_mem _ hx
  have hmem : (myKex, hisKex) ∈ t.signed := by
    rw [hsigned]
    split_ifs with hinit
    · exact h.signed hinit myKex hisKex hacc.myKex_eq hacc.hisKex_eq
    · exact List.mem_cons_self
  have hderived : DerivedFrom p vouched t
      (keyMaterial p s.initiator s.label sharedSecret myKex hisKex) := by
    refine ⟨myKex, hisKex, ecdh, sharedSecret, ?_, hacc.shared_eq, by simp [ht], hmem, hv⟩
    exact h.ephemeral myKex ecdh hacc.myKex_eq hacc.ecdh_eq
  have hmono : ∀ material, DerivedFrom p vouched s material → DerivedFrom p vouched t material :=
    fun _ hm => hm.mono hgrows fun _ _ hv => hv
  refine ⟨hgrows, ⟨by simp [ht], by simp [ht], by simp [ht], fun key hkey => ?_, fun key hkey => ?_,
    fun material hm => ?_⟩⟩
  · rw [ht, sigAccepted_inKey] at hkey
    rw [hgrows.initiator_eq]
    split_ifs at hkey with hout
    · obtain ⟨material, hm, heq⟩ := h.inKey key hkey
      exact ⟨material, hmono material hm, heq⟩
    · exact ⟨_, hderived, (Option.some_inj.mp hkey).symm⟩
  · rw [ht, sigAccepted_outKey] at hkey
    rw [hgrows.initiator_eq]
    exact ⟨_, hderived, (Option.some_inj.mp hkey).symm⟩
  · rw [ht, sigAccepted_pendingKeyMaterial] at hm
    split_ifs at hm with hout
    · exact Option.some_inj.mp hm ▸ hderived
    · exact hmono material (h.pending material hm)

lemma Keeps.trans {s'' : SptpsHandshakeSession} (h : Keeps p vouched s s')
    (h' : Keeps p vouched s' s'') : Keeps p vouched s s'' :=
  ⟨h.1.trans h'.1, h'.2⟩

/-- Receiving an ACK record. -/
lemma SessionInv.receiveAck_keeps (h : SessionInv p vouched s) (data : List UInt8) :
    Keeps p vouched s ((receiveAck data).exec s).2 ∧
      ((receiveAck data).exec s).2.hisKex = s.hisKex := by
  rw [exec_receiveAck]
  split_ifs with hdata
  · split
    · next material hpending =>
        set t : SptpsHandshakeSession := { s with
          pendingKeyMaterial := none
          codec := s.codec.setInKey (material.keysForRole s.initiator).1 } with ht
        have hgrows : Grows s t := ⟨rfl, rfl, rfl, rfl, List.Subset.refl _⟩
        have hmono : ∀ material, DerivedFrom p vouched s material →
            DerivedFrom p vouched t material :=
          fun _ hm => hm.mono hgrows fun _ _ hv => hv
        refine ⟨⟨hgrows, ⟨h.ephemeral, h.idle, h.signed, fun key hkey => ?_, fun key hkey => ?_,
          by simp [ht]⟩⟩, rfl⟩
        · rw [ht, SptpsHandshakeCodec.inKey_setInKey] at hkey
          exact ⟨material, hmono material (h.pending material hpending),
            (Option.some_inj.mp hkey).symm⟩
        · rw [ht, SptpsHandshakeCodec.outKey_setInKey] at hkey
          obtain ⟨material, hm, heq⟩ := h.outKey key hkey
          exact ⟨material, hmono material hm, heq⟩
    · exact ⟨⟨Grows.refl s, h⟩, rfl⟩
  · exact ⟨⟨Grows.refl s, h⟩, rfl⟩

/-- **A handshake record keeps the invariant** when the peer vouches for what it signed. -/
lemma SessionInv.receiveHandshake_keeps (h : SessionInv p vouched s) (fresh : Fresh)
    {data : List UInt8}
    (hvouched : s.state = .sig → ∀ myKex hisKex ecdh sharedSecret,
      AcceptsSig p s data myKex hisKex ecdh sharedSecret → vouched myKex hisKex) :
    Keeps p vouched s ((receiveHandshake p fresh data).exec s).2 := by
  cases hstate : s.state with
  | kex =>
      rw [exec_receiveHandshake_kex hstate]
      exact h.answerKex_keeps (Or.inl hstate) data
  | secondaryKex =>
      obtain ⟨hkeeps, -, -, hmy⟩ := h.sendKex_keeps (h.idle (Or.inl hstate)) fresh
      rw [exec_receiveHandshake_secondaryKex hstate, Stateful.exec_bind]
      generalize (sendKex p fresh).exec s = r at hkeeps hmy
      obtain ⟨_ | _, t⟩ := r
      · exact hkeeps
      · exact hkeeps.trans (hkeeps.2.answerKex_keeps (Or.inr (hmy rfl)) data)
  | sig =>
      by_cases hacc : ∃ myKex hisKex ecdh sharedSecret,
          AcceptsSig p s data myKex hisKex ecdh sharedSecret
      · obtain ⟨myKex, hisKex, ecdh, sharedSecret, hacc⟩ := hacc
        have hkeeps := h.sigAccepted_keeps hacc (hvouched hstate _ _ _ _ hacc)
        rw [exec_receiveHandshake_sig hstate (exec_receiveSig_ok hacc)]
        split_ifs
        · exact hkeeps.trans (hkeeps.2.setState_keeps _ (by simp))
        · exact hkeeps.trans (hkeeps.2.setState_keeps _ (by simp))
      · obtain ⟨e, herror⟩ := @exec_receiveHandshake_error p s fresh _ hstate
          fun myKex hisKex ecdh sharedSecret hacc' => hacc ⟨_, _, _, _, hacc'⟩
        rw [herror]
        exact ⟨Grows.refl s, h⟩
  | ack =>
      obtain ⟨hkeeps, hhis⟩ := h.receiveAck_keeps data
      rw [exec_receiveHandshake_ack hstate, takeAck, Stateful.exec_bind]
      generalize (receiveAck data).exec s = r at hkeeps hhis
      obtain ⟨_ | _, t⟩ := r
      · exact hkeeps
      · refine hkeeps.trans (hkeeps.2.setState_keeps _ fun _ => ?_)
        exact hhis.trans (h.idle (Or.inr hstate))

/-- A change of the codec that leaves the keys alone keeps the invariant. -/
lemma SessionInv.codec_keeps (h : SessionInv p vouched s) {codec : SptpsHandshakeCodec}
    (hin : codec.inKey = s.codec.inKey) (hout : codec.outKey = s.codec.outKey) :
    Keeps p vouched s { s with codec := codec } := by
  have hgrows : Grows s { s with codec := codec } := ⟨rfl, rfl, rfl, rfl, List.Subset.refl _⟩
  exact ⟨hgrows, h.of_grows hgrows hin hout rfl h.ephemeral h.idle h.signed⟩

/-- **Any bytes at all keep the invariant** when the peer vouches for what it signed. -/
lemma SessionInv.receiveDatagram_keeps (h : SessionInv p vouched s) (fresh : Fresh)
    {datagram : List UInt8}
    (hvouched : ∀ record codec,
      (SptpsHandshakeCodec.decode p datagram).exec s.codec = (.ok record, codec) →
        record.recordType = sptpsHandshake → s.state = .sig → ∀ myKex hisKex ecdh sharedSecret,
          AcceptsSig p s record.payload myKex hisKex ecdh sharedSecret → vouched myKex hisKex) :
    Keeps p vouched s ((receiveDatagram p fresh datagram).exec s).2 := by
  obtain ⟨hin, hout⟩ := SptpsHandshakeCodec.exec_decode_keys (p := p) s.codec datagram
  rw [receiveDatagram, Stateful.exec_bind, Stateful.exec_zoom]
  generalize hdecode : (SptpsHandshakeCodec.decode p datagram).exec s.codec = r at hin hout
  obtain ⟨_ | record, codec⟩ := r
  · exact h.codec_keeps hin hout
  · have hkeeps := h.codec_keeps hin hout
    simp only [Stateful.exec_ite, Stateful.exec_pure, Stateful.exec_throw]
    split_ifs with htype
    · refine hkeeps.trans (hkeeps.2.receiveHandshake_keeps fresh ?_)
      rintro hstate myKex hisKex ecdh sharedSecret ⟨h1, h2, h3, h4, h5, h6⟩
      exact hvouched record codec hdecode htype hstate myKex hisKex ecdh sharedSecret
        ⟨h1, h2, h3, h4, h5, h6⟩
    · exact hkeeps
    · exact hkeeps

lemma SessionInv.forceKex_keeps (h : SessionInv p vouched s) (fresh : Fresh) :
    Keeps p vouched s ((forceKex p fresh).exec s).2 := by
  rw [forceKex, Stateful.exec_bind, Stateful.exec_get]
  simp only [Stateful.exec_ite, Stateful.exec_throw]
  split_ifs with hready
  · exact ⟨Grows.refl s, h⟩
  · have hstate : s.state = .secondaryKex := not_not.mp (not_or.mp hready).2
    have hhis := h.idle (Or.inl hstate)
    have hkeeps := h.setState_keeps .kex (by simp)
    exact hkeeps.trans (hkeeps.2.sendKex_keeps hhis fresh).1

/-- Sending a record keeps the invariant. -/
lemma SessionInv.sendRecord_keeps (h : SessionInv p vouched s) (recordType : UInt8)
    (payload : List UInt8) : Keeps p vouched s ((sendRecord p recordType payload).exec s).2 := by
  rw [sendRecord, Stateful.exec_ite]
  split_ifs
  · exact ⟨Grows.refl s, h⟩
  · rw [encode, Stateful.exec_zoom]
    by_cases henc : SptpsHandshakeCodec.Encodable s.codec.isTcp recordType payload
    · rw [SptpsHandshakeCodec.exec_encode _ _ _ henc]
      exact h.codec_keeps s.codec.inKey_sent s.codec.outKey_sent
    · obtain ⟨e, herror⟩ := SptpsHandshakeCodec.exec_encode_error (p := p) _ _ _ henc
      rw [herror]
      exact h.codec_keeps rfl rfl

lemma SessionInv.drainOutbound_keeps (h : SessionInv p vouched s) :
    Keeps p vouched s s.drainOutbound.2 := by
  have hgrows : Grows s s.drainOutbound.2 := ⟨rfl, rfl, rfl, rfl, List.Subset.refl _⟩
  exact ⟨hgrows, h.of_grows hgrows rfl rfl rfl h.ephemeral h.idle h.signed⟩

/-- A session that has just started has no keys. -/
lemma start_inv {initiator : Bool} {myKey : TincEd25519PrivateKey}
    {peerKey : TincEd25519PublicKey} {label : List UInt8} {codec : SptpsHandshakeCodec}
    {ephemeral : SptpsEphemeralKey} {nonce : Vector UInt8 32} (hin : codec.inKey = none)
    (hout : codec.outKey = none)
    (h : start p initiator myKey peerKey label codec ephemeral nonce = .ok s) :
    SessionInv p vouched s := by
  simp only [start, exec_sendKexWith, Option.isSome_none, Bool.false_eq_true, if_false,
    Except.ok.injEq] at h
  subst h
  refine ⟨?_, by simp [kexSent], by simp [kexSent], ?_, ?_, by simp [kexSent]⟩
  · rintro myKex ecdh hmy hecdh
    cases hmy
    cases hecdh
    rfl
  · simp [kexSent, hin]
  · simp [kexSent, hout]

end Session

/-! ### Sessions under attack -/

section Attack

variable {ι : Type} [DecidableEq ι]

/-- A session of the honest key, with the given label and role, has signed the KEX pair. -/
def PeerSigned (sessions : ι → Option SptpsHandshakeSession) (honest : TincEd25519PublicKey)
    (label : List UInt8) (initiator : Bool) (myKex hisKex : SptpsKex) : Prop :=
  ∃ j t, sessions j = some t ∧ t.myKey.publicKey = honest ∧ t.label = label ∧
    t.initiator = initiator ∧ (myKex, hisKex) ∈ t.signed

/-- Bytes that verify under the honest key only do so for what one of its sessions signed. -/
def Unforged (p : Primitives) (honest : TincEd25519PublicKey)
    (sessions : ι → Option SptpsHandshakeSession) (bytes : List UInt8) : Prop :=
  ∀ message, p.verify honest message bytes = .ok () →
    ∃ label initiator myKex hisKex, PeerSigned sessions honest label initiator myKex hisKex ∧
      message = sptpsSignatureMessage initiator myKex hisKex label

/-- A datagram may be delivered to a session: it carries no forged signature. -/
def Deliverable (p : Primitives) (honest : TincEd25519PublicKey)
    (sessions : ι → Option SptpsHandshakeSession) (s : SptpsHandshakeSession)
    (datagram : List UInt8) : Prop :=
  s.peerKey = honest → ∀ record codec,
    (SptpsHandshakeCodec.decode p datagram).exec s.codec = (.ok record, codec) →
      Unforged p honest sessions record.payload

/-- What sessions an attacker can bring about: he starts any sessions, of any keys, labels and
roles, delivers any datagrams to them, and has them send and rekey as he likes. -/
inductive AttackRun (p : Primitives) (honest : TincEd25519PublicKey) :
    (ι → Option SptpsHandshakeSession) → Prop
  | empty : AttackRun p honest fun _ => none
  | start {sessions : ι → Option SptpsHandshakeSession} {s : SptpsHandshakeSession} {i : ι}
      {initiator : Bool} {myKey : TincEd25519PrivateKey} {peerKey : TincEd25519PublicKey}
      {label : List UInt8} {ephemeral : SptpsEphemeralKey} {nonce : Vector UInt8 32}
      (hrun : AttackRun p honest sessions) (hfree : sessions i = none)
      (hstart : (∃ replayWindowBytes, startWithEphemeral p initiator myKey peerKey label
          replayWindowBytes ephemeral nonce = .ok s) ∨
        startTcpWithEphemeral p initiator myKey peerKey label ephemeral nonce = .ok s) :
      AttackRun p honest (Function.update sessions i (some s))
  | receiveDatagram {sessions : ι → Option SptpsHandshakeSession} {s : SptpsHandshakeSession}
      {i : ι} (hrun : AttackRun p honest sessions) (hs : sessions i = some s) (fresh : Fresh)
      (datagram : List UInt8) (hdeliver : Deliverable p honest sessions s datagram) :
      AttackRun p honest
        (Function.update sessions i (some ((receiveDatagram p fresh datagram).exec s).2))
  | forceKex {sessions : ι → Option SptpsHandshakeSession} {s : SptpsHandshakeSession}
      {i : ι} (hrun : AttackRun p honest sessions) (hs : sessions i = some s) (fresh : Fresh) :
      AttackRun p honest (Function.update sessions i (some ((forceKex p fresh).exec s).2))
  | sendRecord {sessions : ι → Option SptpsHandshakeSession} {s : SptpsHandshakeSession}
      {i : ι} (hrun : AttackRun p honest sessions) (hs : sessions i = some s)
      (recordType : UInt8) (payload : List UInt8) :
      AttackRun p honest
        (Function.update sessions i (some ((sendRecord p recordType payload).exec s).2))
  | drainOutbound {sessions : ι → Option SptpsHandshakeSession} {s : SptpsHandshakeSession}
      {i : ι} (hrun : AttackRun p honest sessions) (hs : sessions i = some s) :
      AttackRun p honest (Function.update sessions i (some s.drainOutbound.2))

/-- The pairs that the honest peer of a session vouches for; other peers are not constrained. -/
def Vouched (sessions : ι → Option SptpsHandshakeSession) (honest : TincEd25519PublicKey)
    (s : SptpsHandshakeSession) (myKex hisKex : SptpsKex) : Prop :=
  s.peerKey = honest → PeerSigned sessions honest s.label (!s.initiator) hisKex myKex

variable {p : Primitives} {honest : TincEd25519PublicKey}
  {sessions : ι → Option SptpsHandshakeSession} {s : SptpsHandshakeSession}

/-- Signatures are never taken back. -/
lemma PeerSigned.update {label : List UInt8} {initiator : Bool} {myKex hisKex : SptpsKex}
    (h : PeerSigned sessions honest label initiator myKex hisKex) {i : ι}
    {s' : SptpsHandshakeSession} (hgrows : ∀ s, sessions i = some s → Grows s s') :
    PeerSigned (Function.update sessions i (some s')) honest label initiator myKex hisKex := by
  obtain ⟨j, t, ht, hkey, hlabel, hinit, hmem⟩ := h
  by_cases hj : j = i
  · subst hj
    have hg := hgrows t ht
    exact ⟨j, s', Function.update_self .., hg.myKey_eq ▸ hkey, hg.label_eq.trans hlabel,
      hg.initiator_eq.trans hinit, hg.signed_subset hmem⟩
  · exact ⟨j, t, by rw [Function.update_of_ne hj, ht], hkey, hlabel, hinit, hmem⟩

omit [DecidableEq ι] in
/-- A signature that a session accepts comes from the honest peer: the message of a signature
determines the role, the label and both KEX records. -/
lemma vouched_of_acceptsSig {data : List UInt8} {myKex hisKex : SptpsKex}
    {ecdh : SptpsEphemeralKey} {sharedSecret : Vector UInt8 32}
    (hacc : AcceptsSig p s data myKex hisKex ecdh sharedSecret)
    (hunforged : s.peerKey = honest → Unforged p honest sessions data) :
    Vouched sessions honest s myKex hisKex := by
  intro hpeer
  obtain ⟨label, initiator, a, b, hsigned, hmessage⟩ :=
    hunforged hpeer _ (hpeer ▸ hacc.verified)
  obtain ⟨rfl, rfl, rfl, rfl⟩ := signatureMessage_inj hmessage
  exact hsigned

/-- **Every session keeps its invariant in every run.** -/
lemma AttackRun.sessionInv (h : AttackRun p honest sessions) :
    ∀ i s, sessions i = some s → SessionInv p (Vouched sessions honest s) s := by
  -- One session moves and keeps its invariant; what others vouched for is still vouched for.
  have hstep : ∀ {sessions : ι → Option SptpsHandshakeSession} {i : ι}
      {s s' : SptpsHandshakeSession}, sessions i = some s →
      (∀ j t, sessions j = some t → SessionInv p (Vouched sessions honest t) t) →
      Keeps p (Vouched sessions honest s) s s' → ∀ j t,
      Function.update sessions i (some s') j = some t →
        SessionInv p (Vouched (Function.update sessions i (some s')) honest t) t := by
    intro sessions i s s' hs ih hkeeps j t ht
    have hgrows : ∀ u, sessions i = some u → Grows u s' := by
      intro u hu
      cases hs.symm.trans hu
      exact hkeeps.1
    by_cases hj : j = i
    · subst hj
      rw [Function.update_self] at ht
      cases ht
      refine hkeeps.2.mono fun myKex hisKex hv hpeer => ?_
      rw [hkeeps.1.label_eq, hkeeps.1.initiator_eq]
      exact (hv (hkeeps.1.peerKey_eq ▸ hpeer)).update hgrows
    · rw [Function.update_of_ne hj] at ht
      exact (ih j t ht).mono fun myKex hisKex hv hpeer => (hv hpeer).update hgrows
  induction h with
  | empty =>
      intro i s hs
      cases hs
  | @start sessions s i _ _ _ _ _ _ _ hfree hstart ih =>
      intro j t ht
      by_cases hj : j = i
      · subst hj
        rw [Function.update_self] at ht
        cases ht
        rcases hstart with ⟨_, hstart⟩ | hstart
        · exact start_inv rfl rfl hstart
        · exact start_inv rfl rfl hstart
      · rw [Function.update_of_ne hj] at ht
        refine (ih j t ht).mono fun myKex hisKex hv hpeer => (hv hpeer).update fun u hu => ?_
        cases hfree.symm.trans hu
  | receiveDatagram _ hs fresh datagram hdeliver ih =>
      refine hstep hs ih ((ih _ _ hs).receiveDatagram_keeps fresh ?_)
      intro record codec hdecode _ _ myKex hisKex ecdh sharedSecret hacc
      exact vouched_of_acceptsSig hacc fun hpeer => hdeliver hpeer record codec hdecode
  | forceKex _ hs fresh ih => exact hstep hs ih ((ih _ _ hs).forceKex_keeps fresh)
  | sendRecord _ hs recordType payload ih =>
      exact hstep hs ih ((ih _ _ hs).sendRecord_keeps recordType payload)
  | drainOutbound _ hs ih => exact hstep hs ih (ih _ _ hs).drainOutbound_keeps

/-- A session leaves the state that waits for a signature only by accepting one. -/
lemma acceptsSig_of_state_ne {fresh : Fresh} {datagram : List UInt8} (hstate : s.state = .sig)
    (hne : ((receiveDatagram p fresh datagram).exec s).2.state ≠ .sig) :
    ∃ record codec myKex hisKex ecdh sharedSecret,
      (SptpsHandshakeCodec.decode p datagram).exec s.codec = (.ok record, codec) ∧
        AcceptsSig p s record.payload myKex hisKex ecdh sharedSecret := by
  rw [receiveDatagram, Stateful.exec_bind, Stateful.exec_zoom] at hne
  generalize hdecode : (SptpsHandshakeCodec.decode p datagram).exec s.codec = r at hne
  obtain ⟨_ | record, codec⟩ := r
  · exact absurd hstate hne
  simp only [Stateful.exec_ite, Stateful.exec_pure, Stateful.exec_throw] at hne
  split_ifs at hne
  · by_contra hnone
    have hrejects : ∀ myKex hisKex ecdh sharedSecret, ¬ AcceptsSig p { s with codec := codec }
        record.payload myKex hisKex ecdh sharedSecret := by
      rintro myKex hisKex ecdh sharedSecret ⟨h1, h2, h3, h4, h5, h6⟩
      exact hnone ⟨record, codec, myKex, hisKex, ecdh, sharedSecret, rfl, h1, h2, h3, h4, h5, h6⟩
    obtain ⟨e, herror⟩ :=
      @exec_receiveHandshake_error p { s with codec := codec } fresh _ hstate hrejects
    rw [herror] at hne
    exact hne hstate
  · exact absurd hstate hne
  · exact absurd hstate hne

/-- Key material from a KEX pair that the session has signed, and that a session of the honest
key has signed in the opposite role and under the same label. -/
def Authentic (p : Primitives) (sessions : ι → Option SptpsHandshakeSession)
    (honest : TincEd25519PublicKey) (s : SptpsHandshakeSession) (material : SptpsKeyMaterial) :
    Prop :=
  DerivedFrom p (fun myKex hisKex =>
    PeerSigned sessions honest s.label (!s.initiator) hisKex myKex) s material

/-- **Authentication**: in every run, the keys of a session with an honest peer come from a KEX
pair that both have signed, and a session that waits for a signature only accepts one that a
session of the honest peer has made for its current KEX pair, in the opposite role and under
the same label. -/
theorem run_authenticated (h : AttackRun p honest sessions) {i : ι} (hs : sessions i = some s)
    (hpeer : s.peerKey = honest) :
    (∀ key, s.codec.inKey = some key → ∃ material,
      Authentic p sessions honest s material ∧ key = (material.keysForRole s.initiator).1) ∧
    (∀ key, s.codec.outKey = some key → ∃ material,
      Authentic p sessions honest s material ∧ key = (material.keysForRole s.initiator).2) ∧
    ∀ fresh datagram, Deliverable p honest sessions s datagram → s.state = .sig →
      ((receiveDatagram p fresh datagram).exec s).2.state ≠ .sig →
        ∃ myKex hisKex, s.myKex = some myKex ∧ s.hisKex = some hisKex ∧
          PeerSigned sessions honest s.label (!s.initiator) hisKex myKex := by
  have hinv := h.sessionInv i s hs
  have hmono : ∀ material, DerivedFrom p (Vouched sessions honest s) s material →
      Authentic p sessions honest s material :=
    fun material hm => hm.mono (Grows.refl s) fun _ _ hv => hv hpeer
  refine ⟨fun key hkey => ?_, fun key hkey => ?_, fun fresh datagram hdeliver hstate hne => ?_⟩
  · obtain ⟨material, hm, heq⟩ := hinv.inKey key hkey
    exact ⟨material, hmono material hm, heq⟩
  · obtain ⟨material, hm, heq⟩ := hinv.outKey key hkey
    exact ⟨material, hmono material hm, heq⟩
  · obtain ⟨record, codec, myKex, hisKex, ecdh, sharedSecret, hdecode, hacc⟩ :=
      acceptsSig_of_state_ne hstate hne
    have hvouched := vouched_of_acceptsSig hacc fun hpeer => hdeliver hpeer record codec hdecode
    exact ⟨myKex, hisKex, hacc.myKex_eq, hacc.hisKex_eq, hvouched hpeer⟩

end Attack

/-! ### A run -/

section Example

/-- A vector of zeros. -/
def zeros (n : ℕ) : Vector UInt8 n := Vector.replicate n 0

/-- The key of Alice. -/
def aliceKey : TincEd25519PrivateKey := ⟨zeros 64, ⟨zeros 32⟩⟩

/-- The key of Bob. -/
def bobKey : TincEd25519PrivateKey := ⟨zeros 64, ⟨Vector.replicate 32 1⟩⟩

/-- What Alice's KEX record holds. -/
def aliceKex : SptpsKex := .new (zeros 32) (zeros 32)

/-- What Bob's KEX record holds. -/
def bobKex : SptpsKex := .new (Vector.replicate 32 1) (zeros 32)

/-- Primitives under which the only signature is the one that Alice makes for Bob. -/
def oneSignature : Primitives where
  chacha20 _ _ _ _ := 0
  poly1305 _ _ := zeros 16
  hmacSha512 _ _ := zeros 64
  sign _ _ := zeros 64
  verify key message signature :=
    if key = aliceKey.publicKey ∧ message = sptpsSignatureMessage true aliceKex bobKex [] ∧
      signature = (zeros 64).toList then .ok () else .error .signatureVerificationFailed
  ephemeralFromSeed seed := ⟨zeros 64, seed⟩
  computeShared _ _ := .ok (zeros 32)

/-- A session that has sent its KEX record. -/
def startedSession (initiator : Bool) (myKey : TincEd25519PrivateKey)
    (peerKey : TincEd25519PublicKey) (nonce : Vector UInt8 32) : SptpsHandshakeSession :=
  kexSent oneSignature
    ⟨initiator, [], myKey, peerKey, .tcp .new, .kex, none, none, none, none, [], []⟩
    ⟨zeros 64, zeros 32⟩ nonce

/-- The session of Alice. -/
def alice : SptpsHandshakeSession :=
  startedSession true aliceKey bobKey.publicKey aliceKex.nonce

/-- The session of Bob. -/
def bob : SptpsHandshakeSession :=
  startedSession false bobKey aliceKey.publicKey bobKex.nonce

/-- A record as it is sent before there are keys. -/
def plainRecord (payload : List UInt8) : List UInt8 :=
  SptpsHandshakeCodec.sealRecord oneSignature true none 0 sptpsHandshake payload

/-- The session after a record that is not encrypted. -/
def received (s : SptpsHandshakeSession) (payload : List UInt8) : SptpsHandshakeSession :=
  ((receiveDatagram oneSignature (.error (.randomFailed "")) (plainRecord payload)).exec s).2

/-- Alice with Bob's KEX record, so that she has signed. -/
def alice' : SptpsHandshakeSession := received alice bobKex.toBytes

/-- Bob with Alice's KEX record and signature. -/
def bob' : SptpsHandshakeSession := received bob aliceKex.toBytes
/-- Bob, after he has accepted a signature. -/
def bob'' : SptpsHandshakeSession := received bob' (zeros 64).toList

example : bob''.isEstablished = true := by decide +kernel

/-- Alice and Bob after Alice has signed and before Bob has her signature, and after that. -/
def beforeSig : Bool → Option SptpsHandshakeSession := fun i =>
  Function.update (Function.update (Function.update (Function.update (fun _ => none)
    true (some alice)) false (some bob)) true (some alice')) false (some bob') i

/-- The sessions after that. -/
def afterSig : Bool → Option SptpsHandshakeSession :=
  Function.update beforeSig false (some bob'')

/-- A record in plain text has its own payload. -/
lemma decode_plainRecord {s : SptpsHandshakeSession} {payload : List UInt8}
    (htcp : s.codec.isTcp = true) (hkey : s.codec.inKey = none) (hlen : payload.length ≤ 65535)
    {record : SptpsRecord} {codec : SptpsHandshakeCodec}
    (h : (SptpsHandshakeCodec.decode oneSignature (plainRecord payload)).exec s.codec =
      (.ok record, codec)) : record.payload = payload := by
  have hdecode := SptpsHandshakeCodec.exec_decode_seal (p := oneSignature) s.codec sptpsHandshake
    payload ⟨UInt8.le_refl _, fun _ => hlen⟩
    fun _ => rfl
  rw [htcp, hkey] at hdecode
  have heq := hdecode.symm.trans h
  simp only [Prod.mk.injEq, Except.ok.injEq] at heq
  rw [← heq.1]

/-- The run up to the signature. -/
lemma attackRun_beforeSig : AttackRun oneSignature aliceKey.publicKey beforeSig := by
  have halice : startTcpWithEphemeral oneSignature true aliceKey bobKey.publicKey []
      ⟨zeros 64, zeros 32⟩ aliceKex.nonce = .ok alice := rfl
  have hbob : startTcpWithEphemeral oneSignature false bobKey aliceKey.publicKey []
      ⟨zeros 64, zeros 32⟩ bobKex.nonce = .ok bob := rfl
  have hstarted : AttackRun oneSignature aliceKey.publicKey _ :=
    (AttackRun.empty.start (i := true) rfl (Or.inr halice)).start (i := false) rfl (Or.inr hbob)
  have hsigned := hstarted.receiveDatagram (i := true) (s := alice) rfl
    (.error (.randomFailed "")) (plainRecord bobKex.toBytes) fun hpeer =>
      absurd hpeer (by decide +kernel)
  refine hsigned.receiveDatagram (i := false) (s := bob) rfl
    (.error (.randomFailed "")) (plainRecord aliceKex.toBytes) fun _ record codec hdecode => ?_
  -- A KEX record is no signature.
  rw [decode_plainRecord rfl rfl (by decide) hdecode]
  intro message hverify
  have hlen : aliceKex.toBytes ≠ (zeros 64).toList := by decide +kernel
  simp [oneSignature, hlen] at hverify

lemma attackRun_afterSig : AttackRun oneSignature aliceKey.publicKey afterSig := by
  refine attackRun_beforeSig.receiveDatagram (i := false) (s := bob') rfl
    (.error (.randomFailed "")) (plainRecord (zeros 64).toList) fun _ record codec hdecode => ?_
  rw [decode_plainRecord rfl (by decide +kernel) (by decide) hdecode]
  intro message hverify
  refine ⟨[], true, aliceKex, bobKex, ⟨true, alice', rfl, rfl, rfl, rfl, ?_⟩, ?_⟩
  · decide +kernel
  · by_contra hne
    simp [oneSignature, hne] at hverify

theorem run_authenticated_bob : ∃ key, bob''.codec.inKey = some key ∧ ∃ material,
    Authentic oneSignature afterSig aliceKey.publicKey bob'' material ∧
      key = (material.keysForRole bob''.initiator).1 := by
  obtain ⟨key, hkey⟩ : ∃ key, bob''.codec.inKey = some key :=
    Option.isSome_iff_exists.mp (by decide +kernel)
  exact ⟨key, hkey, (run_authenticated attackRun_afterSig (i := false) rfl rfl).1 key hkey⟩

end Example

end SptpsHandshakeSession

end RustyTinc

import RustyTinc.Runtime.Meta.Chunks

/-!
The activation of a meta connection.

* `handleMetaLine_outcome`, `handleRecord_outcome`: what lines and records do before a connection
  is activated;
* `Conforms`: what holds of a driver and of the frames that it has handled;
* `receiveAll_activated`: a connection is activated at most once, after an ID line, a handshake
  and an ACK line in the same session.
-/

namespace RustyTinc

open SptpsHandshakeSession (AcceptsSig DerivedFrom SessionInv KeepsInKey)

/-! ### Frames that show who the peer is -/

namespace HandledFrame

variable (p : Primitives) (f : HandledFrame)

/-- The frame is an ID line that is accepted. -/
def AcceptsId (message : IdMessage) : Prop :=
  ∃ line step auth, f.frame = .line line ∧ parseMetaMessage line.toList = .ok (.id message) ∧
    (MetaConnectionAuth.receiveId p message).exec f.auth = (.ok step, auth)

/-- The frame is a record of a session, and holds a signature of the peer over a KEX pair and the
label, which the session verifies. -/
def Verifies (peerKey : TincEd25519PublicKey) (initiator : Bool) (label : List UInt8)
    (myKex hisKex : SptpsKex) : Prop :=
  ∃ bytes session record codec ecdh sharedSecret, f.frame = .sptpsRecord bytes ∧
    f.auth.session = some session ∧ session.peerKey = peerKey ∧ session.initiator = initiator ∧
    session.label = label ∧ session.state = .sig ∧
    (SptpsHandshakeCodec.decode p bytes).exec session.codec = (.ok record, codec) ∧
    record.recordType = sptpsHandshake ∧
    AcceptsSig p session record.payload myKex hisKex ecdh sharedSecret

/-- The frame is a record of a session that has a key for receiving, and holds an ACK line. -/
def HoldsAck (session : SptpsHandshakeSession) : Prop :=
  ∃ bytes record codec line port weight options, f.frame = .sptpsRecord bytes ∧
    f.auth.session = some session ∧ session.codec.inKey.isSome ∧
    (SptpsHandshakeCodec.decode p bytes).exec session.codec = (.ok record, codec) ∧
    record.recordType = sptpsMetaRecord ∧ decodeMetaLine record.payload = .ok line ∧
    parseMetaMessage line.toList = .ok (.ack (.connection port weight options))

end HandledFrame

/-- The frame is the only one with an ID line that is accepted, and it names the peer. -/
structure Named (p : Primitives) (myself peer : String) (earlier : List HandledFrame)
    (id : HandledFrame) (later : List HandledFrame) : Prop where
  accepts : ∃ message, id.AcceptsId p message ∧ message.name = peer
  valid : checkId peer = true
  not_myself : peer ≠ myself
  only : ∀ f ∈ earlier ++ later, ∀ message, ¬ f.AcceptsId p message

/-- A later frame that is not an accepted ID line changes nothing about who the peer is. -/
lemma Named.concat {p : Primitives} {myself peer : String} {earlier later : List HandledFrame}
    {id g : HandledFrame} (h : Named p myself peer earlier id later)
    (hg : ∀ message, ¬ g.AcceptsId p message) :
    Named p myself peer earlier id (later ++ [g]) := by
  refine ⟨h.accepts, h.valid, h.not_myself, fun f hf => ?_⟩
  rw [← List.append_assoc] at hf
  rcases List.mem_append.mp hf with hold | hnew
  · exact h.only f hold
  · obtain rfl := List.mem_singleton.mp hnew
    exact hg

/-- One of the frames holds a signature of the peer for a connection, which is verified. -/
def Verified (p : Primitives) (auth : MetaConnectionAuth) (peer : String)
    (frames : List HandledFrame) (myKex hisKex : SptpsKex) : Prop :=
  ∃ f ∈ frames, f.Verifies p auth.peerKey auth.outgoing (auth.label peer) myKex hisKex

/-- The session of a connection with a peer. -/
structure OwnSession (auth : MetaConnectionAuth) (peer : String) (session : SptpsHandshakeSession) :
    Prop where
  peerKey_eq : session.peerKey = auth.peerKey
  initiator_eq : session.initiator = auth.outgoing
  label_eq : session.label = auth.label peer

/-- A connection with the peer has been activated by a frame, with an ACK line in a session whose
key comes from a handshake with the peer. -/
def Activation (p : Primitives) (auth : MetaConnectionAuth) (peer : String)
    (before : List HandledFrame) (ack : HandledFrame) (after : List HandledFrame) : Prop :=
  ∃ earlier id later session key material, before = earlier ++ id :: later ∧
    Named p auth.myself peer earlier id (later ++ ack :: after) ∧
    OwnSession auth peer session ∧ ack.HoldsAck p session ∧ session.codec.inKey = some key ∧
    DerivedFrom p (Verified p auth peer later) session material ∧
    key = (material.keysForRole session.initiator).1

namespace MetaConnectionEvent

/-- The connection is activated. -/
def IsActivation : MetaConnectionEvent → Bool
  | auth (.activated ..) => true
  | _ => false

/-- An event that only an activated connection gives. -/
def NeedsActivation : MetaConnectionEvent → Bool
  | message (.id _) => false
  | message (.ack _) => false
  | message _ => true
  | tcpPacket _ => true
  | sptpsPacket _ => true
  | _ => false

end MetaConnectionEvent

namespace MetaConnectionDriver

/-- All events so far, also those of calls that have failed. -/
def emitted (d : MetaConnectionDriver) : List MetaConnectionEvent := d.handled.flatMap (·.events)

/-- Chunks are received one after the other, also after a failure. -/
def receiveAll (p : Primitives) : List (List UInt8) → MetaConnectionDriver → MetaConnectionDriver
  | [], d => d
  | data :: rest, d => receiveAll p rest ((receiveBytes p data).exec d).2

/-! ### Lines -/

section Lines

variable {p : Primitives} {d : MetaConnectionDriver} {w : MetaConnectionStep}

/-- What has been collected before does not matter. -/
lemma exec_add {x : DriverM Unit} (h : x.Commutes (around [] w)) : x.exec (d, w) =
    ((x.exec (d, 0)).1, ((x.exec (d, 0)).2.1, w + (x.exec (d, 0)).2.2)) := by
  have haround : ∀ t : MetaConnectionDriver × MetaConnectionStep, around [] w t = (t.1, w + t.2) := by
    intro t
    rw [around, extend, MetaStreamDecoder.extend_nil]
  have hexec := h (d, 0)
  rwa [haround, haround, add_zero] at hexec

/-- What a line does that a connection with security receives before it is activated. -/
inductive LineOutcome (p : Primitives) (d : MetaConnectionDriver) (line : String) :
    Except MetaConnectionError Unit × MetaConnectionDriver × MetaConnectionStep → Prop
  | refused {e : MetaConnectionError} {auth : MetaConnectionAuth}
      {events : List MetaConnectionEvent} (hstate : auth.state = d.auth.state)
      (hsession : auth.session = d.auth.session)
      (hpeer : d.auth.state ≠ .expectId → auth.peer = d.auth.peer)
      (hadvances : d.auth.Advances auth) (hquiet : ∀ e ∈ events, e.IsActivation = false)
      (hid : ∀ message step auth', parseMetaMessage line.toList = .ok (.id message) →
        (MetaConnectionAuth.receiveId p message).exec d.auth ≠ (.ok step, auth')) :
      LineOutcome p d line (.error e, ({ d with auth := auth }, ⟨[], events⟩))
  | id {message : IdMessage} {session : SptpsHandshakeSession} {step : MetaAuthStep}
      (hparse : parseMetaMessage line.toList = .ok (.id message))
      (haccepts : (MetaConnectionAuth.receiveId p message).exec d.auth =
        (.ok step, d.auth.started message.name session)) :
      LineOutcome p d line (.ok (), ({ d with auth := d.auth.started message.name session },
        ⟨session.drainOutbound.1, [.message (.id message)]⟩))
  | ack {peer port port' : String} {weight weight' : ℤ} {options options' : UInt32}
      (hparse : parseMetaMessage line.toList = .ok (.ack (.connection port weight options)))
      (hstate : d.auth.state = .expectAck) (hpeer : d.auth.peer = some peer) :
      LineOutcome p d line (.ok (), ({ d with auth := { d.auth with state := .activated } },
        ⟨[], [.message (.ack (.connection port weight options)),
          .auth (.activated peer port' weight' options')]⟩))

/-- What a line does, by whether it is a message and whether the connection is activated. -/
lemma exec_handleMetaLine (apply : MetaAuthStep → DriverM Unit) (line : String)
    (source : MetaLineSource) : (handleMetaLine p apply line source).exec (d, w) =
      match parseMetaMessage line.toList with
      | .error e => (.error (.parse e), (d, w))
      | .ok message =>
          if d.auth.state ≠ .activated then
            match (MetaConnectionAuth.receiveMetaMessage p message).exec d.auth with
            | (.error e, auth) =>
                (.error (.auth e), ({ d with auth := auth }, w + ⟨[], [.message message]⟩))
            | (.ok authStep, auth) =>
                (apply authStep).exec ({ d with auth := auth }, w + ⟨[], [.message message]⟩)
          else (.ok (), (d.observe source message, w + ⟨[], [.message message]⟩)) := by
  rw [handleMetaLine, Stateful.exec_bind, Stateful.exec_ofExcept]
  cases parseMetaMessage line.toList with
  | error e => rfl
  | ok message =>
      simp only [Except.mapError]
      rw [Stateful.exec_bind, pushEvent, Stateful.exec_modify]
      simp only
      rw [Stateful.exec_bind, Stateful.exec_get]
      simp only [Stateful.exec_ite]
      split_ifs
      · rw [Stateful.exec_bind, onAuth, Stateful.exec_ofFn]
        rcases (MetaConnectionAuth.receiveMetaMessage p message).exec d.auth with ⟨_ | _, _⟩ <;> rfl
      · rfl

lemma exec_applyAuthStep_started (depth : ℕ) (raw : List (List UInt8)) :
    (applyAuthStep p (depth + 1) ⟨[], raw, []⟩).exec (d, w) = (.ok (), (d, w + ⟨raw, []⟩)) := rfl

lemma exec_applyAuthStep_event (depth : ℕ) (raw : List (List UInt8)) {event : MetaAuthEvent}
    (h : IsFinal event) : (applyAuthStep p (depth + 1) ⟨[], raw, [event]⟩).exec (d, w) =
      (.ok (), (d, w + ⟨raw, [.auth event]⟩)) := by
  have hevents : (handleAuthEvents p (applyAuthStep p depth) [event]).exec (d, w + ⟨raw, []⟩) =
      (.ok (), (d, w + ⟨raw, []⟩ + ⟨[], [.auth event]⟩)) := by
    rw [handleAuthEvents, handleAuthEvent_final h]
    rfl
  have hstep : (⟨raw, []⟩ + ⟨[], [.auth event]⟩ : MetaConnectionStep) = ⟨raw, [.auth event]⟩ :=
    MetaConnectionStep.ext (List.append_nil raw) rfl
  rw [add_assoc, hstep] at hevents
  exact hevents

/-- **A line that is received before the activation** is an ID, an ACK, or refused. -/
lemma handleMetaLine_outcome (hbypass : d.auth.bypassSecurity = false)
    (hstate : d.auth.state ≠ .activated) (depth : ℕ) (line : String) (source : MetaLineSource) :
    LineOutcome p d line
      ((handleMetaLine p (applyAuthStep p (depth + 1)) line source).exec (d, 0)) := by
  rw [exec_handleMetaLine]
  have hrefused : ∀ {e auth message}, (MetaConnectionAuth.receiveMetaMessage p message).exec d.auth =
      (.error e, auth) → parseMetaMessage line.toList = .ok message →
      auth.state = d.auth.state → auth.session = d.auth.session →
      (d.auth.state ≠ .expectId → auth = d.auth) →
      LineOutcome p d line (.error (.auth e), ({ d with auth := auth }, ⟨[], [.message message]⟩)) := by
    intro e auth message hexec hparse hsame hsession hauth
    have hadvances := MetaConnectionAuth.receiveMetaMessage_advances (p := p) message d.auth
    rw [hexec] at hadvances
    refine .refused hsame hsession (fun hne => by rw [hauth hne]) hadvances
      (by simp [MetaConnectionEvent.IsActivation]) fun message' step auth' hparse' hok => ?_
    obtain rfl := Except.ok.inj (hparse.symm.trans hparse')
    cases hexec.symm.trans hok
  cases hparse : parseMetaMessage line.toList with
  | error e =>
      exact .refused rfl rfl (fun _ => rfl) (.refl _) (by simp) fun _ _ _ h => by
        rw [hparse] at h
        cases h
  | ok message =>
      simp only
      rw [if_pos hstate]
      cases message with
      | id message =>
          rcases hexec : (MetaConnectionAuth.receiveMetaMessage p (.id message)).exec d.auth
            with ⟨e | step, auth⟩
          · obtain ⟨hsame, hsession, hauth⟩ := MetaConnectionAuth.receiveId_error hexec
            exact hrefused hexec hparse hsame hsession hauth
          · obtain ⟨-, -, -, -, ⟨hb, -, -⟩ | ⟨-, session, -, rfl, rfl⟩⟩ :=
              MetaConnectionAuth.receiveId_eq_ok hexec
            · exact absurd (hbypass.symm.trans hb) Bool.false_ne_true
            · have hrun := LineOutcome.id (d := d) hparse hexec
              simp only
              rw [exec_applyAuthStep_started]
              exact hrun
      | ack message =>
          rcases hexec : (MetaConnectionAuth.receiveMetaMessage p (.ack message)).exec d.auth
            with ⟨e | step, auth⟩
          · have hauth := MetaConnectionAuth.receiveAck_error hexec
            subst hauth
            exact hrefused hexec hparse rfl rfl fun _ => rfl
          · obtain ⟨hack, peer, port, weight, options, hpeer, rfl, rfl, rfl⟩ :=
              MetaConnectionAuth.receiveAck_eq_ok hexec
            have hfinal : IsFinal (.activated peer port (negotiatedWeight d.auth.localWeight weight)
                (negotiatedConnectionOptions d.auth.localOptions options)) := trivial
            simp only
            rw [exec_applyAuthStep_event _ _ hfinal]
            exact .ack hparse hack hpeer
      | _ => exact hrefused rfl hparse rfl rfl fun _ => rfl

end Lines

/-! ### Records -/

/-- What a record makes of the session of a connection. -/
def SessionMoves (p : Primitives) (bytes : List UInt8) (auth auth' : MetaConnectionAuth) : Prop :=
  ∀ session, auth.session = some session → ∀ vouched, SessionInv p vouched session →
    (∀ record codec, (SptpsHandshakeCodec.decode p bytes).exec session.codec = (.ok record, codec) →
      record.recordType = sptpsHandshake → session.state = .sig →
        ∀ myKex hisKex ecdh sharedSecret,
          AcceptsSig p session record.payload myKex hisKex ecdh sharedSecret → vouched myKex hisKex) →
    ∃ session', auth'.session = some session' ∧
      SptpsHandshakeSession.Keeps p vouched session session' ∧ KeepsInKey session session' ∧
      (auth.state = .handshake → auth'.state ≠ .handshake → session'.codec.inKey.isSome)

/-- A record that does not activate the connection. -/
structure QuietRecord (d : MetaConnectionDriver)
    (r : Except MetaConnectionError Unit × MetaConnectionDriver × MetaConnectionStep) : Prop where
  state : r.2.1.auth.state = d.auth.state ∨
    d.auth.state = .handshake ∧ r.2.1.auth.state = .expectAck
  quiet : ∀ e ∈ r.2.2.events, e.IsActivation = false
  guarded : d.auth.state ≠ .activated → r.1 = .ok () → ∀ e ∈ r.2.2.events, e.NeedsActivation = false
  pending : d.auth.state ≠ .activated → r.2.1.pendingTcpPacket = d.pendingTcpPacket ∧
    r.2.1.decoder.pendingBody = d.decoder.pendingBody

/-- A record that activates the connection. -/
structure AckRecord (p : Primitives) (d : MetaConnectionDriver) (bytes : List UInt8)
    (r : Except MetaConnectionError Unit × MetaConnectionDriver × MetaConnectionStep) : Prop where
  before : d.auth.state = .expectAck
  after : r.2.1.auth.state = .activated
  events : ∃ peer port port' weight weight' options options', d.auth.peer = some peer ∧
    r.2.2.events = [.message (.ack (.connection port weight options)),
      .auth (.activated peer port' weight' options')]
  holds : ∀ session, d.auth.session = some session → session.codec.inKey.isSome → ∀ events,
    (⟨d.auth, .sptpsRecord bytes, events⟩ : HandledFrame).HoldsAck p session

section Records

variable {p : Primitives} {d : MetaConnectionDriver} {peer : String}
  {session : SptpsHandshakeSession}

/-- The authentication once a record has been received by its session. -/
def answered (auth : MetaConnectionAuth) (session : SptpsHandshakeSession) : MetaConnectionAuth :=
  { auth.drawn with session := some session.drainOutbound.2 }

/-- The first part of handling a record, in a connection with a session. -/
lemma exec_handleRecord (bytes : List UInt8) (hstate : d.auth.state ≠ .expectId)
    (hpeer : d.auth.peer = some peer) (hsession : d.auth.session = some session) :
    (handleFrame p (.sptpsRecord bytes)).exec (d, 0) =
      match (SptpsHandshakeSession.receiveDatagram p (d.auth.entropy 0) bytes).exec session with
      | (.error e, s) => (.error (.auth (.sptps e)),
          ({ d with auth := { d.auth.drawn with session := some s } }, 0))
      | (.ok events, s) =>
          let r := (answered d.auth s).answerRecord peer events s.drainOutbound.1
          (applyAuthStep p 2 r.1).exec ({ d with auth := r.2 }, 0) := by
  rw [handleFrame, Stateful.exec_bind, onAuth, Stateful.exec_ofFn]
  simp only
  rw [MetaConnectionAuth.exec_receiveSptpsRecord, if_neg hstate, hpeer, hsession]
  simp only
  rcases (SptpsHandshakeSession.receiveDatagram p (d.auth.entropy 0) bytes).exec session
    with ⟨_ | events, s⟩ <;> rfl

/-- The ACK line is sent in the session. -/
lemma exec_applyAuthStep_ack (hplain : d.auth.usesPlaintextMeta = false)
    (hsession : d.auth.session = some session) (raw : List (List UInt8)) (message : MetaMessage) :
    (applyAuthStep p 2 ⟨[message], raw, [.sptpsHandshakeComplete peer]⟩).exec (d, 0) =
      match (SptpsHandshakeSession.sendRecord p sptpsMetaRecord (encodeMetaLine message)).exec
          session with
      | (.error e, s) => (.error (.auth (.sptps e)),
          ({ d with auth := { d.auth with session := some s } }, ⟨raw, []⟩))
      | (.ok bytes, s) => (.ok (), ({ d with auth := { d.auth with session := some s } },
          ⟨raw ++ [bytes], [.auth (.sptpsHandshakeComplete peer)]⟩)) := by
  have hencode : (encodeMessage p message).exec (d, ⟨raw, []⟩) =
      match (SptpsHandshakeSession.sendRecord p sptpsMetaRecord (encodeMetaLine message)).exec
          session with
      | (.error e, s) => (.error (.auth (.sptps e)),
          ({ d with auth := { d.auth with session := some s } }, ⟨raw, []⟩))
      | (.ok bytes, s) => (.ok bytes,
          ({ d with auth := { d.auth with session := some s } }, ⟨raw, []⟩)) := by
    rw [encodeMessage, Stateful.exec_bind, Stateful.exec_get]
    simp only [hplain, Bool.false_eq_true, if_false, onAuth, Stateful.exec_ofFn,
      MetaConnectionAuth.sendSptpsApplication, MetaConnectionAuth.onSession, hsession]
    rcases (SptpsHandshakeSession.sendRecord p sptpsMetaRecord (encodeMetaLine message)).exec
      session with ⟨_ | _, _⟩ <;> rfl
  rw [applyAuthStep, Stateful.exec_bind, pushOutbound, Stateful.exec_modify]
  simp only
  rw [zero_add, Stateful.exec_bind, pushMessages, Stateful.exec_bind, hencode]
  rcases (SptpsHandshakeSession.sendRecord p sptpsMetaRecord (encodeMetaLine message)).exec session
    with ⟨_ | bytes, s⟩
  · rfl
  · have hstep : (⟨raw, []⟩ + ⟨[bytes], []⟩ + ⟨[], [.auth (.sptpsHandshakeComplete peer)]⟩ :
        MetaConnectionStep) = ⟨raw ++ [bytes], [.auth (.sptpsHandshakeComplete peer)]⟩ :=
      MetaConnectionStep.ext (List.append_nil _) rfl
    simp only
    rw [← hstep]
    rfl

/-- Application data is handled after what the session has queued. -/
lemma exec_applyAuthStep_application (raw : List (List UInt8)) (recordType : UInt8)
    (payload : List UInt8) :
    (applyAuthStep p 2 ⟨[], raw, [.applicationRecord recordType payload]⟩).exec (d, 0) =
      let r := (handleSptpsApplication p (applyAuthStep p 1) recordType payload).exec (d, 0)
      (r.1, (r.2.1, ⟨raw, []⟩ + r.2.2)) := by
  have hcommutes : (handleSptpsApplication p (applyAuthStep p 1) recordType payload).Commutes
      (around [] ⟨raw, []⟩) :=
    handleSptpsApplication_commutes (applyAuthStep_commutes 1) recordType payload
  have hexec : (applyAuthStep p 2 ⟨[], raw, [.applicationRecord recordType payload]⟩).exec (d, 0) =
      (handleSptpsApplication p (applyAuthStep p 1) recordType payload >>= fun _ => pure ()).exec
        (d, ⟨raw, []⟩) := rfl
  rw [hexec, Stateful.exec_bind, exec_add hcommutes]
  rcases (handleSptpsApplication p (applyAuthStep p 1) recordType payload).exec (d, 0)
    with ⟨_ | _, _⟩ <;> rfl

/-- What application data does before the activation: it is passed on, or it is a line. -/
lemma handleSptpsApplication_outcome (hbypass : d.auth.bypassSecurity = false)
    (hstate : d.auth.state ≠ .activated) (hpending : d.pendingTcpPacket = none)
    (recordType : UInt8) (payload : List UInt8) :
    (handleSptpsApplication p (applyAuthStep p 1) recordType payload).exec (d, 0) =
        (.ok (), (d, ⟨[], [.applicationRecord recordType payload]⟩)) ∨
      (∃ e, (handleSptpsApplication p (applyAuthStep p 1) recordType payload).exec (d, 0) =
        (.error e, (d, 0))) ∨
      recordType = sptpsMetaRecord ∧ ∃ line, decodeMetaLine payload = .ok line ∧ LineOutcome p d line
        ((handleSptpsApplication p (applyAuthStep p 1) recordType payload).exec (d, 0)) := by
  by_cases htype : recordType = sptpsMetaRecord
  · right
    rw [handleSptpsApplication, if_neg (not_not.mpr htype), Stateful.exec_bind, Stateful.exec_get]
    simp only [hpending]
    rw [Stateful.exec_bind, Stateful.exec_ofExcept]
    cases hline : decodeMetaLine payload with
    | error e => exact Or.inl ⟨_, rfl⟩
    | ok line =>
        exact Or.inr ⟨htype, line, rfl, handleMetaLine_outcome hbypass hstate 0 line _⟩
  · left
    rw [handleSptpsApplication, if_pos htype]
    rfl

/-- Application data of an activated connection does not change the authentication. -/
lemma handleSptpsApplication_activated (hstate : d.auth.state = .activated) (recordType : UInt8)
    (payload : List UInt8) :
    ((handleSptpsApplication p (applyAuthStep p 1) recordType payload).exec (d, 0)).2.1.auth =
        d.auth ∧
      ∀ e ∈ ((handleSptpsApplication p (applyAuthStep p 1) recordType payload).exec
        (d, 0)).2.2.events, e.IsActivation = false := by
  rw [handleSptpsApplication, Stateful.exec_ite]
  split_ifs with htype
  · exact ⟨rfl, by simp [pushEvent, MetaConnectionEvent.IsActivation]⟩
  · rw [Stateful.exec_bind, Stateful.exec_get]
    simp only
    cases hpending : d.pendingTcpPacket with
    | some expected =>
        simp only
        rw [Stateful.exec_bind, Stateful.exec_modify]
        simp only [Stateful.exec_ite]
        split_ifs
        · exact ⟨rfl, by simp⟩
        · exact ⟨rfl, by simp [pushEvent, MetaConnectionEvent.IsActivation]⟩
    | none =>
        simp only
        rw [Stateful.exec_bind, Stateful.exec_ofExcept]
        cases decodeMetaLine payload with
        | error e => exact ⟨rfl, by simp [Except.mapError]⟩
        | ok line =>
            simp only [Except.mapError]
            rw [exec_handleMetaLine]
            cases parseMetaMessage line.toList with
            | error e => exact ⟨rfl, by simp⟩
            | ok message =>
                simp only [hstate, ne_eq, not_true_eq_false, if_false]
                refine ⟨?_, by simp [MetaConnectionEvent.IsActivation]⟩
                cases message <;> rfl

/-- What a record does, in a connection with a session. -/
structure RecordOutcome (p : Primitives) (d : MetaConnectionDriver) (bytes : List UInt8)
    (r : Except MetaConnectionError Unit × MetaConnectionDriver × MetaConnectionStep) : Prop where
  peer_eq : r.2.1.auth.peer = d.auth.peer
  session : SessionMoves p bytes d.auth r.2.1.auth
  kind : QuietRecord d r ∨ AckRecord p d bytes r

/-- A record, and what comes after it, move the session on. -/
lemma sessionMoves_of {auth' : MetaConnectionAuth} {bytes : List UInt8}
    {s s' : SptpsHandshakeSession} (hsession : d.auth.session = some session)
    (hexec : ((SptpsHandshakeSession.receiveDatagram p (d.auth.entropy 0) bytes).exec session).2 = s)
    (hsession' : auth'.session = some s')
    (hkeeps : ∀ vouched, SessionInv p vouched s → SptpsHandshakeSession.Keeps p vouched s s')
    (hkey : KeepsInKey s s')
    (hcomplete : d.auth.state = .handshake → auth'.state ≠ .handshake → s'.codec.inKey.isSome) :
    SessionMoves p bytes d.auth auth' := by
  intro session' hsession'' vouched hinv hvouched
  obtain rfl := Option.some.inj (hsession.symm.trans hsession'')
  have hmoved := hinv.receiveDatagram_keeps (d.auth.entropy 0) hvouched
  have hkept := SptpsHandshakeSession.receiveDatagram_keepsInKey (p := p) (d.auth.entropy 0) bytes
    session
  rw [hexec] at hmoved hkept
  exact ⟨s', hsession', hmoved.trans (hkeeps vouched hmoved.2), fun h => hkey (hkept h), hcomplete⟩

section Received

variable {bytes : List UInt8} {s : SptpsHandshakeSession}
  (hstate : d.auth.state ≠ .expectId) (hpeer : d.auth.peer = some peer)
  (hsession : d.auth.session = some session)
include hstate hpeer hsession

/-- A record that the session does not accept. -/
lemma handleRecord_refused {e : SptpsError}
    (hexec : (SptpsHandshakeSession.receiveDatagram p (d.auth.entropy 0) bytes).exec session =
      (.error e, s)) :
    RecordOutcome p d bytes ((handleFrame p (.sptpsRecord bytes)).exec (d, 0)) := by
  rw [exec_handleRecord bytes hstate hpeer hsession, hexec]
  refine ⟨rfl, sessionMoves_of hsession (congrArg Prod.snd hexec) rfl
    (fun vouched h => ⟨.refl s, h⟩) (.refl s) fun h h' => absurd h h', Or.inl ?_⟩
  exact ⟨Or.inl rfl, by simp, by simp, fun _ => ⟨rfl, rfl⟩⟩

/-- A record of a handshake that is not complete. -/
lemma handleRecord_started
    (hexec : (SptpsHandshakeSession.receiveDatagram p (d.auth.entropy 0) bytes).exec session =
      (.ok [], s)) :
    RecordOutcome p d bytes ((handleFrame p (.sptpsRecord bytes)).exec (d, 0)) := by
  rw [exec_handleRecord bytes hstate hpeer hsession, hexec]
  have hanswer : (answered d.auth s).answerRecord peer [] s.drainOutbound.1 =
      (⟨[], s.drainOutbound.1, []⟩, answered d.auth s) := rfl
  simp only [hanswer, exec_applyAuthStep_started]
  refine ⟨rfl, sessionMoves_of hsession (congrArg Prod.snd hexec) rfl
    (fun _ h => h.drainOutbound_keeps) (fun h => h) fun h h' => absurd h h', Or.inl ?_⟩
  exact ⟨Or.inl rfl, by simp, by simp, fun _ => ⟨rfl, rfl⟩⟩

/-- The last record of the first handshake, which is answered with an ACK. -/
lemma handleRecord_complete (hbypass : d.auth.bypassSecurity = false)
    (hhandshake : d.auth.state = .handshake) (hkey : s.codec.inKey.isSome)
    (hexec : (SptpsHandshakeSession.receiveDatagram p (d.auth.entropy 0) bytes).exec session =
      (.ok [.handshakeComplete], s)) :
    RecordOutcome p d bytes ((handleFrame p (.sptpsRecord bytes)).exec (d, 0)) := by
  rw [exec_handleRecord bytes hstate hpeer hsession, hexec]
  have hanswer : (answered d.auth s).answerRecord peer [.handshakeComplete]
      s.drainOutbound.1 = (⟨[(answered d.auth s).ackMessage], s.drainOutbound.1,
        [.sptpsHandshakeComplete peer]⟩, { answered d.auth s with state := .expectAck }) := by
    rw [MetaConnectionAuth.answerRecord, if_pos List.mem_cons_self]
    exact if_pos hhandshake
  have hplain : ({ answered d.auth s with state := .expectAck } :
      MetaConnectionAuth).usesPlaintextMeta = false := by
    rw [MetaConnectionAuth.usesPlaintextMeta]
    simp [answered, MetaConnectionAuth.drawn, hbypass]
  simp only [hanswer]
  rw [exec_applyAuthStep_ack hplain rfl]
  -- the ACK is sent in the session
  have hsend : ∀ {r s'}, (SptpsHandshakeSession.sendRecord p sptpsMetaRecord (encodeMetaLine
      (answered d.auth s).ackMessage)).exec s.drainOutbound.2 = (r, s') →
      (∀ vouched, SessionInv p vouched s → SptpsHandshakeSession.Keeps p vouched s s') ∧
        KeepsInKey s s' := by
    intro r s' hr
    refine ⟨fun vouched h => ?_, ?_⟩
    · have hdrained := h.drainOutbound_keeps
      have hkept := hdrained.2.sendRecord_keeps sptpsMetaRecord (encodeMetaLine
        (answered d.auth s).ackMessage)
      rw [hr] at hkept
      exact hdrained.trans hkept
    · have hkept := SptpsHandshakeSession.sendRecord_keepsInKey (p := p) sptpsMetaRecord
        (encodeMetaLine (answered d.auth s).ackMessage) s.drainOutbound.2
      rw [hr] at hkept
      exact hkept
  rcases hr : (SptpsHandshakeSession.sendRecord p sptpsMetaRecord (encodeMetaLine
    (answered d.auth s).ackMessage)).exec s.drainOutbound.2 with ⟨e | sent, s'⟩
  all_goals
    obtain ⟨hkeeps, hkept⟩ := hsend hr
    refine ⟨rfl, sessionMoves_of hsession (congrArg Prod.snd hexec) rfl hkeeps hkept
      fun _ _ => hkept hkey, Or.inl ?_⟩
    exact ⟨Or.inr ⟨hhandshake, rfl⟩, by simp [MetaConnectionEvent.IsActivation],
      by simp [MetaConnectionEvent.NeedsActivation], fun _ => ⟨rfl, rfl⟩⟩

/-- The last record of a later handshake. -/
lemma handleRecord_rekeyed (hhandshake : d.auth.state ≠ .handshake)
    (hexec : (SptpsHandshakeSession.receiveDatagram p (d.auth.entropy 0) bytes).exec session =
      (.ok [.handshakeComplete], s)) :
    RecordOutcome p d bytes ((handleFrame p (.sptpsRecord bytes)).exec (d, 0)) := by
  rw [exec_handleRecord bytes hstate hpeer hsession, hexec]
  have hanswer : (answered d.auth s).answerRecord peer [.handshakeComplete]
      s.drainOutbound.1 = (⟨[], s.drainOutbound.1, [.sptpsHandshakeComplete peer]⟩,
        answered d.auth s) := by
    rw [MetaConnectionAuth.answerRecord, if_pos List.mem_cons_self]
    exact if_neg hhandshake
  have hfinal : IsFinal (.sptpsHandshakeComplete peer) := trivial
  simp only [hanswer]
  rw [exec_applyAuthStep_event _ _ hfinal]
  refine ⟨rfl, sessionMoves_of hsession (congrArg Prod.snd hexec) rfl
    (fun _ h => h.drainOutbound_keeps) (fun h => h) fun h => absurd h hhandshake, Or.inl ?_⟩
  exact ⟨Or.inl rfl, by simp [MetaConnectionEvent.IsActivation],
    by simp [MetaConnectionEvent.NeedsActivation], fun _ => ⟨rfl, rfl⟩⟩

/-- A record with application data. -/
lemma handleRecord_application (hbypass : d.auth.bypassSecurity = false)
    (hpending : d.auth.state ≠ .activated → d.pendingTcpPacket = none)
    {record : SptpsRecord} {codec : SptpsHandshakeCodec}
    (hdecode : (SptpsHandshakeCodec.decode p bytes).exec session.codec = (.ok record, codec))
    (hexec : (SptpsHandshakeSession.receiveDatagram p (d.auth.entropy 0) bytes).exec session =
      (.ok [.applicationRecord record.recordType record.payload], { session with codec })) :
    RecordOutcome p d bytes ((handleFrame p (.sptpsRecord bytes)).exec (d, 0)) := by
  rw [exec_handleRecord bytes hstate hpeer hsession, hexec]
  set s : SptpsHandshakeSession := { session with codec := codec } with hs
  have hanswer : (answered d.auth s).answerRecord peer
      [.applicationRecord record.recordType record.payload] s.drainOutbound.1 =
        (⟨[], s.drainOutbound.1, [.applicationRecord record.recordType record.payload]⟩,
          answered d.auth s) := by
    simp [MetaConnectionAuth.answerRecord, MetaConnectionAuth.applicationRecords]
  simp only [hanswer, exec_applyAuthStep_application]
  set d' : MetaConnectionDriver := { d with auth := answered d.auth s } with hd'
  have hmoves : ∀ {auth' : MetaConnectionAuth}, auth'.session = (answered d.auth s).session →
      (d.auth.state = .handshake → auth'.state = .handshake) →
        SessionMoves p bytes d.auth auth' := fun hsame hsame' =>
    sessionMoves_of hsession (congrArg Prod.snd hexec) hsame (fun _ h => h.drainOutbound_keeps)
      (fun h => h) fun h h' => absurd (hsame' h) h'
  by_cases hactivated : d.auth.state = .activated
  · obtain ⟨hauth, hquiet⟩ := handleSptpsApplication_activated (p := p) (d := d') hactivated
      record.recordType record.payload
    refine ⟨by rw [hauth]; rfl, hmoves (by rw [hauth]) fun h => by rw [hauth]; exact h,
      Or.inl ⟨Or.inl (by rw [hauth]; rfl), hquiet, fun h => absurd hactivated h,
        fun h => absurd hactivated h⟩⟩
  · rcases handleSptpsApplication_outcome (p := p) (d := d') hbypass hactivated
      (hpending hactivated) record.recordType record.payload with hr | ⟨e, hr⟩ |
        ⟨htype, line, hline, hr⟩
    · rw [hr]
      refine ⟨rfl, hmoves rfl fun h => h, Or.inl ⟨Or.inl rfl, ?_, ?_, fun _ => ⟨rfl, rfl⟩⟩⟩
      · simp [MetaConnectionEvent.IsActivation]
      · simp [MetaConnectionEvent.NeedsActivation]
    · rw [hr]
      exact ⟨rfl, hmoves rfl fun h => h, Or.inl ⟨Or.inl rfl, by simp, by simp,
        fun _ => ⟨rfl, rfl⟩⟩⟩
    · generalize (handleSptpsApplication p (applyAuthStep p 1) record.recordType
        record.payload).exec (d', 0) = r at hr
      cases hr with
      | refused hsame hsession' hpeer' _ hquiet _ =>
          exact ⟨hpeer' hstate, hmoves hsession' fun h => hsame.trans h,
            Or.inl ⟨Or.inl hsame, hquiet, by simp, fun _ => ⟨rfl, rfl⟩⟩⟩
      | id _ haccepts =>
          exact absurd (MetaConnectionAuth.receiveId_eq_ok haccepts).1 hstate
      | ack hparse hexpect hpeer' =>
          refine ⟨rfl, hmoves rfl fun h => ?_, Or.inr ⟨hexpect, rfl, ?_, ?_⟩⟩
          · exact absurd (hexpect.symm.trans h) (by decide)
          · exact ⟨_, _, _, _, _, _, _, hpeer', rfl⟩
          · intro session' hsession' hkey events
            obtain rfl := Option.some.inj (hsession.symm.trans hsession')
            exact ⟨bytes, record, codec, line, _, _, _, rfl, hsession, hkey, hdecode, htype,
              hline, hparse⟩

/-- **What a record does** in a connection with security that has a session. -/
lemma handleRecord_outcome (hbypass : d.auth.bypassSecurity = false)
    (hpending : d.auth.state ≠ .activated → d.pendingTcpPacket = none) :
    RecordOutcome p d bytes ((handleFrame p (.sptpsRecord bytes)).exec (d, 0)) := by
  rcases hexec : (SptpsHandshakeSession.receiveDatagram p (d.auth.entropy 0) bytes).exec session
    with ⟨e | events, s⟩
  · exact handleRecord_refused hstate hpeer hsession hexec
  · rcases SptpsHandshakeSession.receiveDatagram_ok hexec with rfl | ⟨rfl, hkey⟩ |
      ⟨record, codec, hdecode, -, rfl, rfl⟩
    · exact handleRecord_started hstate hpeer hsession hexec
    · by_cases hhandshake : d.auth.state = .handshake
      · exact handleRecord_complete hstate hpeer hsession hbypass hhandshake hkey hexec
      · exact handleRecord_rekeyed hstate hpeer hsession hhandshake hexec
    · exact handleRecord_application hstate hpeer hsession hbypass hpending hdecode hexec

end Received

end Records

/-! ### What holds of a driver -/

/-- What holds of a driver that began with the given authentication. -/
structure Conforms (p : Primitives) (auth : MetaConnectionAuth) (d : MetaConnectionDriver) :
    Prop where
  advances : auth.Advances d.auth
  pending : d.auth.state ≠ .activated →
    d.decoder.pendingBody = none ∧ d.pendingTcpPacket = none
  unnamed : d.auth.state = .expectId → ∀ f ∈ d.handled, ∀ message, ¬ f.AcceptsId p message
  named : d.auth.state ≠ .expectId → ∃ peer earlier id later session, d.auth.peer = some peer ∧
    d.handled = earlier ++ id :: later ∧ Named p auth.myself peer earlier id later ∧
    d.auth.session = some session ∧ OwnSession auth peer session ∧
    SessionInv p (Verified p auth peer later) session ∧
    (d.auth.state ≠ .handshake → session.codec.inKey.isSome)
  count : d.emitted.countP MetaConnectionEvent.IsActivation =
    if d.auth.state = .activated then 1 else 0
  evidence : ∀ before f after, d.handled = before ++ f :: after →
    ∀ peer port weight options, .auth (.activated peer port weight options) ∈ f.events →
      Activation p auth peer before f after

section Conforms

variable {p : Primitives} {auth : MetaConnectionAuth} {d t : MetaConnectionDriver}

lemma emitted_noted (f : HandledFrame) : (t.noted f).emitted = t.emitted ++ f.events := by
  simp [emitted, noted]

/-- Only the first state accepts an ID line. -/
lemma not_acceptsId {f : HandledFrame} (h : f.auth.state ≠ .expectId) (message : IdMessage) :
    ¬ f.AcceptsId p message := by
  rintro ⟨line, step, auth', -, -, haccepts⟩
  exact h (MetaConnectionAuth.receiveId_eq_ok haccepts).1

lemma activation_extend {peer : String} {before after : List HandledFrame} {f g : HandledFrame}
    (h : Activation p auth peer before f after) (hg : ∀ message, ¬ g.AcceptsId p message) :
    Activation p auth peer before f (after ++ [g]) := by
  obtain ⟨earlier, id, later, session, key, material, hbefore, hnamed, hrest⟩ := h
  have hlater := hnamed.concat hg
  rw [List.append_assoc, List.cons_append] at hlater
  exact ⟨earlier, id, later, session, key, material, hbefore, hlater, hrest⟩

/-- Where the frames so far end with a new one. -/
lemma split_concat {handled before after : List HandledFrame} {f g : HandledFrame}
    (h : handled ++ [g] = before ++ f :: after) :
    (∃ after', after = after' ++ [g] ∧ handled = before ++ f :: after') ∨
      after = [] ∧ f = g ∧ before = handled := by
  rcases List.eq_nil_or_concat after with rfl | ⟨after', g', rfl⟩
  · obtain ⟨hbefore, hf⟩ := List.append_inj' h rfl
    exact Or.inr ⟨rfl, (List.cons.inj hf).1.symm, hbefore.symm⟩
  · have h' : handled ++ [g] = (before ++ f :: after') ++ [g'] := by
      rw [h, List.concat_eq_append, List.append_assoc, List.cons_append]
    obtain ⟨hhandled, hg⟩ := List.append_inj' h' rfl
    obtain rfl := (List.cons.inj hg).1
    exact Or.inl ⟨after', List.concat_eq_append, hhandled⟩

/-- No frame has activated a connection that is not activated. -/
lemma Conforms.not_activation (h : Conforms p auth d) (hstate : d.auth.state ≠ .activated)
    {f : HandledFrame} (hf : f ∈ d.handled) {e : MetaConnectionEvent} (he : e ∈ f.events) :
    e.IsActivation = false := by
  have hcount := h.count
  rw [if_neg hstate, List.countP_eq_zero] at hcount
  exact Bool.eq_false_iff.mpr (hcount e (List.mem_flatMap.mpr ⟨f, hf, he⟩))

/-- The evidence after a frame that does not activate the connection. -/
lemma Conforms.evidence_quiet (h : Conforms p auth d) {g : HandledFrame} (hg : g.auth = d.auth)
    (hquiet : ∀ e ∈ g.events, e.IsActivation = false) :
    ∀ before f after, d.handled ++ [g] = before ++ f :: after →
      ∀ peer port weight options, .auth (.activated peer port weight options) ∈ f.events →
        Activation p auth peer before f after := by
  intro before f after hsplit peer port weight options hmem
  rcases split_concat hsplit with ⟨after', rfl, hhandled⟩ | ⟨-, rfl, -⟩
  · have hf : f ∈ d.handled := by
      rw [hhandled]
      exact List.mem_append_right _ List.mem_cons_self
    have hactivated : d.auth.state = .activated := by
      by_contra hstate
      have hnone := h.not_activation hstate hf hmem
      cases hnone
    refine activation_extend (h.evidence before f after' hhandled peer port weight options hmem)
      (not_acceptsId ?_)
    rw [hg, hactivated]
    decide
  · cases hquiet _ hmem

lemma countP_quiet {events : List MetaConnectionEvent}
    (h : ∀ e ∈ events, e.IsActivation = false) :
    events.countP MetaConnectionEvent.IsActivation = 0 := by
  rw [List.countP_eq_zero]
  exact fun e he => Bool.eq_false_iff.mp (h e he)

/-- What a frame keeps, and what it gives when it is handled well. -/
def FrameKept (p : Primitives) (auth : MetaConnectionAuth) (d : MetaConnectionDriver)
    (frame : MetaStreamFrame) : Prop :=
  let r := (handleFrame p frame).exec (d, 0)
  Conforms p auth (r.2.1.noted ⟨d.auth, frame, r.2.2.events⟩) ∧
    (d.auth.state ≠ .activated → r.1 = .ok () → ∀ e ∈ r.2.2.events, e.NeedsActivation = false)

/-- The session with a peer that has just named itself. -/
lemma ownSession_of_startTcp {peer : String} {session : SptpsHandshakeSession}
    (hadvances : auth.Advances d.auth)
    (h : SptpsHandshakeSession.startTcp p d.auth.outgoing d.auth.privateKey d.auth.peerKey
      (d.auth.label peer) (d.auth.entropy 0) = .ok session)
    (vouched : SptpsKex → SptpsKex → Prop) :
    OwnSession auth peer session.drainOutbound.2 ∧
      SessionInv p vouched session.drainOutbound.2 := by
  unfold SptpsHandshakeSession.startTcp at h
  split at h
  · cases h
  · next seed nonce _ =>
      have hinv := @SptpsHandshakeSession.start_inv p vouched _ _ _ _ _ _ _ _ rfl rfl h
      refine ⟨?_, hinv.drainOutbound_keeps.2⟩
      simp only [SptpsHandshakeSession.startTcpWithEphemeral, SptpsHandshakeSession.start,
        SptpsHandshakeSession.exec_sendKexWith, Option.isSome_none, Bool.false_eq_true, if_false,
        Except.ok.injEq] at h
      subst h
      refine ⟨hadvances.peerKey_eq, hadvances.outgoing_eq, ?_⟩
      show d.auth.label peer = auth.label peer
      rw [MetaConnectionAuth.label, MetaConnectionAuth.label, hadvances.outgoing_eq,
        hadvances.myself_eq]

/-- A line keeps what holds of the driver. -/
lemma Conforms.line (h : Conforms p auth d) (hbypass : auth.bypassSecurity = false)
    (hstate : d.auth.state = .expectId) (line : String) : FrameKept p auth d (.line line) := by
  have hactivated : d.auth.state ≠ .activated := by
    rw [hstate]
    decide
  have houtcome := handleMetaLine_outcome (p := p) (d := d)
    (h.advances.bypassSecurity_eq.trans hbypass) hactivated 0 line .plaintext
  have heffect := (handleFrame_effect (p := p) (.line line) (d, 0)).advances
  obtain ⟨hbody, htcp⟩ := h.pending hactivated
  rw [FrameKept]
  change LineOutcome p d line ((handleFrame p (.line line)).exec (d, 0)) at houtcome
  generalize (handleFrame p (.line line)).exec (d, 0) = r at houtcome heffect ⊢
  cases houtcome with
  | @refused e auth' events hsame hsession hpeer _ hquiet hid =>
      have hexpect : auth'.state = .expectId := hsame.trans hstate
      refine ⟨⟨h.advances.trans heffect, fun _ => ⟨hbody, htcp⟩, fun _ f hf message => ?_,
        fun hne => absurd hexpect hne, ?_, h.evidence_quiet rfl hquiet⟩, by simp⟩
      · rcases List.mem_append.mp hf with hold | hnew
        · exact h.unnamed hstate f hold message
        · obtain rfl := List.mem_singleton.mp hnew
          rintro ⟨line', step, auth'', hline, hparse, haccepts⟩
          cases hline
          exact hid message step auth'' hparse haccepts
      · have hcount := h.count
        rw [if_neg hactivated] at hcount
        rw [emitted_noted, List.countP_append, countP_quiet hquiet, if_neg (by simp [hexpect, noted])]
        exact hcount
  | @id message session step hparse haccepts =>
      obtain ⟨-, hvalid, hself, -, hcase⟩ := MetaConnectionAuth.receiveId_eq_ok haccepts
      have hstart : ∃ session', SptpsHandshakeSession.startTcp p d.auth.outgoing d.auth.privateKey
          d.auth.peerKey (d.auth.label message.name) (d.auth.entropy 0) = .ok session' ∧
            session'.drainOutbound.2 = session.drainOutbound.2 := by
        rcases hcase with ⟨hb, -, -⟩ | ⟨-, session', hstart, -, hstarted⟩
        · exact absurd ((h.advances.bypassSecurity_eq.trans hbypass).symm.trans hb) (by simp)
        · have hdrained := congrArg MetaConnectionAuth.session hstarted
          exact ⟨session', hstart, (Option.some.inj hdrained).symm⟩
      obtain ⟨session', hstart, hdrained⟩ := hstart
      obtain ⟨hown, hinv⟩ := ownSession_of_startTcp h.advances hstart
        (Verified p auth message.name [])
      rw [hdrained] at hown hinv
      have hquiet : ∀ e ∈ ([.message (.id message)] : List MetaConnectionEvent),
          e.IsActivation = false := by simp [MetaConnectionEvent.IsActivation]
      refine ⟨⟨h.advances.trans heffect, fun _ => ⟨hbody, htcp⟩, fun hexpect => ?_, fun _ => ?_, ?_,
        h.evidence_quiet rfl hquiet⟩, fun _ _ => by simp [MetaConnectionEvent.NeedsActivation]⟩
      · cases hexpect
      · refine ⟨message.name, d.handled, _, [], session.drainOutbound.2, rfl, rfl,
          ⟨⟨message, ⟨line, step, _, rfl, hparse, haccepts⟩, rfl⟩, hvalid, ?_, ?_⟩, rfl, hown, hinv,
          fun hne => absurd rfl hne⟩
        · rwa [h.advances.myself_eq] at hself
        · rw [List.append_nil]
          exact h.unnamed hstate
      · have hcount := h.count
        rw [if_neg hactivated] at hcount
        rw [emitted_noted, List.countP_append, countP_quiet hquiet,
          if_neg (by simp [noted, MetaConnectionAuth.started])]
        exact hcount
  | ack _ hexpect _ => exact absurd (hstate.symm.trans hexpect) (by decide)

/-- After a record, the peer is still the one that has named itself, and the session is its own. -/
lemma Conforms.record_named (h : Conforms p auth d) (hstate : d.auth.state ≠ .expectId)
    {bytes : List UInt8} {r : Except MetaConnectionError Unit × MetaConnectionDriver ×
      MetaConnectionStep} (hhandled : r.2.1.handled = d.handled)
    (hrecord : RecordOutcome p d bytes r) :
    ∃ peer earlier id later session, r.2.1.auth.peer = some peer ∧
      (r.2.1.noted ⟨d.auth, .sptpsRecord bytes, r.2.2.events⟩).handled = earlier ++ id :: later ∧
      Named p auth.myself peer earlier id later ∧ r.2.1.auth.session = some session ∧
      OwnSession auth peer session ∧ SessionInv p (Verified p auth peer later) session ∧
      (r.2.1.auth.state ≠ .handshake → session.codec.inKey.isSome) := by
  obtain ⟨peer, earlier, id, later, session, hpeer, hsplit, hnamed, hsession, hown, hinv, hkey⟩ :=
    h.named hstate
  set g : HandledFrame := ⟨d.auth, .sptpsRecord bytes, r.2.2.events⟩ with hg
  -- a signature that the session accepts is verified by this frame
  obtain ⟨session', hsession', hkeeps, hkept, hcomplete⟩ := hrecord.session session hsession
    (Verified p auth peer (later ++ [g]))
    (hinv.mono fun myKex hisKex ⟨f, hf, hv⟩ => ⟨f, List.mem_append_left _ hf, hv⟩)
    fun record codec hdecode htype hsig myKex hisKex ecdh sharedSecret hacc =>
      ⟨g, List.mem_append_right _ List.mem_cons_self, bytes, session, record, codec, ecdh,
        sharedSecret, rfl, hsession, hown.peerKey_eq, hown.initiator_eq, hown.label_eq, hsig,
        hdecode, htype, hacc⟩
  have hown' : OwnSession auth peer session' :=
    ⟨hkeeps.1.peerKey_eq.trans hown.peerKey_eq, hkeeps.1.initiator_eq.trans hown.initiator_eq,
      hkeeps.1.label_eq.trans hown.label_eq⟩
  refine ⟨peer, earlier, id, later ++ [g], session', hrecord.peer_eq.trans hpeer, ?_,
    hnamed.concat (not_acceptsId hstate), hsession', hown', hkeeps.2, fun hne => ?_⟩
  · show r.2.1.handled ++ [g] = _
    rw [hhandled, hsplit, List.append_assoc, List.cons_append]
  · by_cases hhandshake : d.auth.state = .handshake
    · exact hcomplete hhandshake hne
    · exact hkept (hkey hhandshake)

/-- A record that activates the connection is the evidence for it. -/
lemma Conforms.evidence_ack (h : Conforms p auth d) {bytes : List UInt8}
    {r : Except MetaConnectionError Unit × MetaConnectionDriver × MetaConnectionStep}
    (hack : AckRecord p d bytes r) :
    ∀ before f after, d.handled ++ [⟨d.auth, .sptpsRecord bytes, r.2.2.events⟩] =
        before ++ f :: after → ∀ peer port weight options,
      .auth (.activated peer port weight options) ∈ f.events →
        Activation p auth peer before f after := by
  intro before f after hsplit peer' port weight options hmem
  have hexpect : d.auth.state ≠ .expectId := by
    rw [hack.before]
    decide
  have hactivated : d.auth.state ≠ .activated := by
    rw [hack.before]
    decide
  rcases split_concat hsplit with ⟨after', rfl, hbefore⟩ | ⟨rfl, rfl, rfl⟩
  · have hf : f ∈ d.handled := by
      rw [hbefore]
      exact List.mem_append_right _ List.mem_cons_self
    cases h.not_activation hactivated hf hmem
  · obtain ⟨peer, earlier, id, later, session, hpeer, hhandled, hnamed, hsession, hown, hinv,
      hkey⟩ := h.named hexpect
    obtain ⟨peer'', _, _, _, _, _, _, hpeer'', hevents⟩ := hack.events
    obtain rfl := Option.some.inj (hpeer.symm.trans hpeer'')
    simp only [hevents, List.mem_cons, reduceCtorEq, MetaConnectionEvent.auth.injEq,
      MetaAuthEvent.activated.injEq, List.not_mem_nil, or_false, false_or] at hmem
    obtain ⟨rfl, -, -, -⟩ := hmem
    have hsome := hkey (by rw [hack.before]; decide)
    obtain ⟨key, hinKey⟩ := Option.isSome_iff_exists.mp hsome
    obtain ⟨material, hderived, heq⟩ := hinv.inKey key hinKey
    exact ⟨earlier, id, later, session, key, material, hhandled,
      hnamed.concat (not_acceptsId hexpect), hown, hack.holds session hsession hsome _, hinKey,
      hderived, heq⟩

/-- A record keeps what holds of the driver. -/
lemma Conforms.record (h : Conforms p auth d) (hbypass : auth.bypassSecurity = false)
    (hstate : d.auth.state ≠ .expectId) (bytes : List UInt8) :
    FrameKept p auth d (.sptpsRecord bytes) := by
  obtain ⟨peer, -, -, -, session, hpeer, -, -, hsession, -⟩ := h.named hstate
  have houtcome := @handleRecord_outcome p d peer session bytes hstate hpeer hsession
    (h.advances.bypassSecurity_eq.trans hbypass) fun hactivated => (h.pending hactivated).2
  have heffect := (handleFrame_effect (p := p) (.sptpsRecord bytes) (d, 0)).advances
  have hsame := handleFrame_handled (p := p) (.sptpsRecord bytes) (d, 0)
  rw [FrameKept]
  generalize (handleFrame p (.sptpsRecord bytes)).exec (d, 0) = r at houtcome heffect hsame ⊢
  obtain ⟨result, t, w⟩ := r
  have hnamed' := h.record_named hstate hsame houtcome
  set g : HandledFrame := ⟨d.auth, .sptpsRecord bytes, w.events⟩ with hg
  have hnotExpect : t.auth.state ≠ .expectId := by
    rcases heffect.state with hs | ⟨hs, -⟩
    · rw [hs]
      exact hstate
    · exact hs
  have hsplit : (t.noted g).handled = d.handled ++ [g] := congrArg (· ++ [g]) hsame
  have hemitted : (t.noted g).emitted = d.emitted ++ w.events := by
    have hold : t.handled = d.handled := hsame
    rw [emitted_noted, emitted, emitted, hold]
  rcases houtcome.kind with hquiet | hack
  · have hcount : (t.noted g).auth.state = .activated ↔ d.auth.state = .activated := by
      show t.auth.state = _ ↔ _
      rcases hquiet.state with hs | ⟨hs, hs'⟩
      · rw [hs]
      · rw [hs, hs']
        decide
    refine ⟨⟨h.advances.trans heffect, fun hne => ?_, fun hexpect => absurd hexpect hnotExpect,
      fun _ => hnamed', ?_, ?_⟩, hquiet.guarded⟩
    · have hd : d.auth.state ≠ .activated := fun hs => hne (hcount.mpr hs)
      obtain ⟨htcp, hbody⟩ := hquiet.pending hd
      exact ⟨hbody.trans (h.pending hd).1, htcp.trans (h.pending hd).2⟩
    · rw [hemitted, List.countP_append, countP_quiet hquiet.quiet, h.count, Nat.add_zero]
      exact if_congr hcount.symm rfl rfl
    · rw [hsplit]
      exact h.evidence_quiet rfl hquiet.quiet
  · have hevidence := h.evidence_ack hack
    obtain ⟨_, port, port', weight, weight', options, options', -, hevents⟩ := hack.events
    have hw : w.events = _ := hevents
    have hcount := h.count
    rw [if_neg (by rw [hack.before]; decide)] at hcount
    refine ⟨⟨h.advances.trans heffect, fun hne => absurd hack.after hne,
      fun hexpect => absurd hexpect hnotExpect, fun _ => hnamed', ?_, ?_⟩, fun _ _ => ?_⟩
    · rw [hemitted, List.countP_append, hcount, hw]
      exact (if_pos hack.after).symm
    · rw [hsplit]
      exact hevidence
    · show ∀ e ∈ w.events, _
      rw [hw]
      simp [MetaConnectionEvent.NeedsActivation]

/-- A packet body is passed on by an activated connection. -/
lemma Conforms.body (h : Conforms p auth d) (hstate : d.auth.state = .activated)
    (kind : MetaBodyKind) (data : List UInt8) : FrameKept p auth d (.body kind data) := by
  have hframe : ∃ event, (handleFrame p (.body kind data)).exec (d, 0) =
      (.ok (), (d, ⟨[], [event]⟩)) ∧ event.IsActivation = false := by
    cases kind with
    | tcpPacket => exact ⟨.tcpPacket data, rfl, rfl⟩
    | sptpsPacket => exact ⟨.sptpsPacket data, rfl, rfl⟩
  obtain ⟨event, hexec, hevent⟩ := hframe
  have hquiet : ∀ e ∈ [event], e.IsActivation = false := by simpa using hevent
  have hne : d.auth.state ≠ .expectId := by
    rw [hstate]
    decide
  obtain ⟨peer, earlier, id, later, session, hpeer, hhandled, hnamed, hsession, hown, hinv, hkey⟩ :=
    h.named hne
  rw [FrameKept, hexec]
  set g : HandledFrame := ⟨d.auth, .body kind data, [event]⟩ with hg
  refine ⟨⟨h.advances, fun hactivated => absurd hstate hactivated,
    fun hexpect => absurd hexpect hne, fun _ => ?_, ?_, h.evidence_quiet rfl hquiet⟩,
    fun hactivated => absurd hstate hactivated⟩
  · refine ⟨peer, earlier, id, later ++ [g], session, hpeer, ?_,
      hnamed.concat (not_acceptsId hne), hsession, hown, ?_, hkey⟩
    · show d.handled ++ [g] = _
      rw [hhandled, List.append_assoc, List.cons_append]
    · exact hinv.mono fun myKex hisKex ⟨f, hf, hv⟩ => ⟨f, List.mem_append_left _ hf, hv⟩
  · rw [emitted_noted, List.countP_append, countP_quiet hquiet, h.count]
    rfl

/-! ### Every frame of a stream -/

/-- The decoder may change, as long as no body is waited for before the activation. -/
lemma Conforms.taken (h : Conforms p auth d) {decoder : MetaStreamDecoder}
    (hbody : d.auth.state ≠ .activated → decoder.pendingBody = none) :
    Conforms p auth (d.taken decoder) where
  advances := h.advances
  pending hne := ⟨hbody hne, (h.pending hne).2⟩
  unnamed := h.unnamed
  named := h.named
  count := h.count
  evidence := h.evidence

/-- The decoder does not wait for a body before the activation. -/
lemma Conforms.pendingBody_next (h : Conforms p auth d)
    {r : Except MetaStreamError MetaStreamFrame × MetaStreamDecoder}
    (hnext : d.decoder.nextFrame d.framing = some r) (hne : d.auth.state ≠ .activated) :
    r.2.pendingBody = none ∧ d.decoder.nextOtherFrame d.framing = some r := by
  obtain ⟨hbody, -⟩ := h.pending hne
  rcases nextFrame_takesFrames _ _ _ hnext with htaken | hother
  · have hsome := (MetaStreamDecoder.nextBodyFrame_takes htaken).1
    rw [hbody] at hsome
    cases hsome
  · exact ⟨(MetaStreamDecoder.nextOtherFrame_takes hother).1.trans hbody, hother⟩

/-- **The next frame keeps what holds of the driver.** -/
lemma Conforms.frame (h : Conforms p auth d) (hbypass : auth.bypassSecurity = false)
    {frame : MetaStreamFrame} {decoder : MetaStreamDecoder}
    (hnext : d.decoder.nextFrame d.framing = some (.ok frame, decoder)) :
    FrameKept p auth (d.taken decoder) frame := by
  have htaken : Conforms p auth (d.taken decoder) :=
    h.taken fun hne => (h.pendingBody_next hnext hne).1
  have hplain : d.auth.usesPlaintextMeta = false := by
    rw [MetaConnectionAuth.usesPlaintextMeta, h.advances.bypassSecurity_eq, hbypass,
      Bool.false_and]
  by_cases hstate : d.auth.state = .expectId
  · have hne : d.auth.state ≠ .activated := by
      rw [hstate]
      decide
    have hlines : d.framing = .lines := framing_eq_lines.mpr (Or.inl hstate)
    have hframe := MetaStreamDecoder.nextOtherFrame_ok (h.pendingBody_next hnext hne).2
    rw [if_pos hlines] at hframe
    obtain ⟨line, rfl⟩ := hframe
    exact htaken.line hbypass hstate line
  · have hrecords : d.framing ≠ .lines := by
      rw [Ne, framing_eq_lines, hplain]
      exact fun hor => hor.elim hstate Bool.false_ne_true
    rcases nextFrame_takesFrames _ _ _ hnext with hbody | hother
    · obtain ⟨hsome, -, -, kind, data, hframe⟩ := MetaStreamDecoder.nextBodyFrame_takes hbody
      obtain rfl := Except.ok.inj hframe
      have hactivated : d.auth.state = .activated := by
        by_contra hne
        rw [(h.pending hne).1] at hsome
        cases hsome
      exact htaken.body hactivated kind data
    · have hframe := MetaStreamDecoder.nextOtherFrame_ok hother
      rw [if_neg hrecords] at hframe
      obtain ⟨bytes, rfl⟩ := hframe
      exact htaken.record hbypass hstate bytes

/-- A step of the reader keeps what holds of the driver. -/
lemma conforms_next (hbypass : auth.bypassSecurity = false) :
    (metaReader p).next.Moves fun s t => Conforms p auth s.1 → Conforms p auth t.1 := by
  intro s h
  obtain ⟨d, w⟩ := s
  rw [metaReader, readerOf]
  rcases next_cases MetaStreamDecoder.nextFrame d with hn | ⟨e, decoder, hn⟩ | ⟨frame, decoder, hn⟩
  · rw [exec_handleNextFrame_none hn]
    exact h
  · rw [exec_handleNextFrame_error hn]
    exact h.taken fun hne => (h.pendingBody_next hn hne).1
  · rw [exec_handleNextFrame_ok hn]
    exact (h.frame hbypass hn).1

/-- Data that arrives keeps what holds of the driver. -/
lemma conforms_load (data : List UInt8) :
    ((metaReader p).load data).Moves fun s t => Conforms p auth s → Conforms p auth t := by
  intro d h
  show Conforms p auth ((load data).exec d).2
  cases hroom : d.room with
  | none =>
      rw [load, Stateful.exec_bind, Stateful.exec_get]
      simp only
      rw [Stateful.exec_bind, Stateful.exec_ofExcept]
      rw [room] at hroom
      split at hroom
      · next limit available hwindow =>
          split_ifs at hroom with hzero
          rw [hwindow]
          simp only [Except.mapError, hzero, if_true]
          exact h
      · next e hwindow =>
          rw [hwindow]
          exact h
  | some n =>
      rw [exec_load_some hroom]
      exact h.taken fun hne => (h.pending hne).1

lemma Conforms.receiveBytes (h : Conforms p auth d) (hbypass : auth.bypassSecurity = false)
    (data : List UInt8) : Conforms p auth ((receiveBytes p data).exec d).2 :=
  FrameReader.call_invariant (conforms_next hbypass) conforms_load data d h

lemma Conforms.receiveAll (h : Conforms p auth d) (hbypass : auth.bypassSecurity = false)
    (chunks : List (List UInt8)) : Conforms p auth (receiveAll p chunks d) := by
  induction chunks generalizing d with
  | nil => exact h
  | cons data rest ih => exact ih (h.receiveBytes hbypass data)

/-- A driver that has received nothing. -/
lemma conforms_new (hstate : auth.state = .expectId) : Conforms p auth (.new auth) where
  advances := .refl auth
  pending _ := ⟨rfl, rfl⟩
  unnamed _ f hf := absurd hf List.not_mem_nil
  named hne := absurd hstate hne
  count := by
    rw [if_neg (by simp [new, hstate])]
    rfl
  evidence before f after hsplit := absurd hsplit (by simp [new])

/-- What a call returns comes after the events so far, and none of it needs an activation that has
not been emitted before. -/
lemma Conforms.returned (h : Conforms p auth d) (hbypass : auth.bypassSecurity = false)
    {data : List UInt8} {step : MetaConnectionStep} {d' : MetaConnectionDriver}
    (hcall : (MetaConnectionDriver.receiveBytes p data).exec d = (.ok step, d')) :
    d'.emitted = d.emitted ++ step.events ∧ ∀ before e after,
      step.events = before ++ e :: after → e.NeedsActivation = true →
        ∃ e' ∈ d.emitted ++ before, e'.IsActivation = true := by
  let Keeps : MetaConnectionDriver → MetaConnectionStep → Prop := fun t w =>
    Conforms p auth t ∧ t.emitted = d.emitted ++ w.events ∧ ∀ before e after,
      w.events = before ++ e :: after → e.NeedsActivation = true →
        ∃ e' ∈ d.emitted ++ before, e'.IsActivation = true
  have hnext : ∀ s w v s', Keeps s w → (metaReader p).Step s v s' → Keeps s' (w + v) := by
    rintro s w v s' ⟨hs, hemitted, hneeds⟩ hstep
    have hs' := conforms_next hbypass (s, 0) hs
    rw [hstep] at hs'
    obtain ⟨frame, decoder, t, hn, hframe, rfl⟩ := exec_handleNextFrame_eq_ok hstep
    have hkept := (hs.frame hbypass hn).2
    have hsame := handleFrame_handled (p := p) frame (s.taken decoder, 0)
    rw [hframe] at hkept hsame
    have hold : t.handled = s.handled := hsame
    refine ⟨hs', ?_, fun before e after hsplit he => ?_⟩
    · rw [emitted_noted, emitted, hold, ← emitted, hemitted, MetaConnectionStep.events_add,
        List.append_assoc]
    · rw [MetaConnectionStep.events_add] at hsplit
      rcases List.append_eq_append_iff.mp hsplit with ⟨begun, hbefore, hv⟩ | ⟨left, hw, hrest⟩
      · -- the event is one of this frame, which an activated connection has handled
        have hactivated : s.auth.state = .activated := by
          by_contra hne
          have hnot := hkept hne rfl e (by
            show e ∈ v.events
            rw [hv]
            exact List.mem_append_right _ List.mem_cons_self)
          cases he.symm.trans hnot
        have hcount := hs.count
        rw [if_pos hactivated] at hcount
        have hpos : 0 < s.emitted.countP MetaConnectionEvent.IsActivation := by omega
        obtain ⟨e', he', hactivation⟩ := List.countP_pos_iff.mp hpos
        refine ⟨e', ?_, hactivation⟩
        rw [hbefore, ← List.append_assoc, ← hemitted]
        exact List.mem_append_left _ he'
      · cases left with
        | nil =>
            rw [List.append_nil] at hw
            have hactivated : s.auth.state = .activated := by
              by_contra hne
              have hnot := hkept hne rfl e (by
                show e ∈ v.events
                rw [List.nil_append] at hrest
                rw [← hrest]
                exact List.mem_cons_self)
              cases he.symm.trans hnot
            have hcount := hs.count
            rw [if_pos hactivated] at hcount
            have hpos : 0 < s.emitted.countP MetaConnectionEvent.IsActivation := by omega
            obtain ⟨e', he', hactivation⟩ := List.countP_pos_iff.mp hpos
            refine ⟨e', ?_, hactivation⟩
            rw [← hw, ← hemitted]
            exact he'
        | cons e'' left =>
            obtain ⟨rfl, -⟩ := List.cons.inj hrest
            exact hneeds before _ left hw he
  have hstart : Keeps d 0 := ⟨h, by simp, fun before e after hsplit => by simp at hsplit⟩
  have hpush : ∀ s w a, Keeps s w → Keeps (s.extend a) w := by
    rintro s w a ⟨hs, hrest⟩
    exact ⟨hs.taken fun hne => (hs.pending hne).1, hrest⟩
  exact (FrameReader.call_keeps metaReader_lawful hnext hpush hstart hcall).2

end Conforms

/-- **A connection is activated at most once, and by its peer**: after the only ID line that was
accepted, which named the peer, after the peer has signed the handshake of a session, and by an
ACK line in a record of that session. Before that, calls that end well return no packets and no
other messages. -/
theorem receiveAll_activated (p : Primitives) (myself : String) (outgoing : Bool)
    (privateKey : TincEd25519PrivateKey) (peerKey : TincEd25519PublicKey) (localPort : String)
    (localWeight : ℤ) (localOptions : UInt32) (entropy : ℕ → Fresh) (chunks : List (List UInt8)) :
    let auth := MetaConnectionAuth.new myself outgoing privateKey peerKey localPort localWeight
      localOptions entropy
    let d := receiveAll p chunks (.new auth)
    d.emitted.countP MetaConnectionEvent.IsActivation ≤ 1 ∧
      (∀ before f after, d.handled = before ++ f :: after →
        ∀ peer port weight options, .auth (.activated peer port weight options) ∈ f.events →
          Activation p auth peer before f after) ∧
      ∀ data step d', (receiveBytes p data).exec d = (.ok step, d') →
        d'.emitted = d.emitted ++ step.events ∧ ∀ before e after,
          step.events = before ++ e :: after → e.NeedsActivation = true →
            ∃ e' ∈ d.emitted ++ before, e'.IsActivation = true := by
  intro auth d
  have hd : Conforms p auth d := (conforms_new rfl).receiveAll rfl chunks
  refine ⟨?_, hd.evidence, fun data step d' hcall => hd.returned rfl hcall⟩
  rw [hd.count]
  split_ifs <;> omega

end MetaConnectionDriver

end RustyTinc

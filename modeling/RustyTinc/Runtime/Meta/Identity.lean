import RustyTinc.Runtime.Meta.Activation

/-!
The node that a meta connection is activated for.

* `leadingId`: the ID line that a stream begins with;
* `handleFrame_bound`: a connection that has a peer is activated for no other node;
* `Follows.receiveBytes`: the peer of a connection is the node that its stream names first.
-/

namespace RustyTinc

/-- The node that an event activates a connection for, or takes a key over from. -/
def MetaConnectionEvent.activatedPeer : MetaConnectionEvent → Option String
  | auth (.activated peer _ _ _) => some peer
  | auth (.legacyEd25519Upgrade peer _) => some peer
  | _ => none

/-- Events that are about no node but the given one. -/
def Names (peer : String) (events : List MetaConnectionEvent) : Prop :=
  ∀ e ∈ events, ∀ name, e.activatedPeer = some name → name = peer

section Names

variable {peer : String} {events events' : List MetaConnectionEvent}

lemma Names.append (h : Names peer events) (h' : Names peer events') :
    Names peer (events ++ events') := by
  intro e he
  rcases List.mem_append.mp he with hold | hnew
  · exact h e hold
  · exact h' e hnew

lemma names_of_none (h : ∀ e ∈ events, e.activatedPeer = none) : Names peer events := by
  intro e he name hname
  cases (h e he).symm.trans hname

end Names

/-! ### The beginning of a stream -/

/-- The ID line that a stream begins with. -/
def leadingId (stream : List UInt8) : Option IdMessage := do
  let position ← stream.findIdx? (· == newline)
  match decodeMetaLine (stream.take (position + 1)) with
  | .error _ => none
  | .ok line =>
      match parseMetaMessage line.toList with
      | .ok (.id message) => some message
      | _ => none

lemma leadingId_of_line {stream : List UInt8} {position : ℕ} {line : String} {message : IdMessage}
    (hposition : stream.findIdx? (· == newline) = some position)
    (hline : decodeMetaLine (stream.take (position + 1)) = .ok line)
    (hparse : parseMetaMessage line.toList = .ok (.id message)) :
    leadingId stream = some message := by
  simp only [leadingId, hposition, Option.bind_eq_bind, Option.bind_some, hline, hparse]

/-- Bytes that arrive later do not change the first line. -/
lemma leadingId_append {stream : List UInt8} {message : IdMessage}
    (h : leadingId stream = some message) (data : List UInt8) :
    leadingId (stream ++ data) = some message := by
  unfold leadingId at h ⊢
  obtain ⟨position, hposition, hline⟩ := Option.bind_eq_some_iff.mp h
  have hlt : position < stream.length := (List.findIdx?_eq_some_iff_getElem.mp hposition).1
  rw [List.findIdx?_append, hposition, Option.some_or]
  simp only [Option.bind_eq_bind, Option.bind_some]
  rwa [List.take_append_of_le_length (by omega)]

namespace MetaConnectionDriver

/-! ### Connections that have a peer -/

/-- The connection has the given peer, and is activated for no other node. -/
structure Bound (peer : String) (s : MetaConnectionDriver × MetaConnectionStep) : Prop where
  state : s.1.auth.state ≠ .expectId
  peer_eq : s.1.auth.peer = some peer
  events : Names peer s.2.events

section Bound

variable {p : Primitives} {peer : String} {auth auth' : MetaConnectionAuth}
  {authStep : MetaAuthStep}

/-- Whatever ends well keeps the peer. -/
abbrev KeepsBound {α : Type} (peer : String) (x : DriverM α) : Prop :=
  x.Meets (Bound peer) (fun _ => Bound peer) fun _ _ => True

/-- The events of the authentication are about no node but the given one. -/
def AuthNames (peer : String) (events : List MetaAuthEvent) : Prop :=
  Names peer (events.map .auth)

/-- A message after the ID line names the same peer. -/
lemma receiveMetaMessage_names {message : MetaMessage} (hstate : auth.state ≠ .expectId)
    (hpeer : auth.peer = some peer)
    (h : (MetaConnectionAuth.receiveMetaMessage p message).exec auth = (.ok authStep, auth')) :
    auth'.state ≠ .expectId ∧ auth'.peer = some peer ∧ AuthNames peer authStep.events := by
  cases message with
  | id message => exact absurd (MetaConnectionAuth.receiveId_eq_ok h).1 hstate
  | ack message =>
      obtain ⟨-, peer', port, weight, options, hpeer', -, rfl, rfl⟩ :=
        MetaConnectionAuth.receiveAck_eq_ok h
      obtain rfl := Option.some.inj (hpeer.symm.trans hpeer')
      refine ⟨by simp, hpeer, fun e he name hname => ?_⟩
      obtain rfl := List.mem_singleton.mp he
      exact (Option.some.inj hname).symm
  | _ => cases h

lemma applicationRecords_names (events : List SptpsHandshakeEvent) :
    AuthNames peer (MetaConnectionAuth.applicationRecords events) := by
  refine names_of_none fun e he => ?_
  obtain ⟨event, hevent, rfl⟩ := List.mem_map.mp he
  obtain ⟨record, -, hrecord⟩ := List.mem_filterMap.mp hevent
  cases record with
  | handshakeComplete => cases hrecord
  | applicationRecord recordType payload =>
      cases hrecord
      rfl

/-- The answer to a record names the peer of the connection. -/
lemma answerRecord_names (hstate : auth.state ≠ .expectId) (hpeer : auth.peer = some peer)
    (events : List SptpsHandshakeEvent) (raw : List (List UInt8)) :
    (auth.answerRecord peer events raw).2.state ≠ .expectId ∧
      (auth.answerRecord peer events raw).2.peer = some peer ∧
      AuthNames peer (auth.answerRecord peer events raw).1.events := by
  have hcomplete : AuthNames peer
      (.sptpsHandshakeComplete peer :: MetaConnectionAuth.applicationRecords events) := by
    have hfirst : Names peer [.auth (.sptpsHandshakeComplete peer)] :=
      names_of_none fun e he => by rw [List.mem_singleton.mp he]; rfl
    exact hfirst.append (applicationRecords_names events)
  rw [MetaConnectionAuth.answerRecord]
  split_ifs
  · exact ⟨by simp, hpeer, hcomplete⟩
  · exact ⟨hstate, hpeer, hcomplete⟩
  · exact ⟨hstate, hpeer, applicationRecords_names events⟩

/-- A record after the ID line names the same peer. -/
lemma receiveSptpsRecord_names {record : List UInt8} (hstate : auth.state ≠ .expectId)
    (hpeer : auth.peer = some peer)
    (h : (MetaConnectionAuth.receiveSptpsRecord p record).exec auth = (.ok authStep, auth')) :
    auth'.state ≠ .expectId ∧ auth'.peer = some peer ∧ AuthNames peer authStep.events := by
  rw [MetaConnectionAuth.exec_receiveSptpsRecord, if_neg hstate, hpeer] at h
  cases hsession : auth.session with
  | none =>
      rw [hsession] at h
      cases h
  | some session =>
      rw [hsession] at h
      simp only at h
      rcases hexec : (SptpsHandshakeSession.receiveDatagram p (auth.entropy 0) record).exec session
        with ⟨e | events, session'⟩
      · rw [hexec] at h
        cases h
      · rw [hexec] at h
        obtain ⟨hstep, rfl⟩ := Prod.mk.inj h
        obtain rfl := Except.ok.inj hstep
        refine answerRecord_names ?_ ?_ events _
        · exact hstate
        · exact hpeer

/-- A computation of the authentication that keeps the peer, and the events it answers with. -/
lemma onAuth_bound {x : MetaConnectionAuth.AuthM MetaAuthStep}
    (hx : ∀ auth auth' authStep, auth.state ≠ .expectId → auth.peer = some peer →
      x.exec auth = (.ok authStep, auth') →
        auth'.state ≠ .expectId ∧ auth'.peer = some peer ∧ AuthNames peer authStep.events) :
    (onAuth x).Meets (Bound peer)
      (fun authStep s => Bound peer s ∧ AuthNames peer authStep.events) fun _ _ => True := by
  intro s hs
  rw [onAuth, Stateful.exec_ofFn]
  rcases hexec : x.exec s.1.auth with ⟨e | authStep, auth⟩
  · trivial
  · obtain ⟨hstate, hpeer, hnames⟩ := hx _ _ _ hs.state hs.peer_eq hexec
    exact ⟨⟨hstate, hpeer, hs.events⟩, hnames⟩

lemma push_bound {outbound : List (List UInt8)} {events : List MetaConnectionEvent}
    (h : Names peer events) :
    KeepsBound peer (modify fun s => (s.1, s.2 + ⟨outbound, events⟩)) :=
  .modify fun _ hs => ⟨hs.state, hs.peer_eq, hs.events.append h⟩

lemma pushEvent_bound {event : MetaConnectionEvent} (h : event.activatedPeer = none) :
    KeepsBound peer (pushEvent event) :=
  push_bound (names_of_none fun e he => by rw [List.mem_singleton.mp he]; exact h)

lemma ofExcept_bound {α : Type} (r : Except MetaConnectionError α) :
    KeepsBound peer (.ofExcept r) :=
  .ofExcept (fun _ _ _ hs => hs) fun _ _ _ _ => trivial

section Handle

variable {apply : MetaAuthStep → DriverM Unit}
  (happly : ∀ authStep, AuthNames peer authStep.events → KeepsBound peer (apply authStep))

include happly

lemma handleMetaLine_bound (line : String) (source : MetaLineSource) :
    KeepsBound peer (handleMetaLine p apply line source) := by
  refine .bind (ofExcept_bound _) fun message => .bind (pushEvent_bound rfl) fun _ =>
    .get_bind fun s hs => .ite (fun _ => Stateful.Meets.start ?_ hs) fun _ => ?_
  · refine .bind (onAuth_bound fun _ _ _ => receiveMetaMessage_names) fun authStep s' hs' => ?_
    exact happly authStep hs'.2 s' hs'.1
  · refine .modify fun t ht => ?_
    subst ht
    have hauth : (t.1.observe source message).auth = t.1.auth := by
      cases source <;> cases message <;> rfl
    exact ⟨by rw [hauth]; exact hs.state, by rw [hauth]; exact hs.peer_eq, hs.events⟩

/-- Events that name the peer keep the connection bound to it. -/
lemma handleAuthEvents_bound {events : List MetaAuthEvent} (h : AuthNames peer events) :
    KeepsBound peer (handleAuthEvents p apply events) := by
  induction events with
  | nil => exact .pure fun _ hs => hs
  | cons event rest ih =>
      have hevent : Names peer [.auth event] := fun e he =>
        h e (List.mem_of_mem_head? (by rw [List.mem_singleton.mp he]; rfl))
      have hrest : AuthNames peer rest := fun e he => h e (List.mem_cons_of_mem _ he)
      refine .bind ?_ fun _ => ih hrest
      cases event with
      | applicationRecord recordType payload =>
          refine .ite (fun _ => pushEvent_bound rfl) fun _ => .get_bind fun s hs => ?_
          refine Stateful.Meets.start ?_ hs
          cases s.1.pendingTcpPacket with
          | some expected =>
              refine .bind (.modify fun _ ht => ⟨ht.state, ht.peer_eq, ht.events⟩) fun _ =>
                .ite (fun _ => .throw fun _ _ => trivial) fun _ => pushEvent_bound rfl
          | none =>
              exact .bind (ofExcept_bound _) fun line => handleMetaLine_bound happly line _
      | _ => exact push_bound hevent

end Handle

/-- A record that is sent keeps the connection bound to its peer. -/
lemma sendSptpsApplication_bound (payload : List UInt8) :
    KeepsBound peer (onAuth (MetaConnectionAuth.sendSptpsApplication p payload)) := by
  have hsame : (MetaConnectionAuth.sendSptpsApplication p payload).Moves fun auth auth' =>
      auth'.state = auth.state ∧ auth'.peer = auth.peer := by
    intro auth
    rw [MetaConnectionAuth.sendSptpsApplication, MetaConnectionAuth.onSession, Stateful.exec_ofFn]
    split <;> exact ⟨rfl, rfl⟩
  intro s hs
  obtain ⟨hstate, hpeer⟩ := hsame s.1.auth
  rw [onAuth, Stateful.exec_ofFn]
  cases ((MetaConnectionAuth.sendSptpsApplication p payload).exec s.1.auth).1 with
  | error e => trivial
  | ok bytes => exact ⟨fun h => hs.state (hstate.symm.trans h), hpeer.trans hs.peer_eq, hs.events⟩

/-- A step that names the peer keeps the connection bound to it. -/
lemma applyAuthStep_bound (depth : ℕ) (authStep : MetaAuthStep)
    (h : AuthNames peer authStep.events) : KeepsBound peer (applyAuthStep p depth authStep) := by
  have hmessages : ∀ messages, KeepsBound peer (pushMessages p messages) := by
    intro messages
    induction messages with
    | nil => exact .pure fun _ hs => hs
    | cons message rest ih =>
        have hencode : KeepsBound peer (encodeMessage p message) :=
          .get_bind fun s hs => .ite (fun _ => .pure fun t ht => ht ▸ hs) fun _ =>
            Stateful.Meets.start (sendSptpsApplication_bound _) hs
        exact .bind hencode fun _ => .bind (push_bound fun _ he => absurd he List.not_mem_nil)
          fun _ => ih
  induction depth generalizing authStep with
  | zero => exact .pure fun _ hs => hs
  | succ depth ih =>
      exact .bind (push_bound fun _ he => absurd he List.not_mem_nil) fun _ =>
        .bind (hmessages _) fun _ => handleAuthEvents_bound ih h

/-- **A connection that has a peer is activated for no other node.** -/
lemma handleFrame_bound (frame : MetaStreamFrame) : KeepsBound peer (handleFrame p frame) := by
  cases frame with
  | line line => exact handleMetaLine_bound (applyAuthStep_bound 1) line _
  | sptpsRecord record =>
      refine .bind (onAuth_bound fun _ _ _ => receiveSptpsRecord_names) fun authStep s hs => ?_
      exact applyAuthStep_bound 2 authStep hs.2 s hs.1
  | body kind data => cases kind <;> exact pushEvent_bound rfl

end Bound

/-! ### The peer that a stream names -/

/-- The driver has read the given bytes: it waits for the first line, or has the peer that the
first line names. -/
def Follows (input : List UInt8) (d : MetaConnectionDriver) (w : MetaConnectionStep) : Prop :=
  (d.auth.state = .expectId ∧ d.decoder = ⟨input, none⟩ ∧ w.events = []) ∨
    ∃ message, leadingId input = some message ∧ Bound message.name (d, w)

section Follows

variable {p : Primitives} {input data : List UInt8} {d d' : MetaConnectionDriver}
  {w v : MetaConnectionStep}

lemma follows_new {auth : MetaConnectionAuth} (h : auth.state = .expectId) :
    Follows [] (.new auth) 0 := Or.inl ⟨h, rfl, rfl⟩

lemma Follows.extend (h : Follows input d w) (data : List UInt8) :
    Follows (input ++ data) (d.extend data) w := by
  rcases h with ⟨hstate, hdecoder, hevents⟩ | ⟨message, hid, hbound⟩
  · exact Or.inl ⟨hstate, congrArg (·.extend data) hdecoder, hevents⟩
  · exact Or.inr ⟨message, leadingId_append hid data, hbound.state, hbound.peer_eq, hbound.events⟩

/-- The first frame of a stream is its first line. -/
lemma nextFrame_first {frame : MetaStreamFrame} {decoder : MetaStreamDecoder}
    (h : (⟨input, none⟩ : MetaStreamDecoder).nextFrame .lines = some (.ok frame, decoder)) :
    ∃ position line, input.findIdx? (· == newline) = some position ∧
      decodeMetaLine (input.take (position + 1)) = .ok line ∧ frame = .line line := by
  have hline : (⟨input, none⟩ : MetaStreamDecoder).nextLineFrame = some (.ok frame, decoder) := h
  obtain ⟨position, hposition, hr⟩ := Option.map_eq_some_iff.mp hline
  have hframe := congrArg Prod.fst hr
  cases hdecode : decodeMetaLine (input.take (position + 1)) with
  | error e =>
      simp only [MetaStreamDecoder.takeBytes, hdecode] at hframe
      cases hframe
  | ok line =>
      simp only [MetaStreamDecoder.takeBytes, hdecode] at hframe
      exact ⟨position, line, hposition, hdecode, (Except.ok.inj hframe).symm⟩

/-- The first line names the peer. -/
lemma Follows.step (hbypass : d.auth.bypassSecurity = false) (h : Follows input d w)
    (hstep : (metaReader p).Step d v d') : Follows input d' (w + v) := by
  obtain ⟨frame, decoder, t, hnext, hframe, rfl⟩ := exec_handleNextFrame_eq_ok hstep
  rcases h with ⟨hstate, hdecoder, hevents⟩ | ⟨message, hid, hbound⟩
  · have hlines : d.framing = .lines := framing_eq_lines.mpr (Or.inl hstate)
    rw [hdecoder, hlines] at hnext
    obtain ⟨position, line, hposition, hline, rfl⟩ := nextFrame_first hnext
    have hactivated : (d.taken decoder).auth.state ≠ .activated := fun h => by
      cases hstate.symm.trans h
    have houtcome := handleMetaLine_outcome (p := p) (d := d.taken decoder) hbypass hactivated 0
      line .plaintext
    have hexec : (handleMetaLine p (applyAuthStep p 1) line .plaintext).exec (d.taken decoder, 0) =
      (.ok (), (t, v)) := hframe
    rw [hexec] at houtcome
    cases houtcome with
    | id hparse _ =>
        refine Or.inr ⟨_, leadingId_of_line hposition hline hparse, by
          simp [noted, MetaConnectionAuth.started], rfl, ?_⟩
        have hnone : ∀ peer, Names peer w.events := by
          rw [hevents]
          exact fun _ _ he => absurd he List.not_mem_nil
        exact (hnone _).append (names_of_none fun e he => by rw [List.mem_singleton.mp he]; rfl)
    | ack _ hexpect _ => cases hstate.symm.trans hexpect
  · have hkept : Bound message.name (t, v) := by
      have hstart : Bound message.name (d.taken decoder, 0) :=
        ⟨hbound.state, hbound.peer_eq, fun _ he => absurd he List.not_mem_nil⟩
      exact (handleFrame_bound frame).ok hstart hframe
    exact Or.inr ⟨message, hid, hkept.state, hkept.peer_eq, hbound.events.append hkept.events⟩

/-- **A stream names the peer of its connection first.** -/
lemma Follows.receiveBytes {auth : MetaConnectionAuth} {step : MetaConnectionStep}
    (hbypass : auth.bypassSecurity = false) (hconforms : Conforms p auth d) (h : Follows input d 0)
    (hcall : (MetaConnectionDriver.receiveBytes p data).exec d = (.ok step, d')) :
    Conforms p auth d' ∧ Follows (input ++ data) d' step := by
  let Keeps : List UInt8 → MetaConnectionDriver → MetaConnectionStep → Prop := fun input d w =>
    Conforms p auth d ∧ Follows input d w
  have hnext : ∀ input s w v s', Keeps input s w → (metaReader p).Step s v s' →
      Keeps input s' (w + v) := by
    rintro input s w v s' ⟨hs, hfollows⟩ hstep
    have hs' := conforms_next hbypass (s, 0) hs
    rw [hstep] at hs'
    exact ⟨hs', hfollows.step (hs.advances.bypassSecurity_eq.trans hbypass) hstep⟩
  have hpush : ∀ input s w a, Keeps input s w → Keeps (input ++ a) (s.extend a) w :=
    fun input s w a hs => ⟨hs.1.taken fun hne => (hs.1.pending hne).1, hs.2.extend a⟩
  exact FrameReader.call_follows metaReader_lawful Keeps input hnext hpush ⟨hconforms, h⟩ hcall

/-- The key that the session of a bound connection checks signatures with. -/
lemma Bound.session_peerKey {auth : MetaConnectionAuth} {peer : String} (h : Bound peer (d, w))
    (hconforms : Conforms p auth d) :
    ∃ session, d.auth.session = some session ∧ session.peerKey = auth.peerKey := by
  obtain ⟨_, _, _, _, session, _, _, _, hsession, hown, _⟩ := hconforms.named h.state
  exact ⟨session, hsession, hown.peerKey_eq⟩

end Follows

end MetaConnectionDriver

end RustyTinc

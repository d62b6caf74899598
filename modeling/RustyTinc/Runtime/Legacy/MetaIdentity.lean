import RustyTinc.Runtime.Legacy.MetaDriver
import RustyTinc.Runtime.Meta.Identity

/-!
The node that a legacy meta connection is activated for.

* `handleMetaLine_bound`: a connection that has a peer is activated for no other node;
* `Follows.receiveBytes`: the peer of a connection is the node that its stream names first.
-/

namespace RustyTinc

namespace LegacyMetaAuth

open LegacyMetaConnectionDriver (authEvent)

/-- The ID line has been received, and the connection has the given peer with the given key. -/
structure HasPeer (peer : String) (key : RsaPublicKey) (auth : LegacyMetaAuth) : Prop where
  state : auth.state ≠ .expectId
  peer_eq : auth.peer = some peer
  peerPublicKey_eq : auth.peerPublicKey = key

section HasPeer

variable {p : LegacyMetaPrimitives} {peer : String} {key : RsaPublicKey}

/-- Whatever ends well keeps the peer. -/
abbrev KeepsPeer {α : Type} (peer : String) (key : RsaPublicKey) (x : AuthM α) : Prop :=
  x.Meets (HasPeer peer key) (fun _ => HasPeer peer key) fun _ _ => True

/-- Whatever ends well keeps the peer, and answers with events that are about no other node. -/
abbrev NamesPeer (peer : String) (key : RsaPublicKey) (x : AuthM LegacyMetaAuthStep) : Prop :=
  x.Meets (HasPeer peer key)
    (fun authStep auth => HasPeer peer key auth ∧ Names peer (authStep.events.map authEvent))
    fun _ _ => True

lemma ensureExpected_keeps (actual : Request) : KeepsPeer peer key (ensureExpected actual) :=
  .get_bind fun _ h => .ite (fun _ => .pure fun _ ht => ht ▸ h) fun _ => .throw fun _ _ => trivial

lemma ofExcept_keeps {α : Type} (r : Except LegacyMetaAuthError α) :
    KeepsPeer peer key (.ofExcept r) :=
  .ofExcept (fun _ _ _ h => h) fun _ _ _ _ => trivial

lemma modify_keeps {f : LegacyMetaAuth → LegacyMetaAuth} (hstate : ∀ auth, (f auth).state = auth.state)
    (hpeer : ∀ auth, (f auth).peer = auth.peer)
    (hkey : ∀ auth, (f auth).peerPublicKey = auth.peerPublicKey) : KeepsPeer peer key (modify f) :=
  .modify fun auth h => ⟨by rw [hstate]; exact h.state, by rw [hpeer]; exact h.peer_eq,
    by rw [hkey]; exact h.peerPublicKey_eq⟩

/-- The step after a line that leads to no events. -/
lemma finish_names {state : LegacyMetaAuthState} (hstate : state ≠ .expectId)
    (outbound : List LegacyMetaOutboundMessage) :
    NamesPeer peer key (do
      modify fun auth => { auth with state := state }
      return ⟨outbound, []⟩) :=
  .bind (.modify fun _ h => ⟨hstate, h.peer_eq, h.peerPublicKey_eq⟩) fun _ =>
    .pure fun _ h => ⟨h, fun _ he => absurd he List.not_mem_nil⟩

lemma fillRandom_keeps (length : ℕ) : KeepsPeer peer key (fillRandom length) :=
  fun _ h => ⟨h.state, h.peer_eq, h.peerPublicKey_eq⟩

lemma sendChallengeReply_keeps : KeepsPeer peer key (sendChallengeReply p) :=
  .get_bind fun _ h => Stateful.Meets.start (.bind (ofExcept_keeps _) fun _ =>
    .bind (modify_keeps (fun _ => rfl) (fun _ => rfl) fun _ => rfl) fun _ =>
      .bind (ofExcept_keeps _) fun _ => .pure fun _ h => h) h

lemma replyIf_keeps (turn : Bool) : KeepsPeer peer key (replyIf p turn) :=
  .ite (fun _ => .bind sendChallengeReply_keeps fun _ => .pure fun _ h => h)
    fun _ => .pure fun _ h => h

lemma sendChallenge_keeps : KeepsPeer peer key sendChallenge :=
  .get_bind fun _ h => Stateful.Meets.start (.bind (fillRandom_keeps _) fun _ =>
    .bind (modify_keeps (fun _ => rfl) (fun _ => rfl) fun _ => rfl) fun _ => .pure fun _ h => h) h

/-- The answer to an ACK line names the peer. -/
lemma answerAck_names {auth : LegacyMetaAuth} {message : AckMessage}
    {answer : LegacyMetaAuthStep × LegacyMetaAuthState} (hpeer : auth.peer = some peer)
    (h : auth.answerAck message = .ok answer) :
    answer.2 ≠ .expectId ∧ Names peer (answer.1.events.map authEvent) := by
  have hone : ∀ event, (authEvent event).activatedPeer = some peer →
      Names peer ([event].map authEvent) := by
    intro event hevent e he name hname
    obtain rfl := List.mem_singleton.mp he
    exact Option.some.inj (hname.symm.trans hevent)
  unfold answerAck at h
  rw [hpeer] at h
  split_ifs at h
  · cases message <;> cases h
    exact ⟨by simp, hone _ rfl⟩
  · cases message <;> cases h
    exact ⟨by simp, hone _ rfl⟩

/-- **The peer stays**, and the authentication is complete for no other node. -/
lemma receiveMetaMessage_names (message : MetaMessage) :
    NamesPeer peer key (receiveMetaMessage p message) := by
  cases message with
  | id message =>
      have hrefused : (ensureExpected .id).Meets (HasPeer peer key) (fun _ _ => False)
          fun _ _ => True := by
        refine .get_bind fun auth h => .ite (fun hexpected => ?_) fun _ => .throw fun _ _ => trivial
        have hstate := h.state
        cases hauth : auth.state <;> simp_all [LegacyMetaAuthState.expectedRequest]
      exact .bind hrefused fun _ _ h => h.elim
  | metaKey message =>
      exact .bind (ensureExpected_keeps _) fun _ => .get_bind fun _ h =>
        Stateful.Meets.start (.bind (ofExcept_keeps _) fun _ =>
          .bind (modify_keeps (fun _ => rfl) (fun _ => rfl) fun _ => rfl) fun _ =>
            .bind sendChallenge_keeps fun _ => finish_names (by decide) _) h
  | challenge message =>
      exact .bind (ensureExpected_keeps _) fun _ => .get_bind fun _ h =>
        Stateful.Meets.start (.bind (ofExcept_keeps _) fun _ =>
          .bind (modify_keeps (fun _ => rfl) (fun _ => rfl) fun _ => rfl) fun _ =>
            .bind (replyIf_keeps _) fun _ => finish_names (by decide) _) h
  | challengeReply message =>
      exact .bind (ensureExpected_keeps _) fun _ => .get_bind fun _ h =>
        Stateful.Meets.start (.bind (ofExcept_keeps _) fun _ =>
          .bind (modify_keeps (fun _ => rfl) (fun _ => rfl) fun _ => rfl) fun _ =>
            .bind (ofExcept_keeps _) fun _ => .bind (replyIf_keeps _) fun _ =>
              .bind (ofExcept_keeps _) fun _ => finish_names (by decide) _) h
  | ack message =>
      refine .bind (ensureExpected_keeps _) fun _ => .get_bind fun auth h => ?_
      refine .bind (Q := fun answer auth' => HasPeer peer key auth' ∧
        auth.answerAck message = .ok answer) ?_ fun answer => ?_
      · exact .ofExcept (fun _ t hok ht => ⟨ht ▸ h, hok⟩) fun _ _ _ _ => trivial
      · refine .bind (Q := fun _ auth' => HasPeer peer key auth' ∧
          Names peer (answer.1.events.map authEvent)) (.modify fun auth' h' => ?_) fun _ =>
            .pure fun _ h' => h'
        obtain ⟨hstate, hnames⟩ := answerAck_names h.peer_eq h'.2
        exact ⟨⟨hstate, h'.1.peer_eq, h'.1.peerPublicKey_eq⟩, hnames⟩
  | terminateRequest =>
      exact .get_bind fun _ h => .ite
        (fun _ => .pure fun _ ht => ⟨ht ▸ h, fun _ he => absurd he List.not_mem_nil⟩)
        fun _ => .throw fun _ _ => trivial
  | _ => exact .get_bind fun _ _ => .throw fun _ _ => trivial

/-- An ID line names the peer. -/
lemma receiveId_first (message : IdMessage) :
    (receiveId message).Meets (fun auth => auth.peerPublicKey = key)
      (fun authStep auth => HasPeer message.name key auth ∧ authStep.events = []) fun _ _ => True := by
  have hof : ∀ {α : Type} (r : Except LegacyMetaAuthError α),
      (Stateful.ofExcept r : AuthM α).Meets (fun auth => auth.peerPublicKey = key)
        (fun _ auth => auth.peerPublicKey = key) fun _ _ => True :=
    fun r => .ofExcept (fun _ _ _ hs => hs) fun _ _ _ _ => trivial
  have hexpected : (ensureExpected .id).Meets (fun auth => auth.peerPublicKey = key)
      (fun _ auth => auth.peerPublicKey = key) fun _ _ => True :=
    .get_bind fun _ h => .ite (fun _ => .pure fun _ ht => ht ▸ h) fun _ => .throw fun _ _ => trivial
  -- the METAKEY line that is sent in return leaves the peer alone
  let Named : LegacyMetaAuth → Prop := fun auth =>
    auth.peer = some message.name ∧ auth.peerPublicKey = key
  have hset : ∀ f : LegacyMetaAuth → LegacyMetaAuth, (∀ auth, (f auth).peer = auth.peer) →
      (∀ auth, (f auth).peerPublicKey = auth.peerPublicKey) →
        (modify f : AuthM PUnit).Meets Named (fun _ => Named) fun _ _ => True :=
    fun f hpeer hkey => .modify fun auth h => ⟨(hpeer auth).trans h.1, (hkey auth).trans h.2⟩
  have hnamed : ∀ {α : Type} (r : Except LegacyMetaAuthError α),
      (Stateful.ofExcept r : AuthM α).Meets Named (fun _ => Named) fun _ _ => True :=
    fun r => .ofExcept (fun _ _ _ hs => hs) fun _ _ _ _ => trivial
  have hmetakey : sendMetakey.Meets Named (fun _ => Named) fun _ _ => True :=
    .get_bind fun _ h => Stateful.Meets.start (.bind (fun _ h => h) fun _ =>
      .bind (hnamed _) fun _ => .bind (hset _ (fun _ => rfl) fun _ => rfl) fun _ =>
        .bind (hnamed _) fun _ => .pure fun _ h => h) h
  exact .bind hexpected fun _ => .get_bind fun _ h => Stateful.Meets.start (.bind (hof _) fun _ =>
    .bind (hof _) fun _ => .bind (hof _) fun _ =>
      .bind (Q := fun _ => Named) (.modify fun _ h => ⟨rfl, h⟩) fun _ => .bind hmetakey fun _ =>
        .bind (Q := fun _ => HasPeer message.name key) (.modify fun _ h => ⟨by simp, h.1, h.2⟩)
          fun _ => .pure fun _ h => ⟨h, rfl⟩) h

/-- The first line has to be an ID line. -/
lemma receiveMetaMessage_first {message : MetaMessage} {auth auth' : LegacyMetaAuth}
    {authStep : LegacyMetaAuthStep} (hstate : auth.state = .expectId)
    (h : (receiveMetaMessage p message).exec auth = (.ok authStep, auth')) :
    ∃ m, message = .id m ∧ HasPeer m.name auth.peerPublicKey auth' ∧ authStep.events = [] := by
  have hrefused : ∀ {request : Request} {f : Unit → AuthM LegacyMetaAuthStep}, request ≠ .id →
      (ensureExpected request >>= f).exec auth ≠ (.ok authStep, auth') := by
    intro request f hne hexec
    obtain ⟨_, t, ht, -⟩ := Stateful.exec_bind_eq_ok.mp hexec
    rw [ensureExpected, Stateful.exec_bind, Stateful.exec_get] at ht
    simp only [hstate, LegacyMetaAuthState.expectedRequest, Option.some_inj, hne.symm, if_false,
      Stateful.exec_throw] at ht
    cases ht
  cases message with
  | id m => exact ⟨m, rfl, (receiveId_first m).ok rfl h⟩
  | metaKey m => exact absurd h (hrefused (by decide))
  | challenge m => exact absurd h (hrefused (by decide))
  | challengeReply m => exact absurd h (hrefused (by decide))
  | ack m => exact absurd h (hrefused (by decide))
  | terminateRequest =>
      rw [receiveMetaMessage, receiveTerminateRequest, Stateful.exec_bind, Stateful.exec_get] at h
      simp only [hstate, reduceCtorEq, if_false, Stateful.exec_throw] at h
      cases h
  | _ => cases h

end HasPeer

end LegacyMetaAuth

namespace LegacyMetaConnectionDriver

open LegacyMetaAuth (HasPeer KeepsPeer)

/-- The connection has the given peer with the given key, and is activated for no other node. -/
structure Bound (peer : String) (key : RsaPublicKey)
    (s : LegacyMetaConnectionDriver × MetaConnectionStep) : Prop where
  auth : HasPeer peer key s.1.auth
  events : Names peer s.2.events

section Bound

variable {p : LegacyMetaPrimitives} {peer : String} {key : RsaPublicKey}

/-- Whatever ends well keeps the peer. -/
abbrev KeepsBound {α : Type} (peer : String) (key : RsaPublicKey) (x : DriverM α) : Prop :=
  x.Meets (Bound peer key) (fun _ => Bound peer key) fun _ _ => True

lemma ofExcept_bound {α : Type} (r : Except LegacyMetaConnectionError α) :
    KeepsBound peer key (.ofExcept r) :=
  .ofExcept (fun _ _ _ h => h) fun _ _ _ _ => trivial

lemma collect_bound {step : MetaConnectionStep} (h : Names peer step.events) :
    KeepsBound peer key (collect step) :=
  .modify fun _ hs => ⟨hs.auth, hs.events.append h⟩

lemma onAuth_bound {α : Type} {x : LegacyMetaAuth.AuthM α} {Q : α → Prop}
    (hx : x.Meets (HasPeer peer key) (fun a auth => HasPeer peer key auth ∧ Q a) fun _ _ => True) :
    (onAuth x).Meets (Bound peer key) (fun a s => Bound peer key s ∧ Q a) fun _ _ => True := by
  intro s hs
  have hauth := hx s.1.auth hs.auth
  rw [onAuth, Stateful.exec_ofFn]
  revert hauth
  rcases x.exec s.1.auth with ⟨e | a, auth⟩
  · exact fun _ => trivial
  · exact fun h => ⟨⟨h.1, hs.events⟩, h.2⟩

/-- Messages that are sent do not change who the peer is. -/
lemma encodeOutboundMessage_keeps (message : LegacyMetaOutboundMessage) :
    KeepsPeer peer key (LegacyMetaAuth.encodeOutboundMessage p message) := by
  refine .ite (fun _ => ?_) fun _ => .pure fun _ h => h
  intro auth h
  rw [LegacyMetaAuth.encryptOutbound, Stateful.exec_ofFn]
  cases auth.outCipher with
  | none => trivial
  | some cipher =>
      simp only
      cases cipher.applyEncrypt p (encodeMetaLine message.message) with
      | error e => trivial
      | ok r => exact ⟨h.state, h.peer_eq, h.peerPublicKey_eq⟩

lemma decryptInbound_keeps (ciphertext : List UInt8) :
    KeepsPeer peer key (LegacyMetaAuth.decryptInbound p ciphertext) := by
  intro auth h
  rw [LegacyMetaAuth.decryptInbound, Stateful.exec_ofFn]
  cases auth.inCipher with
  | none => trivial
  | some cipher =>
      simp only
      cases cipher.applyDecrypt p ciphertext with
      | error e => trivial
      | ok r => exact ⟨h.state, h.peer_eq, h.peerPublicKey_eq⟩

/-- What the authentication does without an answer. -/
lemma onAuth_keeps {α : Type} {x : LegacyMetaAuth.AuthM α} (hx : KeepsPeer peer key x) :
    KeepsBound peer key (onAuth x) :=
  (onAuth_bound (Q := fun _ => True) (hx.mono (fun _ h => h) (fun _ _ h => ⟨h, trivial⟩)
    fun _ _ h => h)).mono (fun _ h => h) (fun _ _ h => h.1) fun _ _ h => h

lemma applyAuthStep_bound {authStep : LegacyMetaAuthStep}
    (h : Names peer (authStep.events.map authEvent)) :
    KeepsBound peer key (applyAuthStep p authStep) := by
  have hmessages : ∀ messages, KeepsBound peer key (pushMessages p messages) := by
    intro messages
    induction messages with
    | nil => exact .pure fun _ hs => hs
    | cons message rest ih =>
        exact .bind (onAuth_keeps (encodeOutboundMessage_keeps message)) fun _ =>
          .bind (collect_bound fun _ he => absurd he List.not_mem_nil) fun _ => ih
  exact .bind (hmessages _) fun _ => collect_bound h

lemma names_message (message : MetaMessage) : Names peer [.message message] :=
  names_of_none fun e he => by rw [List.mem_singleton.mp he]; rfl

/-- **A connection that has a peer is activated for no other node.** -/
lemma handleMetaLine_bound (line : String) : KeepsBound peer key (handleMetaLine p line) := by
  refine .bind (ofExcept_bound _) fun message => .bind (collect_bound (names_message _)) fun _ =>
    .get_bind fun s hs => .ite (fun _ => Stateful.Meets.start ?_ hs) fun _ =>
      Stateful.Meets.start (.modify fun _ ht => ⟨ht.auth, ht.events⟩) hs
  refine .bind (onAuth_bound (LegacyMetaAuth.receiveMetaMessage_names message)) fun authStep s' h => ?_
  exact applyAuthStep_bound h.2 s' h.1

lemma handleFrame_bound (frame : MetaStreamFrame) : KeepsBound peer key (handleFrame p frame) := by
  have hbody : ∀ event : MetaConnectionEvent, event.activatedPeer = none →
      KeepsBound peer key (collect ⟨[], [event]⟩) := fun event hevent =>
    collect_bound (names_of_none fun e he => by rw [List.mem_singleton.mp he]; exact hevent)
  cases frame with
  | line line => exact handleMetaLine_bound line
  | sptpsRecord record => exact .throw fun _ _ => trivial
  | body kind data => cases kind <;> exact hbody _ rfl

/-- A frame does not change who the peer is. -/
lemma handleNextFrame_bound (next : MetaStreamDecoder → MetaStreamDecoder.NextFrame) :
    KeepsBound peer key (handleNextFrame p next) := by
  have htake : KeepsBound peer key (takeFrame next) := by
    intro s hs
    rw [takeFrame, Stateful.exec_ofFn]
    rcases next s.1.decoder with _ | ⟨_ | frame, decoder⟩
    · exact hs
    · trivial
    · exact ⟨hs.auth, hs.events⟩
  refine .bind htake fun frame => ?_
  cases frame with
  | none => exact .pure fun _ hs => hs
  | some frame => exact .bind (handleFrame_bound frame) fun _ => .pure fun _ hs => hs

lemma decryptRaw_bound : KeepsBound peer key (decryptRaw p) :=
  .get_bind fun _ hs => Stateful.Meets.start
    (.bind (onAuth_keeps (decryptInbound_keeps _)) fun _ =>
      .bind (.modify fun _ ht => ⟨ht.auth, ht.events⟩) fun _ =>
        .get_bind fun _ hs => Stateful.Meets.start (.bind (ofExcept_bound _) fun _ =>
          .modify fun _ ht => ⟨ht.auth, ht.events⟩) hs) hs

end Bound

/-! ### The peer that a stream names -/

/-- The driver has read the given bytes: it waits for the first line, or has the peer that the
first line names. -/
def Follows (key : RsaPublicKey) (input : List UInt8)
    (s : LegacyMetaConnectionDriver × MetaConnectionStep) : Prop :=
  (s.1.auth.state = .expectId ∧ s.1.auth.inCipher = none ∧ s.1.auth.peerPublicKey = key ∧
      s.1.rawBuffer = input ∧ s.2.events = []) ∨
    ∃ message, leadingId input = some message ∧ Bound message.name key s

section Follows

variable {p : LegacyMetaPrimitives} {key : RsaPublicKey} {input : List UInt8}

/-- The first line has to be an ID line. -/
lemma handleMetaLine_first (line : String) :
    (handleMetaLine p line).Meets
      (fun s => s.1.auth.state = .expectId ∧ s.1.auth.peerPublicKey = key ∧ s.2.events = [])
      (fun _ s => ∃ message, parseMetaMessage line.toList = .ok (.id message) ∧
        Bound message.name key s) fun _ _ => True := by
  -- the message is collected, and then the authentication has to accept it
  have hparse : ∀ message, parseMetaMessage line.toList = .ok message →
      (onAuth (LegacyMetaAuth.receiveMetaMessage p message)).Meets
        (fun s => s.1.auth.state = .expectId ∧ s.1.auth.peerPublicKey = key ∧
          s.2.events = [.message message])
        (fun authStep s => authStep.events = [] ∧ ∃ m,
          parseMetaMessage line.toList = .ok (.id m) ∧ Bound m.name key s) fun _ _ => True := by
    rintro message hmessage s ⟨hstate, hkey, hevents⟩
    rw [onAuth, Stateful.exec_ofFn]
    rcases hexec : (LegacyMetaAuth.receiveMetaMessage p message).exec s.1.auth with ⟨e | authStep, auth⟩
    · trivial
    · obtain ⟨m, rfl, hpeer, hnone⟩ := LegacyMetaAuth.receiveMetaMessage_first hstate hexec
      refine ⟨hnone, m, hmessage, hkey ▸ hpeer, ?_⟩
      show Names m.name s.2.events
      rw [hevents]
      exact names_message _
  refine .bind (Q := fun message s => s.1.auth.state = .expectId ∧ s.1.auth.peerPublicKey = key ∧
    s.2.events = [] ∧ parseMetaMessage line.toList = .ok message) ?_ fun message => ?_
  · refine .ofExcept (fun message s hok hs => ⟨hs.1, hs.2.1, hs.2.2, ?_⟩) fun _ _ _ _ => trivial
    cases hline : parseMetaMessage line.toList with
    | error e =>
        rw [hline] at hok
        cases hok
    | ok m =>
        rw [hline] at hok
        rw [Except.ok.inj hok]
  · refine .bind (Q := fun _ s => s.1.auth.state = .expectId ∧ s.1.auth.peerPublicKey = key ∧
      s.2.events = [.message message] ∧ parseMetaMessage line.toList = .ok message)
      (.modify fun s hs => ⟨hs.1, hs.2.1, ?_, hs.2.2.2⟩) fun _ => .get_bind fun s hs => ?_
    · show s.2.events ++ _ = _
      rw [hs.2.2.1]
      rfl
    · obtain ⟨hstate, hkey, hevents, hmessage⟩ := hs
      refine .ite (fun _ => Stateful.Meets.start (.bind (hparse message hmessage) fun authStep => ?_)
        ⟨hstate, hkey, hevents⟩) fun hactivated => ?_
      · rintro t ⟨hnone, m, hm, hbound⟩
        refine ((applyAuthStep_bound ?_).mono (fun _ h => h) (fun _ _ h => ⟨m, hm, h⟩)
          fun _ _ h => h) t hbound
        rw [hnone]
        exact fun _ he => absurd he List.not_mem_nil
      · rw [hstate] at hactivated
        exact absurd (by decide) hactivated

/-- The first line names the peer. -/
lemma handleRawLine_follows {position : ℕ} :
    (handleRawLine p position).Meets
      (fun s => Follows key input s ∧ s.1.rawBuffer.findIdx? (· == newline) = some position)
      (fun _ => Follows key input) fun _ _ => True := by
  refine .get_bind fun s hs => ?_
  rcases hs with ⟨⟨hstate, -, hkey, hraw, hevents⟩ | ⟨message, hid, hbound⟩, hposition⟩
  · rw [hraw] at hposition
    refine .bind (Q := fun _ t => t.1.auth.state = .expectId ∧ t.1.auth.peerPublicKey = key ∧
      t.2.events = []) (.modify fun t ht => ht ▸ ⟨hstate, hkey, hevents⟩) fun _ => ?_
    refine .bind (Q := fun line t => (t.1.auth.state = .expectId ∧ t.1.auth.peerPublicKey = key ∧
      t.2.events = []) ∧ decodeMetaLine (input.take (position + 1)) = .ok line) ?_ fun line => ?_
    · refine .ofExcept (fun line t hok ht => ⟨ht, ?_⟩) fun _ _ _ _ => trivial
      rw [hraw] at hok
      cases hline : decodeMetaLine (input.take (position + 1)) with
      | error e =>
          rw [hline] at hok
          cases hok
      | ok text =>
          rw [hline] at hok
          rw [Except.ok.inj hok]
    · rintro t ⟨ht, hline⟩
      refine ((handleMetaLine_first line).mono (fun _ h => h) (fun _ u hu => ?_) fun _ _ h => h) t ht
      obtain ⟨message, hparse, hbound⟩ := hu
      exact Or.inr ⟨message, leadingId_of_line hposition hline hparse, hbound⟩
  · refine (Stateful.Meets.mono (P := Bound message.name key) (Q := fun _ => Bound message.name key)
      (E := fun _ _ => True) ?_ (fun _ ht => ht ▸ hbound)
      (fun _ _ ht => Or.inr ⟨message, hid, ht⟩) fun _ _ ht => ht)
    exact .bind (.modify fun _ ht => ⟨ht.auth, ht.events⟩) fun _ =>
      .bind (ofExcept_bound _) fun line => handleMetaLine_bound line

/-- **A stream names the peer of its connection first.** -/
lemma receiveLoop_follows (fuel : ℕ) :
    (receiveLoop p fuel).Meets (Follows key input) (fun _ => Follows key input) fun _ _ => True := by
  induction fuel with
  | zero => exact .pure fun _ hs => hs
  | succ fuel ih =>
      refine .get_bind fun s hs => .ite (fun hencrypted => ?_) fun _ => ?_
      · rcases hs with ⟨-, hcipher, -⟩ | ⟨message, hid, hbound⟩
        · rw [LegacyMetaAuth.inboundEncrypted, hcipher] at hencrypted
          cases hencrypted
        · refine .ite (fun _ => .pure fun _ ht => ht ▸ Or.inr ⟨message, hid, hbound⟩) fun _ => ?_
          refine Stateful.Meets.start (P := Bound message.name key) ?_ hbound
          refine .bind decryptRaw_bound fun _ =>
            .bind (FrameReader.drain_meets (handleNextFrame_bound _)) fun _ => ?_
          exact ih.mono (fun _ ht => Or.inr ⟨message, hid, ht⟩) (fun _ _ ht => ht) fun _ _ ht => ht
      · cases hposition : s.1.rawBuffer.findIdx? (· == newline) with
        | none => exact .pure fun _ ht => ht ▸ hs
        | some position =>
            exact .bind (handleRawLine_follows.start ⟨hs, hposition⟩) fun _ => ih

/-- More bytes of the same input. -/
lemma Follows.receiveBytes {d d' : LegacyMetaConnectionDriver} {step : MetaConnectionStep}
    {data : List UInt8} (h : Follows key input (d, 0))
    (hcall : (LegacyMetaConnectionDriver.receiveBytes p data).exec d = (.ok step, d')) :
    Follows key (input ++ data) (d', step) := by
  set d₀ : LegacyMetaConnectionDriver := { d with rawBuffer := d.rawBuffer ++ data } with hd₀
  have hstart : Follows key (input ++ data) (d₀, 0) := by
    rcases h with ⟨hstate, hcipher, hkey, hraw, hevents⟩ | ⟨message, hid, hbound⟩
    · exact Or.inl ⟨hstate, hcipher, hkey, congrArg (· ++ data) hraw, hevents⟩
    · exact Or.inr ⟨message, leadingId_append hid data, hbound.auth, hbound.events⟩
  have hend := receiveLoop_follows (p := p) (d₀.rawBuffer.length + 1) (d₀, 0) hstart
  rw [LegacyMetaConnectionDriver.receiveBytes, Stateful.exec_ofFn] at hcall
  simp only at hcall
  revert hend hcall
  rcases (receiveLoop p (d₀.rawBuffer.length + 1)).exec (d₀, 0) with ⟨_ | _, t, w⟩
  · intro hcall
    cases hcall
  · intro hcall hend
    cases hcall
    exact hend

end Follows

end LegacyMetaConnectionDriver

end RustyTinc

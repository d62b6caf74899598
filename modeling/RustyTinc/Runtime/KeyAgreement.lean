import RustyTinc.Runtime.KeyExchange
import RustyTinc.Runtime.Sptps.FirstHandshake

/-!
Two honest nodes that exchange keys over channels that keep the order. Each of them may begin,
also before it has heard of the other.

* `KeyAgreementRun`: the nodes begin and receive in any order;
* `KeyAgreement.Phase`: how far they have come, with one of them in the lead;
* `KeyAgreementRun.agreed`: no message is refused, and when none is on its way each node has
  established one session, with the same keys.
-/

namespace RustyTinc

open SptpsKeyExchange

/-- Two key exchanges, the messages that each has sent and the other has not received, what each
has reported, how many messages it has received, and how many it had received when it began. -/
structure KeyAgreement where
  party : Bool → SptpsKeyExchange
  channel : Bool → List MetaMessage
  events : Bool → List SptpsKeyExchangeEvent
  received : Bool → ℕ
  started : Bool → Option ℕ

namespace KeyAgreement

/-- An operation has changed a party; what it has to send goes into its channel. -/
def settle (e : KeyAgreement) (b : Bool)
    (r : Except SptpsKeyExchangeError SptpsKeyExchangeResult × SptpsKeyExchange) : KeyAgreement :=
  let result : SptpsKeyExchangeResult := match r.1 with
    | .ok result => result
    | .error _ => {}
  { e with
    party := Function.update e.party b r.2
    channel := Function.update e.channel b (e.channel b ++ result.outbound)
    events := Function.update e.events b (e.events b ++ result.events) }

/-- Party `b` begins. -/
def start (p : Primitives) (e : KeyAgreement) (b : Bool)
    (f : Vector UInt8 32 × Vector UInt8 32) : KeyAgreement :=
  { e with started := Function.update e.started b (some (e.received b)) }.settle b
    ((startInitiator p (.ok f) (e.party (!b)).myself).exec (e.party b))

/-- Party `b` receives the oldest message on its way. -/
def deliver (p : Primitives) (e : KeyAgreement) (b : Bool)
    (f : Vector UInt8 32 × Vector UInt8 32) (message : MetaMessage) (rest : List MetaMessage) :
    KeyAgreement :=
  { e with
    channel := Function.update e.channel (!b) rest
    received := Function.update e.received b (e.received b + 1) }.settle b
    ((receiveMetaMessage p (.ok f) message).exec (e.party b))

end KeyAgreement

/-- What two parties can come to. Each begins once at most, before it has established a session.
The random generator does not fail. -/
inductive KeyAgreementRun (p : Primitives) (x : Bool → SptpsKeyExchange) : KeyAgreement → Prop
  | new : KeyAgreementRun p x ⟨x, fun _ => [], fun _ => [], fun _ => 0, fun _ => none⟩
  | start {e : KeyAgreement} {b : Bool} (hrun : KeyAgreementRun p x e) (hnew : e.started b = none)
      (hopen : ∀ peer session, .established peer session ∉ e.events b)
      (f : Vector UInt8 32 × Vector UInt8 32) : KeyAgreementRun p x (e.start p b f)
  | deliver {e : KeyAgreement} {b : Bool} {message : MetaMessage} {rest : List MetaMessage}
      (hrun : KeyAgreementRun p x e) (h : e.channel (!b) = message :: rest)
      (f : Vector UInt8 32 × Vector UInt8 32) :
      KeyAgreementRun p x (e.deliver p b f message rest)

/-- Parties that know each other's keys, and have not begun. -/
structure Acquainted (x : Bool → SptpsKeyExchange) : Prop where
  names_ne : (x true).myself ≠ (x false).myself
  peerKey : ∀ b, (x b).peerKeys.get? (x (!b)).myself = some (x (!b)).privateKey.publicKey
  idle : ∀ b, (x b).sessions.get? (x (!b)).myself = none

/-- What the sessions agree on when party `i` is the initiator. -/
def agreementSetting (p : Primitives) (x : Bool → SptpsKeyExchange) (i : Bool) : Setting where
  prims := p
  label := sptpsUdpLabel (x i).myself (x (!i)).myself
  isTcp := false
  key
    | true => (x i).privateKey
    | false => (x (!i)).privateKey

namespace KeyAgreement

variable (p : Primitives) (x : Bool → SptpsKeyExchange)

/-- The message that carries the first record of party `b`. -/
def request (b : Bool) (record : List UInt8) : MetaMessage :=
  .requestKey (.sptpsInitialRequest (x b).myself (x (!b)).myself record)

/-- The message that carries a later record of party `b`. -/
def answer (b : Bool) (record : List UInt8) : MetaMessage :=
  .answerKey (.sptpsHandshake (x b).myself (x (!b)).myself record (x b).compression)

/-- What party `b` reports when its session is complete. -/
def establishedEvent (b : Bool) (s : SptpsHandshakeSession) : SptpsKeyExchangeEvent :=
  .established (x (!b)).myself ⟨.handshake s, (x b).packetType, (x b).packetType_lt⟩

/-- Where a party stands: its session with the other one, what it has on its way and what it has
reported. -/
structure Standing (e : KeyAgreement) (b : Bool) (session : Option SptpsHandshakeSession)
    (channel : List MetaMessage) (events : List SptpsKeyExchangeEvent) : Prop where
  party : ∃ sessions, e.party b = { x b with sessions := sessions } ∧
    sessions.get? (x (!b)).myself = session
  channel_eq : e.channel b = channel
  events_eq : e.events b = events

/-- The messages that have been received. -/
def total (e : KeyAgreement) : ℕ := e.received true + e.received false

/-- Party `i` is in the lead: the other one has heard of it, and has only begun before that when
its name is the greater one. -/
structure Leads (e : KeyAgreement) (i : Bool) : Prop where
  heard : 1 ≤ e.received (!i)
  lt_of_started : e.started (!i) = some 0 → (x i).myself < (x (!i)).myself

/-- How far two parties have come. -/
inductive Phase (e : KeyAgreement) : Prop
  | idle (h : ∀ b, Standing x e b none [] []) (hstarted : ∀ b, e.started b = none)
      (hreceived : ∀ b, e.received b = 0)
  | opened (i : Bool) (hist : History) (s : SptpsHandshakeSession)
      (hi : Standing x e i (some s)
        [request x i ((agreementSetting p x i).kexRecord hist true)] [])
      (hr : Standing x e (!i) none [] [])
      (hs : (agreementSetting p x i).FirstAt hist true .kexSent [] s)
      (hstarted : e.started i = some 0) (hother : e.started (!i) = none)
      (hreceived : ∀ b, e.received b = 0)
  -- Both have begun; the request of the one with the greater name comes to nothing.
  | crossed (i : Bool) (hist : History) (s t : SptpsHandshakeSession) (stale : List MetaMessage)
      (hlt : (x i).myself < (x (!i)).myself)
      (hi : Standing x e i (some s)
        [request x i ((agreementSetting p x i).kexRecord hist true)] [])
      (hr : Standing x e (!i) (some t) stale [])
      (hs : (agreementSetting p x i).FirstAt hist true .kexSent [] s)
      (hstale : stale = [] ∨ ∃ record, stale = [request x (!i) record])
      (hstarted : ∀ b, e.started b ≠ none) (hreceived : e.total + stale.length ≤ 1)
  | answered (i : Bool) (hist : History) (s t : SptpsHandshakeSession) (stale : List MetaMessage)
      (hlead : Leads x e i)
      (hi : Standing x e i (some s) [] [])
      (hr : Standing x e (!i) (some t)
        (stale ++ [answer x (!i) ((agreementSetting p x i).kexRecord hist false)]) [])
      (hs : (agreementSetting p x i).FirstAt hist true .kexSent [] s)
      (ht : (agreementSetting p x i).FirstAt hist false .kexReceived [] t)
      (hstale : stale = [] ∨
        (x i).myself < (x (!i)).myself ∧ ∃ record, stale = [request x (!i) record])
      (hreceived : e.total + stale.length ≤ 2)
  | signed (i : Bool) (hist : History) (s t : SptpsHandshakeSession) (hlead : Leads x e i)
      (hi : Standing x e i (some s)
        [answer x i ((agreementSetting p x i).sigRecord hist true)] [])
      (hr : Standing x e (!i) (some t) [] [])
      (hs : (agreementSetting p x i).FirstAt hist true .kexReceived [] s)
      (ht : (agreementSetting p x i).FirstAt hist false .kexReceived [] t)
      (hreceived : e.total ≤ 3)
  | accepted (i : Bool) (hist : History) (s t : SptpsHandshakeSession) (hlead : Leads x e i)
      (hi : Standing x e i (some s) [] [])
      (hr : Standing x e (!i) none
        [answer x (!i) ((agreementSetting p x i).sigRecord hist false)]
        [establishedEvent x (!i) t])
      (hs : (agreementSetting p x i).FirstAt hist true .kexReceived [] s)
      (ht : (agreementSetting p x i).FirstAt hist false .complete [] t)
      (hreceived : e.total ≤ 4)
  | complete (i : Bool) (hist : History) (s t : SptpsHandshakeSession) (hlead : Leads x e i)
      (hi : Standing x e i none [] [establishedEvent x i s])
      (hr : Standing x e (!i) none [] [establishedEvent x (!i) t])
      (hs : (agreementSetting p x i).FirstAt hist true .complete [] s)
      (ht : (agreementSetting p x i).FirstAt hist false .complete [] t)
      (hreceived : e.total ≤ 5)

/-! ### One step -/

section Settle

variable {p x} {e : KeyAgreement} {b : Bool} {session session' : Option SptpsHandshakeSession}
  {channel channel' rest : List MetaMessage} {events : List SptpsKeyExchangeEvent}
  {f : Vector UInt8 32 × Vector UInt8 32} {message : MetaMessage}
  {result : SptpsKeyExchangeResult} {sessions : OrdMap String SptpsHandshakeSession}

/-- A party has done its step. -/
lemma Standing.settle (h : Standing x e b session channel events)
    (hsession : sessions.get? (x (!b)).myself = session') :
    Standing x (e.settle b (.ok result, { e.party b with sessions })) b session'
      (channel ++ result.outbound) (events ++ result.events) := by
  obtain ⟨sessions₀, hparty, -⟩ := h.party
  refine ⟨⟨sessions, ?_, hsession⟩, ?_, ?_⟩
  · show Function.update e.party b { e.party b with sessions } b = _
    rw [Function.update_self, hparty]
  · show Function.update e.channel b (e.channel b ++ result.outbound) b = _
    rw [Function.update_self, h.channel_eq]
  · show Function.update e.events b (e.events b ++ result.events) b = _
    rw [Function.update_self, h.events_eq]

/-- The other party stays where it is. -/
lemma Standing.settle_other (h : Standing x e (!b) session channel events)
    (r : Except SptpsKeyExchangeError SptpsKeyExchangeResult × SptpsKeyExchange) :
    Standing x (e.settle b r) (!b) session channel events := by
  have hnot := not_ne_self b
  obtain ⟨sessions₀, hparty, hsession⟩ := h.party
  exact ⟨⟨sessions₀, (Function.update_of_ne hnot _ _).trans hparty, hsession⟩,
    (Function.update_of_ne hnot _ _).trans h.channel_eq,
    (Function.update_of_ne hnot _ _).trans h.events_eq⟩

lemma Standing.start (h : Standing x e b session channel events)
    (hexec : (startInitiator p (.ok f) (e.party (!b)).myself).exec (e.party b) =
      (.ok result, { e.party b with sessions }))
    (hsession : sessions.get? (x (!b)).myself = session') :
    Standing x (e.start p b f) b session' (channel ++ result.outbound)
      (events ++ result.events) := by
  have hbefore : Standing x
      { e with started := Function.update e.started b (some (e.received b)) } b session channel
      events := ⟨h.party, h.channel_eq, h.events_eq⟩
  rw [KeyAgreement.start, hexec]
  exact hbefore.settle hsession

lemma Standing.start_other (h : Standing x e (!b) session channel events) :
    Standing x (e.start p b f) (!b) session channel events := by
  have hbefore : Standing x
      { e with started := Function.update e.started b (some (e.received b)) } (!b) session channel
      events := ⟨h.party, h.channel_eq, h.events_eq⟩
  exact hbefore.settle_other _

/-- Where a party stands after a message that it accepts. -/
lemma Standing.deliver (h : Standing x e b session channel events)
    (hexec : (receiveMetaMessage p (.ok f) message).exec (e.party b) =
      (.ok result, { e.party b with sessions }))
    (hsession : sessions.get? (x (!b)).myself = session') :
    Standing x (e.deliver p b f message rest) b session' (channel ++ result.outbound)
      (events ++ result.events) := by
  have hnot := (not_ne_self b).symm
  have hbefore : Standing x
      { e with
        channel := Function.update e.channel (!b) rest
        received := Function.update e.received b (e.received b + 1) } b session channel events :=
    ⟨h.party, (Function.update_of_ne hnot _ _).trans h.channel_eq, h.events_eq⟩
  rw [KeyAgreement.deliver, hexec]
  exact hbefore.settle hsession

lemma Standing.deliver_other (h : Standing x e (!b) session channel events) :
    Standing x (e.deliver p b f message rest) (!b) session rest events := by
  have hbefore : Standing x
      { e with
        channel := Function.update e.channel (!b) rest
        received := Function.update e.received b (e.received b + 1) } (!b) session rest events :=
    ⟨h.party, Function.update_self _ _ _, h.events_eq⟩
  exact hbefore.settle_other _

lemma received_start : (e.start p b f).received = e.received := rfl

lemma started_start :
    (e.start p b f).started = Function.update e.started b (some (e.received b)) := rfl

lemma started_deliver : (e.deliver p b f message rest).started = e.started := rfl

lemma received_deliver : (e.deliver p b f message rest).received =
    Function.update e.received b (e.received b + 1) := rfl

lemma total_deliver : (e.deliver p b f message rest).total = e.total + 1 := by
  rw [total, total, received_deliver]
  cases b
  · rw [Function.update_self, Function.update_of_ne (by simp)]
    omega
  · rw [Function.update_self, Function.update_of_ne (by simp)]
    omega

end Settle

/-! ### What a party does -/

section Party

variable {p x} {e : KeyAgreement} {b i d : Bool} {s : SptpsHandshakeSession}
  {session : Option SptpsHandshakeSession} {channel rest : List MetaMessage}
  {events : List SptpsKeyExchangeEvent} {f : Vector UInt8 32 × Vector UInt8 32}
  {message : MetaMessage} {hist : History} {record : List UInt8}

lemma Standing.myself_eq (h : Standing x e b session channel events) :
    (e.party b).myself = (x b).myself := by
  obtain ⟨sessions, hparty, -⟩ := h.party
  rw [hparty]

/-- A message is handled without an error, and leaves its receiver where it says. -/
structure Handles (p : Primitives) (x : Bool → SptpsKeyExchange) (e : KeyAgreement) (b : Bool)
    (f : Vector UInt8 32 × Vector UInt8 32) (message : MetaMessage) (rest : List MetaMessage)
    (session : Option SptpsHandshakeSession) (channel : List MetaMessage)
    (events : List SptpsKeyExchangeEvent) : Prop where
  ok : ∃ result, ((receiveMetaMessage p (.ok f) message).exec (e.party b)).1 = .ok result
  standing : Standing x (e.deliver p b f message rest) b session channel events

lemma Handles.of_exec {result : SptpsKeyExchangeResult}
    {sessions : OrdMap String SptpsHandshakeSession}
    (h : Standing x e b session channel events)
    (hexec : (receiveMetaMessage p (.ok f) message).exec (e.party b) =
      (.ok result, { e.party b with sessions })) :
    Handles p x e b f message rest (sessions.get? (x (!b)).myself) (channel ++ result.outbound)
      (events ++ result.events) :=
  ⟨⟨result, by rw [hexec]⟩, h.deliver hexec rfl⟩

/-- A party with nothing on its way begins. -/
lemma Standing.begins (hx : Acquainted x) (h : Standing x e i none channel events)
    (hother : (e.party (!i)).myself = (x (!i)).myself) (f : Vector UInt8 32 × Vector UInt8 32) :
    ∃ s, (agreementSetting p x i).FirstAt (fun _ _ => f) true .kexSent [] s ∧
      Standing x (e.start p i f) i (some s)
        (channel ++ [request x i ((agreementSetting p x i).kexRecord (fun _ _ => f) true)])
        events := by
  obtain ⟨sessions, hparty, hnone⟩ := h.party
  obtain ⟨s, hstart, hs⟩ := @Setting.FirstAt.start (agreementSetting p x i) true
    (x i).replayWindowBytes f rfl (fun _ _ => f) rfl
  have hsession : (startSession p (.ok f) true (x (!i)).myself).exec (e.party i) =
      (.ok s, e.party i) := by
    rw [hparty]
    exact exec_startSession (hx.peerKey i) hstart
  have hpending : (e.party i).sessions.get? (x (!i)).myself = none := by
    rw [hparty]
    exact hnone
  have hexec := exec_startInitiator hpending hsession hs.outbound_eq
  rw [← hother] at hexec
  have hbegun := h.start hexec (OrdMap.get?_insert _ _ _ _)
  rw [h.myself_eq, hother, if_pos rfl, List.append_nil] at hbegun
  exact ⟨s.drainOutbound.2, hs.drained, hbegun⟩

/-- A party whose handshake is on its way does not begin anew. -/
lemma Standing.begins_pending (h : Standing x e b (some s) channel events)
    (hother : (e.party (!b)).myself = (x (!b)).myself) (f : Vector UInt8 32 × Vector UInt8 32) :
    Standing x (e.start p b f) b (some s) channel events := by
  obtain ⟨sessions, hparty, hsome⟩ := h.party
  have hexec : (startInitiator p (.ok f) (e.party (!b)).myself).exec (e.party b) =
      (.ok {}, { e.party b with sessions }) := by
    rw [hother, hparty]
    exact exec_startInitiator_pending (by simp [hsome])
  have hstart := h.start hexec hsome
  simpa using hstart

lemma request_not (b : Bool) (record : List UInt8) (h : (e.party b).myself = (x b).myself) :
    request x (!b) record =
      .requestKey (.sptpsInitialRequest (x (!b)).myself (e.party b).myself record) := by
  rw [request, Bool.not_not, h]

lemma answer_not (b : Bool) (record : List UInt8) (h : (e.party b).myself = (x b).myself) :
    answer x (!b) record = .answerKey (.sptpsHandshake (x (!b)).myself (e.party b).myself record
      (x (!b)).compression) := by
  rw [answer, Bool.not_not, h]

/-- **A request is ignored** by a party that has begun and has the smaller name. -/
lemma Standing.ignores (h : Standing x e b (some s) channel events) (hinit : s.initiator = true)
    (hlt : (x b).myself < (x (!b)).myself) (f : Vector UInt8 32 × Vector UInt8 32)
    (record : List UInt8) (rest : List MetaMessage) :
    Handles p x e b f (request x (!b) record) rest (some s) channel events := by
  obtain ⟨sessions, hparty, hsome⟩ := h.party
  have hexec : (receiveMetaMessage p (.ok f) (request x (!b) record)).exec (e.party b) =
      (.ok {}, { e.party b with sessions }) := by
    rw [request_not b record h.myself_eq, exec_receiveMetaMessage_request, hparty]
    exact exec_receiveInitialRequest_ignored hsome hinit hlt
  have hhandles := @Handles.of_exec p x e b _ _ rest _ f _ _ _ h hexec
  simpa [hsome] using hhandles

/-- **A request is answered** by a party that has not begun or has the greater name. -/
lemma Standing.answers (hx : Acquainted x) (h : Standing x e (!i) session channel events)
    (hfree : session = none ∨ (x i).myself < (x (!i)).myself)
    (f : Vector UInt8 32 × Vector UInt8 32) (rest : List MetaMessage) :
    ∃ t, (agreementSetting p x i).FirstAt (hist.choose false 0 f) false .kexReceived [] t ∧
      Handles p x e (!i) f (request x i ((agreementSetting p x i).kexRecord hist true)) rest
        (some t)
        (channel ++ [answer x (!i)
          ((agreementSetting p x i).kexRecord (hist.choose false 0 f) false)]) events := by
  obtain ⟨sessions, hparty, hsession⟩ := h.party
  have hrecord : (agreementSetting p x i).kexRecord hist true =
      (agreementSetting p x i).kexRecord (hist.choose false 0 f) (!false) :=
    (Setting.kexRecord_choose f).symm
  obtain ⟨s₀, hstart, hs₀⟩ := @Setting.FirstAt.start (agreementSetting p x i) false
    (x (!i)).replayWindowBytes f rfl (hist.choose false 0 f) Setting.choose_self
  obtain ⟨t, hreceive, ht⟩ := hs₀.kexReceived (.ok f)
  have hpeer : (x (!i)).peerKeys.get? (x i).myself = some (x i).privateKey.publicKey := by
    have hkey := hx.peerKey (!i)
    rwa [Bool.not_not] at hkey
  have hsession₀ : (startSession p (.ok f) false (x i).myself).exec (e.party (!i)) =
      (.ok s₀, e.party (!i)) := by
    rw [hparty]
    exact exec_startSession hpeer hstart
  have haccepted : ¬ (((e.party (!i)).sessions.get? (x i).myself).any
      (fun session => session.initiator) ∧ (e.party (!i)).myself < (x i).myself) := by
    rintro ⟨hpending, hlt⟩
    rw [h.myself_eq] at hlt
    rcases hfree with rfl | hgt
    · rw [Bool.not_not] at hsession
      rw [hparty] at hpending
      simp [hsession] at hpending
    · exact lt_asymm hlt hgt
  have hexec := @exec_receiveInitialRequest p (e.party (!i)) s₀ t _ ⟨(x i).myself,
    (e.party (!i)).myself, .initialRequest,
    (agreementSetting p x i).kexRecord (hist.choose false 0 f) true, none, none⟩ f haccepted
    hsession₀ hreceive ht.outbound_eq
  rw [← exec_receiveMetaMessage_request] at hexec
  have hmessage : request x i ((agreementSetting p x i).kexRecord hist true) =
      .requestKey (.sptpsInitialRequest (x i).myself (e.party (!i)).myself
        ((agreementSetting p x i).kexRecord (hist.choose false 0 f) true)) := by
    rw [request, hrecord, h.myself_eq, Bool.not_false]
  rw [← hmessage] at hexec
  have hhandles := @Handles.of_exec p x e (!i) _ _ rest _ f _ _ _ h hexec
  rw [Bool.not_not, OrdMap.get?_insert, if_pos rfl, List.append_nil] at hhandles
  refine ⟨_, ht.drained, ?_⟩
  convert hhandles using 2
  simp [SptpsKeyExchange.answers, answer, hparty]

/-- The records that a session queues are answers. -/
lemma Standing.answers_eq (h : Standing x e b session channel events)
    (records : List (List UInt8)) :
    (e.party b).answers (x (!b)).myself records = records.map (answer x b) := by
  obtain ⟨sessions, hparty, -⟩ := h.party
  rw [hparty]
  rfl

/-- A record of the handshake that goes on is received. -/
lemma Standing.receives (h : Standing x e b (some s) channel events)
    {t : SptpsHandshakeSession} {records : List (List UInt8)}
    (hreceive : (SptpsHandshakeSession.receiveDatagram p (.ok f) record).exec s = (.ok [], t))
    (hrecords : t.outbound = records) (rest : List MetaMessage) :
    Handles p x e b f (answer x (!b) record) rest (some t.drainOutbound.2)
      (channel ++ records.map (answer x b)) events := by
  obtain ⟨sessions, hparty, hsome⟩ := h.party
  have hpending : (e.party b).sessions.get? (x (!b)).myself = some s := by
    rw [hparty]
    exact hsome
  have hexec := @exec_receiveExistingPayload p (.ok f) (e.party b) s t records
    ⟨(x (!b)).myself, (e.party b).myself, .handshakeAnswer, record, some (x (!b)).compression,
      none⟩ hpending hreceive hrecords
  rw [← exec_receiveMetaMessage_answer, ← answer_not b record h.myself_eq] at hexec
  have hhandles := @Handles.of_exec p x e b _ _ rest _ f _ _ _ h hexec
  rw [OrdMap.get?_insert, if_pos rfl, List.append_nil, h.answers_eq] at hhandles
  exact hhandles

/-- The record that completes the handshake is received. -/
lemma Standing.completes (h : Standing x e b (some s) channel events)
    {t : SptpsHandshakeSession} {records : List (List UInt8)}
    (hreceive : (SptpsHandshakeSession.receiveDatagram p (.ok f) record).exec s =
      (.ok [.handshakeComplete], t))
    (hrecords : t.outbound = records) (hestablished : t.drainOutbound.2.isEstablished = true)
    (rest : List MetaMessage) :
    Handles p x e b f (answer x (!b) record) rest none (channel ++ records.map (answer x b))
      (events ++ [establishedEvent x b t.drainOutbound.2]) := by
  obtain ⟨sessions, hparty, hsome⟩ := h.party
  have hpending : (e.party b).sessions.get? (x (!b)).myself = some s := by
    rw [hparty]
    exact hsome
  have hexec := @exec_receiveExistingPayload_complete p (.ok f) (e.party b) s t records
    ⟨(x (!b)).myself, (e.party b).myself, .handshakeAnswer, record, some (x (!b)).compression,
      none⟩ hpending hreceive hrecords hestablished
  rw [← exec_receiveMetaMessage_answer, ← answer_not b record h.myself_eq] at hexec
  have hhandles := @Handles.of_exec p x e b _ _ rest _ f _ _ _ h hexec
  have hevent : SptpsKeyExchangeEvent.established (x (!b)).myself
      ⟨.handshake t.drainOutbound.2, (e.party b).packetType, (e.party b).packetType_lt⟩ =
        establishedEvent x b t.drainOutbound.2 := by
    rw [establishedEvent]
    simp only [hparty]
  rw [OrdMap.get?_erase, if_pos rfl, h.answers_eq, hevent] at hhandles
  exact hhandles

end Party

/-! ### The invariant -/

section Invariant

variable {p x} {e : KeyAgreement} {b i : Bool} {s t : SptpsHandshakeSession}
  {session session' : Option SptpsHandshakeSession} {channel channel' rest : List MetaMessage}
  {events events' : List SptpsKeyExchangeEvent} {f : Vector UInt8 32 × Vector UInt8 32}
  {message : MetaMessage}

lemma Standing.deliver_not (h : Standing x e i session channel events) :
    Standing x (e.deliver p (!i) f message rest) i session rest events := by
  have hother := @Standing.deliver_other p x e (!i) session channel rest events f message
  rw [Bool.not_not] at hother
  exact hother h

lemma Leads.deliver (h : Leads x e i) : Leads x (e.deliver p b f message rest) i := by
  refine ⟨?_, h.lt_of_started⟩
  rw [received_deliver]
  rcases eq_or_eq_not b (!i) with heq | heq
  · rw [heq, Function.update_self]
    exact Nat.le_add_left _ _
  · rw [heq, Function.update_of_ne (not_ne_self b), ← heq]
    exact h.heard

/-- A party that has been heard of keeps the lead. -/
lemma Leads.start (h : Leads x e i) : Leads x (e.start p b f) i := by
  refine ⟨h.heard, fun hstarted => ?_⟩
  rw [started_start] at hstarted
  rcases eq_or_eq_not b (!i) with heq | heq
  · rw [heq, Function.update_self, ← heq] at hstarted
    have hheard := h.heard
    have hzero := Option.some.inj hstarted
    omega
  · rw [heq, Function.update_of_ne (not_ne_self b), ← heq] at hstarted
    exact h.lt_of_started hstarted

/-- Where handshakes are on their way, to begin changes nothing. -/
lemma Standing.start_keeps (hi : Standing x e i (some s) channel events)
    (hr : Standing x e (!i) (some t) channel' events') :
    Standing x (e.start p b f) i (some s) channel events ∧
      Standing x (e.start p b f) (!i) (some t) channel' events' := by
  rcases eq_or_eq_not i b with rfl | rfl
  · exact ⟨hi.begins_pending hr.myself_eq f, hr.start_other⟩
  · have hother := @Standing.start_other p x e (!i) (some s) channel events f
    rw [Bool.not_not] at hother
    refine ⟨hother hi, hr.begins_pending ?_ f⟩
    rw [Bool.not_not]
    exact hi.myself_eq

lemma Standing.not_open (h : Standing x e b session channel [establishedEvent x b s]) :
    ¬ ∀ peer session, .established peer session ∉ e.events b := by
  intro hopen
  have hmem : establishedEvent x b s ∈ e.events b := by
    rw [h.events_eq]
    exact List.mem_singleton_self _
  exact hopen _ _ hmem

/-- **To begin keeps the phases in order.** -/
lemma Phase.start (hx : Acquainted x) (h : Phase p x e) (hnew : e.started b = none)
    (hopen : ∀ peer session, .established peer session ∉ e.events b)
    (f : Vector UInt8 32 × Vector UInt8 32) : Phase p x (e.start p b f) := by
  cases h with
  | idle h hstarted hreceived =>
      obtain ⟨s, hs, hbegun⟩ := (h b).begins hx (h (!b)).myself_eq f
      refine .opened b _ s hbegun (h (!b)).start_other hs ?_ ?_ hreceived
      · rw [started_start, Function.update_self, hreceived]
      · rw [started_start, Function.update_of_ne (not_ne_self b), hstarted]
  | opened i hist s hi hr hs hstarted hother hreceived =>
      rcases eq_or_eq_not i b with rfl | rfl
      · rw [hstarted] at hnew
        cases hnew
      · have hmyself : (e.party (!(!i))).myself = (x (!(!i))).myself := by
          rw [Bool.not_not]
          exact hi.myself_eq
        obtain ⟨t, ht, hbegun⟩ := hr.begins hx hmyself f
        have hkept := @Standing.start_other p x e (!i) _ _ _ f (by rw [Bool.not_not]; exact hi)
        have hboth : ∀ b, (e.start p (!i) f).started b ≠ none := by
          intro b
          rw [started_start]
          rcases eq_or_eq_not (!i) b with rfl | rfl
          · rw [Function.update_self]
            simp
          · rw [Bool.not_not, Function.update_of_ne (not_ne_self i).symm, hstarted]
            simp
        have htotal : (e.start p (!i) f).total = 0 := by
          rw [total, received_start, hreceived, hreceived]
        have hne : (x i).myself ≠ (x (!i)).myself := by
          cases i
          · exact hx.names_ne.symm
          · exact hx.names_ne
        rw [List.nil_append] at hbegun
        rcases lt_or_gt_of_ne hne with hlt | hlt
        · rw [Bool.not_not] at hkept
          exact .crossed i hist s t _ hlt hkept hbegun hs (Or.inr ⟨_, rfl⟩) hboth
            (by rw [htotal]; exact le_rfl)
        · refine .crossed (!i) _ t s _ ?_ hbegun hkept ht
            (Or.inr ⟨(agreementSetting p x i).kexRecord hist true, ?_⟩) hboth
            (by rw [htotal]; exact le_rfl)
          · rw [Bool.not_not]
            exact hlt
          · rw [Bool.not_not]
  | crossed i hist s t stale hlt hi hr hs hstale hstarted hreceived => exact absurd hnew (hstarted b)
  | answered i hist s t stale hlead hi hr hs ht hstale hreceived =>
      obtain ⟨hi', hr'⟩ := hi.start_keeps hr
      exact .answered i hist s t stale hlead.start hi' hr' hs ht hstale hreceived
  | signed i hist s t hlead hi hr hs ht hreceived =>
      obtain ⟨hi', hr'⟩ := hi.start_keeps hr
      exact .signed i hist s t hlead.start hi' hr' hs ht hreceived
  | accepted i hist s t hlead hi hr hs ht hreceived =>
      rcases eq_or_eq_not i b with rfl | rfl
      · exact .accepted b hist s t hlead.start (hi.begins_pending hr.myself_eq f) hr.start_other hs
          ht hreceived
      · exact absurd hopen hr.not_open
  | complete i hist s t hlead hi hr hs ht hreceived =>
      rcases eq_or_eq_not i b with rfl | rfl
      · exact absurd hopen hi.not_open
      · exact absurd hopen hr.not_open

/-- **A delivery succeeds and keeps the phases in order.** -/
lemma Phase.deliver (hx : Acquainted x) (hc : ∀ i, (agreementSetting p x i).Correct)
    (h : Phase p x e) (hmessage : e.channel (!b) = message :: rest)
    (f : Vector UInt8 32 × Vector UInt8 32) :
    (∃ result, ((receiveMetaMessage p (.ok f) message).exec (e.party b)).1 = .ok result) ∧
      Phase p x (e.deliver p b f message rest) := by
  cases h with
  | idle h hstarted hreceived =>
      rw [(h (!b)).channel_eq] at hmessage
      cases hmessage
  | opened i hist s hi hr hs hstarted hother hreceived =>
      rcases eq_or_eq_not i b with rfl | rfl
      · rw [hr.channel_eq] at hmessage
        cases hmessage
      · rw [Bool.not_not, hi.channel_eq] at hmessage
        obtain ⟨rfl, rfl⟩ := List.cons.inj hmessage
        obtain ⟨t, ht, hok, hr'⟩ := hr.answers hx (Or.inl rfl) f []
        have hlead : Leads x (e.deliver p (!i) f
            (request x i ((agreementSetting p x i).kexRecord hist true)) []) i := by
          refine ⟨?_, fun hzero => ?_⟩
          · rw [received_deliver, Function.update_self]
            exact Nat.le_add_left _ _
          · rw [started_deliver, hother] at hzero
            cases hzero
        refine ⟨hok, .answered i _ s t [] hlead hi.deliver_not hr' (hs.choose f) ht (Or.inl rfl) ?_⟩
        rw [total_deliver, total, hreceived, hreceived]
        simp
  | crossed i hist s t stale hlt hi hr hs hstale hstarted hreceived =>
      rcases eq_or_eq_not i b with rfl | rfl
      · rw [hr.channel_eq] at hmessage
        rcases hstale with rfl | ⟨record, rfl⟩
        · cases hmessage
        · obtain ⟨rfl, rfl⟩ := List.cons.inj hmessage
          obtain ⟨hok, hi'⟩ := hi.ignores hs.side.initiator_eq hlt f record []
          refine ⟨hok, .crossed b hist s t [] hlt hi' hr.deliver_other hs (Or.inl rfl) hstarted ?_⟩
          rw [total_deliver]
          simpa using hreceived
      · rw [Bool.not_not, hi.channel_eq] at hmessage
        obtain ⟨rfl, rfl⟩ := List.cons.inj hmessage
        obtain ⟨t', ht', hok, hr'⟩ := hr.answers hx (Or.inr hlt) f []
        have hlead : Leads x (e.deliver p (!i) f
            (request x i ((agreementSetting p x i).kexRecord hist true)) []) i := by
          refine ⟨?_, fun _ => hlt⟩
          rw [received_deliver, Function.update_self]
          exact Nat.le_add_left _ _
        refine ⟨hok, .answered i _ s t' stale hlead hi.deliver_not hr' (hs.choose f) ht'
          (hstale.imp_right fun h => ⟨hlt, h⟩) ?_⟩
        rw [total_deliver]
        omega
  | answered i hist s t stale hlead hi hr hs ht hstale hreceived =>
      rcases eq_or_eq_not i b with rfl | rfl
      · rw [hr.channel_eq] at hmessage
        rcases hstale with rfl | ⟨hlt, record, rfl⟩
        · obtain ⟨rfl, rfl⟩ := List.cons.inj hmessage
          obtain ⟨s', hreceive, hs'⟩ := hs.kexReceived (.ok f)
          obtain ⟨hok, hi'⟩ := hi.receives hreceive hs'.outbound_eq []
          refine ⟨hok, .signed b hist _ t hlead.deliver hi' hr.deliver_other hs'.drained ht ?_⟩
          rw [total_deliver]
          rw [List.length_nil] at hreceived
          omega
        · obtain ⟨rfl, rfl⟩ := List.cons.inj hmessage
          obtain ⟨hok, hi'⟩ := hi.ignores hs.side.initiator_eq hlt f record _
          refine ⟨hok, .answered b hist s t [] hlead.deliver hi' hr.deliver_other hs ht
            (Or.inl rfl) ?_⟩
          rw [total_deliver]
          simpa using hreceived
      · rw [Bool.not_not, hi.channel_eq] at hmessage
        cases hmessage
  | signed i hist s t hlead hi hr hs ht hreceived =>
      rcases eq_or_eq_not i b with rfl | rfl
      · rw [hr.channel_eq] at hmessage
        cases hmessage
      · rw [Bool.not_not, hi.channel_eq] at hmessage
        obtain ⟨rfl, rfl⟩ := List.cons.inj hmessage
        obtain ⟨t', hreceive, ht'⟩ := ht.sigReceived (hc i) (.ok f)
        have hhandles := hr.completes hreceive ht'.outbound_eq ht'.drained.keys_match.2.2 []
        rw [Bool.not_not] at hhandles
        obtain ⟨hok, hr'⟩ := hhandles
        refine ⟨hok, .accepted i hist s _ hlead.deliver hi.deliver_not hr' hs ht'.drained ?_⟩
        rw [total_deliver]
        omega
  | accepted i hist s t hlead hi hr hs ht hreceived =>
      rcases eq_or_eq_not i b with rfl | rfl
      · rw [hr.channel_eq] at hmessage
        obtain ⟨rfl, rfl⟩ := List.cons.inj hmessage
        obtain ⟨s', hreceive, hs'⟩ := hs.sigReceived (hc b) (.ok f)
        obtain ⟨hok, hi'⟩ := hi.completes hreceive hs'.outbound_eq hs'.drained.keys_match.2.2 []
        refine ⟨hok, .complete b hist _ t hlead.deliver hi' hr.deliver_other hs'.drained ht ?_⟩
        rw [total_deliver]
        omega
      · rw [Bool.not_not, hi.channel_eq] at hmessage
        cases hmessage
  | complete i hist s t hlead hi hr hs ht hreceived =>
      rcases eq_or_eq_not i b with rfl | rfl
      · rw [hr.channel_eq] at hmessage
        cases hmessage
      · rw [Bool.not_not, hi.channel_eq] at hmessage
        cases hmessage

end Invariant

end KeyAgreement

open KeyAgreement

variable {p : Primitives} {x : Bool → SptpsKeyExchange} {e : KeyAgreement}

/-- **The phases are in order in every run.** -/
lemma KeyAgreementRun.phase (hx : Acquainted x) (hc : ∀ i, (agreementSetting p x i).Correct)
    (h : KeyAgreementRun p x e) : Phase p x e := by
  induction h with
  | new => exact .idle (fun b => ⟨⟨_, rfl, hx.idle b⟩, rfl, rfl⟩) (fun _ => rfl) fun _ => rfl
  | start _ hnew hopen f ih => exact ih.start hx hnew hopen f
  | deliver _ hmessage f ih => exact (ih.deliver hx hc hmessage f).2

/-- What the key exchange of party `b` has come to: a session in the role that it plays. -/
structure Agreed (x : Bool → SptpsKeyExchange) (e : KeyAgreement) (i : Bool)
    (session : Bool → SptpsPeerSession) : Prop where
  events_eq : ∀ b, e.events b = [.established (x (!b)).myself (session b)]
  initiator : ∀ b, ∃ s, (session b).state = .handshake s ∧ s.initiator = (b == i)
  keys : ∀ b, ∃ codec codec' key, (session b).codec = some codec ∧
    (session (!b)).codec = some codec' ∧ codec.inKey = some key ∧ codec'.outKey = some key ∧
    codec.inReplay.expectedSeqno = codec'.outSeqno
  smaller : (∀ b, e.started b = some 0) → (x i).myself < (x (!i)).myself

/-- A session of a completed handshake, as the sessions of packets see it. -/
lemma Setting.FirstAt.codec_eq {c : Setting} {hist : History} {b : Bool}
    {outbound : List (List UInt8)} {s : SptpsHandshakeSession} {packetType : UInt8}
    (h : c.FirstAt hist b .complete outbound s) (htcp : c.isTcp = false)
    (hlt : packetType < sptpsHandshake) :
    ∃ codec, (SptpsPeerSession.mk (.handshake s) packetType hlt).codec = some codec ∧
      codec.inKey = c.sealKey hist (!b) 3 ∧ codec.outKey = c.sealKey hist b 3 ∧
      codec.inReplay.expectedSeqno = 2 ∧ codec.outSeqno = 2 := by
  have hdatagram : s.codec.isTcp = false := h.side.isTcp_eq.trans htcp
  obtain ⟨hin, hout, -⟩ := h.keys_match
  rw [SptpsPeerSession.codec]
  cases hcodec : s.codec with
  | datagram codec =>
      have hnextIn := h.nextIn_eq
      have hnextOut := h.nextOut_eq
      rw [hcodec] at hin hout hnextIn hnextOut
      exact ⟨codec, by simp only [hcodec], hin, hout, hnextIn, hnextOut⟩
  | tcp codec =>
      rw [hcodec] at hdatagram
      cases hdatagram

/-- A completed agreement, as the two parties see it. -/
lemma agreed_of_complete {i : Bool} {hist : History} {s t : SptpsHandshakeSession}
    (hlead : Leads x e i) (hi : Standing x e i none [] [establishedEvent x i s])
    (hr : Standing x e (!i) none [] [establishedEvent x (!i) t])
    (hs : (agreementSetting p x i).FirstAt hist true .complete [] s)
    (ht : (agreementSetting p x i).FirstAt hist false .complete [] t) :
    ∃ session, Agreed x e i session := by
  have hnot := not_ne_self i
  obtain ⟨codec, hcodec, hin, hout, hnextIn, hnextOut⟩ := hs.codec_eq rfl (x i).packetType_lt
  obtain ⟨codec', hcodec', hin', hout', hnextIn', hnextOut'⟩ :=
    ht.codec_eq rfl (x (!i)).packetType_lt
  rw [Setting.sealKey_eq_some (by omega)] at hin hout hin' hout'
  let mine : SptpsPeerSession := ⟨.handshake s, (x i).packetType, (x i).packetType_lt⟩
  let its : SptpsPeerSession := ⟨.handshake t, (x (!i)).packetType, (x (!i)).packetType_lt⟩
  let session : Bool → SptpsPeerSession := Function.update (fun _ => its) i mine
  have hmine : session i = mine := Function.update_self _ _ _
  have hits : session (!i) = its := Function.update_of_ne hnot _ _
  refine ⟨session, ?_, ?_, ?_, fun hstarted => hlead.lt_of_started (hstarted (!i))⟩
  · intro b
    rcases eq_or_eq_not i b with rfl | rfl
    · rw [hi.events_eq, hmine]
      rfl
    · rw [hr.events_eq, hits]
      rfl
  · intro b
    rcases eq_or_eq_not i b with rfl | rfl
    · exact ⟨s, by rw [hmine], by rw [beq_self_eq_true]; exact hs.side.initiator_eq⟩
    · exact ⟨t, by rw [hits], by rw [beq_eq_false_iff_ne.mpr hnot]; exact ht.side.initiator_eq⟩
  · intro b
    rcases eq_or_eq_not i b with rfl | rfl
    · rw [hmine, hits]
      exact ⟨codec, codec', _, hcodec, hcodec', hin, hout', hnextIn.trans hnextOut'.symm⟩
    · rw [Bool.not_not, hmine, hits]
      exact ⟨codec', codec, _, hcodec', hcodec, hin', hout, hnextIn'.trans hnextOut.symm⟩

/-- **Two honest nodes agree on keys**, in whatever order they begin and receive: no message is
refused, and after at most five of them each node has established exactly one session. -/
theorem KeyAgreementRun.agreed (hx : Acquainted x)
    (hc : ∀ i, (agreementSetting p x i).Correct) (h : KeyAgreementRun p x e) :
    (∀ b message rest f, e.channel (!b) = message :: rest →
      ∃ result, ((receiveMetaMessage p (.ok f) message).exec (e.party b)).1 = .ok result) ∧
    e.total ≤ 5 ∧
    (∀ b, e.events b = [] ∨ ∃ session, e.events b = [.established (x (!b)).myself session]) ∧
    ((∃ b, e.started b ≠ none) → (∀ b, e.channel b = []) →
      ∃ i session, Agreed x e i session) := by
  have hphase := h.phase hx hc
  refine ⟨fun b message rest f hmessage => (hphase.deliver hx hc hmessage f).1, ?_, ?_, ?_⟩
  · cases hphase with
    | idle h hstarted hreceived => simp [total, hreceived]
    | opened i hist s hi hr hs hstarted hother hreceived => simp [total, hreceived]
    | _ => omega
  · -- What a party has reported is nothing, or its session.
    have hone : ∀ {i : Bool} {session session' : Option SptpsHandshakeSession}
        {channel channel' : List MetaMessage} {events events' : List SptpsKeyExchangeEvent},
        Standing x e i session channel events → Standing x e (!i) session' channel' events' →
        (events = [] ∨ ∃ s, events = [establishedEvent x i s]) →
        (events' = [] ∨ ∃ s, events' = [establishedEvent x (!i) s]) → ∀ b,
        e.events b = [] ∨ ∃ session, e.events b = [.established (x (!b)).myself session] := by
      intro i session session' channel channel' events events' hi hr hevents hevents' b
      rcases eq_or_eq_not i b with rfl | rfl
      · rw [hi.events_eq]
        exact hevents.imp_right fun h => h.elim fun s hs => ⟨_, hs⟩
      · rw [hr.events_eq]
        exact hevents'.imp_right fun h => h.elim fun s hs => ⟨_, hs⟩
    cases hphase with
    | idle h hstarted hreceived => exact fun b => Or.inl (h b).events_eq
    | opened i hist s hi hr => exact hone hi hr (Or.inl rfl) (Or.inl rfl)
    | crossed i hist s t stale hlt hi hr => exact hone hi hr (Or.inl rfl) (Or.inl rfl)
    | answered i hist s t stale hlead hi hr => exact hone hi hr (Or.inl rfl) (Or.inl rfl)
    | signed i hist s t hlead hi hr => exact hone hi hr (Or.inl rfl) (Or.inl rfl)
    | accepted i hist s t hlead hi hr => exact hone hi hr (Or.inl rfl) (Or.inr ⟨t, rfl⟩)
    | complete i hist s t hlead hi hr => exact hone hi hr (Or.inr ⟨s, rfl⟩) (Or.inr ⟨t, rfl⟩)
  · rintro ⟨b, hbegun⟩ hidle
    cases hphase with
    | idle h hstarted hreceived => exact absurd (hstarted b) hbegun
    | opened i hist s hi hr => exact absurd ((hidle i).symm.trans hi.channel_eq) (by simp)
    | crossed i hist s t stale hlt hi hr => exact absurd ((hidle i).symm.trans hi.channel_eq) (by simp)
    | answered i hist s t stale hlead hi hr =>
        exact absurd ((hidle (!i)).symm.trans hr.channel_eq) (by simp)
    | signed i hist s t hlead hi hr => exact absurd ((hidle i).symm.trans hi.channel_eq) (by simp)
    | accepted i hist s t hlead hi hr =>
        exact absurd ((hidle (!i)).symm.trans hr.channel_eq) (by simp)
    | complete i hist s t hlead hi hr hs ht hreceived =>
        exact ⟨i, agreed_of_complete hlead hi hr hs ht⟩

/-! ### An example -/

section Example

/-- Alice is party `true`, and Bob is party `false`. -/
def openName (b : Bool) : String := if b then "alice" else "bob"

/-- A node that knows the key of the other one. -/
def openParty (b : Bool) : SptpsKeyExchange where
  myself := openName b
  privateKey := openSetting.key b
  peerKeys := OrdMap.empty.insert (openName (!b)) (openSetting.key (!b)).publicKey
  packetType := 0
  packetType_lt := by decide

/-- Party `b` receives a message, when there is one. -/
def openReceive (e : KeyAgreement) (b : Bool) : KeyAgreement :=
  match e.channel (!b) with
  | message :: rest => e.deliver openPrimitives b (openChoice b) message rest
  | [] => e

/-- Both begin before they hear of each other. -/
def openOffers : KeyAgreement :=
  (KeyAgreement.start openPrimitives
    ⟨openParty, fun _ => [], fun _ => [], fun _ => 0, fun _ => none⟩ true (openChoice true)).start
      openPrimitives false (openChoice false)

/-- The parties receive until nothing is on its way. -/
def openAgreement : KeyAgreement := [true, false, true, false, true].foldl openReceive openOffers

lemma openParty_acquainted : Acquainted openParty := by
  refine ⟨by decide, fun b => ?_, fun b => rfl⟩
  exact (OrdMap.get?_insert _ _ _ _).trans (if_pos rfl)

lemma openReceive_run {e : KeyAgreement} (h : KeyAgreementRun openPrimitives openParty e)
    (b : Bool) : KeyAgreementRun openPrimitives openParty (openReceive e b) := by
  rw [openReceive]
  cases hchannel : e.channel (!b) with
  | nil => exact h
  | cons message rest => exact h.deliver hchannel (openChoice b)

lemma foldl_openReceive_run {e : KeyAgreement} (turns : List Bool)
    (h : KeyAgreementRun openPrimitives openParty e) :
    KeyAgreementRun openPrimitives openParty (turns.foldl openReceive e) := by
  induction turns generalizing e with
  | nil => exact h
  | cons b turns ih => exact ih (openReceive_run h b)

/-- Both begin at the same time, and agree in the end. -/
theorem agreed_openAgreement : ∃ session, Agreed openParty openAgreement true session := by
  have hoffers : KeyAgreementRun openPrimitives openParty openOffers :=
    (KeyAgreementRun.new.start rfl (fun _ _ => List.not_mem_nil) (openChoice true)).start rfl
      (fun _ _ => List.not_mem_nil) (openChoice false)
  have hrun : KeyAgreementRun openPrimitives openParty openAgreement :=
    foldl_openReceive_run _ hoffers
  have hcorrect : ∀ i, (agreementSetting openPrimitives openParty i).Correct := fun i =>
    ⟨fun _ _ => rfl, fun _ _ => ⟨Vector.replicate 32 0, rfl, rfl⟩⟩
  obtain ⟨-, -, -, hagreed⟩ := hrun.agreed openParty_acquainted hcorrect
  have hend : ∀ b, openAgreement.channel b = [] ∧ openAgreement.started b = some 0 := by
    decide +kernel
  have hstarted : ∀ b, openAgreement.started b = some 0 := fun b => (hend b).2
  obtain ⟨i, session, hsession⟩ := hagreed ⟨true, by rw [hstarted]; simp⟩ fun b => (hend b).1
  -- Alice's name is the smaller one.
  cases i with
  | true => exact ⟨session, hsession⟩
  | false => exact absurd (hsession.smaller hstarted) (by decide)

end Example

end RustyTinc

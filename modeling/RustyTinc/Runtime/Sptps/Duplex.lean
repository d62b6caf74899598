import RustyTinc.Runtime.Sptps.Epochs

/-!
Two honest SPTPS sessions connected by lossless channels that keep the order.

* `DuplexRun`: the sessions deliver, send and rekey in any order;
* `DuplexInv`: the records on their way are the part of each stream between the places of the
  two sessions (`DuplexRun.inv`);
* `DuplexRun.in_step`: no record is ever rejected, what is delivered is a prefix of what was
  sent, and sessions with nothing in flight have completed a handshake and hold the same keys.
-/

namespace RustyTinc

open SptpsHandshakeSession

/-- Two sessions, the records that each has sent and the other has not received, and the
application records that each has sent and delivered. -/
structure Duplex where
  session : Bool → SptpsHandshakeSession
  channel : Bool → List (List UInt8)
  sent : Bool → List (UInt8 × List UInt8)
  delivered : Bool → List (UInt8 × List UInt8)

/-- The application records among the events of a session. -/
def applicationRecords (events : List SptpsHandshakeEvent) : List (UInt8 × List UInt8) :=
  events.filterMap fun
    | .applicationRecord recordType payload => some (recordType, payload)
    | .handshakeComplete => none

namespace Duplex

/-- An operation has changed a session; what it has queued goes into its channel. -/
def settle (d : Duplex) (b : Bool) (s : SptpsHandshakeSession) : Duplex :=
  { d with
    session := Function.update d.session b s.drainOutbound.2
    channel := Function.update d.channel b (d.channel b ++ s.drainOutbound.1) }

/-- Side `b` receives the oldest record on its way from the other side. -/
def deliver (p : Primitives) (d : Duplex) (b : Bool) (fresh : Fresh) (record : List UInt8)
    (rest : List (List UInt8)) : Duplex :=
  let r := (receiveDatagram p fresh record).exec (d.session b)
  let events := match r.1 with
    | .ok events => events
    | .error _ => []
  settle { d with
    channel := Function.update d.channel (!b) rest
    delivered := Function.update d.delivered b (d.delivered b ++ applicationRecords events) } b r.2

/-- The application of side `b` sends a record; when it is refused, nothing goes out. -/
def send (p : Primitives) (d : Duplex) (b : Bool) (recordType : UInt8) (payload : List UInt8) :
    Duplex :=
  let r := (sendRecord p recordType payload).exec (d.session b)
  match r.1 with
  | .ok bytes =>
      { d with
        session := Function.update d.session b r.2
        channel := Function.update d.channel b (d.channel b ++ [bytes])
        sent := Function.update d.sent b (d.sent b ++ [(recordType, payload)]) }
  | .error _ => { d with session := Function.update d.session b r.2 }

/-- Side `b` asks for new keys. -/
def force (p : Primitives) (d : Duplex) (b : Bool) (fresh : Fresh) : Duplex :=
  d.settle b ((forceKex p fresh).exec (d.session b)).2

end Duplex

/-- The sessions start, in one of the two modes. -/
def startSide (c : Setting) (window : Bool → ℕ) (x : Bool → Vector UInt8 32 × Vector UInt8 32)
    (b : Bool) : Except SptpsError SptpsHandshakeSession :=
  let ephemeral := c.prims.ephemeralFromSeed (x b).1
  if c.isTcp then
    startTcpWithEphemeral c.prims b (c.key b) (c.key (!b)).publicKey c.label ephemeral (x b).2
  else
    startWithEphemeral c.prims b (c.key b) (c.key (!b)).publicKey c.label (window b) ephemeral
      (x b).2

/-- What two sessions can come to. The random generator does not fail. -/
inductive DuplexRun (c : Setting) : Duplex → Prop
  | start {window : Bool → ℕ} {x : Bool → Vector UInt8 32 × Vector UInt8 32}
      {s : Bool → SptpsHandshakeSession} (h : ∀ b, startSide c window x b = .ok (s b)) :
      DuplexRun c ⟨fun b => (s b).drainOutbound.2, fun b => (s b).drainOutbound.1,
        fun _ => [], fun _ => []⟩
  | deliver {d : Duplex} {b : Bool} {record : List UInt8} {rest : List (List UInt8)}
      (hrun : DuplexRun c d) (h : d.channel (!b) = record :: rest)
      (x : Vector UInt8 32 × Vector UInt8 32) :
      DuplexRun c (d.deliver c.prims b (.ok x) record rest)
  | send {d : Duplex} {b : Bool} (hrun : DuplexRun c d)
      (hready : (d.session b).isEstablished = true) (recordType : UInt8)
      (payload : List UInt8) : DuplexRun c (d.send c.prims b recordType payload)
  | force {d : Duplex} {b : Bool} (hrun : DuplexRun c d)
      (x : Vector UInt8 32 × Vector UInt8 32) : DuplexRun c (d.force c.prims b (.ok x))

/-! ### The invariant -/

/-- What holds in one direction: where side `b` stands, and what it has in flight. -/
structure DirectionInv (c : Setting) (hist : History) (n : Bool → ℕ)
    (apps : List (UInt8 × List UInt8)) (d : Duplex) (b : Bool) : Prop where
  side : c.SideInv hist b (n b) (d.session b)
  drained : (d.session b).outbound = []
  carries : c.Carries hist b
    (Setting.recvPos (d.session (!b)).state (n (!b)), (d.session (!b)).codec.nextIn)
    (d.channel b) apps
    (Setting.sendPos b (d.session b).state (n b), (d.session b).codec.nextOut)
  sent_eq : d.sent b = d.delivered (!b) ++ apps

/-- For the choices made so far, both directions are in order. -/
def DuplexInv (c : Setting) (d : Duplex) : Prop :=
  ∃ (hist : History) (n : Bool → ℕ) (apps : Bool → List (UInt8 × List UInt8)),
    ∀ b, DirectionInv c hist n (apps b) d b

section Inv

variable {c : Setting}

lemma eq_or_eq_not (b b' : Bool) : b' = b ∨ b' = !b := by
  cases b <;> cases b' <;> simp

lemma not_ne_self (b : Bool) : (!b) ≠ b := by
  cases b <;> simp

/-- One side moves on; the records in flight from the other side may have become fewer. -/
lemma DuplexInv.move {hist hist' : History} {n : Bool → ℕ}
    {apps : Bool → List (UInt8 × List UInt8)} {d d' : Duplex} {b : Bool} {n' : ℕ}
    {s' : SptpsHandshakeSession} {records : List (List UInt8)}
    (h : ∀ b, DirectionInv c hist n (apps b) d b)
    (hhist : hist' = hist ∨
      (d.session b).state = .secondaryKex ∧ ∃ x, hist' = hist.choose b (n b) x)
    (hmoved : c.Moved hist hist' b (n b) n' (d.session b) s' records)
    (rest : List (List UInt8)) (left : List (UInt8 × List UInt8))
    (hrest : c.Carries hist (!b) (Setting.recvPos s'.state n', s'.codec.nextIn) rest left
      (Setting.sendPos (!b) (d.session (!b)).state (n (!b)), (d.session (!b)).codec.nextOut))
    (hsession : d'.session = Function.update d.session b s'.drainOutbound.2)
    (hout : d'.channel b = d.channel b ++ s'.drainOutbound.1) (hin : d'.channel (!b) = rest)
    (hsent : d'.sent = d.sent) (hdelivered : d'.delivered (!b) = d.delivered (!b))
    (hleft : d.sent (!b) = d'.delivered b ++ left) : DuplexInv c d' := by
  have hnot := not_ne_self b
  have hown := h b
  have hother := h (!b)
  -- A choice is only made where nothing that depends on it is in flight.
  have hlater : c.SideInv hist' (!b) (n (!b)) (d.session (!b)) ∧
      c.Carries hist' b
        (Setting.recvPos (d.session (!b)).state (n (!b)), (d.session (!b)).codec.nextIn)
        (d.channel b) (apps b)
        (Setting.sendPos b (d.session b).state (n b), (d.session b).codec.nextOut) ∧
      c.Carries hist' (!b) (Setting.recvPos s'.state n', s'.codec.nextIn) rest left
        (Setting.sendPos (!b) (d.session (!b)).state (n (!b)),
          (d.session (!b)).codec.nextOut) := by
    rcases hhist with rfl | ⟨hstate, x, rfl⟩
    · exact ⟨hother.side, hown.carries, hrest⟩
    · have hsend : Setting.sendPos b (d.session b).state (n b) = 3 * n b := by
        rw [hstate]
        rfl
      have hle : Setting.recvPos (d.session (!b)).state (n (!b)) ≤ 3 * n b := by
        rw [← hsend]
        exact hown.carries.pos_le
      have hside := hother.side.choose (N := n b) (x := x) hle
      have hbefore := hother.side.before (N := n b) hle
      rw [Bool.not_not] at hside hbefore
      refine ⟨hside, hown.carries.choose ?_, hrest.choose hbefore⟩
      rw [Setting.Before, if_pos rfl, hsend]
  obtain ⟨hside, hcarries, hrest'⟩ := hlater
  have hself : d'.session b = s'.drainOutbound.2 := by rw [hsession, Function.update_self]
  have helse : d'.session (!b) = d.session (!b) := by
    rw [hsession, Function.update_of_ne hnot]
  refine ⟨hist', Function.update n b n', Function.update apps (!b) left, fun b' => ?_⟩
  rcases eq_or_eq_not b b' with rfl | rfl
  · have happend := hcarries.append hmoved.carries
    rw [List.append_nil] at happend
    rw [Function.update_of_ne hnot.symm]
    refine ⟨?_, ?_, ?_, ?_⟩
    · rw [hself, Function.update_self]
      exact hmoved.inv.drained
    · rw [hself]
      rfl
    · have hdrain : s'.drainOutbound.1 = records := by
        rw [drainOutbound, hmoved.outbound_eq, hown.drained, List.nil_append]
      rw [hself, helse, hout, hdrain, Function.update_self, Function.update_of_ne hnot]
      exact happend
    · rw [hsent, hdelivered]
      exact hown.sent_eq
  · rw [Function.update_self]
    refine ⟨?_, ?_, ?_, ?_⟩
    · rw [helse, Function.update_of_ne hnot]
      exact hside
    · rw [helse]
      exact hother.drained
    · rw [Bool.not_not, helse, hself, hin, Function.update_self, Function.update_of_ne hnot]
      exact hrest'
    · rw [Bool.not_not, hsent]
      exact hleft

/-- A session decodes the record that it expects from the other one. -/
lemma exec_receiveDatagram_recordAt {hist : History} {b : Bool} {n : ℕ}
    {s : SptpsHandshakeSession} (h : c.SideInv hist b n s) (fresh : Fresh) (recordType : UInt8)
    (payload : List UInt8) (htype : recordType ≤ sptpsHandshake)
    (hlen : c.isTcp = true → payload.length ≤ 65535)
    (hplain : Setting.recvPos s.state n < 3 → recordType = sptpsHandshake) :
    (receiveDatagram c.prims fresh (c.recordAt hist (!b) (Setting.recvPos s.state n)
        s.codec.nextIn recordType payload)).exec s =
      if recordType = sptpsHandshake then
        (receiveHandshake c.prims fresh payload).exec { s with codec := s.codec.received }
      else (.ok [.applicationRecord recordType payload],
        { s with codec := s.codec.received }) := by
  have hdecode := SptpsHandshakeCodec.exec_decode_seal (p := c.prims) s.codec recordType payload
    ⟨htype, fun htcp => hlen (h.isTcp_eq ▸ htcp)⟩
    fun hnone => hplain (by
      by_contra hpos
      rw [h.inKey_eq, Setting.sealKey_eq_some (not_lt.mp hpos)] at hnone
      cases hnone)
  rw [h.isTcp_eq, h.inKey_eq] at hdecode
  have hzoom := Stateful.exec_zoom SptpsHandshakeSession.codec
    (fun s codec => { s with codec := codec })
    (SptpsHandshakeCodec.decode c.prims (c.recordAt hist (!b) (Setting.recvPos s.state n)
      s.codec.nextIn recordType payload)) s
  rw [Setting.recordAt, hdecode] at hzoom
  rw [receiveDatagram, Setting.recordAt, Stateful.exec_bind_ok hzoom]
  by_cases heq : recordType = sptpsHandshake
  · rw [if_pos heq, if_pos heq]
  · have hlt : recordType < sptpsHandshake := UInt8.lt_of_le_of_ne htype heq
    rw [if_neg heq, if_neg heq, if_pos hlt]
    rfl

/-- **A delivery succeeds and keeps the invariant.** -/
lemma DuplexInv.deliver (hc : c.Correct) {d : Duplex} (h : DuplexInv c d) {b : Bool}
    {record : List UInt8} {rest : List (List UInt8)} (hrecord : d.channel (!b) = record :: rest)
    (x : Vector UInt8 32 × Vector UInt8 32) :
    (∃ events, ((receiveDatagram c.prims (.ok x) record).exec (d.session b)).1 = .ok events) ∧
      DuplexInv c (d.deliver c.prims b (.ok x) record rest) := by
  obtain ⟨hist, n, apps, h⟩ := h
  have hnot := not_ne_self b
  have hown := h b
  have hother := h (!b)
  have hcarries := hother.carries
  have hsent := hother.sent_eq
  rw [Bool.not_not] at hcarries hsent
  rw [hrecord] at hcarries
  generalize hplace : (Setting.recvPos (d.session b).state (n b),
    (d.session b).codec.nextIn) = place at hcarries
  generalize hrecords : record :: rest = records at hcarries
  generalize hleft : apps (!b) = left at hcarries
  cases hcarries with
  | nil => cases hrecords
  | @app pos seqno recordType body _ left _ hpos htype hlen hrest =>
      obtain ⟨rfl, rfl⟩ := List.cons.inj hrecords
      obtain ⟨rfl, rfl⟩ := Prod.mk.inj hplace
      have hexec := exec_receiveDatagram_recordAt hown.side (.ok x) recordType body
        (UInt8.le_of_lt htype) hlen
        fun hlt => absurd hpos (not_le.mpr hlt)
      rw [if_neg (UInt8.ne_of_lt htype)] at hexec
      refine ⟨⟨_, by rw [hexec]⟩, ?_⟩
      have hmoved : c.Moved hist hist b (n b) (n b) (d.session b)
          { d.session b with codec := (d.session b).codec.received } [] := by
        refine ⟨hown.side.received, (List.append_nil _).symm, ?_⟩
        simp only [SptpsHandshakeCodec.nextOut_received]
        exact .nil _
      refine DuplexInv.move h (Or.inl rfl) hmoved rest left ?_ ?_ ?_ ?_ rfl ?_ ?_
      · simpa using hrest
      · simp [Duplex.deliver, Duplex.settle, hexec]
      · simp [Duplex.deliver, Duplex.settle, hexec]
      · simp [Duplex.deliver, Duplex.settle]
      · simp [Duplex.deliver, Duplex.settle]
      · simp [Duplex.deliver, Duplex.settle, hexec, hsent, hleft, applicationRecords]
  | @handshake pos seqno _ left _ hrest =>
      obtain ⟨rfl, rfl⟩ := List.cons.inj hrecords
      obtain ⟨rfl, rfl⟩ := Prod.mk.inj hplace
      have hexec := exec_receiveDatagram_recordAt hown.side (.ok x) sptpsHandshake
        (c.payload hist (!b) (Setting.recvPos (d.session b).state (n b))) (UInt8.le_refl _)
        (fun _ => Setting.length_payload _) fun _ => rfl
      rw [if_pos rfl] at hexec
      have hhandled := hown.side.received.receiveHandshake hc x
      simp only at hhandled
      rw [← hexec] at hhandled
      generalize hresult : (receiveDatagram c.prims (.ok x)
        (c.recordAt hist (!b) (Setting.recvPos (d.session b).state (n b))
          (d.session b).codec.nextIn sptpsHandshake
          (c.payload hist (!b) (Setting.recvPos (d.session b).state (n b))))).exec
            (d.session b) = r at hhandled
      obtain ⟨⟨events, hok, hevents⟩, hnextIn, hist', n', records, hhist, hmoved, hpos⟩ := hhandled
      refine ⟨⟨events, hok⟩, ?_⟩
      have hnone : applicationRecords events = [] := by
        refine List.filterMap_eq_nil_iff.mpr fun e he => ?_
        rw [hevents e he]
      have hmoved' : c.Moved hist hist' b (n b) n' (d.session b) r.2 records := by
        refine ⟨hmoved.inv, hmoved.outbound_eq, ?_⟩
        simpa using hmoved.carries
      refine DuplexInv.move h ?_ hmoved' rest (apps (!b)) ?_ ?_ ?_ ?_ rfl ?_ ?_
      · rcases hhist with rfl | ⟨hstate, rfl⟩
        · exact Or.inl rfl
        · exact Or.inr ⟨hstate, x, rfl⟩
      · rw [hnextIn, hpos, SptpsHandshakeCodec.nextIn_received, hleft]
        exact hrest
      · simp [Duplex.deliver, Duplex.settle, hresult]
      · simp [Duplex.deliver, Duplex.settle, hresult]
      · simp [Duplex.deliver, Duplex.settle]
      · simp [Duplex.deliver, Duplex.settle]
      · simp [Duplex.deliver, Duplex.settle, hresult, hok, hnone, hsent]

/-- A side that is established has completed a handshake. -/
lemma one_le_of_isEstablished {hist : History} {b : Bool} {n : ℕ} {s : SptpsHandshakeSession}
    (h : c.SideInv hist b n s) (hready : s.isEstablished = true) : 1 ≤ n := by
  by_contra hn
  obtain rfl : n = 0 := by omega
  have hin : s.codec.inKey = none := by
    rw [h.inKey_eq, Setting.sealKey, if_pos]
    cases s.state <;> simp [Setting.recvPos]
  rw [isEstablished, hin] at hready
  cases hready

/-- **An application record that is sent keeps the invariant.** -/
lemma DuplexInv.send {d : Duplex} (h : DuplexInv c d) {b : Bool}
    (hready : (d.session b).isEstablished = true) (recordType : UInt8) (payload : List UInt8) :
    DuplexInv c (d.send c.prims b recordType payload) := by
  obtain ⟨hist, n, apps, h⟩ := h
  have hnot := not_ne_self b
  have hown := h b
  have hzoom := Stateful.exec_zoom SptpsHandshakeSession.codec
    (fun s codec => { s with codec := codec })
    (SptpsHandshakeCodec.encode c.prims recordType payload) (d.session b)
  by_cases hsent : recordType < sptpsHandshake ∧ (c.isTcp = true → payload.length ≤ 65535)
  · obtain ⟨htype, hlen⟩ := hsent
    have hpos : 3 ≤ Setting.sendPos b (d.session b).state (n b) := by
      have hn := one_le_of_isEstablished hown.side hready
      cases (d.session b).state <;> simp only [Setting.sendPos, Setting.nextPos] <;>
        (try split_ifs) <;> omega
    have hkey : (d.session b).codec.outKey =
        c.sealKey hist b (Setting.sendPos b (d.session b).state (n b)) := by
      rw [hown.side.outKey_eq]
      have hn := one_le_of_isEstablished hown.side hready
      have hnext : Setting.nextPos (3 * n b + 1) = 3 * n b + 2 := if_neg (by omega)
      cases (d.session b).state with
      | secondaryKex => rfl
      | kex => exact (Setting.sealKey_succ 1 (by omega)).symm
      | ack => rfl
      | sig =>
          cases b
          · exact (Setting.sealKey_succ 1 (by omega)).symm
          · rw [Setting.sendPos, if_pos rfl, hnext, Setting.sealKey_succ 2 (by omega)]
            rfl
    have hencode := SptpsHandshakeCodec.exec_encode (p := c.prims) (d.session b).codec recordType
      payload
      ⟨UInt8.le_of_lt htype, fun htcp => hlen (hown.side.isTcp_eq ▸ htcp)⟩
    rw [hown.side.sealRecord_eq hkey] at hencode
    have hexec : (sendRecord c.prims recordType payload).exec (d.session b) =
        (.ok (c.recordAt hist b (Setting.sendPos b (d.session b).state (n b))
            (d.session b).codec.nextOut recordType payload),
          { d.session b with codec := (d.session b).codec.sent }) := by
      rw [sendRecord, if_neg (UInt8.not_le.mpr htype), encode, hzoom, hencode]
    have happend := hown.carries.append (.app hpos htype hlen (.nil _))
    refine ⟨hist, n, Function.update apps b (apps b ++ [(recordType, payload)]), fun b' => ?_⟩
    rcases eq_or_eq_not b b' with rfl | rfl
    · rw [Function.update_self]
      refine ⟨?_, ?_, ?_, ?_⟩
      · simpa [Duplex.send, hexec] using hown.side.sent
      · simpa [Duplex.send, hexec] using hown.drained
      · simpa [Duplex.send, hexec, Function.update_of_ne hnot] using happend
      · simp [Duplex.send, hexec, hown.sent_eq]
    · have hother := h (!b)
      rw [Function.update_of_ne hnot]
      refine ⟨?_, ?_, ?_, ?_⟩
      · simpa [Duplex.send, hexec, Function.update_of_ne hnot] using hother.side
      · simpa [Duplex.send, hexec, Function.update_of_ne hnot] using hother.drained
      · simpa [Duplex.send, hexec, Function.update_of_ne hnot] using hother.carries
      · simpa [Duplex.send, hexec, Function.update_of_ne hnot] using hother.sent_eq
  · -- A record that is refused changes nothing.
    have hexec : ∃ e, (sendRecord c.prims recordType payload).exec (d.session b) =
        (.error e, d.session b) := by
      rw [sendRecord]
      by_cases htype : sptpsHandshake ≤ recordType
      · exact ⟨.invalidRecordType recordType, by rw [if_pos htype]; rfl⟩
      · obtain ⟨e, he⟩ := SptpsHandshakeCodec.exec_encode_error (p := c.prims)
          (d.session b).codec recordType payload
          fun henc => hsent ⟨UInt8.not_le.mp htype, fun htcp =>
            henc.2 (hown.side.isTcp_eq.trans htcp)⟩
        rw [if_neg htype, encode, hzoom, he]
        exact ⟨e, rfl⟩
    obtain ⟨e, hexec⟩ := hexec
    have hsame : d.send c.prims b recordType payload = d := by
      simp [Duplex.send, hexec]
    rw [hsame]
    exact ⟨hist, n, apps, h⟩

/-- **A rekey keeps the invariant**, whether it is accepted or not. -/
lemma DuplexInv.force {d : Duplex} (h : DuplexInv c d) {b : Bool}
    (x : Vector UInt8 32 × Vector UInt8 32) : DuplexInv c (d.force c.prims b (.ok x)) := by
  obtain ⟨hist, n, apps, h⟩ := h
  have hnot := not_ne_self b
  have hown := h b
  have hother := h (!b)
  have hcarries := hother.carries
  have hsent := hother.sent_eq
  rw [Bool.not_not] at hcarries hsent
  by_cases haccept : (d.session b).isEstablished = true ∧ (d.session b).state = .secondaryKex
  · have hmy := hown.side.idle (Or.inl haccept.2)
    have hexec : (forceKex c.prims (.ok x)).exec (d.session b) =
        (.ok (), SptpsHandshakeSession.kexSent c.prims { d.session b with state := .kex }
          (c.prims.ephemeralFromSeed x.1) x.2) := by
      have hsend := exec_sendKexWith (p := c.prims) (s := { d.session b with state := .kex })
        (c.prims.ephemeralFromSeed x.1) x.2
      rw [if_neg (by simp [hmy])] at hsend
      simpa [forceKex, setState, sendKex, Stateful.exec_bind, haccept.1, haccept.2] using hsend
    have hmoved := hown.side.kexSent haccept.2 x
    refine DuplexInv.move h (Or.inr ⟨haccept.2, x, rfl⟩) hmoved (d.channel (!b))
      (apps (!b)) ?_ ?_ ?_ ?_ rfl rfl hsent
    · rw [haccept.2] at hcarries
      simpa [SptpsHandshakeSession.kexSent, Setting.recvPos] using hcarries
    · simp [Duplex.force, Duplex.settle, hexec]
    · simp [Duplex.force, Duplex.settle, hexec]
    · simp [Duplex.force, Duplex.settle]
  · have hexec : ((forceKex c.prims (.ok x)).exec (d.session b)).2 = d.session b := by
      have hrefused : (d.session b).isEstablished = false ∨ ¬ (d.session b).state = .secondaryKex := by
        by_cases hready : (d.session b).isEstablished = true
        · exact Or.inr fun hstate => haccept ⟨hready, hstate⟩
        · exact Or.inl (Bool.eq_false_iff.mpr hready)
      simp [forceKex, Stateful.exec_bind, hrefused]
    have hsame : d.force c.prims b (.ok x) = d := by
      have hdrain : (d.session b).drainOutbound = ([], d.session b) := by
        rw [drainOutbound, ← hown.drained]
      simp [Duplex.force, Duplex.settle, hexec, hdrain]
    rw [hsame]
    exact ⟨hist, n, apps, h⟩

/-- A side starts with a codec without keys, and has sent its KEX record. -/
lemma startSide_eq {window : Bool → ℕ} {x : Bool → Vector UInt8 32 × Vector UInt8 32} {b : Bool}
    {s : SptpsHandshakeSession} (h : startSide c window x b = .ok s) :
    ∃ codec : SptpsHandshakeCodec, codec.isTcp = c.isTcp ∧ codec.inKey = none ∧
      codec.outKey = none ∧ codec.nextIn = 0 ∧ codec.nextOut = 0 ∧
      s = SptpsHandshakeSession.kexSent c.prims
        ⟨b, c.label, c.key b, (c.key (!b)).publicKey, codec, .kex, none, none, none, none, [], []⟩
        (c.prims.ephemeralFromSeed (x b).1) (x b).2 := by
  rw [startSide] at h
  split_ifs at h with htcp
  · rw [startTcpWithEphemeral, SptpsHandshakeSession.start, exec_sendKexWith] at h
    exact ⟨.tcp .new, htcp.symm, rfl, rfl, rfl, rfl, (Except.ok.inj h).symm⟩
  · rw [startWithEphemeral, SptpsHandshakeSession.start, exec_sendKexWith] at h
    exact ⟨.datagram (.new (window b)), (Bool.eq_false_iff.mpr htcp).symm, rfl, rfl, rfl, rfl,
      (Except.ok.inj h).symm⟩

/-- **Sessions start in order.** -/
lemma DuplexInv.start {window : Bool → ℕ} {x : Bool → Vector UInt8 32 × Vector UInt8 32}
    {s : Bool → SptpsHandshakeSession} (h : ∀ b, startSide c window x b = .ok (s b)) :
    DuplexInv c ⟨fun b => (s b).drainOutbound.2, fun b => (s b).drainOutbound.1,
      fun _ => [], fun _ => []⟩ := by
  have hside : ∀ b, c.SideInv (fun b _ => x b) b 0 (s b) ∧ (s b).state = .kex ∧
      (s b).codec.nextIn = 0 ∧ (s b).codec.nextOut = 1 ∧
      (s b).outbound = [c.recordAt (fun b _ => x b) b 0 0 sptpsHandshake
        (c.payload (fun b _ => x b) b 0)] := by
    intro b
    obtain ⟨codec, htcp, hin, hout, hnextIn, hnextOut, hs⟩ := startSide_eq (h b)
    rw [hs]
    refine ⟨⟨rfl, rfl, rfl, rfl, ?_, ?_, ?_, ?_, ?_, ?_, ?_, ?_⟩, rfl, ?_, ?_, ?_⟩
    · exact (SptpsHandshakeCodec.isTcp_sent _).trans htcp
    · simp [SptpsHandshakeSession.kexSent]
    · exact (SptpsHandshakeCodec.inKey_sent _).trans hin
    · exact (SptpsHandshakeCodec.outKey_sent _).trans hout
    · exact fun _ => ⟨rfl, rfl⟩
    · simp [SptpsHandshakeSession.kexSent]
    · rfl
    · simp [SptpsHandshakeSession.kexSent]
    · exact (SptpsHandshakeCodec.nextIn_sent _).trans hnextIn
    · rw [SptpsHandshakeSession.kexSent, queued_codec, SptpsHandshakeCodec.nextOut_sent, hnextOut]
      rfl
    · rw [Setting.recordAt, ← htcp, ← hnextOut, show c.sealKey (fun b _ => x b) b 0 = codec.outKey
        from hout.symm]
      rfl
  refine ⟨fun b _ => x b, fun _ => 0, fun _ => [], fun b => ?_⟩
  obtain ⟨hinv, hstate, -, hnextOut, houtbound⟩ := hside b
  obtain ⟨-, hstate', hnextIn, -, -⟩ := hside (!b)
  refine ⟨hinv.drained, rfl, ?_, rfl⟩
  simp only [drainOutbound, hstate, hstate', hnextIn, hnextOut, houtbound]
  exact Setting.carries_single ..

/-- **The invariant holds in every run.** -/
lemma DuplexRun.inv (hc : c.Correct) {d : Duplex} (h : DuplexRun c d) : DuplexInv c d := by
  induction h with
  | start h => exact DuplexInv.start h
  | deliver _ h x ih => exact (DuplexInv.deliver hc ih h x).2
  | send _ hready recordType payload ih => exact ih.send hready recordType payload
  | force _ x ih => exact ih.force x

/-- A side has sent at least as much as it has received; when both streams have been received to
their ends, no side is in a handshake. -/
lemma Setting.idle_eq {b : Bool} {state state' : SptpsHandshakeState} {k k' : ℕ}
    (h : recvPos state' k' = sendPos b state k) (h' : recvPos state k = sendPos (!b) state' k') :
    state = .secondaryKex ∧ state' = .secondaryKex ∧ k = k' := by
  have hle : ∀ (b : Bool) (state : SptpsHandshakeState) (k : ℕ),
      recvPos state k ≤ sendPos b state k ∧
        (sendPos b state k ≤ recvPos state k → state = .secondaryKex ∨ b = false ∧ state = .sig) := by
    intro b state k
    cases b <;> cases state <;> simp [recvPos, sendPos, nextPos]
    all_goals split_ifs <;> omega
  obtain ⟨hown, hown'⟩ := hle b state k
  obtain ⟨hother, hother'⟩ := hle (!b) state' k'
  have hend := hown' (by omega)
  have hend' := hother' (by omega)
  -- A responder that waits for a signature is between two handshakes of its own stream.
  rcases hend with rfl | ⟨rfl, rfl⟩
  · rcases hend' with rfl | ⟨-, rfl⟩ <;> simp only [recvPos, sendPos] at h
    · exact ⟨rfl, rfl, by omega⟩
    · omega
  · rcases hend' with rfl | ⟨hb, -⟩
    · simp only [recvPos, sendPos] at h'
      omega
    · simp at hb

/-- Sides that have received everything stand at the same place. -/
lemma DuplexInv.idle {d : Duplex} (h : DuplexInv c d) (hidle : ∀ b, d.channel b = []) (b : Bool) :
    (d.session b).state = .secondaryKex ∧
      ∃ key, (d.session b).codec.inKey = some key ∧ (d.session (!b)).codec.outKey = some key := by
  obtain ⟨hist, n, apps, h⟩ := h
  have hplace : ∀ b, Setting.recvPos (d.session (!b)).state (n (!b)) =
      Setting.sendPos b (d.session b).state (n b) := by
    intro b
    have hcarries := (h b).carries
    rw [hidle b] at hcarries
    exact (Prod.mk.inj hcarries.eq_of_nil.2).1
  have hin := (h b).side.inKey_eq
  have hout := (h (!b)).side.outKey_eq
  have hpos := (h b).side.pos
  have hpos' := (h (!b)).side.pos
  have hfirst := hplace b
  have hsecond := hplace (!b)
  rw [Bool.not_not] at hsecond
  obtain ⟨hstate, hstate', heq⟩ := Setting.idle_eq hfirst hsecond
  rw [hstate, Setting.recvPos, Setting.sealKey_eq_some (by have := hpos (Or.inl hstate); omega)]
    at hin
  rw [hstate', if_neg (by simp), ← heq,
    Setting.sealKey_eq_some (by have := hpos (Or.inl hstate); omega)] at hout
  exact ⟨hstate, _, hin, hout⟩

/-- **Two honest sessions stay in step**, whatever the order of deliveries, of application
records and of rekeys. -/
theorem DuplexRun.in_step (hc : c.Correct) {d : Duplex} (h : DuplexRun c d) :
    (∀ b record rest x, d.channel (!b) = record :: rest →
      ∃ events, ((receiveDatagram c.prims (.ok x) record).exec (d.session b)).1 = .ok events) ∧
    (∀ b, d.delivered (!b) <+: d.sent b) ∧
    ((∀ b, d.channel b = []) → ∀ b, (d.session b).state = .secondaryKex ∧
      ∃ key, (d.session b).codec.inKey = some key ∧
        (d.session (!b)).codec.outKey = some key) := by
  have hinv := h.inv hc
  refine ⟨fun b record rest x hrecord => (hinv.deliver hc hrecord x).1, fun b => ?_,
    fun hidle b => hinv.idle hidle b⟩
  obtain ⟨hist, n, apps, hdirection⟩ := hinv
  exact ⟨apps b, (hdirection b).sent_eq.symm⟩

end Inv

/-! ### An example -/

section Example

/-- Primitives that keep their promises without any secret. -/
def openPrimitives : Primitives where
  chacha20 _ _ _ _ := 0
  poly1305 _ _ := Vector.replicate 16 0
  hmacSha512 _ _ := Vector.replicate 64 0
  sign _ _ := Vector.replicate 64 0
  verify _ _ _ := .ok ()
  ephemeralFromSeed seed := ⟨Vector.replicate 64 0, seed⟩
  computeShared _ _ := .ok (Vector.replicate 32 0)

/-- Two sides with the same key. -/
def openSetting : Setting :=
  ⟨openPrimitives, [], true, fun _ => ⟨Vector.replicate 64 0, ⟨Vector.replicate 32 0⟩⟩⟩

lemma openSetting_correct : openSetting.Correct :=
  ⟨fun _ _ => rfl, fun _ _ => ⟨Vector.replicate 32 0, rfl, rfl⟩⟩

/-- What a side draws: the two draw different nonces. -/
def openChoice (b : Bool) : Vector UInt8 32 × Vector UInt8 32 :=
  (Vector.replicate 32 0, Vector.replicate 32 (if b then 1 else 2))

/-- A side that has sent its KEX record. -/
def openSession (b : Bool) : SptpsHandshakeSession :=
  SptpsHandshakeSession.kexSent openPrimitives
    ⟨b, [], openSetting.key b, (openSetting.key (!b)).publicKey, .tcp .new, .kex, none, none, none,
      none, [], []⟩
    (openPrimitives.ephemeralFromSeed (openChoice b).1) (openChoice b).2

/-- Both sides have sent their KEX records. -/
def openDuplex : Duplex :=
  ⟨fun b => (openSession b).drainOutbound.2, fun b => (openSession b).drainOutbound.1,
    fun _ => [], fun _ => []⟩

/-- Side `b` receives a record, when there is one. -/
def openDeliver (d : Duplex) (b : Bool) : Duplex :=
  match d.channel (!b) with
  | record :: rest => d.deliver openPrimitives b (.ok (openChoice b)) record rest
  | [] => d

-- The responder gets the KEX record and the signature before the initiator gets anything.
example : ∀ b, (([false, true, false, true].foldl openDeliver openDuplex).session b).isEstablished =
    true := by decide +kernel

/-- Data is sent from both sides while the initiator asks for new keys: nothing of this has
arrived. -/
def openRekeying : Duplex :=
  (((([false, true, false, true].foldl openDeliver openDuplex).send openPrimitives false 1
    [7]).force openPrimitives true (.ok (openChoice true))).send openPrimitives true 2 [8, 9])

/-- The responder has answered with its KEX record, and sends more before the keys change. -/
def openRekeyed : Duplex :=
  [true, false, true, false, true, false, true, false].foldl openDeliver
    (([true, false].foldl openDeliver openRekeying).send openPrimitives false 3 [])

lemma openDeliver_run {d : Duplex} (h : DuplexRun openSetting d) (b : Bool) :
    DuplexRun openSetting (openDeliver d b) := by
  rw [openDeliver]
  cases hchannel : d.channel (!b) with
  | nil => exact h
  | cons record rest => exact h.deliver hchannel (openChoice b)

lemma foldl_openDeliver_run {d : Duplex} (turns : List Bool) (h : DuplexRun openSetting d) :
    DuplexRun openSetting (turns.foldl openDeliver d) := by
  induction turns generalizing d with
  | nil => exact h
  | cons b turns ih => exact ih (openDeliver_run h b)

lemma openRekeying_run : DuplexRun openSetting openRekeying := by
  have hstart : DuplexRun openSetting openDuplex :=
    @DuplexRun.start openSetting (fun _ => 1) openChoice openSession fun _ => rfl
  have hopen := foldl_openDeliver_run [false, true, false, true] hstart
  have hsent := hopen.send (b := false) (by decide +kernel) 1 [7]
  have hforced := hsent.force (b := true) (openChoice true)
  exact hforced.send (b := true) (by decide +kernel) 2 [8, 9]

lemma openRekeyed_run : DuplexRun openSetting openRekeyed := by
  have hanswered := foldl_openDeliver_run [true, false] openRekeying_run
  exact foldl_openDeliver_run _ (hanswered.send (b := false) (by decide +kernel) 3 [])

/-- Both sides send, one of them starts a new exchange of keys, and all of it arrives. -/
theorem in_step_openRekeyed :
    (∀ b record rest, openRekeying.channel (!b) = record :: rest → ∃ events,
      ((receiveDatagram openPrimitives (.ok (openChoice b)) record).exec
        (openRekeying.session b)).1 = .ok events) ∧
    openRekeyed.delivered true = [(1, [7]), (3, [])] ∧
    openRekeyed.delivered false = [(2, [8, 9])] ∧
    (∀ b, openRekeyed.delivered (!b) <+: openRekeyed.sent b) ∧
    ∀ b, (openRekeyed.session b).state = .secondaryKex ∧
      ∃ key, (openRekeyed.session b).codec.inKey = some key ∧
        (openRekeyed.session (!b)).codec.outKey = some key := by
  obtain ⟨hdeliver, -, -⟩ := DuplexRun.in_step openSetting_correct openRekeying_run
  obtain ⟨-, hprefix, hidle⟩ := DuplexRun.in_step openSetting_correct openRekeyed_run
  have hempty : ∀ b, openRekeyed.channel b = [] := by decide +kernel
  exact ⟨fun b record rest h => hdeliver b record rest (openChoice b) h, by decide +kernel,
    by decide +kernel, hprefix, hidle hempty⟩

end Example

end RustyTinc

import RustyTinc.Library.FrameStream
import RustyTinc.Runtime.Meta.Stream

/-!
The driver of a meta connection, which reads the frames of its stream and answers them.

* `applyAuthStep_depth`: the functions that call each other do so at most twice;
* `handleFrame_commutes`: what a frame does depends neither on the bytes that have arrived after
  it nor on what has been collected before;
* `FrameRule.handleFrame`: a relation that the parts of handling a frame keep is kept by it.
-/

namespace RustyTinc

/-- What a connection reports to its owner. -/
inductive MetaConnectionEvent where
  | message (message : MetaMessage)
  | auth (event : MetaAuthEvent)
  | applicationRecord (recordType : UInt8) (payload : List UInt8)
  | tcpPacket (data : List UInt8)
  | sptpsPacket (data : List UInt8)
deriving DecidableEq

/-- A frame that the driver has handled, the authentication that it met, and its events. -/
structure HandledFrame where
  auth : MetaConnectionAuth
  frame : MetaStreamFrame
  events : List MetaConnectionEvent

/-- A connection: the bytes that were received and the authentication. -/
structure MetaConnectionDriver where
  auth : MetaConnectionAuth
  decoder : MetaStreamDecoder
  pendingTcpPacket : Option ℕ
  /-- Ghost: the frames handled so far; no function reads it. -/
  handled : List HandledFrame

/-- The bytes to send and the events of a call, so far. -/
@[ext] structure MetaConnectionStep where
  outbound : List (List UInt8)
  events : List MetaConnectionEvent
deriving DecidableEq

instance : Zero MetaConnectionStep := ⟨⟨[], []⟩⟩

/-- Steps are collected one after the other. -/
instance : Add MetaConnectionStep :=
  ⟨fun s t => ⟨s.outbound ++ t.outbound, s.events ++ t.events⟩⟩

instance : AddMonoid MetaConnectionStep where
  zero_add s := rfl
  add_zero s := MetaConnectionStep.ext (List.append_nil _) (List.append_nil _)
  add_assoc s t u := MetaConnectionStep.ext (List.append_assoc ..) (List.append_assoc ..)
  nsmul := nsmulRec

@[simp] lemma MetaConnectionStep.outbound_add (s t : MetaConnectionStep) :
    (s + t).outbound = s.outbound ++ t.outbound := rfl

@[simp] lemma MetaConnectionStep.events_add (s t : MetaConnectionStep) :
    (s + t).events = s.events ++ t.events := rfl

@[simp] lemma MetaConnectionStep.outbound_zero : (0 : MetaConnectionStep).outbound = [] := rfl

@[simp] lemma MetaConnectionStep.events_zero : (0 : MetaConnectionStep).events = [] := rfl

/-- Why a connection goes down. -/
inductive MetaConnectionError where
  | stream (error : MetaStreamError)
  | parse (error : MetaMessageError)
  | auth (error : MetaAuthError)
  | notActivated (state : MetaAuthState)
  | packetTooLarge (maximum actual : ℕ)
  | packetLengthMismatch (expected actual : ℕ)
deriving DecidableEq

/-- Whether a line has come in a record or as it is. -/
inductive MetaLineSource where
  | plaintext
  | sptpsApplication
deriving DecidableEq

namespace MetaConnectionDriver

/-- A connection on which nothing has arrived. -/
def new (auth : MetaConnectionAuth) : MetaConnectionDriver := ⟨auth, .new, none, []⟩

/-- A computation of the driver that collects a step. -/
abbrev DriverM (α : Type) :=
  Stateful MetaConnectionError (MetaConnectionDriver × MetaConnectionStep) α

/-- An operation of the authentication. -/
def onAuth {α : Type} (x : MetaConnectionAuth.AuthM α) : DriverM α :=
  .ofFn fun s =>
    ((x.exec s.1.auth).1.mapError .auth, ({ s.1 with auth := (x.exec s.1.auth).2 }, s.2))

/-- Bytes are sent. -/
def pushOutbound (chunks : List (List UInt8)) : DriverM Unit :=
  modify fun s => (s.1, s.2 + ⟨chunks, []⟩)

/-- An event is reported. -/
def pushEvent (event : MetaConnectionEvent) : DriverM Unit :=
  modify fun s => (s.1, s.2 + ⟨[], [event]⟩)

/-- The driver once a message of an activated connection has announced a body. -/
def observe (driver : MetaConnectionDriver) (source : MetaLineSource) (message : MetaMessage) :
    MetaConnectionDriver :=
  match source with
  | .plaintext => { driver with decoder := driver.decoder.observeMetaMessage message }
  | .sptpsApplication =>
      match message with
      | .tcpPacket message => { driver with pendingTcpPacket := some message.length.toNat }
      | .sptpsTcpPacket message =>
          { driver with decoder := driver.decoder.expectBody .sptpsPacket message.length.toNat }
      | _ => driver

/-- What the stream of the driver consists of. -/
def framing (driver : MetaConnectionDriver) : MetaFraming :=
  if driver.auth.state = .expectId ∨ driver.auth.usesPlaintextMeta then .lines
  else .records driver.auth.sptpsInEncrypted

section Handle

variable (p : Primitives) (applyAuthStep : MetaAuthStep → DriverM Unit)

/-- A line that has arrived; after the activation it is only reported. -/
def handleMetaLine (line : String) (source : MetaLineSource) : DriverM Unit := do
  let message ← .ofExcept ((parseMetaMessage line.toList).mapError .parse)
  pushEvent (.message message)
  let s ← get
  if s.1.auth.state ≠ .activated then do
    let authStep ← onAuth (MetaConnectionAuth.receiveMetaMessage p message)
    applyAuthStep authStep
  else modify fun s => (s.1.observe source message, s.2)

/-- The payload of a record: the packet that is waited for, or else a line. -/
def handleSptpsApplication (recordType : UInt8) (payload : List UInt8) : DriverM Unit :=
  if recordType ≠ sptpsMetaRecord then pushEvent (.applicationRecord recordType payload)
  else do
    let s ← get
    match s.1.pendingTcpPacket with
    | some expected => do
        modify fun s => ({ s.1 with pendingTcpPacket := none }, s.2)
        if payload.length ≠ expected then throw (.packetLengthMismatch expected payload.length)
        else pushEvent (.tcpPacket payload)
    | none => do
        let line ← .ofExcept ((decodeMetaLine payload).mapError .stream)
        handleMetaLine p applyAuthStep line .sptpsApplication

/-- The bytes of a message. -/
def encodeMessage (message : MetaMessage) : DriverM (List UInt8) := do
  let s ← get
  if s.1.auth.usesPlaintextMeta then return encodeMetaLine message
  else onAuth (MetaConnectionAuth.sendSptpsApplication p (encodeMetaLine message))

/-- Encodes the messages that the authentication sends. -/
def pushMessages : List MetaMessage → DriverM Unit
  | [] => pure ()
  | message :: rest => do
      let encoded ← encodeMessage p message
      pushOutbound [encoded]
      pushMessages rest

/-- What the authentication has come to is reported; the payloads of records are handled first. -/
def handleAuthEvent : MetaAuthEvent → DriverM Unit
  | .applicationRecord recordType payload =>
      handleSptpsApplication p applyAuthStep recordType payload
  | event => pushEvent (.auth event)

/-- The same for some events, one after the other. -/
def handleAuthEvents : List MetaAuthEvent → DriverM Unit
  | [] => pure ()
  | event :: rest => do
      handleAuthEvent p applyAuthStep event
      handleAuthEvents rest

end Handle

/-- The functions that handle lines and apply what the authentication answers call each other,
up to the given depth. -/
def applyAuthStep (p : Primitives) : ℕ → MetaAuthStep → DriverM Unit
  | 0, _ => pure ()
  | depth + 1, authStep => do
      pushOutbound authStep.rawOutbound
      pushMessages p authStep.outbound
      handleAuthEvents p (applyAuthStep p depth) authStep.events

/-- A line, a record or a packet that has arrived. -/
def handleFrame (p : Primitives) (frame : MetaStreamFrame) : DriverM Unit :=
  match frame with
  | .line line => handleMetaLine p (applyAuthStep p 1) line .plaintext
  | .sptpsRecord record => do
      let authStep ← onAuth (MetaConnectionAuth.receiveSptpsRecord p record)
      applyAuthStep p 2 authStep
  | .body .tcpPacket data => pushEvent (.tcpPacket data)
  | .body .sptpsPacket data => pushEvent (.sptpsPacket data)

/-- Takes the next frame out of the buffer. -/
def takeFrame (next : MetaFraming → MetaStreamDecoder → MetaStreamDecoder.NextFrame) :
    DriverM (Option MetaStreamFrame) :=
  .ofFn fun s =>
    match next s.1.framing s.1.decoder with
    | none => (.ok none, s)
    | some (frame, decoder) =>
        ((frame.map some).mapError .stream, ({ s.1 with decoder := decoder }, s.2))

/-- Ghost: the frame is noted once it has been handled, whether or not that fails. -/
def noting (frame : MetaStreamFrame) (x : DriverM Unit) : DriverM Unit :=
  .ofFn fun s =>
    let r := x.exec (s.1, 0)
    (r.1, ({ r.2.1 with handled := r.2.1.handled ++ [⟨s.1.auth, frame, r.2.2.events⟩] },
      s.2 + r.2.2))

/-- Handles the next frame. -/
def handleNextFrame (p : Primitives)
    (next : MetaFraming → MetaStreamDecoder → MetaStreamDecoder.NextFrame) : DriverM Bool := do
  let frame ← takeFrame next
  match frame with
  | none => return false
  | some frame => do
      noting frame (handleFrame p frame)
      return true

/-- The limit for the buffer, and how many bytes there is room for. -/
def nextInputWindow (driver : MetaConnectionDriver) : Except MetaStreamError (ℕ × ℕ) :=
  let buffered := driver.decoder.buffer.length
  match driver.decoder.pendingBody, driver.framing with
  | some body, _ =>
      if body.length > maxMetaBufferSize then .error (.inputBufferFull maxMetaBufferSize body.length)
      else .ok (maxMetaBufferSize, body.length - buffered)
  | none, .lines => .ok (maxMetaBufferSize, maxMetaBufferSize - buffered)
  | none, .records encrypted =>
      .ok (maxSptpsTcpRecordBufferSize,
        (driver.decoder.expectedSptpsFrameLen encrypted).getD 2 - buffered)

/-- Takes as many bytes as there is room for, and returns the others. -/
def load (remaining : List UInt8) :
    Stateful MetaConnectionError MetaConnectionDriver (List UInt8) := do
  let driver ← get
  let window ← .ofExcept (driver.nextInputWindow.mapError .stream)
  if window.2 = 0 then
    throw (.stream (.inputBufferFull window.1 (driver.decoder.buffer.length + remaining.length)))
  else do
    let decoder ← .ofExcept
      ((driver.decoder.pushLimited (remaining.take window.2) window.1).mapError .stream)
    modify fun driver => { driver with decoder := decoder }
    return remaining.drop window.2

end MetaConnectionDriver

open MetaConnectionDriver

/-- A driver that takes frames out of its buffer in the given way. -/
def readerOf (p : Primitives)
    (next : MetaFraming → MetaStreamDecoder → MetaStreamDecoder.NextFrame) :
    FrameReader MetaConnectionError MetaConnectionDriver MetaConnectionStep UInt8 where
  next := handleNextFrame p next
  load := load
  weight driver := driver.decoder.weight

/-- `drain_available_frames` and the loop of `receive_bytes`. -/
def metaReader (p : Primitives) :
    FrameReader MetaConnectionError MetaConnectionDriver MetaConnectionStep UInt8 :=
  readerOf p MetaStreamDecoder.nextFrame

namespace MetaConnectionDriver

/-- Some bytes arrive. -/
def receiveBytes (p : Primitives) (data : List UInt8) :
    Stateful MetaConnectionError MetaConnectionDriver MetaConnectionStep :=
  (metaReader p).call data

/-! ### The depth of the calls -/

section Depth

variable {p : Primitives}

/-- An event that does not lead to another call. -/
def IsFinal : MetaAuthEvent → Prop
  | .applicationRecord _ _ => False
  | _ => True

lemma handleAuthEvent_final {event : MetaAuthEvent} (h : IsFinal event)
    (apply : MetaAuthStep → DriverM Unit) :
    handleAuthEvent p apply event = pushEvent (.auth event) := by
  cases event with
  | applicationRecord _ _ => exact h.elim
  | _ => rfl

lemma handleAuthEvents_final {events : List MetaAuthEvent} (h : ∀ e ∈ events, IsFinal e)
    (apply apply' : MetaAuthStep → DriverM Unit) :
    handleAuthEvents p apply events = handleAuthEvents p apply' events := by
  induction events with
  | nil => rfl
  | cons event rest ih =>
      obtain ⟨hevent, hrest⟩ := List.forall_mem_cons.mp h
      rw [handleAuthEvents, handleAuthEvents, ih hrest, handleAuthEvent_final hevent,
        handleAuthEvent_final hevent]

/-- What the authentication answers to a line does not lead to another call. -/
lemma receiveMetaMessage_final {message : MetaMessage} {auth auth' : MetaConnectionAuth}
    {authStep : MetaAuthStep}
    (h : (MetaConnectionAuth.receiveMetaMessage p message).exec auth = (.ok authStep, auth')) :
    ∀ e ∈ authStep.events, IsFinal e := by
  cases message with
  | id message =>
      obtain ⟨-, -, -, -, ⟨-, rfl, -⟩ | ⟨-, session, -, rfl, -⟩⟩ :=
        MetaConnectionAuth.receiveId_eq_ok h
      · exact fun e he => absurd he List.not_mem_nil
      · exact fun e he => absurd he List.not_mem_nil
  | ack message =>
      obtain ⟨-, peer, port, weight, options, -, -, rfl, -⟩ := MetaConnectionAuth.receiveAck_eq_ok h
      simp [IsFinal]
  | _ => cases h

lemma applyAuthStep_final {authStep : MetaAuthStep} (h : ∀ e ∈ authStep.events, IsFinal e)
    (depth : ℕ) : applyAuthStep p (depth + 1) authStep = applyAuthStep p 1 authStep := by
  rw [applyAuthStep, applyAuthStep, handleAuthEvents_final h]

/-- Lines do not nest deeper than once. -/
lemma handleMetaLine_depth (depth : ℕ) (line : String) (source : MetaLineSource) :
    handleMetaLine p (applyAuthStep p (depth + 1)) line source =
      handleMetaLine p (applyAuthStep p 1) line source := by
  unfold handleMetaLine
  refine Stateful.bind_congr_ok fun message _ _ _ => Stateful.bind_congr_ok fun _ _ _ _ =>
    Stateful.bind_congr_ok fun s _ _ _ => if_congr Iff.rfl ?_ rfl
  refine Stateful.bind_congr_ok fun authStep t u h => applyAuthStep_final ?_ depth
  rw [onAuth, Stateful.exec_ofFn] at h
  generalize hexec : (MetaConnectionAuth.receiveMetaMessage p message).exec t.1.auth = r at h
  obtain ⟨_ | authStep', auth'⟩ := r
  · cases h
  · cases h
    exact receiveMetaMessage_final hexec

lemma handleSptpsApplication_congr {apply apply' : MetaAuthStep → DriverM Unit}
    (h : ∀ line source, handleMetaLine p apply line source = handleMetaLine p apply' line source)
    (recordType : UInt8) (payload : List UInt8) :
    handleSptpsApplication p apply recordType payload =
      handleSptpsApplication p apply' recordType payload := by
  unfold handleSptpsApplication
  simp only [h]

/-- Only the lines of the events matter. -/
lemma handleAuthEvents_congr {apply apply' : MetaAuthStep → DriverM Unit}
    (h : ∀ line source, handleMetaLine p apply line source = handleMetaLine p apply' line source)
    (events : List MetaAuthEvent) :
    handleAuthEvents p apply events = handleAuthEvents p apply' events := by
  induction events with
  | nil => rfl
  | cons event rest ih =>
      rw [handleAuthEvents, handleAuthEvents, ih]
      by_cases hfinal : IsFinal event
      · rw [handleAuthEvent_final hfinal, handleAuthEvent_final hfinal]
      · cases event with
        | applicationRecord recordType payload =>
            rw [handleAuthEvent, handleAuthEvent, handleSptpsApplication_congr h]
        | _ => exact absurd trivial hfinal

/-- **Deeper calls than the driver makes do not occur.** -/
theorem applyAuthStep_depth (depth : ℕ) (authStep : MetaAuthStep) :
    applyAuthStep p (depth + 2) authStep = applyAuthStep p 2 authStep := by
  rw [applyAuthStep, applyAuthStep, handleAuthEvents_congr (handleMetaLine_depth depth)]

end Depth

/-! ### Bytes that arrive later, and what has been collected before -/

/-- The driver with bytes that have arrived later. -/
def extend (driver : MetaConnectionDriver) (data : List UInt8) : MetaConnectionDriver :=
  { driver with decoder := driver.decoder.extend data }

/-- More bytes have arrived, and more has been collected before. -/
def around (data : List UInt8) (before : MetaConnectionStep)
    (s : MetaConnectionDriver × MetaConnectionStep) : MetaConnectionDriver × MetaConnectionStep :=
  (s.1.extend data, before + s.2)

section Commutes

variable {p : Primitives} {data : List UInt8} {before : MetaConnectionStep}
  {apply : MetaAuthStep → DriverM Unit}

lemma onAuth_commutes {α : Type} (x : MetaConnectionAuth.AuthM α) :
    (onAuth x).Commutes (around data before) := fun _ => rfl

lemma pushOutbound_commutes (chunks : List (List UInt8)) :
    (pushOutbound chunks).Commutes (around data before) :=
  .modify fun s => Prod.ext rfl (add_assoc before s.2 _)

lemma pushEvent_commutes (event : MetaConnectionEvent) :
    (pushEvent event).Commutes (around data before) :=
  .modify fun s => Prod.ext rfl (add_assoc before s.2 _)

lemma observe_extend (driver : MetaConnectionDriver) (source : MetaLineSource)
    (message : MetaMessage) :
    (driver.extend data).observe source message = (driver.observe source message).extend data := by
  cases source <;> cases message <;> rfl

lemma handleMetaLine_commutes (happly : ∀ authStep, (apply authStep).Commutes (around data before))
    (line : String) (source : MetaLineSource) :
    (handleMetaLine p apply line source).Commutes (around data before) := by
  refine .bind (.ofExcept _) fun message => .bind (pushEvent_commutes _) fun _ =>
    .get_bind (fun _ => rfl) fun s => .ite (.bind (onAuth_commutes _) happly) (.modify fun s => ?_)
  exact Prod.ext (observe_extend s.1 source message) rfl

lemma handleSptpsApplication_commutes
    (happly : ∀ authStep, (apply authStep).Commutes (around data before)) (recordType : UInt8)
    (payload : List UInt8) :
    (handleSptpsApplication p apply recordType payload).Commutes (around data before) := by
  refine .ite (pushEvent_commutes _) (.get_bind (fun _ => rfl) fun s => ?_)
  cases s.1.pendingTcpPacket with
  | some expected =>
      exact .bind (.modify fun _ => rfl) fun _ => .ite (.throw _) (pushEvent_commutes _)
  | none => exact .bind (.ofExcept _) fun line => handleMetaLine_commutes happly line _

lemma pushMessages_commutes (messages : List MetaMessage) :
    (pushMessages p messages).Commutes (around data before) := by
  induction messages with
  | nil => exact .pure _
  | cons message rest ih =>
      have hencode : (encodeMessage p message).Commutes (around data before) :=
        .get_bind (fun _ => rfl) fun s => .ite (.pure _) (onAuth_commutes _)
      exact .bind hencode fun encoded => .bind (pushOutbound_commutes _) fun _ => ih

/-- Events are handled in the same way whatever has been collected before. -/
lemma handleAuthEvents_commutes
    (happly : ∀ authStep, (apply authStep).Commutes (around data before))
    (events : List MetaAuthEvent) :
    (handleAuthEvents p apply events).Commutes (around data before) := by
  induction events with
  | nil => exact .pure _
  | cons event rest ih =>
      refine .bind ?_ fun _ => ih
      cases event with
      | applicationRecord recordType payload =>
          exact handleSptpsApplication_commutes happly recordType payload
      | _ => exact pushEvent_commutes _

lemma applyAuthStep_commutes (depth : ℕ) (authStep : MetaAuthStep) :
    (applyAuthStep p depth authStep).Commutes (around data before) := by
  induction depth generalizing authStep with
  | zero => exact .pure _
  | succ depth ih =>
      exact .bind (pushOutbound_commutes _) fun _ => .bind (pushMessages_commutes _) fun _ =>
        handleAuthEvents_commutes ih _

/-- **What a frame does** depends neither on the bytes that have arrived after it nor on what has
been collected before. -/
lemma handleFrame_commutes (frame : MetaStreamFrame) :
    (handleFrame p frame).Commutes (around data before) := by
  cases frame with
  | line line => exact handleMetaLine_commutes (applyAuthStep_commutes 1) line _
  | sptpsRecord record => exact .bind (onAuth_commutes _) (applyAuthStep_commutes 2)
  | body kind data =>
      cases kind with
      | tcpPacket => exact pushEvent_commutes _
      | sptpsPacket => exact pushEvent_commutes _

end Commutes

/-! ### What a frame changes -/

/-- A relation between what there is before and after the parts of handling a frame. -/
structure FrameRule (p : Primitives)
    (R : MetaConnectionDriver × MetaConnectionStep → MetaConnectionDriver × MetaConnectionStep → Prop) :
    Prop where
  refl : ∀ s, R s s
  trans : ∀ s t u, R s t → R t u → R s u
  push : ∀ d w w', R (d, w) (d, w + w')
  message : ∀ message, (onAuth (MetaConnectionAuth.receiveMetaMessage p message)).Moves R
  record : ∀ record, (onAuth (MetaConnectionAuth.receiveSptpsRecord p record)).Moves R
  send : ∀ payload, (onAuth (MetaConnectionAuth.sendSptpsApplication p payload)).Moves R
  observe : ∀ d w source message,
    R (d, w) (d.observe source message, w + ⟨[], [.message message]⟩)
  packet : ∀ d w, R (d, w) ({ d with pendingTcpPacket := none }, w)

section Rule

variable {p : Primitives}
  {R : MetaConnectionDriver × MetaConnectionStep → MetaConnectionDriver × MetaConnectionStep → Prop}
  (hrule : FrameRule p R) {apply : MetaAuthStep → DriverM Unit}

include hrule

/-- What a step keeps, a line keeps. -/
lemma FrameRule.handleMetaLine (happly : ∀ authStep, (apply authStep).Moves R) (line : String)
    (source : MetaLineSource) : (handleMetaLine p apply line source).Moves R := by
  intro s
  rw [MetaConnectionDriver.handleMetaLine, Stateful.exec_bind, Stateful.exec_ofExcept]
  cases (parseMetaMessage line.toList).mapError MetaConnectionError.parse with
  | error e => exact hrule.refl s
  | ok message =>
      -- the message is collected, whatever happens next
      simp only
      rw [Stateful.exec_bind, pushEvent, Stateful.exec_modify]
      simp only
      rw [Stateful.exec_bind, Stateful.exec_get]
      simp only [Stateful.exec_ite]
      split_ifs
      · exact hrule.trans _ _ _ (hrule.push s.1 s.2 _)
          (Stateful.Moves.bind hrule.trans (hrule.message message) happly _)
      · exact hrule.observe s.1 s.2 source message

/-- What a step keeps, some events keep. -/
lemma FrameRule.handleAuthEvents (happly : ∀ authStep, (apply authStep).Moves R)
    (events : List MetaAuthEvent) : (handleAuthEvents p apply events).Moves R := by
  induction events with
  | nil => exact .pure hrule.refl _
  | cons event rest ih =>
      refine .bind hrule.trans ?_ fun _ => ih
      cases event with
      | applicationRecord recordType payload =>
          refine .ite (fun _ => .modify fun s => hrule.push s.1 s.2 _) fun _ =>
            .bind hrule.trans (.get hrule.refl) fun s => ?_
          cases s.1.pendingTcpPacket with
          | some expected =>
              exact .bind hrule.trans (.modify fun s => hrule.packet s.1 s.2) fun _ =>
                .ite (fun _ => .throw hrule.refl _) fun _ => .modify fun s => hrule.push s.1 s.2 _
          | none =>
              exact .bind hrule.trans (.ofExcept hrule.refl _) fun line =>
                hrule.handleMetaLine happly line _
      | _ => exact .modify fun s => hrule.push s.1 s.2 _

lemma FrameRule.pushMessages (messages : List MetaMessage) : (pushMessages p messages).Moves R := by
  induction messages with
  | nil => exact .pure hrule.refl _
  | cons message rest ih =>
      have hencode : (encodeMessage p message).Moves R :=
        .bind hrule.trans (.get hrule.refl) fun s =>
          .ite (fun _ => .pure hrule.refl _) fun _ => hrule.send _
      exact .bind hrule.trans hencode fun _ =>
        .bind hrule.trans (.modify fun s => hrule.push s.1 s.2 _) fun _ => ih

lemma FrameRule.applyAuthStep (depth : ℕ) (authStep : MetaAuthStep) :
    (applyAuthStep p depth authStep).Moves R := by
  induction depth generalizing authStep with
  | zero => exact .pure hrule.refl _
  | succ depth ih =>
      exact .bind hrule.trans (.modify fun s => hrule.push s.1 s.2 _) fun _ =>
        .bind hrule.trans (hrule.pushMessages _) fun _ => hrule.handleAuthEvents ih _

/-- **A relation that the parts of handling a frame keep is kept by the frame.** -/
theorem FrameRule.handleFrame (frame : MetaStreamFrame) : (handleFrame p frame).Moves R := by
  cases frame with
  | line line => exact hrule.handleMetaLine (hrule.applyAuthStep 1) line _
  | sptpsRecord record => exact .bind hrule.trans (hrule.record record) (hrule.applyAuthStep 2)
  | body kind data => cases kind <;> exact .modify fun s => hrule.push s.1 s.2 _

end Rule

/-- A frame leaves the buffer alone. -/
lemma handleFrame_buffer {p : Primitives} (frame : MetaStreamFrame) :
    (handleFrame p frame).Moves fun s t => t.1.decoder.buffer = s.1.decoder.buffer := by
  have hrule : FrameRule p fun s t => t.1.decoder.buffer = s.1.decoder.buffer :=
    { refl := fun _ => rfl
      trans := fun _ _ _ h h' => h'.trans h
      push := fun _ _ _ => rfl
      message := fun _ _ => rfl
      record := fun _ _ => rfl
      send := fun _ _ => rfl
      observe := fun _ _ source message => by cases source <;> cases message <;> rfl
      packet := fun _ _ => rfl }
  exact hrule.handleFrame frame

/-- Only the frame as a whole is noted. -/
lemma handleFrame_handled {p : Primitives} (frame : MetaStreamFrame) :
    (handleFrame p frame).Moves fun s t => t.1.handled = s.1.handled := by
  have hrule : FrameRule p fun s t => t.1.handled = s.1.handled :=
    { refl := fun _ => rfl
      trans := fun _ _ _ h h' => h'.trans h
      push := fun _ _ _ => rfl
      message := fun _ _ => rfl
      record := fun _ _ => rfl
      send := fun _ _ => rfl
      observe := fun _ _ source message => by cases source <;> cases message <;> rfl
      packet := fun _ _ => rfl }
  exact hrule.handleFrame frame

end MetaConnectionDriver

end RustyTinc

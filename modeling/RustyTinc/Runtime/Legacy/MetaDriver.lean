import RustyTinc.Runtime.Legacy.MetaAuth
import RustyTinc.Runtime.Meta.Driver

/-!
The driver of a legacy meta connection, which reads lines until a METAKEY line was accepted, and
decrypts what comes after it.

* `handleFrame_around`: what a frame does depends neither on what has arrived after it, nor on the
  inbound cipher, nor on what has been collected before;
* `handleFrame_effect`: a frame leaves the bytes that have arrived after it alone.
-/

namespace RustyTinc

/-- Why a connection of the legacy protocol goes down. -/
inductive LegacyMetaConnectionError where
  | stream (error : MetaStreamError)
  | parse (error : MetaMessageError)
  | auth (error : LegacyMetaAuthError)
  | notActivated (state : LegacyMetaAuthState)
  | packetTooLarge (maximum actual : ℕ)
  | unsupportedSptpsTcpPacket
  | unexpectedSptpsRecord
deriving DecidableEq

/-- A connection of the legacy protocol: the bytes that were received and the authentication. -/
structure LegacyMetaConnectionDriver where
  auth : LegacyMetaAuth
  rawBuffer : List UInt8
  decoder : MetaStreamDecoder

namespace LegacyMetaConnectionDriver

/-- A connection on which nothing has arrived. -/
def new (auth : LegacyMetaAuth) : LegacyMetaConnectionDriver := ⟨auth, [], .new⟩

/-- A computation of the driver that collects a step. -/
abbrev DriverM (α : Type) :=
  Stateful LegacyMetaConnectionError (LegacyMetaConnectionDriver × MetaConnectionStep) α

/-- An operation of the authentication. -/
def onAuth {α : Type} (x : LegacyMetaAuth.AuthM α) : DriverM α :=
  .ofFn fun s =>
    ((x.exec s.1.auth).1.mapError .auth, ({ s.1 with auth := (x.exec s.1.auth).2 }, s.2))

/-- What a call has given so far, and more. -/
def collect (step : MetaConnectionStep) : DriverM Unit := modify fun s => (s.1, s.2 + step)

/-! ### Frames -/

/-- `MetaConnectionEvent::Auth` -/
def authEvent : LegacyMetaAuthEvent → MetaConnectionEvent
  | .activated peer port weight options => .auth (.activated peer port weight options)
  | .legacyEd25519Upgrade peer publicKey => .auth (.legacyEd25519Upgrade peer publicKey)

/-- Messages are encoded and sent, one after the other. -/
def pushMessages (p : LegacyMetaPrimitives) : List LegacyMetaOutboundMessage → DriverM Unit
  | [] => pure ()
  | message :: rest => do
      let encoded ← onAuth (LegacyMetaAuth.encodeOutboundMessage p message)
      collect ⟨[encoded], []⟩
      pushMessages p rest

/-- What a message has led to is sent and reported. -/
def applyAuthStep (p : LegacyMetaPrimitives) (authStep : LegacyMetaAuthStep) : DriverM Unit := do
  pushMessages p authStep.outbound
  collect ⟨[], authStep.events.map authEvent⟩

/-- A line that has arrived; after the activation it is only reported. -/
def handleMetaLine (p : LegacyMetaPrimitives) (line : String) : DriverM Unit := do
  let message ← .ofExcept ((parseMetaMessage line.toList).mapError .parse)
  collect ⟨[], [.message message]⟩
  let s ← get
  if s.1.auth.state ≠ .activated then do
    let authStep ← onAuth (LegacyMetaAuth.receiveMetaMessage p message)
    applyAuthStep p authStep
  else modify fun s => ({ s.1 with decoder := s.1.decoder.observeMetaMessage message }, s.2)

/-- A line or a packet that has arrived. -/
def handleFrame (p : LegacyMetaPrimitives) (frame : MetaStreamFrame) : DriverM Unit :=
  match frame with
  | .line line => handleMetaLine p line
  | .body .tcpPacket data => collect ⟨[], [.tcpPacket data]⟩
  | .body .sptpsPacket data => collect ⟨[], [.sptpsPacket data]⟩
  | .sptpsRecord _ => throw .unexpectedSptpsRecord

/-- Takes the next frame out of the buffer. -/
def takeFrame (next : MetaStreamDecoder → MetaStreamDecoder.NextFrame) :
    DriverM (Option MetaStreamFrame) :=
  .ofFn fun s =>
    match next s.1.decoder with
    | none => (.ok none, s)
    | some (frame, decoder) =>
        ((frame.map some).mapError .stream, ({ s.1 with decoder := decoder }, s.2))

/-- Handles the next frame. -/
def handleNextFrame (p : LegacyMetaPrimitives)
    (next : MetaStreamDecoder → MetaStreamDecoder.NextFrame) : DriverM Bool := do
  let frame ← takeFrame next
  match frame with
  | none => return false
  | some frame => do
      handleFrame p frame
      return true

/-- Handles the line that ends at a position of the buffer. -/
def handleRawLine (p : LegacyMetaPrimitives) (position : ℕ) : DriverM Unit := do
  let s ← get
  modify fun s => ({ s.1 with rawBuffer := s.1.rawBuffer.drop (position + 1) }, s.2)
  let line ← .ofExcept ((decodeMetaLine (s.1.rawBuffer.take (position + 1))).mapError .stream)
  handleMetaLine p line

/-- All bytes that have arrived are decrypted. -/
def decryptRaw (p : LegacyMetaPrimitives) : DriverM Unit := do
  let s ← get
  let plaintext ← onAuth (LegacyMetaAuth.decryptInbound p s.1.rawBuffer)
  modify fun s => ({ s.1 with rawBuffer := [] }, s.2)
  let decoder ← .ofExcept ((s.1.decoder.pushLimited plaintext maxMetaBufferSize).mapError .stream)
  modify fun s => ({ s.1 with decoder := decoder }, s.2)

/-! ### The stream -/

/-- The driver once bytes have arrived and, as the case may be, are decrypted; there is room for
all of them. -/
def push (p : LegacyMetaPrimitives) (driver : LegacyMetaConnectionDriver) (data : List UInt8) :
    LegacyMetaConnectionDriver :=
  match driver.auth.inCipher with
  | none => { driver with rawBuffer := driver.rawBuffer ++ data }
  | some cipher =>
      let r := cipher.cfb128Apply p false data
      { driver with
        auth := driver.auth.withInCipher (some r.2)
        decoder := driver.decoder.extend r.1 }

/-- A driver that handles its frames in the given way, and takes the bytes one by one. -/
def readerOf (p : LegacyMetaPrimitives) (next : DriverM Bool) :
    FrameReader LegacyMetaConnectionError LegacyMetaConnectionDriver MetaConnectionStep UInt8 where
  next := next
  load data := do
    modify fun driver => driver.push p (data.take 1)
    return data.drop 1
  weight driver := driver.decoder.weight + 2 * driver.rawBuffer.length

/-- The frames that are decrypted. -/
def frameReader (p : LegacyMetaPrimitives) :
    FrameReader LegacyMetaConnectionError LegacyMetaConnectionDriver MetaConnectionStep UInt8 :=
  readerOf p (handleNextFrame p (MetaStreamDecoder.nextFrame .lines))

/-- The loop of `receive_bytes`. -/
def receiveLoop (p : LegacyMetaPrimitives) : ℕ → DriverM Unit
  | 0 => pure ()
  | fuel + 1 => do
      let s ← get
      if s.1.auth.inboundEncrypted then
        if s.1.rawBuffer.isEmpty then pure ()
        else do
          decryptRaw p
          (frameReader p).drain
          receiveLoop p fuel
      else
        match s.1.rawBuffer.findIdx? (· == newline) with
        | none => pure ()
        | some position => do
            handleRawLine p position
            receiveLoop p fuel

/-- Some bytes arrive. -/
def receiveBytes (p : LegacyMetaPrimitives) (data : List UInt8) :
    Stateful LegacyMetaConnectionError LegacyMetaConnectionDriver MetaConnectionStep :=
  .ofFn fun driver =>
    let driver := { driver with rawBuffer := driver.rawBuffer ++ data }
    let r := (receiveLoop p (driver.rawBuffer.length + 1)).exec (driver, 0)
    (r.1.map fun _ => r.2.2, r.2.1)

/-! ### What has arrived later, and what has been collected before -/

/-- The authentication was changed, more bytes have arrived, and more has been collected before. -/
def around (g : LegacyMetaAuth → LegacyMetaAuth) (raw data : List UInt8)
    (before : MetaConnectionStep) (s : LegacyMetaConnectionDriver × MetaConnectionStep) :
    LegacyMetaConnectionDriver × MetaConnectionStep :=
  (⟨g s.1.auth, s.1.rawBuffer ++ raw, s.1.decoder.extend data⟩, before + s.2)

section Around

variable {p : LegacyMetaPrimitives} {g : LegacyMetaAuth → LegacyMetaAuth} {raw data : List UInt8}
  {before : MetaConnectionStep}

lemma collect_commutes (step : MetaConnectionStep) :
    (collect step).Commutes (around g raw data before) :=
  .modify fun s => Prod.ext rfl (add_assoc before s.2 step)

lemma onAuth_around {α : Type} {x : LegacyMetaAuth.AuthM α}
    {s : LegacyMetaConnectionDriver × MetaConnectionStep}
    (hx : x.exec (g s.1.auth) = ((x.exec s.1.auth).1, g (x.exec s.1.auth).2)) :
    (onAuth x).exec (around g raw data before s) =
      (((onAuth x).exec s).1, around g raw data before ((onAuth x).exec s).2) := by
  simp only [onAuth, Stateful.exec_ofFn, around, hx]

variable (g raw data before) (hstate : ∀ auth, (g auth).state = auth.state)
  (hencode : ∀ message, (LegacyMetaAuth.encodeOutboundMessage p message).Commutes g)

include hencode in
lemma applyAuthStep_commutes (authStep : LegacyMetaAuthStep) :
    (applyAuthStep p authStep).Commutes (around g raw data before) := by
  have hmessages : ∀ messages, (pushMessages p messages).Commutes (around g raw data before) := by
    intro messages
    induction messages with
    | nil => exact .pure _
    | cons message rest ih =>
        exact .bind (fun s => onAuth_around (hencode message s.1.auth)) fun encoded =>
          .bind (collect_commutes _) fun _ => ih
  exact .bind (hmessages _) fun _ => collect_commutes _

lemma observeMetaMessage_extend (decoder : MetaStreamDecoder) (message : MetaMessage) :
    (decoder.extend data).observeMetaMessage message =
      (decoder.observeMetaMessage message).extend data := by
  cases message <;> rfl

include hstate hencode

/-- **What a line does** depends only on what the authentication does with it. -/
lemma handleMetaLine_around (line : String)
    (s : LegacyMetaConnectionDriver × MetaConnectionStep)
    (hreceive : ∀ message, (LegacyMetaAuth.receiveMetaMessage p message).exec (g s.1.auth) =
      (((LegacyMetaAuth.receiveMetaMessage p message).exec s.1.auth).1,
        g ((LegacyMetaAuth.receiveMetaMessage p message).exec s.1.auth).2)) :
    (handleMetaLine p line).exec (around g raw data before s) =
      (((handleMetaLine p line).exec s).1,
        around g raw data before ((handleMetaLine p line).exec s).2) := by
  rw [handleMetaLine, Stateful.exec_bind, Stateful.exec_bind]
  simp only [Stateful.exec_ofExcept]
  cases (parseMetaMessage line.toList).mapError LegacyMetaConnectionError.parse with
  | error e => rfl
  | ok message =>
      simp only
      rw [Stateful.exec_bind, Stateful.exec_bind, collect_commutes, collect, Stateful.exec_modify]
      simp only
      rw [Stateful.exec_bind, Stateful.exec_bind, Stateful.exec_get, Stateful.exec_get]
      have hsame : (around g raw data before (s.1, s.2 + ⟨[], [.message message]⟩)).1.auth.state =
          s.1.auth.state := hstate s.1.auth
      simp only [Stateful.exec_ite, hsame]
      split_ifs with hactivated
      · exact Stateful.Commutes.bind_at (onAuth_around (hreceive message)) (applyAuthStep_commutes g raw data before hencode)
      · simp only [Stateful.exec_modify, around, observeMetaMessage_extend]

/-- **What a frame does** depends only on what the authentication does with it. -/
lemma handleFrame_around (frame : MetaStreamFrame)
    (s : LegacyMetaConnectionDriver × MetaConnectionStep)
    (hreceive : ∀ message, (LegacyMetaAuth.receiveMetaMessage p message).exec (g s.1.auth) =
      (((LegacyMetaAuth.receiveMetaMessage p message).exec s.1.auth).1,
        g ((LegacyMetaAuth.receiveMetaMessage p message).exec s.1.auth).2)) :
    (handleFrame p frame).exec (around g raw data before s) =
      (((handleFrame p frame).exec s).1,
        around g raw data before ((handleFrame p frame).exec s).2) := by
  cases frame with
  | line line => exact handleMetaLine_around g raw data before hstate hencode line s hreceive
  | sptpsRecord record => rfl
  | body kind data => cases kind <;> exact collect_commutes _ s

end Around

/-! ### What a frame changes -/

/-- Whatever a frame does, it leaves the bytes that have arrived alone. -/
structure FrameEffect (s t : LegacyMetaConnectionDriver × MetaConnectionStep) : Prop where
  rawBuffer_eq : t.1.rawBuffer = s.1.rawBuffer
  buffer_eq : t.1.decoder.buffer = s.1.decoder.buffer
  keyed : s.1.auth.Keyed → t.1.auth.Keyed

section Effect

variable {p : LegacyMetaPrimitives}

lemma FrameEffect.refl (s : LegacyMetaConnectionDriver × MetaConnectionStep) : FrameEffect s s :=
  ⟨rfl, rfl, id⟩

lemma FrameEffect.trans (s t u : LegacyMetaConnectionDriver × MetaConnectionStep)
    (h : FrameEffect s t) (h' : FrameEffect t u) : FrameEffect s u :=
  ⟨h'.rawBuffer_eq.trans h.rawBuffer_eq, h'.buffer_eq.trans h.buffer_eq,
    fun hkeyed => h'.keyed (h.keyed hkeyed)⟩

lemma collect_effect (step : MetaConnectionStep) : (collect step).Moves FrameEffect :=
  .modify fun _ => ⟨rfl, rfl, id⟩

lemma encodeOutboundMessage_keyed (message : LegacyMetaOutboundMessage) :
    (LegacyMetaAuth.encodeOutboundMessage p message).Moves fun auth auth' =>
      auth.Keyed → auth'.Keyed := by
  intro auth hauth
  rw [LegacyMetaAuth.encodeOutboundMessage, Stateful.exec_ite]
  split_ifs
  · rw [LegacyMetaAuth.encryptOutbound, Stateful.exec_ofFn]
    split
    · exact hauth
    · split <;> exact hauth
  · exact hauth

/-- What the authentication answers leaves the decoder alone. -/
structure AnswerEffect (s t : LegacyMetaConnectionDriver × MetaConnectionStep) : Prop
    extends FrameEffect s t where
  decoder_eq : t.1.decoder = s.1.decoder

lemma AnswerEffect.refl (s : LegacyMetaConnectionDriver × MetaConnectionStep) : AnswerEffect s s :=
  ⟨.refl s, rfl⟩

lemma AnswerEffect.trans (s t u : LegacyMetaConnectionDriver × MetaConnectionStep)
    (h : AnswerEffect s t) (h' : AnswerEffect t u) : AnswerEffect s u :=
  ⟨.trans s t u h.toFrameEffect h'.toFrameEffect, h'.decoder_eq.trans h.decoder_eq⟩

lemma applyAuthStep_effect (authStep : LegacyMetaAuthStep) :
    (applyAuthStep p authStep).Moves AnswerEffect := by
  have hmessages : ∀ messages, (pushMessages p messages).Moves AnswerEffect := by
    intro messages
    induction messages with
    | nil => exact .pure .refl _
    | cons message rest ih =>
        refine .bind AnswerEffect.trans (fun s => ?_) fun encoded =>
          .bind AnswerEffect.trans (fun s => ⟨collect_effect _ s, rfl⟩) fun _ => ih
        exact ⟨⟨rfl, rfl, encodeOutboundMessage_keyed message s.1.auth⟩, rfl⟩
  exact .bind AnswerEffect.trans (hmessages _) fun _ => fun s => ⟨collect_effect _ s, rfl⟩

/-- What a line may change; before the activation it does not announce a packet. -/
lemma handleMetaLine_effect (line : String) : (handleMetaLine p line).Moves fun s t =>
    FrameEffect s t ∧ (s.1.auth.state ≠ .activated → t.1.decoder = s.1.decoder) := by
  intro s
  rw [handleMetaLine, Stateful.exec_bind, Stateful.exec_ofExcept]
  cases (parseMetaMessage line.toList).mapError LegacyMetaConnectionError.parse with
  | error e => exact ⟨.refl s, fun _ => rfl⟩
  | ok message =>
      simp only
      rw [Stateful.exec_bind, collect, Stateful.exec_modify]
      simp only
      rw [Stateful.exec_bind, Stateful.exec_get]
      simp only [Stateful.exec_ite]
      have hcollect := collect_effect ⟨[], [.message message]⟩ s
      have hreceive : (onAuth (LegacyMetaAuth.receiveMetaMessage p message)).Moves AnswerEffect :=
        fun t => ⟨⟨rfl, rfl, LegacyMetaAuth.receiveMetaMessage_keyed message t.1.auth⟩, rfl⟩
      split_ifs with hactivated
      · have hmoves : (onAuth (LegacyMetaAuth.receiveMetaMessage p message) >>=
            applyAuthStep p).Moves AnswerEffect :=
          .bind AnswerEffect.trans hreceive applyAuthStep_effect
        have hanswer := hmoves (s.1, s.2 + ⟨[], [.message message]⟩)
        exact ⟨.trans _ _ _ hcollect hanswer.toFrameEffect, fun _ => hanswer.decoder_eq⟩
      · refine ⟨⟨rfl, ?_, id⟩, fun hne => absurd hne hactivated⟩
        cases message <;> rfl

/-- **What a frame changes**: neither the bytes that have arrived after it, nor whether the cipher
goes with the state. -/
lemma handleFrame_effect (frame : MetaStreamFrame) : (handleFrame p frame).Moves FrameEffect := by
  cases frame with
  | line line => exact fun s => (handleMetaLine_effect line s).1
  | sptpsRecord record => exact fun s => .refl s
  | body kind data => cases kind <;> exact collect_effect _

end Effect

end LegacyMetaConnectionDriver

end RustyTinc

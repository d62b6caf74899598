import RustyTinc.Runtime.Legacy.MetaDriver
import RustyTinc.Runtime.Meta.Chunks

/-!
The bytes of a legacy meta connection arrive in chunks, which are cut at any place, also where the
stream begins to be encrypted.

* `streamReader_lawful`, `streamReader_stable`: the driver that reads its stream in order, with room
  for all of it, is a reader of frames;
* `exec_receiveBytes`, `exec_receiveChunks`: a call, and a run, do what that driver does, when there
  is room for what is decrypted and no part of a packet body is taken for a line;
* `receiveChunks_settled`: between two calls a connection has taken all that it can;
* `receiveChunks_recut`: two ways of cutting a stream come to the same in this case.
-/

namespace RustyTinc

namespace LegacyMetaConnectionDriver

/-! ### The bytes that arrive -/

section Push

variable {p : LegacyMetaPrimitives} {d : LegacyMetaConnectionDriver} {cipher : LegacyMetaCipher}

lemma push_plain (h : d.auth.inCipher = none) (data : List UInt8) :
    d.push p data = { d with rawBuffer := d.rawBuffer ++ data } := by
  rw [push, h]

lemma push_encrypted (h : d.auth.inCipher = some cipher) (data : List UInt8) :
    d.push p data = { d with
      auth := d.auth.withInCipher (some (cipher.cfb128Apply p false data).2)
      decoder := d.decoder.extend (cipher.cfb128Apply p false data).1 } := by
  rw [push, h]

lemma push_nil (d : LegacyMetaConnectionDriver) : d.push p [] = d := by
  cases h : d.auth.inCipher with
  | none => rw [push_plain h, List.append_nil]
  | some cipher =>
      have hsame : d.auth.withInCipher (some cipher) = d.auth := by
        rw [← h]
        rfl
      rw [push_encrypted h, LegacyMetaCipher.cfb128Apply, MetaStreamDecoder.extend_nil, hsame]

/-- Bytes that arrive in two parts are decrypted as a whole. -/
lemma push_push (d : LegacyMetaConnectionDriver) (a b : List UInt8) :
    (d.push p a).push p b = d.push p (a ++ b) := by
  cases h : d.auth.inCipher with
  | none =>
      have hmore : push p { d with rawBuffer := d.rawBuffer ++ a } b =
          { d with rawBuffer := d.rawBuffer ++ a ++ b } :=
        push_plain (d := { d with rawBuffer := d.rawBuffer ++ a }) h b
      rw [push_plain h, push_plain h, hmore, List.append_assoc]
  | some cipher =>
      rw [push_encrypted h, @push_encrypted _ _ (cipher.cfb128Apply p false a).2 rfl,
        push_encrypted h, LegacyMetaCipher.cfb128Apply_append]
      simp only [MetaStreamDecoder.extend_extend]
      rfl

/-- The driver with the bytes decrypted that have arrived. -/
def settle (p : LegacyMetaPrimitives) (d : LegacyMetaConnectionDriver) :
    LegacyMetaConnectionDriver :=
  push p { d with rawBuffer := [] } d.rawBuffer

lemma settle_plain (h : d.auth.inCipher = none) : d.settle p = d := by
  have hraw : push p { d with rawBuffer := [] } d.rawBuffer =
      { d with rawBuffer := [] ++ d.rawBuffer } :=
    push_plain (d := { d with rawBuffer := [] }) h _
  rw [settle, hraw, List.nil_append]

lemma settle_append (d : LegacyMetaConnectionDriver) (raw : List UInt8) :
    settle p { d with rawBuffer := d.rawBuffer ++ raw } = (d.settle p).push p raw :=
  (push_push _ _ _).symm

end Push

/-- The bytes are decrypted exactly once a METAKEY line was accepted, and nothing is decrypted
before. -/
def Normal (d : LegacyMetaConnectionDriver) : Prop :=
  d.auth.Keyed ∧ (d.auth.inboundEncrypted = true → d.rawBuffer = []) ∧
    (d.auth.inboundEncrypted = false → d.decoder = .new)

instance : DecidablePred Normal := fun _ => inferInstanceAs (Decidable (_ ∧ _ ∧ _))

/-! ### The driver that reads its stream in order -/

/-- Whatever comes of it, what has arrived is decrypted. -/
def settling {α : Type} (p : LegacyMetaPrimitives) (x : DriverM α) : DriverM α :=
  .ofFn fun s => ((x.exec s).1, ((x.exec s).2.1.settle p, (x.exec s).2.2))

/-- Handles the next line, or the next frame that is decrypted; the bytes after a METAKEY line are
decrypted at once, whether or not there is room for them. -/
def handleNext (p : LegacyMetaPrimitives) : DriverM Bool := do
  let s ← get
  if s.1.Normal then
    if s.1.auth.inboundEncrypted then
      handleNextFrame p (MetaStreamDecoder.nextFrameInOrder .lines)
    else
      match s.1.rawBuffer.findIdx? (· == newline) with
      | none => pure false
      | some position => do
          settling p (handleRawLine p position)
          return true
  else pure false

/-- The driver as a reader of frames. -/
def streamReader (p : LegacyMetaPrimitives) :
    FrameReader LegacyMetaConnectionError LegacyMetaConnectionDriver MetaConnectionStep UInt8 :=
  readerOf p (handleNext p)

/-! ### Frames that are decrypted -/

section Next

variable {p : LegacyMetaPrimitives} {next : MetaStreamDecoder → MetaStreamDecoder.NextFrame}
  {d : LegacyMetaConnectionDriver} {decoder : MetaStreamDecoder} {frame : MetaStreamFrame}

lemma exec_handleNextFrame_none (h : next d.decoder = none) (w : MetaConnectionStep) :
    (handleNextFrame p next).exec (d, w) = (.ok false, (d, w)) := by
  rw [handleNextFrame, Stateful.exec_bind, takeFrame, Stateful.exec_ofFn]
  simp only [h]
  rfl

lemma exec_handleNextFrame_error {e : MetaStreamError}
    (h : next d.decoder = some (.error e, decoder)) (w : MetaConnectionStep) :
    (handleNextFrame p next).exec (d, w) =
      (.error (.stream e), ({ d with decoder := decoder }, w)) := by
  rw [handleNextFrame, Stateful.exec_bind, takeFrame, Stateful.exec_ofFn]
  simp only [h]
  rfl

lemma exec_handleNextFrame_ok (h : next d.decoder = some (.ok frame, decoder))
    (w : MetaConnectionStep) : (handleNextFrame p next).exec (d, w) =
      let r := (handleFrame p frame).exec ({ d with decoder := decoder }, w)
      (r.1.map fun _ => true, r.2) := by
  rw [handleNextFrame, Stateful.exec_bind, takeFrame, Stateful.exec_ofFn]
  simp only [h, Stateful.map_ok, Except.mapError]
  rw [Stateful.exec_bind]
  rcases (handleFrame p frame).exec ({ d with decoder := decoder }, w) with ⟨_ | _, t⟩ <;> rfl

/-- The three cases of the next frame. -/
lemma next_cases (next : MetaStreamDecoder → MetaStreamDecoder.NextFrame)
    (decoder : MetaStreamDecoder) : next decoder = none ∨
      (∃ e decoder', next decoder = some (.error e, decoder')) ∨
      ∃ frame decoder', next decoder = some (.ok frame, decoder') := by
  rcases h : next decoder with _ | ⟨_ | _, decoder'⟩
  · exact Or.inl rfl
  · exact Or.inr (Or.inl ⟨_, decoder', rfl⟩)
  · exact Or.inr (Or.inr ⟨_, decoder', rfl⟩)

/-- A frame that is found in spite of what has changed around it does the same. -/
lemma handleNextFrame_around (next : MetaStreamDecoder → MetaStreamDecoder.NextFrame)
    (g : LegacyMetaAuth → LegacyMetaAuth) (raw data : List UInt8) (before : MetaConnectionStep)
    (s : LegacyMetaConnectionDriver × MetaConnectionStep)
    (hstate : ∀ auth, (g auth).state = auth.state)
    (hencode : ∀ message, (LegacyMetaAuth.encodeOutboundMessage p message).Commutes g)
    (hreceive : ∀ message, (LegacyMetaAuth.receiveMetaMessage p message).exec (g s.1.auth) =
      (((LegacyMetaAuth.receiveMetaMessage p message).exec s.1.auth).1,
        g ((LegacyMetaAuth.receiveMetaMessage p message).exec s.1.auth).2))
    (hnext : next (s.1.decoder.extend data) =
      (next s.1.decoder).map fun r => (r.1, r.2.extend data)) :
    (handleNextFrame p next).exec (around g raw data before s) =
      (((handleNextFrame p next).exec s).1,
        around g raw data before ((handleNextFrame p next).exec s).2) := by
  obtain ⟨d, w⟩ := s
  rcases next_cases next d.decoder with hn | ⟨e, decoder', hn⟩ | ⟨frame, decoder', hn⟩
  · rw [hn] at hnext
    rw [around, exec_handleNextFrame_none hnext, exec_handleNextFrame_none hn, around]
  · rw [hn] at hnext
    rw [around, exec_handleNextFrame_error hnext, exec_handleNextFrame_error hn, around]
  · rw [hn] at hnext
    have hframe := handleFrame_around g raw data before hstate hencode frame
      ({ d with decoder := decoder' }, w) hreceive
    rw [around, exec_handleNextFrame_ok hnext, exec_handleNextFrame_ok hn]
    simp only [around] at hframe
    simp only [hframe, around]

end Next

/-! ### Readers -/

section Readers

variable {p : LegacyMetaPrimitives} {next : MetaStreamDecoder → MetaStreamDecoder.NextFrame}
  {d d' : LegacyMetaConnectionDriver} {w : MetaConnectionStep}

lemma around_id (before : MetaConnectionStep)
    (s : LegacyMetaConnectionDriver × MetaConnectionStep) :
    around id [] [] before s = (s.1, before + s.2) := by
  simp [around]

/-- What a frame gives is added to what has been collected before. -/
lemma exec_handleNextFrame_add (d : LegacyMetaConnectionDriver) (w : MetaConnectionStep) :
    (handleNextFrame p next).exec (d, w) =
      (((handleNextFrame p next).exec (d, 0)).1,
        (((handleNextFrame p next).exec (d, 0)).2.1,
          w + ((handleNextFrame p next).exec (d, 0)).2.2)) := by
  have haround := handleNextFrame_around (p := p) next id [] [] w (d, 0) (fun _ => rfl)
    (fun _ _ => rfl) (fun _ => rfl) (by simp)
  simp only [around_id, add_zero] at haround
  exact haround

/-- A frame that is decrypted leaves the cipher alone. -/
lemma handleNextFrame_inCipher (next : MetaStreamDecoder → MetaStreamDecoder.NextFrame)
    (h : d.auth.state ≠ .expectMetaKey) (w : MetaConnectionStep) :
    ((handleNextFrame p next).exec (d, w)).2.1.auth.inCipher = d.auth.inCipher := by
  have haround := handleNextFrame_around (p := p) next
    (fun auth => auth.withInCipher d.auth.inCipher) [] [] 0 (d, w) (fun _ => rfl)
    (fun _ => LegacyMetaAuth.encodeOutboundMessage_commutes _)
    (fun message => LegacyMetaAuth.receiveMetaMessage_withInCipher message h) (by simp)
  have hsame : around (fun auth => auth.withInCipher d.auth.inCipher) [] [] 0 (d, w) = (d, w) := by
    simp only [around, List.append_nil, MetaStreamDecoder.extend_nil, zero_add]
    rfl
  rw [hsame] at haround
  rw [haround]
  rfl

/-- A frame that was taken was handled without its decoder. -/
lemma exec_handleNextFrame_eq_ok
    (h : (handleNextFrame p next).exec (d, 0) = (.ok true, (d', w))) :
    ∃ frame decoder, next d.decoder = some (.ok frame, decoder) ∧
      (handleFrame p frame).exec ({ d with decoder := decoder }, 0) = (.ok (), (d', w)) := by
  rcases next_cases next d.decoder with hn | ⟨e, decoder, hn⟩ | ⟨frame, decoder, hn⟩
  · rw [exec_handleNextFrame_none hn] at h
    cases h
  · rw [exec_handleNextFrame_error hn] at h
    cases h
  · rw [exec_handleNextFrame_ok hn] at h
    rcases hframe : (handleFrame p frame).exec ({ d with decoder := decoder }, 0) with ⟨_ | _, t⟩
    · rw [hframe] at h
      cases h
    · rw [hframe] at h
      cases h
      exact ⟨frame, decoder, hn, hframe⟩

/-- No frame is taken when there is no whole one. -/
lemma exec_handleNextFrame_false {s : LegacyMetaConnectionDriver × MetaConnectionStep}
    (h : (handleNextFrame p next).exec (d, 0) = (.ok false, s)) : next d.decoder = none := by
  rcases next_cases next d.decoder with hn | ⟨e, decoder, hn⟩ | ⟨frame, decoder, hn⟩
  · exact hn
  · rw [exec_handleNextFrame_error hn] at h
    cases h
  · rw [exec_handleNextFrame_ok hn] at h
    rcases hframe : (handleFrame p frame).exec ({ d with decoder := decoder }, 0) with ⟨_ | _, t⟩
    · rw [hframe] at h
      cases h
    · rw [hframe] at h
      cases h

/-- Bodies and lines, each of which makes the decoder smaller. -/
def TakesFrames (next : MetaStreamDecoder → MetaStreamDecoder.NextFrame) : Prop :=
  ∀ decoder r, next decoder = some r →
    decoder.nextBodyFrame = some r ∨ decoder.nextOtherFrame .lines = some r

/-- Every frame makes the buffer lighter. -/
lemma handleNextFrame_weight (hnext : TakesFrames next)
    (h : (handleNextFrame p next).exec (d, 0) = (.ok true, (d', w))) :
    d'.decoder.weight < d.decoder.weight ∧ d'.rawBuffer = d.rawBuffer := by
  obtain ⟨frame, decoder, hsome, hframe⟩ := exec_handleNextFrame_eq_ok h
  have heffect := handleFrame_effect (p := p) frame ({ d with decoder := decoder }, 0)
  rw [hframe] at heffect
  refine ⟨?_, heffect.rawBuffer_eq⟩
  have hbuffer : d'.decoder.buffer = decoder.buffer := heffect.buffer_eq
  have hpending : (if d'.decoder.pendingBody.isSome then 1 else 0) ≤ 1 := by
    split_ifs <;> omega
  rw [MetaStreamDecoder.weight, MetaStreamDecoder.weight]
  rcases hnext _ _ hsome with hbody | hother
  · -- a body was waited for, and nothing is waited for after it
    obtain ⟨hsome', hnone, hle, kind, data, hframe'⟩ := MetaStreamDecoder.nextBodyFrame_takes hbody
    have hdecoder : d'.decoder = decoder := by
      obtain rfl := Except.ok.inj hframe'
      cases kind <;> cases hframe <;> rfl
    rw [hdecoder, if_pos hsome']
    simp only at hnone hle
    rw [hnone]
    simp
    omega
  · obtain ⟨-, hlt, -⟩ := MetaStreamDecoder.nextOtherFrame_takes hother
    simp only at hlt
    rw [hbuffer]
    omega

/-- A driver that handles its frames one after the other is a reader. -/
lemma readerOf_lawful {next : DriverM Bool}
    (hadd : ∀ d w, next.exec (d, w) =
      ((next.exec (d, 0)).1, ((next.exec (d, 0)).2.1, w + (next.exec (d, 0)).2.2)))
    (hstuck : ∀ d s, next.exec (d, 0) = (.ok false, s) → s = (d, 0))
    (hweight : ∀ d w d', next.exec (d, 0) = (.ok true, (d', w)) →
      (readerOf p next).weight d' < (readerOf p next).weight d) :
    (readerOf p next).Lawful (push p) fun _ => some 1 where
  push_nil := push_nil
  push_push := push_push
  next_add := hadd
  next_stuck d h := by
    have hexec : next.exec (d, 0) = (.ok false, (next.exec (d, 0)).2) := Prod.ext h rfl
    exact hexec.trans (Prod.ext rfl (hstuck d _ hexec))
  next_weight d w d' h := hweight d w d' h
  load_some d n data h _ := by
    obtain rfl := Option.some.inj h
    rfl
  load_none _ _ h _ := nomatch h
  window_pos _ n h := by
    obtain rfl := Option.some.inj h
    exact Nat.one_pos

lemma frameReader_lawful : (frameReader p).Lawful (push p) fun _ => some 1 := by
  refine readerOf_lawful exec_handleNextFrame_add (fun d s h => ?_) fun d w d' h => ?_
  · rw [exec_handleNextFrame_none (exec_handleNextFrame_false h)] at h
    exact (congrArg Prod.snd h).symm
  · obtain ⟨hlt, hraw⟩ := handleNextFrame_weight (nextFrame_takesFrames .lines) h
    show d'.decoder.weight + 2 * d'.rawBuffer.length < d.decoder.weight + 2 * d.rawBuffer.length
    rw [hraw]
    omega

end Readers

/-! ### The laws of the driver that reads in order -/

section Stream

variable {p : LegacyMetaPrimitives} {d d' : LegacyMetaConnectionDriver} {w : MetaConnectionStep}
  {position : ℕ}

lemma Normal.state_ne (h : d.Normal) (hencrypted : d.auth.inboundEncrypted = true) :
    d.auth.state ≠ .expectMetaKey := by
  intro hstate
  have hkeyed := h.1
  rw [LegacyMetaAuth.Keyed, hencrypted, hstate] at hkeyed
  exact Bool.noConfusion hkeyed

lemma inCipher_eq_none (h : d.auth.inboundEncrypted = false) : d.auth.inCipher = none := by
  rw [LegacyMetaAuth.inboundEncrypted, Option.isSome_eq_false_iff, Option.isNone_iff_eq_none] at h
  exact h

lemma inCipher_eq_some (h : d.auth.inboundEncrypted = true) : ∃ cipher, d.auth.inCipher = some cipher :=
  Option.isSome_iff_exists.mp h

@[simp] lemma push_inboundEncrypted (d : LegacyMetaConnectionDriver) (data : List UInt8) :
    (d.push p data).auth.inboundEncrypted = d.auth.inboundEncrypted := by
  cases h : d.auth.inCipher with
  | none => rw [push_plain h]
  | some cipher =>
      rw [push_encrypted h, LegacyMetaAuth.inboundEncrypted, LegacyMetaAuth.inboundEncrypted, h]
      rfl

@[simp] lemma push_state (d : LegacyMetaConnectionDriver) (data : List UInt8) :
    (d.push p data).auth.state = d.auth.state := by
  cases h : d.auth.inCipher with
  | none => rw [push_plain h]
  | some cipher =>
      rw [push_encrypted h]
      rfl

lemma normal_push (data : List UInt8) : (d.push p data).Normal ↔ d.Normal := by
  have hkeyed : (d.push p data).auth.Keyed ↔ d.auth.Keyed := by
    rw [LegacyMetaAuth.Keyed, LegacyMetaAuth.Keyed, push_inboundEncrypted, push_state]
  rw [Normal, Normal, hkeyed, push_inboundEncrypted]
  refine and_congr_right fun _ => and_congr (imp_congr_right fun h => ?_) (imp_congr_right fun h => ?_)
  · obtain ⟨cipher, hcipher⟩ := inCipher_eq_some h
    rw [push_encrypted hcipher]
  · rw [push_plain (inCipher_eq_none h)]

lemma exec_handleNext_encrypted (h : d.Normal) (hencrypted : d.auth.inboundEncrypted = true)
    (w : MetaConnectionStep) : (handleNext p).exec (d, w) =
      (handleNextFrame p (MetaStreamDecoder.nextFrameInOrder .lines)).exec (d, w) := by
  rw [handleNext, Stateful.exec_bind, Stateful.exec_get]
  simp only [if_pos h, if_pos hencrypted]

lemma exec_handleNext_abnormal (h : ¬ d.Normal) (w : MetaConnectionStep) :
    (handleNext p).exec (d, w) = (.ok false, (d, w)) := by
  rw [handleNext, Stateful.exec_bind, Stateful.exec_get]
  simp only [if_neg h, Stateful.exec_pure]

lemma exec_handleNext_none (h : d.Normal) (hplain : d.auth.inboundEncrypted = false)
    (hline : d.rawBuffer.findIdx? (· == newline) = none) (w : MetaConnectionStep) :
    (handleNext p).exec (d, w) = (.ok false, (d, w)) := by
  rw [handleNext, Stateful.exec_bind, Stateful.exec_get]
  simp only [if_pos h, hplain, Bool.false_eq_true, if_false, hline, Stateful.exec_pure]

lemma exec_handleNext_line (h : d.Normal) (hplain : d.auth.inboundEncrypted = false)
    (hline : d.rawBuffer.findIdx? (· == newline) = some position) (w : MetaConnectionStep) :
    (handleNext p).exec (d, w) =
      let r := (handleRawLine p position).exec (d, w)
      (r.1.map fun _ => true, (r.2.1.settle p, r.2.2)) := by
  rw [handleNext, Stateful.exec_bind, Stateful.exec_get]
  simp only [if_pos h, hplain, Bool.false_eq_true, if_false, hline]
  rw [Stateful.exec_bind, settling, Stateful.exec_ofFn]
  rcases (handleRawLine p position).exec (d, w) with ⟨_ | _, t⟩ <;> rfl

/-- A line does the same whatever has arrived after it, and has been collected before. -/
lemma handleRawLine_around (raw : List UInt8) (before : MetaConnectionStep)
    {s : LegacyMetaConnectionDriver × MetaConnectionStep}
    (hposition : position < s.1.rawBuffer.length) :
    (handleRawLine p position).exec (around id raw [] before s) =
      (((handleRawLine p position).exec s).1,
        around id raw [] before ((handleRawLine p position).exec s).2) := by
  have htake : (s.1.rawBuffer ++ raw).take (position + 1) = s.1.rawBuffer.take (position + 1) :=
    List.take_append_of_le_length hposition
  have hdrop : (s.1.rawBuffer ++ raw).drop (position + 1) =
      s.1.rawBuffer.drop (position + 1) ++ raw := List.drop_append_of_le_length hposition
  rw [handleRawLine, Stateful.exec_bind, Stateful.exec_bind, Stateful.exec_get, Stateful.exec_get]
  simp only [around, htake]
  rw [Stateful.exec_bind, Stateful.exec_bind, Stateful.exec_modify, Stateful.exec_modify]
  simp only [hdrop]
  rw [Stateful.exec_bind, Stateful.exec_bind, Stateful.exec_ofExcept, Stateful.exec_ofExcept]
  cases (decodeMetaLine (s.1.rawBuffer.take (position + 1))).mapError
    LegacyMetaConnectionError.stream with
  | error e => rfl
  | ok line =>
      exact handleMetaLine_around id raw [] before (fun _ => rfl) (fun _ _ => rfl) line
        ({ s.1 with rawBuffer := s.1.rawBuffer.drop (position + 1) }, s.2) (fun _ => rfl)

/-- What has been collected before does not matter. -/
lemma exec_handleNext_add (d : LegacyMetaConnectionDriver) (w : MetaConnectionStep) :
    (handleNext p).exec (d, w) =
      (((handleNext p).exec (d, 0)).1,
        (((handleNext p).exec (d, 0)).2.1, w + ((handleNext p).exec (d, 0)).2.2)) := by
  by_cases h : d.Normal
  · cases hencrypted : d.auth.inboundEncrypted with
    | true =>
        rw [exec_handleNext_encrypted h hencrypted, exec_handleNext_encrypted h hencrypted]
        exact exec_handleNextFrame_add d w
    | false =>
        cases hline : d.rawBuffer.findIdx? (· == newline) with
        | none =>
            rw [exec_handleNext_none h hencrypted hline, exec_handleNext_none h hencrypted hline,
              add_zero]
        | some position =>
            have hlt := (List.findIdx?_eq_some_iff_getElem.mp hline).1
            have haround := handleRawLine_around (p := p) [] w (s := (d, 0)) hlt
            simp only [around_id, add_zero] at haround
            rw [exec_handleNext_line h hencrypted hline, exec_handleNext_line h hencrypted hline,
              haround]
  · rw [exec_handleNext_abnormal h, exec_handleNext_abnormal h, add_zero]

/-- What a line does that is not encrypted. -/
lemma handleRawLine_effect (position : ℕ) (d : LegacyMetaConnectionDriver)
    (w : MetaConnectionStep) :
    let t := ((handleRawLine p position).exec (d, w)).2.1
    t.rawBuffer = d.rawBuffer.drop (position + 1) ∧ t.decoder.buffer = d.decoder.buffer ∧
      (d.auth.Keyed → t.auth.Keyed) ∧ (d.auth.state ≠ .activated → t.decoder = d.decoder) := by
  rw [handleRawLine, Stateful.exec_bind, Stateful.exec_get]
  simp only
  rw [Stateful.exec_bind, Stateful.exec_modify]
  simp only
  rw [Stateful.exec_bind, Stateful.exec_ofExcept]
  cases (decodeMetaLine (d.rawBuffer.take (position + 1))).mapError
    LegacyMetaConnectionError.stream with
  | error e => exact ⟨rfl, rfl, id, fun _ => rfl⟩
  | ok line =>
      have heffect := handleMetaLine_effect (p := p) line
        ({ d with rawBuffer := d.rawBuffer.drop (position + 1) }, w)
      exact ⟨heffect.1.rawBuffer_eq, heffect.1.buffer_eq, heffect.1.keyed, heffect.2⟩

/-- How much there is to handle grows with every byte that arrives. -/
lemma weight_push (d : LegacyMetaConnectionDriver) (data : List UInt8) :
    (streamReader p).weight (d.push p data) = (streamReader p).weight d + 2 * data.length := by
  show (d.push p data).decoder.weight + 2 * (d.push p data).rawBuffer.length =
    d.decoder.weight + 2 * d.rawBuffer.length + 2 * data.length
  cases h : d.auth.inCipher with
  | none =>
      rw [push_plain h]
      simp only [List.length_append]
      omega
  | some cipher =>
      have hextend : ∀ bytes, (d.decoder.extend bytes).weight = d.decoder.weight + 2 * bytes.length := by
        intro bytes
        have hlen : (d.decoder.extend bytes).buffer.length =
            d.decoder.buffer.length + bytes.length := List.length_append
        rw [MetaStreamDecoder.weight, MetaStreamDecoder.weight, hlen,
          MetaStreamDecoder.extend_pendingBody]
        omega
      rw [push_encrypted h]
      simp only [hextend, LegacyMetaCipher.length_cfb128Apply]
      omega

lemma weight_settle (d : LegacyMetaConnectionDriver) :
    (streamReader p).weight (d.settle p) = (streamReader p).weight d := by
  rw [settle, weight_push]
  show d.decoder.weight + 2 * 0 + 2 * d.rawBuffer.length = _
  rw [Nat.mul_zero, Nat.add_zero]
  rfl

/-- Every step of the reader makes it lighter. -/
lemma handleNext_weight (h : (handleNext p).exec (d, 0) = (.ok true, (d', w))) :
    (streamReader p).weight d' < (streamReader p).weight d := by
  by_cases hnormal : d.Normal
  · cases hencrypted : d.auth.inboundEncrypted with
    | true =>
        rw [exec_handleNext_encrypted hnormal hencrypted] at h
        obtain ⟨hlt, hraw⟩ := handleNextFrame_weight (nextFrameInOrder_takesFrames .lines) h
        show d'.decoder.weight + 2 * d'.rawBuffer.length < d.decoder.weight + 2 * d.rawBuffer.length
        rw [hraw]
        omega
    | false =>
        cases hline : d.rawBuffer.findIdx? (· == newline) with
        | none =>
            rw [exec_handleNext_none hnormal hencrypted hline] at h
            cases h
        | some position =>
            have hlt := (List.findIdx?_eq_some_iff_getElem.mp hline).1
            rw [exec_handleNext_line hnormal hencrypted hline] at h
            obtain ⟨hraw, hbuffer, -, -⟩ := handleRawLine_effect (p := p) position d 0
            generalize (handleRawLine p position).exec (d, 0) = r at h hraw hbuffer
            obtain rfl : d' = r.2.1.settle p := (congrArg (fun x => x.2.1) h).symm
            rw [weight_settle]
            show r.2.1.decoder.weight + 2 * r.2.1.rawBuffer.length <
              d.decoder.weight + 2 * d.rawBuffer.length
            have hpending : (if r.2.1.decoder.pendingBody.isSome then 1 else 0) ≤ 1 := by
              split_ifs <;> omega
            rw [MetaStreamDecoder.weight, MetaStreamDecoder.weight, hraw, hbuffer, List.length_drop]
            omega
  · rw [exec_handleNext_abnormal hnormal] at h
    cases h

/-- Nothing changes when there is no whole frame. -/
lemma exec_handleNext_false {s : LegacyMetaConnectionDriver × MetaConnectionStep}
    (h : (handleNext p).exec (d, 0) = (.ok false, s)) : s = (d, 0) := by
  by_cases hnormal : d.Normal
  · cases hencrypted : d.auth.inboundEncrypted with
    | true =>
        rw [exec_handleNext_encrypted hnormal hencrypted] at h
        rw [exec_handleNextFrame_none (exec_handleNextFrame_false h)] at h
        exact (congrArg Prod.snd h).symm
    | false =>
        cases hline : d.rawBuffer.findIdx? (· == newline) with
        | none =>
            rw [exec_handleNext_none hnormal hencrypted hline] at h
            exact (congrArg Prod.snd h).symm
        | some position =>
            rw [exec_handleNext_line hnormal hencrypted hline] at h
            rcases hexec : (handleRawLine p position).exec (d, 0) with ⟨_ | _, t⟩
            · rw [hexec] at h
              cases h
            · rw [hexec] at h
              cases h
  · rw [exec_handleNext_abnormal hnormal] at h
    exact (congrArg Prod.snd h).symm

lemma streamReader_lawful : (streamReader p).Lawful (push p) fun _ => some 1 :=
  readerOf_lawful exec_handleNext_add (fun _ _ => exec_handleNext_false)
    fun _ _ _ => handleNext_weight

/-- When the reader has nothing to take. -/
lemma streamReader_stuck : (streamReader p).Stuck d ↔ ¬ d.Normal ∨
    (d.auth.inboundEncrypted = true ∧ d.decoder.nextFrameInOrder .lines = none) ∨
      (d.auth.inboundEncrypted = false ∧ d.rawBuffer.findIdx? (· == newline) = none) := by
  show ((handleNext p).exec (d, 0)).1 = .ok false ↔ _
  by_cases hnormal : d.Normal
  · cases hencrypted : d.auth.inboundEncrypted with
    | true =>
        rw [exec_handleNext_encrypted hnormal hencrypted]
        simp only [hnormal, not_true_eq_false, false_or, true_and, Bool.true_eq_false, false_and,
          or_false]
        constructor
        · exact fun h => exec_handleNextFrame_false (Prod.ext h rfl)
        · intro h
          rw [exec_handleNextFrame_none h]
    | false =>
        simp only [hnormal, not_true_eq_false, false_or, Bool.false_eq_true, false_and, true_and]
        cases hline : d.rawBuffer.findIdx? (· == newline) with
        | none => simp [exec_handleNext_none hnormal hencrypted hline]
        | some position =>
            rw [exec_handleNext_line hnormal hencrypted hline]
            rcases (handleRawLine p position).exec (d, 0) with ⟨_ | _, t⟩ <;> simp
  · simp [exec_handleNext_abnormal hnormal, hnormal]

/-- **Bytes that arrive later change nothing** for what is handled before them. -/
lemma streamReader_stable : (streamReader p).Stable (push p) := by
  intro d data hmore
  have hnormal : d.Normal := by
    by_contra h
    exact hmore (streamReader_stuck.mpr (Or.inl h))
  have hpushed := (normal_push (p := p) data).mpr hnormal
  show (handleNext p).exec (d.push p data, 0) = (((handleNext p).exec (d, 0)).1,
    (((handleNext p).exec (d, 0)).2.1.push p data, ((handleNext p).exec (d, 0)).2.2))
  cases hencrypted : d.auth.inboundEncrypted with
  | true =>
      obtain ⟨cipher, hcipher⟩ := inCipher_eq_some hencrypted
      have hframe : d.decoder.nextFrameInOrder .lines ≠ none := fun h =>
        hmore (streamReader_stuck.mpr (Or.inr (Or.inl ⟨hencrypted, h⟩)))
      obtain ⟨r, hr⟩ := Option.ne_none_iff_exists'.mp hframe
      have hstate := hnormal.state_ne hencrypted
      have hkept := handleNextFrame_inCipher (p := p) (MetaStreamDecoder.nextFrameInOrder .lines)
        hstate 0
      have haround := handleNextFrame_around (p := p) (MetaStreamDecoder.nextFrameInOrder .lines)
        (fun auth => auth.withInCipher (some (cipher.cfb128Apply p false data).2)) []
        (cipher.cfb128Apply p false data).1 0 (d, 0) (fun _ => rfl)
        (fun _ => LegacyMetaAuth.encodeOutboundMessage_commutes _)
        (fun message => LegacyMetaAuth.receiveMetaMessage_withInCipher message hstate)
        (by rw [hr, MetaStreamDecoder.nextFrameInOrder_stable .lines _ _ _ hr, Option.map_some])
      simp only [around, List.append_nil, zero_add] at haround
      rw [exec_handleNext_encrypted hpushed (by rw [push_inboundEncrypted, hencrypted]),
        exec_handleNext_encrypted hnormal hencrypted, push_encrypted hcipher, haround,
        push_encrypted (hkept.trans hcipher)]
  | false =>
      cases hline : d.rawBuffer.findIdx? (· == newline) with
      | none => exact absurd (streamReader_stuck.mpr (Or.inr (Or.inr ⟨hencrypted, hline⟩))) hmore
      | some position =>
          have hlt := (List.findIdx?_eq_some_iff_getElem.mp hline).1
          have hfind : (d.push p data).rawBuffer.findIdx? (· == newline) = some position := by
            rw [push_plain (inCipher_eq_none hencrypted), List.findIdx?_append, hline, Option.some_or]
          have haround := handleRawLine_around (p := p) data 0 (s := (d, 0)) hlt
          simp only [around, MetaStreamDecoder.extend_nil, zero_add, id_eq] at haround
          rw [exec_handleNext_line hpushed (by rw [push_inboundEncrypted, hencrypted]) hfind,
            exec_handleNext_line hnormal hencrypted hline, push_plain (inCipher_eq_none hencrypted),
            haround]
          simp only [settle_append]

lemma Normal.state_ne_activated (h : d.Normal) (hplain : d.auth.inboundEncrypted = false) :
    d.auth.state ≠ .activated := by
  intro hstate
  have hkeyed := h.1
  rw [LegacyMetaAuth.Keyed, hplain, hstate] at hkeyed
  exact Bool.noConfusion hkeyed

/-- The driver stays normal with every frame that is decrypted. -/
lemma Normal.frame {next : MetaStreamDecoder → MetaStreamDecoder.NextFrame} (hnormal : d.Normal)
    (hencrypted : d.auth.inboundEncrypted = true)
    (h : (handleNextFrame p next).exec (d, 0) = (.ok true, (d', w))) :
    d'.Normal ∧ d'.auth.inboundEncrypted = true := by
  obtain ⟨frame, decoder, hsome, hframe⟩ := exec_handleNextFrame_eq_ok h
  have heffect := handleFrame_effect (p := p) frame ({ d with decoder := decoder }, 0)
  have hcipher := handleNextFrame_inCipher (p := p) next (hnormal.state_ne hencrypted) 0
  rw [hframe] at heffect
  rw [h] at hcipher
  have hencrypted' : d'.auth.inboundEncrypted = true := by
    rw [LegacyMetaAuth.inboundEncrypted, hcipher]
    exact hencrypted
  refine ⟨⟨heffect.keyed hnormal.1, fun _ => ?_, fun hplain => ?_⟩, hencrypted'⟩
  · exact heffect.rawBuffer_eq.trans (hnormal.2.1 hencrypted)
  · exact absurd hplain (by rw [hencrypted']; exact Bool.noConfusion)

lemma Normal.frames (hnormal : d.Normal) (hencrypted : d.auth.inboundEncrypted = true)
    (h : (frameReader p).Drains d w d') : d'.Normal ∧ d'.auth.inboundEncrypted = true := by
  induction h with
  | stuck _ => exact ⟨hnormal, hencrypted⟩
  | step hstep _ ih =>
      obtain ⟨hnormal', hencrypted'⟩ := hnormal.frame hencrypted hstep
      exact ih hnormal' hencrypted'

/-- The driver stays normal with every line and every frame. -/
lemma Normal.step (hnormal : d.Normal) (h : (streamReader p).Step d w d') :
    d'.Normal ∧ (d.auth.inboundEncrypted = true → d'.auth.inboundEncrypted = true) := by
  have h : (handleNext p).exec (d, 0) = (.ok true, (d', w)) := h
  cases hencrypted : d.auth.inboundEncrypted with
  | true =>
      rw [exec_handleNext_encrypted hnormal hencrypted] at h
      obtain ⟨hnormal', hencrypted'⟩ := hnormal.frame hencrypted h
      exact ⟨hnormal', fun _ => hencrypted'⟩
  | false =>
      refine ⟨?_, fun h => Bool.noConfusion h⟩
      cases hline : d.rawBuffer.findIdx? (· == newline) with
      | none =>
          rw [exec_handleNext_none hnormal hencrypted hline] at h
          cases h
      | some position =>
          have hstate := hnormal.state_ne_activated hencrypted
          rw [exec_handleNext_line hnormal hencrypted hline] at h
          obtain ⟨hraw, -, hkeyed, hdecoder⟩ := handleRawLine_effect (p := p) position d 0
          generalize (handleRawLine p position).exec (d, 0) = r at h hraw hkeyed hdecoder
          obtain rfl : d' = r.2.1.settle p := (congrArg (fun x => x.2.1) h).symm
          rw [settle, normal_push]
          exact ⟨hkeyed hnormal.1, fun _ => rfl,
            fun _ => (hdecoder hstate).trans (hnormal.2.2 hencrypted)⟩

end Stream

/-! ### The loop of the driver reads in order -/

/-- What is decrypted is read in order: no part of a packet body is taken for a line. -/
def ReadsInOrder (d : LegacyMetaConnectionDriver) : Prop :=
  d.Normal ∧ d.auth.inboundEncrypted = true ∧ ¬ d.decoder.Misreads .lines

section Loop

variable {p : LegacyMetaPrimitives} {d d' : LegacyMetaConnectionDriver} {w : MetaConnectionStep}
  {t : LegacyMetaConnectionDriver × MetaConnectionStep} {fuel : ℕ}

lemma frameReader_agrees : (frameReader p).Agrees (streamReader p) ReadsInOrder where
  next_eq d w h := by
    have hnext := MetaStreamDecoder.nextFrame_eq_inOrder h.2.2
    show (handleNextFrame p _).exec (d, w) = (handleNext p).exec (d, w)
    rw [exec_handleNext_encrypted h.1 h.2.1, handleNextFrame, handleNextFrame, Stateful.exec_bind,
      Stateful.exec_bind, takeFrame, takeFrame, Stateful.exec_ofFn, Stateful.exec_ofFn, hnext]
  load_eq := rfl
  weight_eq := rfl

lemma Normal.drains (h : (streamReader p).Drains d w d') (hnormal : d.Normal) :
    d'.Normal ∧ (d.auth.inboundEncrypted = true → d'.auth.inboundEncrypted = true) := by
  induction h with
  | stuck _ => exact ⟨hnormal, id⟩
  | step h _ ih =>
      obtain ⟨hnormal', hkept⟩ := hnormal.step h
      obtain ⟨hnormal'', hkept'⟩ := ih hnormal'
      exact ⟨hnormal'', fun h => hkept' (hkept h)⟩

/-- Without misreading both readers take the same frames. -/
lemma drains_frameReader_iff (hnormal : d.Normal) (hencrypted : d.auth.inboundEncrypted = true)
    (hreads : ∀ v t, (streamReader p).Drains d v t → ¬ t.decoder.Misreads .lines) :
    (frameReader p).Drains d w d' ↔ (streamReader p).Drains d w d' := by
  refine frameReader_agrees.drains_iff
    (fun d => d.Normal ∧ d.auth.inboundEncrypted = true) (fun s v s' hs hstep => ?_)
    (fun s hs hmore => ⟨hs.1, hs.2, fun hmisreads => ?_⟩) ⟨hnormal, hencrypted⟩ fun v t hd => ?_
  · obtain ⟨hnormal', hkept⟩ := hs.1.step hstep
    exact ⟨hnormal', hkept hs.2⟩
  · -- a decoder that waits for a body is stuck
    refine hmore (streamReader_stuck.mpr (Or.inr (Or.inl ⟨hs.2, ?_⟩)))
    rw [MetaStreamDecoder.nextFrameInOrder, if_pos hmisreads.1]
    exact hmisreads.2.1
  · obtain ⟨hnormal', hkept⟩ := Normal.drains hd hnormal
    exact ⟨hnormal', hkept hencrypted, hreads v t hd⟩

/-- Bytes that have arrived are decrypted, when there is room for them. -/
lemma exec_decryptRaw (hencrypted : d.auth.inboundEncrypted = true)
    (hroom : d.decoder.buffer.length + d.rawBuffer.length ≤ maxMetaBufferSize)
    (w : MetaConnectionStep) : (decryptRaw p).exec (d, w) = (.ok (), (d.settle p, w)) := by
  obtain ⟨cipher, hcipher⟩ := inCipher_eq_some hencrypted
  have hdecrypt : (LegacyMetaAuth.decryptInbound p d.rawBuffer).exec d.auth =
      (.ok (cipher.cfb128Apply p false d.rawBuffer).1,
        d.auth.withInCipher (some (cipher.cfb128Apply p false d.rawBuffer).2)) := by
    rw [LegacyMetaAuth.decryptInbound, Stateful.exec_ofFn, hcipher]
    simp only [LegacyMetaCipher.applyDecrypt_eq]
    rfl
  have hlimit : d.decoder.pushLimited (cipher.cfb128Apply p false d.rawBuffer).1 maxMetaBufferSize =
      .ok (d.decoder.extend (cipher.cfb128Apply p false d.rawBuffer).1) := by
    rw [MetaStreamDecoder.pushLimited, LegacyMetaCipher.length_cfb128Apply, if_neg (by omega)]
    rfl
  have hsettle : d.settle p = { d with
      auth := d.auth.withInCipher (some (cipher.cfb128Apply p false d.rawBuffer).2)
      rawBuffer := []
      decoder := d.decoder.extend (cipher.cfb128Apply p false d.rawBuffer).1 } :=
    push_encrypted (d := { d with rawBuffer := [] }) hcipher _
  rw [decryptRaw, Stateful.exec_bind, Stateful.exec_get]
  simp only
  rw [Stateful.exec_bind, onAuth, Stateful.exec_ofFn]
  simp only [hdecrypt, Except.mapError]
  rw [Stateful.exec_bind, Stateful.exec_modify]
  simp only
  rw [Stateful.exec_bind, Stateful.exec_ofExcept, hlimit, hsettle]
  rfl

/-- Without room for what is decrypted, the call fails. -/
lemma exec_decryptRaw_full (hencrypted : d.auth.inboundEncrypted = true)
    (hfull : maxMetaBufferSize < d.decoder.buffer.length + d.rawBuffer.length)
    (w : MetaConnectionStep) : ((decryptRaw p).exec (d, w)).1 =
      .error (.stream (.inputBufferFull maxMetaBufferSize
        (d.decoder.buffer.length + d.rawBuffer.length))) := by
  obtain ⟨cipher, hcipher⟩ := inCipher_eq_some hencrypted
  have hdecrypt : ((LegacyMetaAuth.decryptInbound p d.rawBuffer).exec d.auth).1 =
      .ok (cipher.cfb128Apply p false d.rawBuffer).1 := by
    rw [LegacyMetaAuth.decryptInbound, Stateful.exec_ofFn, hcipher]
    simp only [LegacyMetaCipher.applyDecrypt_eq]
  rw [decryptRaw, Stateful.exec_bind, Stateful.exec_get]
  simp only
  rw [Stateful.exec_bind, onAuth, Stateful.exec_ofFn]
  simp only [hdecrypt, Except.mapError]
  rw [Stateful.exec_bind, Stateful.exec_modify]
  simp only
  rw [Stateful.exec_bind, Stateful.exec_ofExcept, MetaStreamDecoder.pushLimited,
    LegacyMetaCipher.length_cfb128Apply, if_pos hfull]

/-- Nothing is left to do. -/
lemma exec_receiveLoop_done (fuel : ℕ) (hencrypted : d.auth.inboundEncrypted = true)
    (hraw : d.rawBuffer = []) (w : MetaConnectionStep) :
    (receiveLoop p fuel).exec (d, w) = (.ok (), (d, w)) := by
  cases fuel with
  | zero => rfl
  | succ fuel =>
      rw [receiveLoop, Stateful.exec_bind, Stateful.exec_get]
      simp only [if_pos hencrypted, hraw, List.isEmpty_nil, if_true, Stateful.exec_pure]

lemma settle_nil (hraw : d.rawBuffer = []) : d.settle p = d := by
  have hsame : { d with rawBuffer := [] } = d := by rw [← hraw]
  rw [settle, hraw, hsame, push_nil]

lemma stuck_iff_done (hstuck : (streamReader p).Stuck d) : (Except.ok (), (d, w)) =
    ((.ok (), t) : Except LegacyMetaConnectionError Unit × LegacyMetaConnectionDriver × _) ↔
      ∃ v, (streamReader p).Drains d v t.1 ∧ t.2 = w + v := by
  rw [Prod.mk.injEq, and_iff_right rfl]
  constructor
  · rintro rfl
    exact ⟨0, .stuck hstuck, (add_zero w).symm⟩
  · rintro ⟨v, hv, ht⟩
    obtain ⟨rfl, hsame⟩ := hv.of_stuck hstuck
    exact Prod.ext hsame.symm (by rw [ht, add_zero])

/-- The loop once the stream is encrypted. -/
lemma exec_receiveLoop_encrypted (hkeyed : d.auth.Keyed)
    (hencrypted : d.auth.inboundEncrypted = true) (hfuel : d.rawBuffer.length < fuel)
    (hroom : d.decoder.buffer.length + d.rawBuffer.length ≤ maxMetaBufferSize)
    (hidle : d.rawBuffer = [] → d.decoder.nextFrameInOrder .lines = none)
    (hreads : ∀ v t, (streamReader p).Drains (d.settle p) v t → ¬ t.decoder.Misreads .lines)
    (w : MetaConnectionStep) : (receiveLoop p fuel).exec (d, w) = (.ok (), t) ↔
      ∃ v, (streamReader p).Drains (d.settle p) v t.1 ∧ t.2 = w + v := by
  by_cases hraw : d.rawBuffer = []
  · rw [exec_receiveLoop_done fuel hencrypted hraw, settle_nil hraw]
    exact stuck_iff_done (streamReader_stuck.mpr (Or.inr (Or.inl ⟨hencrypted, hidle hraw⟩)))
  · obtain ⟨fuel, rfl⟩ : ∃ n, fuel = n + 1 := ⟨fuel - 1, by omega⟩
    have hnormal : (d.settle p).Normal := (normal_push _).mpr
      ⟨hkeyed, fun _ => rfl, fun hplain => absurd hencrypted (by
        show ¬ d.auth.inboundEncrypted = true
        rw [show d.auth.inboundEncrypted = false from hplain]
        exact Bool.noConfusion)⟩
    have hencrypted' : (d.settle p).auth.inboundEncrypted = true := by
      rw [settle, push_inboundEncrypted]
      exact hencrypted
    rw [receiveLoop, Stateful.exec_bind, Stateful.exec_get]
    simp only [if_pos hencrypted, List.isEmpty_iff, if_neg hraw]
    rw [Stateful.exec_bind_ok (exec_decryptRaw hencrypted hroom w), Stateful.exec_bind_eq_ok]
    constructor
    · rintro ⟨_, u, hdrain, hloop⟩
      obtain ⟨v, hv, hu⟩ := (FrameReader.exec_drain frameReader_lawful w).mp hdrain
      have hv := (drains_frameReader_iff hnormal hencrypted' hreads).mp hv
      obtain ⟨hnormal', hkept⟩ := Normal.drains hv hnormal
      rw [exec_receiveLoop_done fuel (hkept hencrypted') (hnormal'.2.1 (hkept hencrypted'))] at hloop
      obtain rfl := congrArg Prod.snd hloop
      exact ⟨v, hv, hu⟩
    · rintro ⟨v, hv, ht⟩
      obtain ⟨hnormal', hkept⟩ := Normal.drains hv hnormal
      refine ⟨(), t, (FrameReader.exec_drain frameReader_lawful w).mpr ⟨v, ?_, ht⟩,
        exec_receiveLoop_done fuel (hkept hencrypted') (hnormal'.2.1 (hkept hencrypted')) _⟩
      exact (drains_frameReader_iff hnormal hencrypted' hreads).mpr hv

/-- The loop as long as the stream is not encrypted; there is room for what follows a line. -/
lemma exec_receiveLoop_plain (hnormal : d.Normal) (hplain : d.auth.inboundEncrypted = false)
    (hfuel : d.rawBuffer.length < fuel)
    (hroom : ∀ position, d.rawBuffer.findIdx? (· == newline) = some position →
      d.rawBuffer.length ≤ maxMetaBufferSize + (position + 1))
    (hreads : ∀ v t, (streamReader p).Drains d v t → ¬ t.decoder.Misreads .lines)
    (w : MetaConnectionStep) : (receiveLoop p fuel).exec (d, w) = (.ok (), t) ↔
      ∃ v, (streamReader p).Drains d v t.1 ∧ t.2 = w + v := by
  induction fuel generalizing d w with
  | zero => exact absurd hfuel (Nat.not_lt_zero _)
  | succ fuel ih =>
      rw [receiveLoop, Stateful.exec_bind, Stateful.exec_get]
      simp only [hplain, Bool.false_eq_true, if_false]
      cases hline : d.rawBuffer.findIdx? (· == newline) with
      | none => exact stuck_iff_done (streamReader_stuck.mpr (Or.inr (Or.inr ⟨hplain, hline⟩)))
      | some position =>
          have hlt := (List.findIdx?_eq_some_iff_getElem.mp hline).1
          have hnext := exec_handleNext_line (p := p) hnormal hplain hline 0
          have hadd := handleRawLine_around (p := p) [] w (s := (d, 0)) hlt
          simp only [around_id, add_zero] at hadd
          obtain ⟨hraw, -, hkeyed, hdecoder⟩ := handleRawLine_effect (p := p) position d 0
          simp only
          rw [Stateful.exec_bind, hadd]
          generalize (handleRawLine p position).exec (d, 0) = r at hnext hraw hkeyed hdecoder ⊢
          obtain ⟨_ | _, d₁, w₁⟩ := r
          · -- a line that fails
            refine iff_of_false (by simp) ?_
            rintro ⟨v, hd, -⟩
            cases hd with
            | stuck hstuck =>
                rw [FrameReader.Stuck] at hstuck
                cases hstuck.symm.trans (congrArg Prod.fst hnext)
            | step hstep _ => cases hstep.symm.trans hnext
          · simp only at hraw hkeyed hdecoder
            have hstep : (streamReader p).Step d w₁ (d₁.settle p) := hnext
            have hnormal₁ := (hnormal.step hstep).1
            have hsteps : (∃ v, (streamReader p).Drains d v t.1 ∧ t.2 = w + v) ↔
                ∃ v, (streamReader p).Drains (d₁.settle p) v t.1 ∧ t.2 = w + w₁ + v := by
              constructor
              · rintro ⟨v, hd, ht⟩
                cases hd with
                | stuck hstuck => exact absurd hstuck hstep.not_stuck
                | step hstep' hd =>
                    cases hstep.symm.trans hstep'
                    exact ⟨_, hd, by rw [ht, add_assoc]⟩
              · rintro ⟨v, hd, ht⟩
                exact ⟨w₁ + v, .step hstep hd, by rw [ht, add_assoc]⟩
            have hlen : d₁.rawBuffer.length + (position + 1) = d.rawBuffer.length := by
              rw [hraw, List.length_drop]
              omega
            have hreads₁ : ∀ v t, (streamReader p).Drains (d₁.settle p) v t →
                ¬ t.decoder.Misreads .lines := fun v t hd => hreads _ t (.step hstep hd)
            have hroom₁ := hroom position hline
            rw [hsteps]
            show (receiveLoop p fuel).exec (d₁, w + w₁) = _ ↔ _
            cases hencrypted : d₁.auth.inboundEncrypted with
            | false =>
                have hsame : d₁.settle p = d₁ := settle_plain (inCipher_eq_none hencrypted)
                rw [hsame] at hnormal₁ hreads₁ ⊢
                exact ih hnormal₁ hencrypted (by omega) (fun _ _ => by omega) hreads₁ _
            | true =>
                have hnew : d₁.decoder = .new :=
                  (hdecoder (hnormal.state_ne_activated hplain)).trans (hnormal.2.2 hplain)
                refine exec_receiveLoop_encrypted (hkeyed hnormal.1) hencrypted (by omega) ?_
                  (fun _ => by rw [hnew]; rfl) hreads₁ _
                rw [hnew]
                show 0 + _ ≤ _
                omega

end Loop

/-! ### Two ways of cutting a stream -/

/-- All that has arrived is handled: so it is at first, and after every call that succeeds. -/
structure Settled (d : LegacyMetaConnectionDriver) : Prop where
  normal : d.Normal
  frame : d.auth.inboundEncrypted = true → d.decoder.nextFrame .lines = none
  line : d.auth.inboundEncrypted = false → newline ∉ d.rawBuffer

/-- What is decrypted at once fits into the buffer, together with what is in it. -/
def HasRoom (d : LegacyMetaConnectionDriver) (data : List UInt8) : Prop :=
  d.auth.inboundEncrypted = true → d.decoder.buffer.length + data.length ≤ maxMetaBufferSize

/-- Chunks are received one after the other, until the first failure. -/
def receiveChunks (p : LegacyMetaPrimitives) : List (List UInt8) →
    Stateful LegacyMetaConnectionError LegacyMetaConnectionDriver MetaConnectionStep
  | [] => pure 0
  | data :: rest => do
      let step ← receiveBytes p data
      let step' ← receiveChunks p rest
      return step + step'

/-- There is room for every chunk, and no chunk ends within a packet body in such a way that the
part that has arrived is taken for a line. -/
def Keeps (p : LegacyMetaPrimitives) : LegacyMetaConnectionDriver → List (List UInt8) → Prop
  | _, [] => True
  | d, data :: rest => d.HasRoom data ∧ ∀ step t, (streamReader p).Drains (d.push p data) step t →
      ¬ t.decoder.Misreads .lines ∧ Keeps p t rest

section Cuts

variable {p : LegacyMetaPrimitives} {d d' : LegacyMetaConnectionDriver} {data : List UInt8}
  {w : MetaConnectionStep}

/-- A new connection is settled. -/
lemma settled_new (auth : LegacyMetaAuth) (hcipher : auth.inCipher = none)
    (hstate : auth.state = .expectId) : (new auth).Settled where
  normal := by
    have hplain : auth.inboundEncrypted = false := by
      rw [LegacyMetaAuth.inboundEncrypted, hcipher]
      rfl
    refine ⟨?_, fun _ => rfl, fun _ => rfl⟩
    show auth.inboundEncrypted = auth.state.isKeyed
    rw [hplain, hstate]
    rfl
  frame _ := rfl
  line _ := List.not_mem_nil

lemma findIdx?_newline {raw : List UInt8} :
    raw.findIdx? (· == newline) = none ↔ newline ∉ raw := by
  rw [List.findIdx?_eq_none_iff]
  constructor
  · exact fun h hmem => by simpa using h newline hmem
  · intro h b hb
    simp only [beq_eq_false_iff_ne]
    rintro rfl
    exact h hb

/-- What the loop leaves behind when it ends well. -/
lemma settled_of_receiveLoop {fuel : ℕ} {t : LegacyMetaConnectionDriver × MetaConnectionStep}
    (hkeyed : d.auth.Keyed) (hnew : d.auth.inboundEncrypted = false → d.decoder = .new)
    (hidle : d.auth.inboundEncrypted = true → d.rawBuffer = [] →
      d.decoder.nextFrame .lines = none) (hfuel : d.rawBuffer.length < fuel)
    (h : (receiveLoop p fuel).exec (d, w) = (.ok (), t)) : t.1.Settled := by
  induction fuel generalizing d w with
  | zero => exact absurd hfuel (Nat.not_lt_zero _)
  | succ fuel ih =>
      cases hencrypted : d.auth.inboundEncrypted with
      | true =>
          have hdone : ∀ {d : LegacyMetaConnectionDriver}, d.Normal →
              d.auth.inboundEncrypted = true → d.decoder.nextFrame .lines = none → d.Settled :=
            fun hnormal hencrypted hframe => ⟨hnormal, fun _ => hframe, fun hplain => by
              rw [hencrypted] at hplain
              exact Bool.noConfusion hplain⟩
          have hno : ∀ {P : Prop}, d.auth.inboundEncrypted = false → P := fun hplain => by
            rw [hencrypted] at hplain
            exact Bool.noConfusion hplain
          by_cases hraw : d.rawBuffer = []
          · rw [exec_receiveLoop_done _ hencrypted hraw] at h
            cases h
            exact hdone ⟨hkeyed, fun _ => hraw, hno⟩ hencrypted (hidle hencrypted hraw)
          · have hnormal : (d.settle p).Normal := (normal_push _).mpr ⟨hkeyed, fun _ => rfl, hno⟩
            have hencrypted' : (d.settle p).auth.inboundEncrypted = true := by
              rw [settle, push_inboundEncrypted]
              exact hencrypted
            rw [receiveLoop, Stateful.exec_bind, Stateful.exec_get] at h
            simp only [if_pos hencrypted, List.isEmpty_iff, if_neg hraw] at h
            obtain ⟨_, u, hdecrypt, hmore⟩ := Stateful.exec_bind_eq_ok.mp h
            obtain ⟨_, u', hdrain, hloop⟩ := Stateful.exec_bind_eq_ok.mp hmore
            have hroom : d.decoder.buffer.length + d.rawBuffer.length ≤ maxMetaBufferSize := by
              by_contra hfull
              have hfails := exec_decryptRaw_full (p := p) hencrypted (not_le.mp hfull) w
              rw [hdecrypt] at hfails
              cases hfails
            cases (exec_decryptRaw hencrypted hroom w).symm.trans hdecrypt
            obtain ⟨v, hv, -⟩ := (FrameReader.exec_drain frameReader_lawful w).mp hdrain
            obtain ⟨hnormal', hencrypted''⟩ := hnormal.frames hencrypted' hv
            rw [exec_receiveLoop_done _ hencrypted'' (hnormal'.2.1 hencrypted'')] at hloop
            cases hloop
            exact hdone hnormal' hencrypted'' (exec_handleNextFrame_false
              (Prod.ext hv.stuck_right rfl))
      | false =>
          have hnormal : d.Normal := ⟨hkeyed, fun hno => by
            rw [hencrypted] at hno
            exact Bool.noConfusion hno, hnew⟩
          rw [receiveLoop, Stateful.exec_bind, Stateful.exec_get] at h
          simp only [hencrypted, Bool.false_eq_true, if_false] at h
          cases hline : d.rawBuffer.findIdx? (· == newline) with
          | none =>
              rw [hline] at h
              cases h
              exact ⟨hnormal, fun hno => by
                rw [hencrypted] at hno
                exact Bool.noConfusion hno, fun _ => findIdx?_newline.mp hline⟩
          | some position =>
              have hlt := (List.findIdx?_eq_some_iff_getElem.mp hline).1
              rw [hline] at h
              obtain ⟨_, u, hfirst, hloop⟩ := Stateful.exec_bind_eq_ok.mp h
              obtain ⟨hraw, -, hkeyed', hdecoder⟩ := handleRawLine_effect (p := p) position d w
              rw [hfirst] at hraw hkeyed' hdecoder
              have hnew' : u.1.decoder = .new :=
                (hdecoder (hnormal.state_ne_activated hencrypted)).trans (hnew hencrypted)
              refine ih (hkeyed' hkeyed) (fun _ => hnew') (fun _ _ => by rw [hnew']; rfl) ?_ hloop
              rw [hraw, List.length_drop]
              omega

/-- **Every call that succeeds handles all that has arrived.** -/
lemma Settled.receiveBytes (hd : d.Settled)
    (h : (receiveBytes p data).exec d = (.ok w, d')) : d'.Settled := by
  rw [LegacyMetaConnectionDriver.receiveBytes, Stateful.exec_ofFn] at h
  simp only at h
  rcases hexec : (receiveLoop p ((d.rawBuffer ++ data).length + 1)).exec
    ({ d with rawBuffer := d.rawBuffer ++ data }, 0) with ⟨_ | _, t⟩
  · rw [hexec] at h
    cases h
  · rw [hexec] at h
    cases h
    exact settled_of_receiveLoop (d := { d with rawBuffer := d.rawBuffer ++ data }) hd.normal.1
      hd.normal.2.2 (fun hencrypted _ => hd.frame hencrypted) (Nat.lt_succ_self _) hexec

/-- Calls that succeed keep a connection settled. -/
lemma Settled.receiveChunks {chunks : List (List UInt8)} (hd : d.Settled)
    (h : (receiveChunks p chunks).exec d = (.ok w, d')) : d'.Settled := by
  induction chunks generalizing d w with
  | nil =>
      cases h
      exact hd
  | cons data rest ih =>
      rw [LegacyMetaConnectionDriver.receiveChunks] at h
      obtain ⟨step, t, hfirst, hmore⟩ := Stateful.exec_bind_eq_ok.mp h
      obtain ⟨step', t', hrest, hreturn⟩ := Stateful.exec_bind_eq_ok.mp hmore
      cases hreturn
      exact ih (hd.receiveBytes hfirst) hrest

/-- **Between two calls a connection is settled**, from its start on. -/
theorem receiveChunks_settled {chunks : List (List UInt8)} {auth : LegacyMetaAuth}
    (hcipher : auth.inCipher = none) (hstate : auth.state = .expectId)
    (h : (receiveChunks p chunks).exec (new auth) = (.ok w, d')) : d'.Settled :=
  (settled_new auth hcipher hstate).receiveChunks h

/-- A settled connection has nothing to take. -/
lemma Settled.stuck (h : d.Settled) : (streamReader p).Stuck d := by
  refine streamReader_stuck.mpr (Or.inr ?_)
  cases hencrypted : d.auth.inboundEncrypted with
  | true =>
      have hnone := h.frame hencrypted
      refine Or.inl ⟨rfl, ?_⟩
      rw [MetaStreamDecoder.nextFrame_eq, Option.or_eq_none_iff] at hnone
      rw [MetaStreamDecoder.nextFrameInOrder]
      split_ifs
      · exact hnone.1
      · exact hnone.2
  | false => exact Or.inr ⟨rfl, findIdx?_newline.mpr (h.line hencrypted)⟩

/-- A connection is settled when all whole frames were taken. -/
lemma Settled.drains (hnormal : d.Normal) (h : (streamReader p).Drains d w d')
    (hreads : ¬ d'.decoder.Misreads .lines) : d'.Settled := by
  have hnormal' := (Normal.drains h hnormal).1
  rcases streamReader_stuck.mp h.stuck_right with habnormal | ⟨hencrypted, hframe⟩ | ⟨hplain, hline⟩
  · exact absurd hnormal' habnormal
  · refine ⟨hnormal', fun _ => (MetaStreamDecoder.nextFrame_eq_inOrder hreads).trans hframe,
      fun hplain => absurd hencrypted ?_⟩
    rw [hplain]
    exact Bool.noConfusion
  · refine ⟨hnormal', fun hencrypted => absurd hencrypted ?_, fun _ => findIdx?_newline.mp hline⟩
    rw [hplain]
    exact Bool.noConfusion

/-- **A call reads in order** what has arrived, if there is room for it and no part of a packet
body is taken for a line. -/
lemma exec_receiveBytes (hd : d.Settled) (hmax : data.length ≤ maxMetaBufferSize)
    (hroom : d.HasRoom data)
    (hreads : ∀ v t, (streamReader p).Drains (d.push p data) v t → ¬ t.decoder.Misreads .lines) :
    (receiveBytes p data).exec d = (.ok w, d') ↔ (streamReader p).Drains (d.push p data) w d' := by
  have hloop : ∀ {t : LegacyMetaConnectionDriver × MetaConnectionStep},
      (receiveLoop p ((d.rawBuffer ++ data).length + 1)).exec
        ({ d with rawBuffer := d.rawBuffer ++ data }, 0) = (.ok (), t) ↔
          ∃ v, (streamReader p).Drains (d.push p data) v t.1 ∧ t.2 = 0 + v := by
    intro t
    cases hencrypted : d.auth.inboundEncrypted with
    | true =>
        have hraw := hd.normal.2.1 hencrypted
        have hsettle : settle p { d with rawBuffer := d.rawBuffer ++ data } = d.push p data := by
          rw [settle_append, settle_nil hraw]
        have hloop := exec_receiveLoop_encrypted (p := p)
          (d := { d with rawBuffer := d.rawBuffer ++ data }) (t := t) hd.normal.1 hencrypted
          (Nat.lt_succ_self _) ?_ ?_ (hsettle ▸ hreads) 0
        · rwa [hsettle] at hloop
        · rw [hraw]
          exact hroom hencrypted
        · rintro -
          exact ((streamReader_stuck.mp (hd.stuck (p := p))).resolve_left (not_not.mpr hd.normal)).elim
            And.right fun h => absurd hencrypted (by rw [h.1]; exact Bool.noConfusion)
    | false =>
        have hpush := push_plain (p := p) (inCipher_eq_none hencrypted) data
        rw [hpush] at hreads ⊢
        refine exec_receiveLoop_plain (d := { d with rawBuffer := d.rawBuffer ++ data }) ?_
          hencrypted (Nat.lt_succ_self _) (fun position h => ?_) hreads 0
        · rw [← hpush, normal_push]
          exact hd.normal
        · -- the line ends among the bytes of this call
          rw [List.findIdx?_append, findIdx?_newline.mpr (hd.line hencrypted), Option.none_or,
            Option.map_eq_some_iff] at h
          obtain ⟨k, -, rfl⟩ := h
          rw [List.length_append]
          omega
  rw [receiveBytes, Stateful.exec_ofFn]
  simp only
  constructor
  · intro h
    rcases hexec : (receiveLoop p ((d.rawBuffer ++ data).length + 1)).exec
      ({ d with rawBuffer := d.rawBuffer ++ data }, 0) with ⟨_ | _, t⟩
    · rw [hexec] at h
      cases h
    · rw [hexec] at h
      cases h
      obtain ⟨v, hv, hsum⟩ := hloop.mp hexec
      rwa [hsum, zero_add]
  · intro h
    have hexec := (hloop (t := (d', w))).mpr ⟨w, h, (zero_add w).symm⟩
    rw [hexec]
    rfl

/-- **A run reads in order** the whole stream. -/
lemma exec_receiveChunks {chunks : List (List UInt8)} (hd : d.Settled)
    (hmax : ∀ data ∈ chunks, data.length ≤ maxMetaBufferSize) (hkeeps : Keeps p d chunks) :
    (receiveChunks p chunks).exec d = (.ok w, d') ↔
      (streamReader p).Drains (d.push p chunks.flatten) w d' := by
  induction chunks generalizing d w with
  | nil =>
      rw [receiveChunks, Stateful.exec_pure, List.flatten_nil, push_nil]
      constructor
      · intro h
        cases h
        exact .stuck hd.stuck
      · intro h
        obtain ⟨rfl, rfl⟩ := h.of_stuck hd.stuck
        rfl
  | cons data rest ih =>
      obtain ⟨hroom, hrest⟩ := hkeeps
      obtain ⟨hdata, hmax⟩ := List.forall_mem_cons.mp hmax
      have hcall : ∀ {w t}, (receiveBytes p data).exec d = (.ok w, t) ↔
          (streamReader p).Drains (d.push p data) w t :=
        exec_receiveBytes hd hdata hroom fun v t h => (hrest v t h).1
      have hsettled : ∀ {v t}, (streamReader p).Drains (d.push p data) v t → t.Settled :=
        fun h => .drains ((normal_push data).mpr hd.normal) h (hrest _ _ h).1
      rw [receiveChunks, List.flatten_cons, ← push_push, Stateful.exec_bind_eq_ok]
      constructor
      · rintro ⟨v, t, hfirst, h⟩
        obtain ⟨v', t', hmore, h⟩ := Stateful.exec_bind_eq_ok.mp h
        cases h
        have hfirst := hcall.mp hfirst
        exact hfirst.later streamReader_stable
          ((ih (hsettled hfirst) hmax (hrest _ _ hfirst).2).mp hmore)
      · intro h
        obtain ⟨v, t, v', hfirst, hmore, rfl⟩ := h.of_push streamReader_lawful streamReader_stable
        refine ⟨v, t, hcall.mpr hfirst, Stateful.exec_bind_eq_ok.mpr ⟨v', d', ?_, rfl⟩⟩
        exact (ih (hsettled hfirst) hmax (hrest _ _ hfirst).2).mpr hmore

/-- **Two ways of cutting a stream come to the same**, when in both of them there is room for every
chunk and no part of a packet body is taken for a line. -/
theorem receiveChunks_recut (p : LegacyMetaPrimitives) (d : LegacyMetaConnectionDriver)
    (hd : d.Settled) (chunks chunks' : List (List UInt8))
    (hflat : chunks.flatten = chunks'.flatten)
    (hmax : ∀ data ∈ chunks, data.length ≤ maxMetaBufferSize)
    (hmax' : ∀ data ∈ chunks', data.length ≤ maxMetaBufferSize) (hkeeps : Keeps p d chunks)
    (hkeeps' : Keeps p d chunks') (step : MetaConnectionStep) (t : LegacyMetaConnectionDriver) :
    (receiveChunks p chunks).exec d = (.ok step, t) ↔
      (receiveChunks p chunks').exec d = (.ok step, t) := by
  rw [exec_receiveChunks hd hmax hkeeps, exec_receiveChunks hd hmax' hkeeps', hflat]

end Cuts

/-! ### A chunk that the buffer has no room for -/

section Example

/-- A cipher that leaves every byte as it is. -/
def plainPrimitives : LegacyMetaPrimitives where
  encryptBlock _ _ _ := Vector.replicate 16 0
  sha1 _ := []
  sha256 _ := []
  sha384 _ := []
  sha512 _ := []

/-- A cipher whose key and feedback are zero. -/
def plainCipher : LegacyMetaCipher :=
  ⟨.aes256Cfb, List.replicate 32 0, rfl, Vector.replicate 16 0, Vector.replicate 16 0,
    ⟨0, by decide⟩⟩

/-- A connection that is activated, with nothing received yet. -/
def activatedDriver : LegacyMetaConnectionDriver :=
  let key : RsaPublicKey := ⟨0, 0⟩
  .new
    { LegacyMetaAuth.new "alpha" true ⟨key, 0⟩ key "655" 0 0 (fun _ _ => 0) with
      peer := some "beta"
      outCipher := some plainCipher
      inCipher := some plainCipher
      state := .activated }

lemma activatedDriver_settled : activatedDriver.Settled :=
  ⟨by decide, fun _ => rfl, fun h => Bool.noConfusion h⟩

/-- A packet of the given length, after its header. -/
def packet (length : UInt16) : List UInt8 :=
  encodeMetaLine (.tcpPacket ⟨length⟩) ++ List.replicate length.toNat 1

lemma keeps_cons {p : LegacyMetaPrimitives} {d : LegacyMetaConnectionDriver} {data : List UInt8}
    {rest : List (List UInt8)} (hroom : d.HasRoom data)
    (hexec : ((streamReader p).drain.exec (d.push p data, 0)).1 = .ok ())
    (hreads : ¬ ((streamReader p).drain.exec (d.push p data, 0)).2.1.decoder.Misreads .lines)
    (hrest : Keeps p ((streamReader p).drain.exec (d.push p data, 0)).2.1 rest) :
    Keeps p d (data :: rest) := by
  refine ⟨hroom, fun step t h => ?_⟩
  obtain ⟨v, hv, -⟩ := (FrameReader.exec_drain streamReader_lawful 0).mp (Prod.ext hexec rfl)
  obtain ⟨-, rfl⟩ := hv.unique h
  exact ⟨hreads, hrest⟩

/-- A packet in one chunk. -/
def together : List (List UInt8) := [packet 40]

/-- The same packet, where the body arrives in two parts. -/
def inParts : List (List UInt8) := [(packet 40).take 20, (packet 40).drop 20]

/-- What comes of the packet. -/
def received : MetaConnectionStep :=
  ⟨[], [.message (.tcpPacket ⟨40⟩), .tcpPacket (List.replicate 40 1)]⟩

/-- The same packet in one chunk and in two. -/
theorem receiveChunks_recut_inParts :
    ∃ t, (receiveChunks plainPrimitives inParts).exec activatedDriver = (.ok received, t) ∧
      (receiveChunks plainPrimitives together).exec activatedDriver = (.ok received, t) := by
  have hroom : ∀ {d : LegacyMetaConnectionDriver} {data : List UInt8},
      d.decoder.buffer.length + data.length ≤ maxMetaBufferSize → d.HasRoom data := fun h _ => h
  have hpair : ∀ {r : Except LegacyMetaConnectionError MetaConnectionStep × _},
      r.1 = .ok received → ∃ t : LegacyMetaConnectionDriver, r = (.ok received, t) :=
    fun h => ⟨_, Prod.ext h rfl⟩
  have hinParts : Keeps plainPrimitives activatedDriver inParts :=
    keeps_cons (hroom (by decide +kernel)) (by decide +kernel) (by decide +kernel)
      (keeps_cons (hroom (by decide +kernel)) (by decide +kernel) (by decide +kernel) trivial)
  have htogether : Keeps plainPrimitives activatedDriver together :=
    keeps_cons (hroom (by decide +kernel)) (by decide +kernel) (by decide +kernel) trivial
  obtain ⟨t, ht⟩ := hpair (r := (receiveChunks plainPrimitives together).exec activatedDriver)
    (by decide +kernel)
  exact ⟨t, (receiveChunks_recut plainPrimitives activatedDriver activatedDriver_settled inParts
    together (by decide) (by decide +kernel) (by decide +kernel) hinParts htogether received t).mpr ht,
    ht⟩

/-- The same two packets, where the second chunk is as large as a chunk can be. -/
def large : List (List UInt8) :=
  let stream := packet 2000 ++ packet 2000
  [stream.take 1000, (stream.drop 1000).take maxMetaBufferSize,
    (stream.drop 1000).drop maxMetaBufferSize]

theorem receiveChunks_recut_large :
    [packet 2000, packet 2000].flatten = large.flatten ∧
      (∀ data ∈ [packet 2000, packet 2000], data.length ≤ maxMetaBufferSize) ∧
      (∀ data ∈ large, data.length ≤ maxMetaBufferSize) ∧
      ((receiveChunks plainPrimitives [packet 2000, packet 2000]).exec activatedDriver).1.isOk ∧
      ((receiveChunks plainPrimitives large).exec activatedDriver).1 =
        .error (.stream (.inputBufferFull maxMetaBufferSize 3168)) :=
  ⟨by decide +kernel, by decide +kernel, by decide +kernel, by decide +kernel, by decide +kernel⟩

end Example

end LegacyMetaConnectionDriver

end RustyTinc

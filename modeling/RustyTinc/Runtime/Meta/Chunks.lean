import RustyTinc.Runtime.Meta.Driver
import RustyTinc.Runtime.Sptps.Authentication

/-!
The bytes of a meta connection arrive in chunks, which are cut at any place.

* `readerOf_lawful`: the driver is a reader of frames;
* `metaReader_agrees`: it takes frames out of its buffer in order, as long as it does not take a
  part of a packet body for a frame;
* `receiveChunks_cut`: two ways of cutting a stream come to the same in this case.
-/

namespace RustyTinc

namespace MetaConnectionDriver

/-! ### The driver is a reader of frames -/

section Next

variable {p : Primitives} {next : MetaFraming → MetaStreamDecoder → MetaStreamDecoder.NextFrame}
  {d : MetaConnectionDriver} {decoder : MetaStreamDecoder} {frame : MetaStreamFrame}

lemma exec_handleNextFrame_none (h : next d.framing d.decoder = none) (w : MetaConnectionStep) :
    (handleNextFrame p next).exec (d, w) = (.ok false, (d, w)) := by
  rw [handleNextFrame, Stateful.exec_bind, takeFrame, Stateful.exec_ofFn]
  simp only [h]
  rfl

lemma exec_handleNextFrame_error {e : MetaStreamError}
    (h : next d.framing d.decoder = some (.error e, decoder)) (w : MetaConnectionStep) :
    (handleNextFrame p next).exec (d, w) =
      (.error (.stream e), ({ d with decoder := decoder }, w)) := by
  rw [handleNextFrame, Stateful.exec_bind, takeFrame, Stateful.exec_ofFn]
  simp only [h]
  rfl

/-- The driver when it begins to handle a frame. -/
def taken (d : MetaConnectionDriver) (decoder : MetaStreamDecoder) : MetaConnectionDriver :=
  { d with decoder := decoder }

/-- The driver with a frame noted. -/
def noted (d : MetaConnectionDriver) (frame : HandledFrame) : MetaConnectionDriver :=
  { d with handled := d.handled ++ [frame] }

lemma exec_handleNextFrame_ok (h : next d.framing d.decoder = some (.ok frame, decoder))
    (w : MetaConnectionStep) : (handleNextFrame p next).exec (d, w) =
      let r := (handleFrame p frame).exec (d.taken decoder, 0)
      (r.1.map fun _ => true, (r.2.1.noted ⟨d.auth, frame, r.2.2.events⟩, w + r.2.2)) := by
  rw [handleNextFrame, Stateful.exec_bind, takeFrame, Stateful.exec_ofFn]
  simp only [h, Stateful.map_ok, Except.mapError]
  rw [Stateful.exec_bind, noting, Stateful.exec_ofFn, taken]
  rcases (handleFrame p frame).exec ({ d with decoder := decoder }, 0) with ⟨_ | _, t⟩ <;> rfl

/-- The three cases of the next frame. -/
lemma next_cases (next : MetaFraming → MetaStreamDecoder → MetaStreamDecoder.NextFrame)
    (d : MetaConnectionDriver) : next d.framing d.decoder = none ∨
      (∃ e decoder, next d.framing d.decoder = some (.error e, decoder)) ∨
      ∃ frame decoder, next d.framing d.decoder = some (.ok frame, decoder) := by
  rcases h : next d.framing d.decoder with _ | ⟨_ | _, decoder⟩
  · exact Or.inl rfl
  · exact Or.inr (Or.inl ⟨_, decoder, rfl⟩)
  · exact Or.inr (Or.inr ⟨_, decoder, rfl⟩)

/-- A frame that was taken was handled without its decoder. -/
lemma exec_handleNextFrame_eq_ok {d' : MetaConnectionDriver} {w : MetaConnectionStep}
    (h : (handleNextFrame p next).exec (d, 0) = (.ok true, (d', w))) :
    ∃ frame decoder t, next d.framing d.decoder = some (.ok frame, decoder) ∧
      (handleFrame p frame).exec (d.taken decoder, 0) = (.ok (), (t, w)) ∧
        d' = t.noted ⟨d.auth, frame, w.events⟩ := by
  rcases next_cases next d with hn | ⟨e, decoder, hn⟩ | ⟨frame, decoder, hn⟩
  · rw [exec_handleNextFrame_none hn] at h
    cases h
  · rw [exec_handleNextFrame_error hn] at h
    cases h
  · rw [exec_handleNextFrame_ok hn] at h
    rcases hframe : (handleFrame p frame).exec (d.taken decoder, 0) with ⟨_ | _, t, v⟩
    · rw [hframe] at h
      cases h
    · rw [hframe] at h
      simp only [Stateful.map_ok, zero_add, Prod.mk.injEq, true_and] at h
      obtain ⟨rfl, rfl⟩ := h
      exact ⟨frame, decoder, t, hn, hframe, rfl⟩

/-- What a frame gives is added to what has been collected before. -/
lemma exec_handleNextFrame_add (s : MetaConnectionDriver) (w : MetaConnectionStep) :
    (handleNextFrame p next).exec (s, w) =
      (((handleNextFrame p next).exec (s, 0)).1,
        (((handleNextFrame p next).exec (s, 0)).2.1,
          w + ((handleNextFrame p next).exec (s, 0)).2.2)) := by
  rcases next_cases next s with h | ⟨e, decoder, h⟩ | ⟨frame, decoder, h⟩
  · rw [exec_handleNextFrame_none h, exec_handleNextFrame_none h, add_zero]
  · rw [exec_handleNextFrame_error h, exec_handleNextFrame_error h, add_zero]
  · rw [exec_handleNextFrame_ok h, exec_handleNextFrame_ok h]
    simp only [zero_add]

/-- **The next frame does not change when more bytes arrive**, if the decoder sees to it. -/
lemma exec_handleNextFrame_extend (hstable : ∀ framing, MetaStreamDecoder.Stable (next framing))
    (h : next d.framing d.decoder ≠ none) (data : List UInt8) :
    (handleNextFrame p next).exec (d.extend data, 0) =
      (((handleNextFrame p next).exec (d, 0)).1,
        (((handleNextFrame p next).exec (d, 0)).2.1.extend data,
          ((handleNextFrame p next).exec (d, 0)).2.2)) := by
  rcases next_cases next d with hnone | ⟨e, decoder, hsome⟩ | ⟨frame, decoder, hsome⟩
  · exact absurd hnone h
  · have hmore := hstable _ _ data _ hsome
    rw [exec_handleNextFrame_error (d := d.extend data) hmore, exec_handleNextFrame_error hsome]
    rfl
  · have hmore := hstable _ _ data _ hsome
    have hexec := @handleFrame_commutes p data 0 frame
      (d.taken decoder, 0)
    simp only [around, add_zero, zero_add] at hexec
    have htaken : (d.extend data).taken (decoder.extend data) = (d.taken decoder).extend data := rfl
    rw [exec_handleNextFrame_ok (d := d.extend data) hmore, exec_handleNextFrame_ok hsome, htaken,
      hexec]
    rfl

end Next

/-! ### Room in the buffer -/

section Room

variable {d : MetaConnectionDriver}

/-- How many bytes there is room for, if there is any. -/
def room (d : MetaConnectionDriver) : Option ℕ :=
  match d.nextInputWindow with
  | .ok (_, available) => if available = 0 then none else some available
  | .error _ => none

/-- The bytes that there is room for stay within the limit. -/
lemma nextInputWindow_limit {limit available : ℕ}
    (h : d.nextInputWindow = .ok (limit, available)) (hpos : available ≠ 0) :
    d.decoder.buffer.length + available ≤ limit := by
  have hrecord : ∀ encrypted, (d.decoder.expectedSptpsFrameLen encrypted).getD 2 ≤
      maxSptpsTcpRecordBufferSize := by
    intro encrypted
    have hlt := Bytes.ofBigEndian_lt (d.decoder.buffer.take 2)
    have hle : 256 ^ (d.decoder.buffer.take 2).length ≤ 256 ^ 2 :=
      Nat.pow_le_pow_right (by omega) (List.length_take_le 2 _)
    rw [MetaStreamDecoder.expectedSptpsFrameLen, maxSptpsTcpRecordBufferSize]
    split_ifs <;> simp only [Option.getD_none, Option.getD_some, sptpsTcpAuthOverhead,
      sptpsTcpHeaderLen] <;> omega
  rw [nextInputWindow] at h
  cases hpending : d.decoder.pendingBody with
  | some body =>
      rw [hpending] at h
      simp only at h
      split_ifs at h with hlarge
      cases h
      omega
  | none =>
      rw [hpending] at h
      cases hframing : d.framing with
      | lines =>
          rw [hframing] at h
          cases h
          omega
      | records encrypted =>
          rw [hframing] at h
          cases h
          have := hrecord encrypted
          omega

/-- As much is taken in as there is room for. -/
lemma exec_load_some {n : ℕ} (h : d.room = some n) (data : List UInt8) :
    (load data).exec d = (.ok (data.drop n), d.extend (data.take n)) := by
  rw [room] at h
  split at h
  · next limit available hwindow =>
      split_ifs at h with hpos
      obtain rfl := Option.some.inj h
      have hlimit := nextInputWindow_limit hwindow hpos
      have hpush : d.decoder.pushLimited (data.take available) limit =
          .ok (d.decoder.extend (data.take available)) := by
        rw [MetaStreamDecoder.pushLimited]
        have := List.length_take_le available data
        rw [if_neg (by omega)]
        rfl
      simp [load, Stateful.exec_bind, hwindow, hpos, hpush, Except.mapError, extend]
  · cases h

lemma exec_load_none (h : d.room = none) (data : List UInt8) :
    ∃ e, (load data).exec d = (.error e, d) := by
  rw [room] at h
  split at h
  · next limit available hwindow =>
      split_ifs at h with hzero
      exact ⟨_, by simp [load, Stateful.exec_bind, hwindow, hzero, Except.mapError]; rfl⟩
  · next e hwindow =>
      exact ⟨.stream e, by simp [load, Stateful.exec_bind, hwindow, Except.mapError]⟩

end Room

end MetaConnectionDriver

open MetaConnectionDriver

/-- The driver that waits for the whole of a packet body. -/
def metaReaderInOrder (p : Primitives) :
    FrameReader MetaConnectionError MetaConnectionDriver MetaConnectionStep UInt8 :=
  readerOf p MetaStreamDecoder.nextFrameInOrder

section Lawful

variable {p : Primitives} {next : MetaFraming → MetaStreamDecoder → MetaStreamDecoder.NextFrame}

lemma readerOf_stuck {d : MetaConnectionDriver} :
    (readerOf p next).Stuck d ↔ next d.framing d.decoder = none := by
  rw [FrameReader.Stuck, readerOf]
  rcases next_cases next d with h | ⟨e, decoder, h⟩ | ⟨frame, decoder, h⟩
  · simp [exec_handleNextFrame_none h, h]
  · simp [exec_handleNextFrame_error h, h]
  · rw [exec_handleNextFrame_ok h, h]
    rcases (handleFrame p frame).exec (d.taken decoder, 0) with ⟨_ | _, t⟩ <;> simp

/-- Bodies and other frames, each of which makes the decoder smaller. -/
def TakesFrames (next : MetaFraming → MetaStreamDecoder → MetaStreamDecoder.NextFrame) : Prop :=
  ∀ framing decoder r, next framing decoder = some r →
    decoder.nextBodyFrame = some r ∨ decoder.nextOtherFrame framing = some r

lemma nextFrame_takesFrames : TakesFrames MetaStreamDecoder.nextFrame := by
  intro framing decoder r h
  rw [MetaStreamDecoder.nextFrame_eq] at h
  exact (Option.or_eq_some_iff.mp h).imp_right And.right

lemma nextFrameInOrder_takesFrames : TakesFrames MetaStreamDecoder.nextFrameInOrder := by
  intro framing decoder r h
  rw [MetaStreamDecoder.nextFrameInOrder] at h
  split_ifs at h
  · exact Or.inl h
  · exact Or.inr h

/-- Every step of the reader makes the buffer lighter. -/
lemma readerOf_weight (hnext : TakesFrames next) {d d' : MetaConnectionDriver}
    {w : MetaConnectionStep} (h : (readerOf p next).Step d w d') :
    d'.decoder.weight < d.decoder.weight := by
  obtain ⟨frame, decoder, t, hsome, hframe, rfl⟩ := exec_handleNextFrame_eq_ok h
  have hbuffer := handleFrame_buffer (p := p) frame (d.taken decoder, 0)
  rw [hframe] at hbuffer
  show t.decoder.weight < _
  have hpending : (if t.decoder.pendingBody.isSome then 1 else 0) ≤ 1 := by
    split_ifs <;> omega
  rw [MetaStreamDecoder.weight, MetaStreamDecoder.weight]
  rcases hnext _ _ _ hsome with hbody | hother
  · -- a body was waited for, and nothing is waited for after it
    obtain ⟨hsome', hnone, hle, kind, data, hframe'⟩ := MetaStreamDecoder.nextBodyFrame_takes hbody
    have hdecoder : t.decoder = decoder := by
      obtain rfl := Except.ok.inj hframe'
      cases kind <;> cases hframe <;> rfl
    rw [hdecoder, if_pos hsome']
    simp only at hnone hle
    rw [hnone]
    simp
    omega
  · obtain ⟨-, hlt, -⟩ := MetaStreamDecoder.nextOtherFrame_takes hother
    simp only [taken] at hbuffer hlt
    rw [hbuffer]
    omega

/-- **The driver is a reader of frames.** -/
theorem readerOf_lawful (hnext : TakesFrames next) : (readerOf p next).Lawful extend room where
  push_nil d := by rw [extend, MetaStreamDecoder.extend_nil]
  push_push d a b := by rw [extend, extend, extend, MetaStreamDecoder.extend_extend]
  next_add := exec_handleNextFrame_add
  next_stuck d h := exec_handleNextFrame_none (readerOf_stuck.mp h) 0
  next_weight _ _ _ h := readerOf_weight hnext h
  load_some d n data h _ := exec_load_some h data
  load_none d data h _ := (exec_load_none h data).imp fun e he => ⟨d, he⟩
  window_pos d n h := by
    rw [room] at h
    split at h
    · split_ifs at h with hzero
      have := Option.some.inj h
      omega
    · cases h

lemma metaReader_lawful : (metaReader p).Lawful extend room := readerOf_lawful nextFrame_takesFrames

lemma metaReaderInOrder_lawful : (metaReaderInOrder p).Lawful extend room :=
  readerOf_lawful nextFrameInOrder_takesFrames

/-- Bytes that arrive later change nothing for the driver that waits for packet bodies. -/
lemma metaReaderInOrder_stable : (metaReaderInOrder p).Stable extend :=
  fun _ data h => exec_handleNextFrame_extend MetaStreamDecoder.nextFrameInOrder_stable
    (fun hnone => h (readerOf_stuck.mpr hnone)) data

/-- The driver does not take a part of a packet body for a frame. -/
def KeepsBodies (d : MetaConnectionDriver) : Prop := ¬ d.decoder.Misreads d.framing

instance : DecidablePred KeepsBodies := fun d =>
  inferInstanceAs (Decidable ¬(d.decoder.pendingBody.isSome ∧ d.decoder.nextBodyFrame = none ∧
    d.decoder.nextOtherFrame d.framing ≠ none))

lemma metaReader_agrees : (metaReader p).Agrees (metaReaderInOrder p) KeepsBodies where
  next_eq d w h := by
    have heq := MetaStreamDecoder.nextFrame_eq_inOrder h
    show (handleNextFrame p _).exec (d, w) = (handleNextFrame p _).exec (d, w)
    rcases next_cases MetaStreamDecoder.nextFrame d with hn | ⟨e, decoder, hn⟩ | ⟨frame, decoder, hn⟩
    · rw [exec_handleNextFrame_none hn, exec_handleNextFrame_none (heq ▸ hn)]
    · rw [exec_handleNextFrame_error hn, exec_handleNextFrame_error (heq ▸ hn)]
    · rw [exec_handleNextFrame_ok hn, exec_handleNextFrame_ok (heq ▸ hn)]
  load_eq := rfl
  weight_eq := rfl

end Lawful

/-! ### Room for the next byte -/

/-- The length of the body that an event announces. -/
def MetaConnectionEvent.announces : MetaConnectionEvent → Option ℕ
  | .message (.tcpPacket m) => some m.length.toNat
  | .message (.sptpsTcpPacket m) => some m.length.toNat
  | _ => none

/-- No PACKET or SPTPS_PACKET header announces a body that does not fit into the buffer. -/
def MetaConnectionStep.Fits (step : MetaConnectionStep) : Prop :=
  ∀ e ∈ step.events, ∀ n, e.announces = some n → n ≤ maxMetaBufferSize

namespace MetaConnectionDriver

/-- The effect of a frame on the state of the authentication and on the body that is waited for. -/
structure FrameEffect (s t : MetaConnectionDriver × MetaConnectionStep) : Prop where
  advances : s.1.auth.Advances t.1.auth
  events_subset : s.2.events ⊆ t.2.events
  pendingBody : t.1.decoder.pendingBody = s.1.decoder.pendingBody ∨
    ∃ body, t.1.decoder.pendingBody = some body ∧
      ∃ e ∈ t.2.events, e.announces = some body.length

/-- What a frame may change. -/
lemma handleFrame_effect {p : Primitives} (frame : MetaStreamFrame) :
    (handleFrame p frame).Moves FrameEffect := by
  have hauth : ∀ {α : Type} {x : MetaConnectionAuth.AuthM α},
      x.Moves MetaConnectionAuth.Advances → (onAuth x).Moves FrameEffect :=
    fun hx s => ⟨hx s.1.auth, List.Subset.refl _, Or.inl rfl⟩
  have hrule : FrameRule p FrameEffect :=
    { refl := fun s => ⟨.refl _, List.Subset.refl _, Or.inl rfl⟩
      trans := fun s t u h h' => by
        refine ⟨h.advances.trans h'.advances, List.Subset.trans h.events_subset h'.events_subset, ?_⟩
        rcases h'.pendingBody with hsame | hnew
        · rw [hsame]
          refine h.pendingBody.imp_right ?_
          rintro ⟨body, hbody, e, he, hlen⟩
          exact ⟨body, hbody, e, h'.events_subset he, hlen⟩
        · exact Or.inr hnew
      push := fun d w w' => ⟨.refl _, List.subset_append_left _ _, Or.inl rfl⟩
      message := fun message => hauth (MetaConnectionAuth.receiveMetaMessage_advances message)
      record := fun record => hauth (MetaConnectionAuth.receiveSptpsRecord_advances record)
      send := fun payload => hauth (MetaConnectionAuth.sendSptpsApplication_advances payload)
      observe := fun d w source message => by
        refine ⟨?_, List.subset_append_left _ _, ?_⟩
        · cases source <;> cases message <;> exact .refl _
        · have hmem : MetaConnectionEvent.message message ∈
              (w + ⟨[], [.message message]⟩ : MetaConnectionStep).events :=
            List.mem_append_right _ List.mem_cons_self
          cases source <;> cases message
          all_goals first
            | exact Or.inl rfl
            | exact Or.inr ⟨_, rfl, _, hmem, rfl⟩
      packet := fun d w => ⟨.refl _, List.Subset.refl _, Or.inl rfl⟩ }
  exact hrule.handleFrame frame

/-- There is room for some more bytes, whatever they are. -/
structure Safe (d : MetaConnectionDriver) (n : ℕ) : Prop where
  body : ∀ body, d.decoder.pendingBody = some body → body.length ≤ maxMetaBufferSize
  lines : d.framing = .lines →
    (if d.decoder.pendingBody.isSome then 0 else d.decoder.buffer.length) + n ≤ maxMetaBufferSize
  /-- A connection without security that has not left the handshake. -/
  records : d.framing ≠ .lines → d.auth.bypassSecurity = true → ∀ k, d.room = some k → n ≤ k

section Safe

variable {p : Primitives} {d d' : MetaConnectionDriver} {w : MetaConnectionStep}

/-- The number of bytes that the next frame ends after, if that is known. -/
def frameEnd (d : MetaConnectionDriver) : Option ℕ :=
  match d.decoder.pendingBody, d.framing with
  | some body, _ => some body.length
  | none, .lines => none
  | none, .records encrypted => some ((d.decoder.expectedSptpsFrameLen encrypted).getD 2)

/-- There is room up to the end of the next frame, as long as a body fits into the buffer. -/
lemma room_frameEnd {n : ℕ} (h : d.frameEnd = some n)
    (hfits : ∀ body, d.decoder.pendingBody = some body → body.length ≤ maxMetaBufferSize) :
    d.room = if n - d.decoder.buffer.length = 0 then none
      else some (n - d.decoder.buffer.length) := by
  rw [frameEnd] at h
  rw [room, nextInputWindow]
  cases hpending : d.decoder.pendingBody with
  | some body =>
      rw [hpending] at h
      obtain rfl := Option.some.inj h
      have := hfits body hpending
      simp only
      rw [if_neg (by omega)]
  | none =>
      rw [hpending] at h
      cases hframing : d.framing with
      | lines =>
          rw [hframing] at h
          cases h
      | records encrypted =>
          rw [hframing] at h
          obtain rfl := Option.some.inj h
          rfl

lemma room_lines (hpending : d.decoder.pendingBody = none) (hframing : d.framing = .lines) :
    d.room = if maxMetaBufferSize - d.decoder.buffer.length = 0 then none
      else some (maxMetaBufferSize - d.decoder.buffer.length) := by
  rw [room, nextInputWindow, hpending, hframing]

/-- A frame has arrived when its end has. -/
lemma nextFrameInOrder_eq_none {n : ℕ} (h : d.frameEnd = some n) :
    d.decoder.nextFrameInOrder d.framing = none ↔ d.decoder.buffer.length < n := by
  rw [frameEnd] at h
  rw [MetaStreamDecoder.nextFrameInOrder]
  cases hpending : d.decoder.pendingBody with
  | some body =>
      rw [hpending] at h
      obtain rfl := Option.some.inj h
      rw [Option.isSome_some, if_pos rfl, MetaStreamDecoder.nextBodyFrame, hpending,
        Option.bind_some]
      split_ifs with hlt <;> simp [hlt]
  | none =>
      rw [hpending] at h
      rw [Option.isSome_none, if_neg Bool.false_ne_true]
      cases hframing : d.framing with
      | lines =>
          rw [hframing] at h
          cases h
      | records encrypted =>
          rw [hframing] at h
          obtain rfl := Option.some.inj h
          rw [MetaStreamDecoder.nextOtherFrame, MetaStreamDecoder.nextRecordFrame]
          cases hexpected : d.decoder.expectedSptpsFrameLen encrypted with
          | none =>
              rw [MetaStreamDecoder.expectedSptpsFrameLen] at hexpected
              split_ifs at hexpected with hshort
              simpa using hshort
          | some expected =>
              rw [Option.bind_some, Option.getD_some]
              split_ifs with hlt <;> simp [hlt]

/-- With one more byte the next frame ends where it did, or else its end was not known. -/
lemma frameEnd_extend (byte : UInt8) {n : ℕ} (h : d.frameEnd = some n)
    (hlt : d.decoder.buffer.length < n) : (d.extend [byte]).frameEnd = some n ∨
      n = d.decoder.buffer.length + 1 ∧
        ∃ m, (d.extend [byte]).frameEnd = some m ∧ n < m := by
  have hframing : (d.extend [byte]).framing = d.framing := rfl
  have hpending : (d.extend [byte]).decoder.pendingBody = d.decoder.pendingBody := rfl
  have hlen : (d.extend [byte]).decoder.buffer.length = d.decoder.buffer.length + 1 := by
    simp [extend, MetaStreamDecoder.extend]
  rw [frameEnd] at h ⊢
  rw [hframing, hpending]
  cases hbody : d.decoder.pendingBody with
  | some body =>
      rw [hbody] at h
      exact Or.inl h
  | none =>
      rw [hbody] at h
      cases hrecords : d.framing with
      | lines =>
          rw [hrecords] at h
          cases h
      | records encrypted =>
          rw [hrecords] at h
          obtain rfl := Option.some.inj h
          simp only
          cases hexpected : d.decoder.expectedSptpsFrameLen encrypted with
          | some expected =>
              have hmore : (d.extend [byte]).decoder.expectedSptpsFrameLen encrypted =
                  some expected := MetaStreamDecoder.expectedSptpsFrameLen_extend hexpected [byte]
              left
              rw [hmore]
          | none =>
              rw [hexpected, Option.getD_none] at hlt
              by_cases hshort : d.decoder.buffer.length + 1 < 2
              · left
                rw [MetaStreamDecoder.expectedSptpsFrameLen, if_pos (by omega)]
              · -- the second byte of the length
                right
                refine ⟨by rw [Option.getD_none]; omega, _, rfl, ?_⟩
                rw [MetaStreamDecoder.expectedSptpsFrameLen, if_neg (by omega), Option.getD_none,
                  Option.getD_some]
                split_ifs <;> simp only [sptpsTcpAuthOverhead, sptpsTcpHeaderLen] <;> omega

/-- A driver that has nothing left in its buffer, after a frame that was complete with the last
byte that there was room for at the time. -/
structure Settled (d : MetaConnectionDriver) (n : ℕ) : Prop where
  buffer_nil : d.decoder.buffer = []
  body : ∀ body, d.decoder.pendingBody = some body → body.length ≤ maxMetaBufferSize
  lines : d.framing = .lines → n ≤ maxMetaBufferSize
  records : d.framing ≠ .lines → d.auth.bypassSecurity = true → n = 0

lemma Settled.safe {n : ℕ} (h : d.Settled n) : d.Safe n where
  body := h.body
  lines hlines := by
    rw [h.buffer_nil, List.length_nil, ite_self, zero_add]
    exact h.lines hlines
  records hrecords hbypass k _ := by
    rw [h.records hrecords hbypass]
    exact Nat.zero_le k

/-- The effect of a frame that is handled in order. -/
lemma step_effect (h : (metaReaderInOrder p).Step d w d') :
    d.auth.Advances d'.auth ∧ (d'.decoder.pendingBody = none ∨
      ∃ body, d'.decoder.pendingBody = some body ∧
        ∃ e ∈ w.events, e.announces = some body.length) ∧
    ∃ frame decoder, d.decoder.nextFrameInOrder d.framing = some (.ok frame, decoder) ∧
      d'.decoder.buffer = decoder.buffer := by
  obtain ⟨frame, decoder, t, hn, hframe, rfl⟩ := exec_handleNextFrame_eq_ok h
  have heffect := handleFrame_effect (p := p) frame (d.taken decoder, 0)
  have hbuffer := handleFrame_buffer (p := p) frame (d.taken decoder, 0)
  rw [hframe] at heffect hbuffer
  refine ⟨heffect.advances, ?_, frame, decoder, hn, hbuffer⟩
  refine heffect.pendingBody.imp_left fun hsame => hsame.trans ?_
  show decoder.pendingBody = none
  rcases nextFrameInOrder_takesFrames _ _ _ hn with hbody | hother
  · exact (MetaStreamDecoder.nextBodyFrame_takes hbody).2.1
  · -- other frames are taken when no body is waited for
    rw [MetaStreamDecoder.nextFrameInOrder] at hn
    split_ifs at hn with hpending
    · exact (MetaStreamDecoder.nextBodyFrame_takes hn).2.1
    · rw [← Option.not_isSome_iff_eq_none]
      have hsame := (MetaStreamDecoder.nextOtherFrame_takes hother).1
      rw [show decoder.pendingBody = d.decoder.pendingBody from hsame]
      exact hpending

lemma framing_eq_lines : d.framing = .lines ↔
    d.auth.state = .expectId ∨ d.auth.usesPlaintextMeta = true := by
  rw [framing]
  split_ifs with h
  · simp [h]
  · simp [h]

/-- A connection with security does not go back to lines. -/
lemma framing_of_advances (h : d.auth.Advances d'.auth) (hrecords : d.framing ≠ .lines)
    (hbypass : d.auth.bypassSecurity = false) : d'.framing ≠ .lines := by
  rw [Ne, framing_eq_lines] at *
  have hplain : ∀ {auth : MetaConnectionAuth}, auth.bypassSecurity = false →
      auth.usesPlaintextMeta = false := by
    intro auth h
    rw [MetaConnectionAuth.usesPlaintextMeta, h, Bool.false_and]
  rw [hplain (h.bypassSecurity_eq.trans hbypass)]
  rcases h.state with hsame | ⟨hstate, -⟩
  · rw [hsame]
    exact fun hor => hrecords (hor.imp_right fun hf => absurd hf Bool.false_ne_true)
  · exact fun hor => hor.elim hstate Bool.false_ne_true

/-- A connection without security stays with lines. -/
lemma framing_of_bypass (h : d.auth.Advances d'.auth) (hlines : d.framing = .lines)
    (hbypass : d.auth.bypassSecurity = true) : d'.framing = .lines := by
  rw [framing_eq_lines, MetaConnectionAuth.usesPlaintextMeta, hbypass] at hlines
  rw [framing_eq_lines, MetaConnectionAuth.usesPlaintextMeta, h.bypassSecurity_eq, hbypass]
  rcases h.state with hsame | ⟨hstate, hhandshake⟩
  · rwa [hsame]
  · have hne := hhandshake hbypass
    cases hd' : d'.auth.state <;> simp_all

lemma frameEnd_ne_none (h : d.framing ≠ .lines) : ∃ n, d.frameEnd = some n := by
  rw [frameEnd]
  cases d.decoder.pendingBody with
  | some body => exact ⟨_, rfl⟩
  | none =>
      cases hframing : d.framing with
      | lines => exact absurd hframing h
      | records encrypted => exact ⟨_, rfl⟩

/-- The room in the middle of a record or a body, before and after one more byte. -/
lemma room_extend (hrecords : d.framing ≠ .lines)
    (hfits : ∀ body, d.decoder.pendingBody = some body → body.length ≤ maxMetaBufferSize)
    (hnone : d.decoder.nextFrameInOrder d.framing = none) (byte : UInt8) {k : ℕ}
    (hroom : d.room = some k) : k ≤ 1 ∨
      (d.extend [byte]).decoder.nextFrameInOrder d.framing = none ∧
        ∀ m, (d.extend [byte]).room = some m → m + 1 = k := by
  obtain ⟨n, hn⟩ := frameEnd_ne_none hrecords
  have hlt := (nextFrameInOrder_eq_none hn).mp hnone
  have hlen : (d.extend [byte]).decoder.buffer.length = d.decoder.buffer.length + 1 := by
    simp [extend, MetaStreamDecoder.extend]
  rw [room_frameEnd hn hfits, if_neg (by omega)] at hroom
  have hk := Option.some.inj hroom
  rcases frameEnd_extend byte hn hlt with hsame | ⟨heq, -⟩
  · by_cases hdone : d.decoder.buffer.length + 1 < n
    · refine Or.inr ⟨(nextFrameInOrder_eq_none hsame).mpr (by omega), fun m hm => ?_⟩
      rw [room_frameEnd hsame hfits, if_neg (by omega)] at hm
      have := Option.some.inj hm
      omega
    · exact Or.inl (by omega)
  · exact Or.inl (by omega)

/-- The driver after a frame that was complete with the last byte. -/
lemma settled_of_step {n : ℕ} {byte : UInt8} (hsafe : d.Safe (n + 1))
    (hnone : d.decoder.nextFrameInOrder d.framing = none) (hroom : d.room ≠ none)
    (h : (metaReaderInOrder p).Step (d.extend [byte]) w d') (hfits : w.Fits) : d'.Settled n := by
  obtain ⟨hadvances, hpending, frame, decoder, hframe, hbuffer⟩ := step_effect h
  have hnil : d'.decoder.buffer = [] := by
    rw [hbuffer]
    exact MetaStreamDecoder.nextFrameInOrder_last hnone hframe
  have hzero : d.framing ≠ .lines → d.auth.bypassSecurity = true → n = 0 := by
    intro hrecords hbypass
    obtain ⟨k, hk⟩ := Option.ne_none_iff_exists'.mp hroom
    have hle := hsafe.records hrecords hbypass k hk
    rcases room_extend hrecords hsafe.body hnone byte hk with hlast | ⟨hwait, -⟩
    · omega
    · exact absurd (hframe.symm.trans hwait) (by simp)
  refine ⟨hnil, fun body hbody => ?_, fun hlines => ?_, fun hrecords hbypass => ?_⟩
  · rcases hpending with hd' | ⟨body', hd', e, he, hlen⟩
    · rw [hd'] at hbody
      cases hbody
    · obtain rfl := Option.some.inj (hd'.symm.trans hbody)
      exact hfits e he _ hlen
  · by_cases hd : d.framing = .lines
    · have := hsafe.lines hd
      omega
    · -- only a connection without security goes back to lines
      cases hbypass : d.auth.bypassSecurity with
      | false => exact absurd hlines (framing_of_advances (d := d.extend [byte]) hadvances hd hbypass)
      | true =>
          rw [hzero hd hbypass]
          exact Nat.zero_le _
  · have hbypass' : d.auth.bypassSecurity = true := hadvances.bypassSecurity_eq ▸ hbypass
    by_cases hd : d.framing = .lines
    · exact absurd (framing_of_bypass (d := d.extend [byte]) hadvances hd hbypass') hrecords
    · exact hzero hd hbypass'

/-- An empty buffer holds at most bodies without a byte. -/
lemma Settled.step {n : ℕ} (hsettled : d.Settled n) (h : (metaReaderInOrder p).Step d w d') :
    d'.Settled n := by
  obtain ⟨frame, decoder, t, hn, hframe, rfl⟩ := exec_handleNextFrame_eq_ok h
  rcases nextFrameInOrder_takesFrames _ _ _ hn with hbody | hother
  · obtain ⟨-, hpending, hle, kind, data, heq⟩ := MetaStreamDecoder.nextBodyFrame_takes hbody
    obtain rfl := Except.ok.inj heq
    have ht : t = d.taken decoder := by
      cases kind <;> cases hframe <;> rfl
    have hnil : decoder.buffer = [] := by
      rw [hsettled.buffer_nil] at hle
      exact List.length_eq_zero_iff.mp (Nat.le_zero.mp hle)
    subst ht
    exact ⟨hnil, fun body hbody => absurd (hpending.symm.trans hbody) (by simp),
      fun hlines => hsettled.lines hlines, fun hrecords => hsettled.records hrecords⟩
  · have hlt := (MetaStreamDecoder.nextOtherFrame_takes hother).2.1
    rw [hsettled.buffer_nil] at hlt
    exact absurd hlt (Nat.not_lt_zero _)

lemma Settled.drains {n : ℕ} (hsettled : d.Settled n) (h : (metaReaderInOrder p).Drains d w d') :
    d'.Settled n := by
  induction h with
  | stuck _ => exact hsettled
  | step h _ ih => exact ih (hsettled.step h)

/-- Where there is no whole frame there is room for one more byte. -/
lemma Safe.room_ne_none {n : ℕ} (hsafe : d.Safe (n + 1))
    (hnone : d.decoder.nextFrameInOrder d.framing = none) : d.room ≠ none := by
  have hend : ∀ {m}, d.frameEnd = some m → d.room ≠ none := by
    intro m hm
    have hlt := (nextFrameInOrder_eq_none hm).mp hnone
    rw [room_frameEnd hm hsafe.body, if_neg (by omega)]
    exact Option.some_ne_none _
  by_cases hlines : d.framing = .lines
  · cases hpending : d.decoder.pendingBody with
    | some body => exact hend (m := body.length) (by rw [frameEnd, hpending])
    | none =>
        have hroom := hsafe.lines hlines
        rw [hpending, Option.isSome_none, if_neg Bool.false_ne_true] at hroom
        rw [room_lines hpending hlines, if_neg (by omega)]
        exact Option.some_ne_none _
  · obtain ⟨m, hm⟩ := frameEnd_ne_none hlines
    exact hend hm

/-- Room for the bytes is enough. -/
lemma safe_of_room {n k : ℕ} (hroom : d.room = some n) (hle : k ≤ n) : d.Safe k := by
  have hbody : ∀ body, d.decoder.pendingBody = some body → body.length ≤ maxMetaBufferSize := by
    intro body hbody
    by_contra hlarge
    rw [room, nextInputWindow, hbody] at hroom
    simp only at hroom
    rw [if_pos (by omega)] at hroom
    cases hroom
  refine ⟨hbody, fun hlines => ?_, fun _ _ m hm => ?_⟩
  · cases hpending : d.decoder.pendingBody with
    | some body =>
        have hfits := hbody body hpending
        rw [room_frameEnd (n := body.length) (by rw [frameEnd, hpending]) hbody] at hroom
        split_ifs at hroom
        have := Option.some.inj hroom
        rw [Option.isSome_some, if_pos rfl]
        omega
    | none =>
        rw [room_lines hpending hlines] at hroom
        split_ifs at hroom
        have := Option.some.inj hroom
        rw [Option.isSome_none, if_neg Bool.false_ne_true]
        omega
  · obtain rfl := Option.some.inj (hroom.symm.trans hm)
    exact hle

/-- One more byte without a frame. -/
lemma Safe.extend {n : ℕ} {byte : UInt8} (hsafe : d.Safe (n + 1))
    (hnone : d.decoder.nextFrameInOrder d.framing = none) : (d.extend [byte]).Safe n := by
  have hlen : (d.extend [byte]).decoder.buffer.length = d.decoder.buffer.length + 1 := by
    simp [MetaConnectionDriver.extend, MetaStreamDecoder.extend]
  refine ⟨hsafe.body, fun hlines => ?_, fun hrecords hbypass k hk => ?_⟩
  · have hroom := hsafe.lines hlines
    rw [hlen]
    show (if d.decoder.pendingBody.isSome then 0 else d.decoder.buffer.length + 1) + n ≤ _
    split_ifs at hroom ⊢ <;> omega
  · obtain ⟨m, hm⟩ := Option.ne_none_iff_exists'.mp (hsafe.room_ne_none hnone)
    have hle := hsafe.records hrecords hbypass m hm
    rcases room_extend (d := d) hrecords hsafe.body hnone byte hm with hlast | ⟨-, hmore⟩
    · omega
    · have := hmore k hk
      omega

/-- **There is always room for the next byte** while the bodies that are announced fit. -/
theorem metaReaderInOrder_roomy :
    (metaReaderInOrder p).Roomy MetaConnectionDriver.extend room MetaConnectionStep.Fits Safe where
  good_add w w' h :=
    ⟨fun e he => h e (List.mem_append_left _ he), fun e he => h e (List.mem_append_right _ he)⟩
  safe_of_window _ _ _ _ hroom hle := safe_of_room hroom hle
  window_ne _ _ hstuck hsafe := hsafe.room_ne_none (readerOf_stuck.mp hstuck)
  safe_push d n byte w d' hstuck hsafe h hfits := by
    have hnone := readerOf_stuck.mp hstuck
    cases h with
    | stuck _ => exact hsafe.extend hnone
    | @step _ t _ v v' hstep hd =>
        have hv : v.Fits := fun e he => hfits e (List.mem_append_left _ he)
        exact ((settled_of_step hsafe hnone (hsafe.room_ne_none hnone) hstep hv).drains hd).safe

end Safe

/-! ### Two ways of cutting a stream -/

/-- Chunks are received one after the other, until the first failure. -/
def receiveChunks (p : Primitives) (chunks : List (List UInt8)) :
    Stateful MetaConnectionError MetaConnectionDriver MetaConnectionStep :=
  (metaReader p).calls chunks

/-- In no state of the run, a part of a packet body is taken for a frame. -/
def ReadsBodies (p : Primitives) (d : MetaConnectionDriver) (chunks : List (List UInt8)) : Prop :=
  (metaReader p).KeepsTo KeepsBodies d chunks

/-- **Two ways of cutting a stream come to the same**, when neither makes the driver take a part
of a packet body for a frame. -/
theorem receiveChunks_cut (p : Primitives) (d : MetaConnectionDriver)
    (chunks chunks' : List (List UInt8)) (hne : chunks = [] ↔ chunks' = [])
    (hflat : chunks.flatten = chunks'.flatten) (hbodies : ReadsBodies p d chunks)
    (hbodies' : ReadsBodies p d chunks') :
    (∀ step step' t t', (receiveChunks p chunks).exec d = (.ok step, t) →
      (receiveChunks p chunks').exec d = (.ok step', t') → step = step' ∧ t = t') ∧
    ((∀ step t, (receiveChunks p chunks).exec d = (.ok step, t) → step.Fits) →
      (∀ step t, (receiveChunks p chunks').exec d = (.ok step, t) → step.Fits) →
      ((∃ step t, (receiveChunks p chunks).exec d = (.ok step, t)) ↔
        ∃ step t, (receiveChunks p chunks').exec d = (.ok step, t))) := by
  by_cases hnil : chunks = []
  · obtain rfl := hne.mp hnil
    obtain rfl := hnil
    refine ⟨fun step step' t t' h h' => ?_, fun _ _ => Iff.rfl⟩
    cases h
    cases h'
    exact ⟨rfl, rfl⟩
  · have hnil' : chunks' ≠ [] := fun h => hnil (hne.mpr h)
    rw [receiveChunks, receiveChunks, metaReader_agrees.calls_eq hbodies,
      metaReader_agrees.calls_eq hbodies']
    have hcut : ∀ {chunks chunks' : List (List UInt8)} {step t}, chunks ≠ [] → chunks' ≠ [] →
        chunks.flatten = chunks'.flatten →
        ((metaReaderInOrder p).calls chunks).exec d = (.ok step, t) → step.Fits →
          ((metaReaderInOrder p).calls chunks').exec d = (.ok step, t) :=
      FrameReader.calls_of_calls metaReaderInOrder_lawful metaReaderInOrder_stable
        metaReaderInOrder_roomy
    refine ⟨fun step step' t t' h h' => FrameReader.calls_unique metaReaderInOrder_lawful
      metaReaderInOrder_stable hnil hnil' hflat h h', fun hfits hfits' => ⟨?_, ?_⟩⟩
    · rintro ⟨step, t, h⟩
      exact ⟨step, t, hcut hnil hnil' hflat h (hfits step t h)⟩
    · rintro ⟨step, t, h⟩
      exact ⟨step, t, hcut hnil' hnil hflat.symm h (hfits' step t h)⟩

/-! ### A body that is taken for a record -/

section Example

open SptpsHandshakeSession

/-- A connection that is activated, with keys and nothing received yet. -/
def activatedDriver : MetaConnectionDriver :=
  let key : SptpsKey := ⟨zeros 64⟩
  .new
    { myself := "alpha"
      peer := some "beta"
      outgoing := true
      privateKey := aliceKey
      peerKey := bobKey.publicKey
      localPort := "655"
      localWeight := 0
      localOptions := 0
      session := some ⟨true, [], aliceKey, bobKey.publicKey, .tcp ⟨some key, some key, 0, 0⟩,
        .secondaryKex, none, none, none, none, [], []⟩
      state := .activated
      bypassSecurity := false
      entropy := fun _ => .error (.randomFailed "") }

/-- The first record of the peer, which announces a body of 40 bytes. -/
def headerRecord : List UInt8 :=
  let payload := encodeMetaLine (.sptpsTcpPacket ⟨40⟩)
  Bytes.bigEndian 2 payload.length ++
    sealBody oneSignature (some ⟨zeros 64⟩) 0 (sptpsMetaRecord :: payload)

/-- A body that no part of is taken for a record. -/
def plainBody : List UInt8 := List.replicate 40 1

/-- A body that begins like a record without a payload. -/
def recordLikeBody : List UInt8 := [0, 0] ++ List.replicate 38 1

/-- The header of a body and the body, in one chunk. -/
def together (body : List UInt8) : List (List UInt8) := [headerRecord ++ body]

/-- The same bytes, where the body arrives in two parts. -/
def inParts (body : List UInt8) : List (List UInt8) :=
  [headerRecord ++ body.take 20, body.drop 20]

/-- What comes of a body that is received whole. -/
def received (body : List UInt8) : MetaConnectionStep :=
  ⟨[], [.message (.sptpsTcpPacket ⟨40⟩), .sptpsPacket body]⟩

lemma fits_received (body : List UInt8) : (received body).Fits := by
  intro e he n hn
  simp only [received, List.mem_cons, List.not_mem_nil, or_false] at he
  rcases he with rfl | rfl
  · obtain rfl := Option.some.inj hn
    decide
  · cases hn

/-- A packet in one chunk and in several. -/
theorem receiveChunks_cut_plainBody :
    (∃ step t, (receiveChunks oneSignature (inParts plainBody)).exec activatedDriver =
      (.ok step, t)) ↔
      ∃ step t, (receiveChunks oneSignature (together plainBody)).exec activatedDriver =
        (.ok step, t) := by
  have hcut := receiveChunks_cut oneSignature activatedDriver (inParts plainBody)
    (together plainBody) (by decide) (by decide +kernel)
    (by unfold ReadsBodies FrameReader.KeepsTo; decide +kernel)
    (by unfold ReadsBodies FrameReader.KeepsTo; decide +kernel)
  have hfits : ∀ {chunks : List (List UInt8)},
      ((receiveChunks oneSignature chunks).exec activatedDriver).1 = .ok (received plainBody) →
        ∀ step t, (receiveChunks oneSignature chunks).exec activatedDriver = (.ok step, t) →
          step.Fits := by
    intro chunks hchunks step t h
    rw [h] at hchunks
    obtain rfl := Except.ok.inj hchunks
    exact fits_received plainBody
  exact hcut.2 (hfits (by decide +kernel)) (hfits (by decide +kernel))

/-- **A part of a body is taken for a record**, although the body arrives well as a whole. -/
theorem receiveChunks_cut_recordLikeBody :
    (together recordLikeBody).flatten = (inParts recordLikeBody).flatten ∧
      ((receiveChunks oneSignature (together recordLikeBody)).exec activatedDriver).1 =
        .ok (received recordLikeBody) ∧
      (received recordLikeBody).Fits ∧
      ((receiveChunks oneSignature (inParts recordLikeBody)).exec activatedDriver).1 =
        .error (.auth (.sptps .authenticationFailed)) :=
  ⟨by decide +kernel, by decide +kernel, fits_received recordLikeBody, by decide +kernel⟩

end Example

end MetaConnectionDriver

end RustyTinc

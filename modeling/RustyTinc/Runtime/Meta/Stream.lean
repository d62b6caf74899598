import RustyTinc.Runtime.Engine
import RustyTinc.Runtime.Meta.Auth

/-!
The frames of a meta connection: lines of text, SPTPS records and packet bodies, which share one
stream and one buffer.

* `MetaStreamDecoder.nextFrameInOrder_stable`: bytes that arrive later do not change the next
  frame of a decoder that waits for the whole of a packet body;
* `MetaStreamDecoder.nextFrame_eq_inOrder`: the decoder does so unless it misreads a part of it.
-/

namespace RustyTinc

/-- The length of the id of a node. -/
def nodeIdLen : ℕ := 6
/-- The length of the two ids before a relayed datagram. -/
def relayHeaderLen : ℕ := nodeIdLen * 2
/-- The largest block of a cipher. -/
def legacyCipherMaxBlockSize : ℕ := 32
/-- The longest digest. -/
def legacyDigestMaxSize : ℕ := 64
/-- How much a packet may grow when it is compressed. -/
def legacyCompressionOverhead : ℕ := mtu / 64 + 20

/-- The longest datagram. -/
def maxDatagramSize : ℕ :=
  mtu + 4 + relayHeaderLen + legacyCipherMaxBlockSize + legacyDigestMaxSize +
    legacyCompressionOverhead

/-- So many bytes of lines and packets are kept at most. -/
def maxMetaBufferSize : ℕ := if maxDatagramSize > 2048 then maxDatagramSize + 128 else 2048 + 128

/-- The longest record. -/
def maxSptpsTcpRecordBufferSize : ℕ := 65535 + sptpsTcpAuthOverhead

/-- Why the stream cannot be decoded any further. -/
inductive MetaStreamError where
  | invalidUtf8
  | inputBufferFull (maximum actual : ℕ)
deriving DecidableEq

/-- The packets that follow a line on the same connection. -/
inductive MetaBodyKind where
  | tcpPacket
  | sptpsPacket
deriving DecidableEq

/-- The packet that a line has announced. -/
structure MetaBodyRequest where
  kind : MetaBodyKind
  length : ℕ
deriving DecidableEq

/-- The parts that a stream is taken apart into. -/
inductive MetaStreamFrame where
  | line (line : String)
  | sptpsRecord (record : List UInt8)
  | body (kind : MetaBodyKind) (data : List UInt8)
deriving DecidableEq

/-! ### Lines -/

/-- `'\n'` -/
def newline : UInt8 := 10

/-- `'\r'` -/
def carriageReturn : UInt8 := 13

/-- The bytes of a text. -/
def utf8 (text : String) : List UInt8 := text.toUTF8.data.toList

/-- The bytes of a line, with its end. -/
def encodeMetaLine (message : MetaMessage) : List UInt8 := utf8 message.display ++ [newline]

/-- The bytes without the given one at the end. -/
def popByte (byte : UInt8) (line : List UInt8) : List UInt8 :=
  if line.getLast? = some byte then line.dropLast else line

/-- The text of a line, without its end. -/
def decodeMetaLine (line : List UInt8) : Except MetaStreamError String :=
  match String.fromUTF8? ⟨(popByte carriageReturn (popByte newline line)).toArray⟩ with
  | some text => .ok text
  | none => .error .invalidUtf8

/-! ### Frames -/

/-- The bytes that were not taken yet, and the packet that is waited for. -/
structure MetaStreamDecoder where
  buffer : List UInt8
  pendingBody : Option MetaBodyRequest
deriving DecidableEq

namespace MetaStreamDecoder

/-- No bytes have arrived. -/
def new : MetaStreamDecoder := ⟨[], none⟩

/-- Some bytes arrive, when there is room for them. -/
def pushLimited (decoder : MetaStreamDecoder) (data : List UInt8) (maximum : ℕ) :
    Except MetaStreamError MetaStreamDecoder :=
  let nextLen := decoder.buffer.length + data.length
  if nextLen > maximum then .error (.inputBufferFull maximum nextLen)
  else .ok { decoder with buffer := decoder.buffer ++ data }

/-- A packet is announced. -/
def expectBody (decoder : MetaStreamDecoder) (kind : MetaBodyKind) (length : ℕ) :
    MetaStreamDecoder :=
  { decoder with pendingBody := some ⟨kind, length⟩ }

/-- A message may announce a packet. -/
def observeMetaMessage (decoder : MetaStreamDecoder) : MetaMessage → MetaStreamDecoder
  | .tcpPacket message => decoder.expectBody .tcpPacket message.length.toNat
  | .sptpsTcpPacket message => decoder.expectBody .sptpsPacket message.length.toNat
  | _ => decoder

/-- The first bytes of the buffer, and the decoder without them. -/
def takeBytes (decoder : MetaStreamDecoder) (n : ℕ) : List UInt8 × MetaStreamDecoder :=
  (decoder.buffer.take n, { decoder with buffer := decoder.buffer.drop n })

/-- A frame that has arrived and the decoder without it; a frame can turn out to be wrong. -/
abbrev NextFrame := Option (Except MetaStreamError MetaStreamFrame × MetaStreamDecoder)

/-- The packet that is waited for, once it is there as a whole. -/
def nextBodyFrame (decoder : MetaStreamDecoder) : NextFrame :=
  decoder.pendingBody.bind fun pending =>
    if decoder.buffer.length < pending.length then none
    else
      let r := takeBytes { decoder with pendingBody := none } pending.length
      some (.ok (.body pending.kind r.1), r.2)

/-- The next line, once it is there as a whole. -/
def nextLineFrame (decoder : MetaStreamDecoder) : NextFrame :=
  (decoder.buffer.findIdx? (· == newline)).map fun position =>
    let r := decoder.takeBytes (position + 1)
    ((decodeMetaLine r.1).map .line, r.2)

/-- The length of the next record, once its header is there. -/
def expectedSptpsFrameLen (decoder : MetaStreamDecoder) (encrypted : Bool) : Option ℕ :=
  if decoder.buffer.length < 2 then none
  else
    let length := Bytes.ofBigEndian (decoder.buffer.take 2)
    some (length + if encrypted then sptpsTcpAuthOverhead else sptpsTcpHeaderLen)

/-- The next record, once it is there as a whole. -/
def nextRecordFrame (decoder : MetaStreamDecoder) (encrypted : Bool) : NextFrame :=
  (decoder.expectedSptpsFrameLen encrypted).bind fun expected =>
    if decoder.buffer.length < expected then none
    else
      let r := decoder.takeBytes expected
      some (.ok (.sptpsRecord r.1), r.2)

/-- The next part of a stream of lines. -/
def nextPlaintextFrame (decoder : MetaStreamDecoder) : NextFrame :=
  decoder.nextBodyFrame.or decoder.nextLineFrame

/-- The next part of a stream of records. -/
def nextSptpsFrame (decoder : MetaStreamDecoder) (encrypted : Bool) : NextFrame :=
  decoder.nextBodyFrame.or (decoder.nextRecordFrame encrypted)

end MetaStreamDecoder

/-- What the stream consists of, apart from packet bodies. -/
inductive MetaFraming where
  | lines
  | records (encrypted : Bool)
deriving DecidableEq

namespace MetaStreamDecoder

/-- The next frame other than a packet body. -/
def nextOtherFrame (framing : MetaFraming) (decoder : MetaStreamDecoder) : NextFrame :=
  match framing with
  | .lines => decoder.nextLineFrame
  | .records encrypted => decoder.nextRecordFrame encrypted

/-- The next part of a stream. -/
def nextFrame (framing : MetaFraming) (decoder : MetaStreamDecoder) : NextFrame :=
  match framing with
  | .lines => decoder.nextPlaintextFrame
  | .records encrypted => decoder.nextSptpsFrame encrypted

/-- The next frame of a decoder that waits for the whole of a packet body. -/
def nextFrameInOrder (framing : MetaFraming) (decoder : MetaStreamDecoder) : NextFrame :=
  if decoder.pendingBody.isSome then decoder.nextBodyFrame else decoder.nextOtherFrame framing

/-- A part of a packet body is taken for a frame. -/
def Misreads (framing : MetaFraming) (decoder : MetaStreamDecoder) : Prop :=
  decoder.pendingBody.isSome ∧ decoder.nextBodyFrame = none ∧ decoder.nextOtherFrame framing ≠ none

instance (framing : MetaFraming) (decoder : MetaStreamDecoder) :
    Decidable (decoder.Misreads framing) := inferInstanceAs (Decidable (_ ∧ _ ∧ _))

/-! ### Bytes that arrive later -/

/-- The decoder with bytes that have arrived later. -/
def extend (decoder : MetaStreamDecoder) (data : List UInt8) : MetaStreamDecoder :=
  { decoder with buffer := decoder.buffer ++ data }

@[simp] lemma extend_nil (decoder : MetaStreamDecoder) : decoder.extend [] = decoder := by
  simp [extend]

@[simp] lemma extend_extend (decoder : MetaStreamDecoder) (a b : List UInt8) :
    (decoder.extend a).extend b = decoder.extend (a ++ b) := by
  simp [extend]

@[simp] lemma extend_pendingBody (decoder : MetaStreamDecoder) (data : List UInt8) :
    (decoder.extend data).pendingBody = decoder.pendingBody := rfl

/-- How much there is to handle: every frame is longer than its body is to wait for. -/
def weight (decoder : MetaStreamDecoder) : ℕ :=
  2 * decoder.buffer.length + if decoder.pendingBody.isSome then 1 else 0

/-- What is found among the first bytes is found when more bytes arrive. -/
def Stable (next : MetaStreamDecoder → NextFrame) : Prop :=
  ∀ decoder data r, next decoder = some r →
    next (decoder.extend data) = some (r.1, r.2.extend data)

lemma takeBytes_extend {decoder : MetaStreamDecoder} {n : ℕ} (h : n ≤ decoder.buffer.length)
    (data : List UInt8) : (decoder.extend data).takeBytes n =
      ((decoder.takeBytes n).1, (decoder.takeBytes n).2.extend data) := by
  simp [takeBytes, extend, List.take_append_of_le_length h, List.drop_append_of_le_length h]

lemma nextBodyFrame_stable : Stable nextBodyFrame := by
  intro decoder data r h
  obtain ⟨pending, hpending, h⟩ := Option.bind_eq_some_iff.mp h
  split_ifs at h with hlen
  cases h
  have htake := @takeBytes_extend { decoder with pendingBody := none } _ (not_lt.mp hlen) data
  rw [nextBodyFrame, extend_pendingBody, hpending, Option.bind_some, if_neg]
  · exact congrArg (fun r => some (Except.ok (MetaStreamFrame.body pending.kind r.1), r.2)) htake
  · rw [extend, List.length_append]
    omega

lemma nextLineFrame_stable : Stable nextLineFrame := by
  intro decoder data r h
  obtain ⟨position, hposition, rfl⟩ := Option.map_eq_some_iff.mp h
  have hlt := (List.findIdx?_eq_some_iff_getElem.mp hposition).1
  have htake := takeBytes_extend (n := position + 1) hlt data
  have hfind : (decoder.buffer ++ data).findIdx? (· == newline) = some position := by
    rw [List.findIdx?_append, hposition, Option.some_or]
  rw [nextLineFrame, extend, hfind, Option.map_some]
  exact congrArg (fun r => some ((decodeMetaLine r.1).map MetaStreamFrame.line, r.2)) htake

lemma expectedSptpsFrameLen_extend {decoder : MetaStreamDecoder} {encrypted : Bool} {n : ℕ}
    (h : decoder.expectedSptpsFrameLen encrypted = some n) (data : List UInt8) :
    (decoder.extend data).expectedSptpsFrameLen encrypted = some n := by
  rw [expectedSptpsFrameLen] at h ⊢
  by_cases hlen : decoder.buffer.length < 2
  · rw [if_pos hlen] at h
    cases h
  · rw [if_neg hlen] at h
    rw [if_neg (by rw [extend, List.length_append]; omega), extend,
      List.take_append_of_le_length (not_lt.mp hlen)]
    exact h

/-- More bytes behind a frame do not change it. -/
lemma nextRecordFrame_stable (encrypted : Bool) :
    Stable fun decoder => decoder.nextRecordFrame encrypted := by
  intro decoder data r h
  obtain ⟨expected, hexpected, h⟩ := Option.bind_eq_some_iff.mp h
  split_ifs at h with hlen
  cases h
  have htake := takeBytes_extend (not_lt.mp hlen) data
  show nextRecordFrame _ _ = _
  rw [nextRecordFrame, expectedSptpsFrameLen_extend hexpected, Option.bind_some, if_neg]
  · exact congrArg (fun r => some (Except.ok (MetaStreamFrame.sptpsRecord r.1), r.2)) htake
  · rw [extend, List.length_append]
    omega

lemma nextOtherFrame_stable (framing : MetaFraming) : Stable (nextOtherFrame framing) := by
  cases framing with
  | lines => exact nextLineFrame_stable
  | records encrypted => exact nextRecordFrame_stable encrypted

/-- **The next frame does not change when more bytes arrive**, for a decoder that waits for the
whole of a packet body. -/
lemma nextFrameInOrder_stable (framing : MetaFraming) : Stable (nextFrameInOrder framing) := by
  intro decoder data r h
  rw [nextFrameInOrder] at h ⊢
  rw [extend_pendingBody]
  split_ifs at h ⊢
  · exact nextBodyFrame_stable decoder data r h
  · exact nextOtherFrame_stable framing decoder data r h

lemma nextFrame_eq (framing : MetaFraming) (decoder : MetaStreamDecoder) :
    decoder.nextFrame framing = decoder.nextBodyFrame.or (decoder.nextOtherFrame framing) := by
  cases framing <;> rfl

/-- The decoder waits for the whole of a packet body unless it misreads a part of it. -/
lemma nextFrame_eq_inOrder {framing : MetaFraming} {decoder : MetaStreamDecoder}
    (h : ¬ decoder.Misreads framing) : decoder.nextFrame framing = decoder.nextFrameInOrder framing := by
  rw [nextFrame_eq, nextFrameInOrder]
  split_ifs with hpending
  · cases hbody : decoder.nextBodyFrame with
    | some r => rfl
    | none =>
        rw [Option.none_or]
        by_contra hne
        exact h ⟨hpending, hbody, hne⟩
  · rw [Option.not_isSome_iff_eq_none] at hpending
    rw [nextBodyFrame, hpending, Option.bind_none, Option.none_or]

/-! ### What a frame takes -/

section Takes

variable {framing : MetaFraming} {decoder : MetaStreamDecoder}
  {r : Except MetaStreamError MetaStreamFrame × MetaStreamDecoder}

lemma nextBodyFrame_takes (h : decoder.nextBodyFrame = some r) :
    decoder.pendingBody.isSome ∧ r.2.pendingBody = none ∧
      r.2.buffer.length ≤ decoder.buffer.length ∧ ∃ kind data, r.1 = .ok (.body kind data) := by
  obtain ⟨pending, hpending, h⟩ := Option.bind_eq_some_iff.mp h
  split_ifs at h with hlen
  cases h
  exact ⟨by rw [hpending, Option.isSome_some], rfl, by simp [takeBytes], _, _, rfl⟩

/-- Lines and records are never empty. -/
lemma nextOtherFrame_takes (h : decoder.nextOtherFrame framing = some r) :
    r.2.pendingBody = decoder.pendingBody ∧ r.2.buffer.length < decoder.buffer.length ∧
      ∀ kind data, r.1 ≠ .ok (.body kind data) := by
  cases framing with
  | lines =>
      obtain ⟨position, hposition, rfl⟩ := Option.map_eq_some_iff.mp h
      have hlt := (List.findIdx?_eq_some_iff_getElem.mp hposition).1
      refine ⟨rfl, ?_, fun kind data hbody => ?_⟩
      · simp only [takeBytes, List.length_drop]
        omega
      · cases hline : decodeMetaLine (decoder.takeBytes (position + 1)).1 <;> simp [hline] at hbody
  | records encrypted =>
      obtain ⟨expected, hexpected, h⟩ := Option.bind_eq_some_iff.mp h
      rw [expectedSptpsFrameLen] at hexpected
      split_ifs at h hexpected with hlen hshort
      all_goals
        cases h
        have hexpected := Option.some.inj hexpected
        refine ⟨rfl, ?_, fun kind data hbody => by cases hbody⟩
        simp only [takeBytes, List.length_drop, sptpsTcpAuthOverhead, sptpsTcpHeaderLen] at *
        omega

/-- What kind of frame is read depends on what the stream consists of. -/
lemma nextOtherFrame_ok {frame : MetaStreamFrame} {decoder' : MetaStreamDecoder}
    (h : decoder.nextOtherFrame framing = some (.ok frame, decoder')) :
    if framing = .lines then ∃ line, frame = .line line else ∃ bytes, frame = .sptpsRecord bytes := by
  cases framing with
  | lines =>
      obtain ⟨position, -, hr⟩ := Option.map_eq_some_iff.mp h
      have hline : (decodeMetaLine (decoder.takeBytes (position + 1)).1).map MetaStreamFrame.line =
          .ok frame := congrArg Prod.fst hr
      rw [if_pos rfl]
      cases hdecode : decodeMetaLine (decoder.takeBytes (position + 1)).1 with
      | error e =>
          rw [hdecode] at hline
          cases hline
      | ok line =>
          rw [hdecode] at hline
          cases hline
          exact ⟨line, rfl⟩
  | records encrypted =>
      obtain ⟨expected, -, h⟩ := Option.bind_eq_some_iff.mp h
      split_ifs at h with hlen
      cases h
      rw [if_neg (by simp)]
      exact ⟨_, rfl⟩

/-- A frame that is complete with one more byte takes all that has arrived. -/
lemma nextFrameInOrder_last {byte : UInt8} (hnone : decoder.nextFrameInOrder framing = none)
    (h : (decoder.extend [byte]).nextFrameInOrder framing = some r) : r.2.buffer = [] := by
  have hlen : (decoder.extend [byte]).buffer.length = decoder.buffer.length + 1 := by
    simp [extend]
  rw [nextFrameInOrder] at hnone h
  rw [extend_pendingBody] at h
  split_ifs at hnone h with hpending
  · -- the last byte of a body
    obtain ⟨pending, hbody, h⟩ := Option.bind_eq_some_iff.mp h
    rw [extend_pendingBody] at hbody
    rw [nextBodyFrame, hbody, Option.bind_some] at hnone
    split_ifs at hnone h with hshort hlong
    cases h
    simp only [takeBytes, List.drop_eq_nil_iff]
    omega
  · cases framing with
    | lines =>
        obtain ⟨position, hposition, rfl⟩ := Option.map_eq_some_iff.mp h
        have hbefore : decoder.buffer.findIdx? (· == newline) = none :=
          Option.map_eq_none_iff.mp hnone
        rw [extend, List.findIdx?_append, hbefore, Option.none_or, Option.map_eq_some_iff] at hposition
        obtain ⟨k, -, rfl⟩ := hposition
        simp only [takeBytes, List.drop_eq_nil_iff]
        omega
    | records encrypted =>
        obtain ⟨expected, hexpected, h⟩ := Option.bind_eq_some_iff.mp h
        split_ifs at h with hlong
        cases h
        simp only [takeBytes, List.drop_eq_nil_iff]
        by_cases hshort : decoder.buffer.length < 2
        · -- with the second byte of the length there is still no record
          rw [expectedSptpsFrameLen] at hexpected
          split_ifs at hexpected
          · have := Option.some.inj hexpected
            simp only [sptpsTcpAuthOverhead] at this
            omega
          · have := Option.some.inj hexpected
            simp only [sptpsTcpHeaderLen] at this
            omega
        · obtain ⟨expected', hexpected'⟩ :
              ∃ n, decoder.expectedSptpsFrameLen encrypted = some n := by
            rw [expectedSptpsFrameLen, if_neg hshort]
            exact ⟨_, rfl⟩
          have heq := expectedSptpsFrameLen_extend hexpected' [byte]
          obtain rfl := Option.some.inj (heq.symm.trans hexpected)
          rw [nextOtherFrame, nextRecordFrame, hexpected', Option.bind_some] at hnone
          split_ifs at hnone with hwait
          omega

end Takes

end MetaStreamDecoder

end RustyTinc

import RustyTinc.Library.KeyedCounter
import RustyTinc.Runtime.Sptps.Authentication

/-!
The sequence numbers under which a session of SPTPS seals its records, over a whole run.

* `perform_spec`: the records of a call are sealed under the sending key that the session has
  before it, with consecutive numbers;
* `runCalls_blocks`: over a run the keys come in blocks;
* `nonces_unique_iff`: no pair of a key and a number is used twice exactly when at most `2 ^ 32`
  records are sealed under each key.
-/

namespace RustyTinc

/-- A record, with the key and the number under which it is sealed. -/
structure SealedRecord where
  key : Option SptpsKey
  seqno : UInt32
  bytes : List UInt8

namespace SptpsHandshakeSession

/-- The calls that may come to a session. -/
inductive SessionCall where
  | sendRecord (recordType : UInt8) (payload : List UInt8)
  | receiveDatagram (fresh : Fresh) (datagram : List UInt8)
  | forceKex (fresh : Fresh)
  | drainOutbound

/-- The records that a call returns or queues, and the session after it. -/
def perform (p : Primitives) (s : SptpsHandshakeSession) :
    SessionCall → List (List UInt8) × SptpsHandshakeSession
  | .sendRecord recordType payload =>
    match (sendRecord p recordType payload).exec s with
    | (.ok bytes, s') => ([bytes], s')
    | (.error _, s') => ([], s')
  | .receiveDatagram fresh datagram =>
    let s' := ((receiveDatagram p fresh datagram).exec s).2
    (s'.outbound.drop s.outbound.length, s')
  | .forceKex fresh =>
    let s' := ((forceKex p fresh).exec s).2
    (s'.outbound.drop s.outbound.length, s')
  | .drainOutbound => ([], s.drainOutbound.2)

/-- Records that are sealed one after another under a key, from a number on. -/
def sealedFrom (key : Option SptpsKey) : UInt32 → List (List UInt8) → List SealedRecord
  | _, [] => []
  | seqno, bytes :: records => ⟨key, seqno, bytes⟩ :: sealedFrom key (seqno + 1) records

/-- The records of a sequence of calls, and the session after them. -/
def runCalls (p : Primitives) : SptpsHandshakeSession → List SessionCall →
    List SealedRecord × SptpsHandshakeSession
  | s, [] => ([], s)
  | s, call :: calls =>
    let (records, s') := perform p s call
    let (log, last) := runCalls p s' calls
    (sealedFrom s.codec.outKey s.codec.nextOut records ++ log, last)

/-- The sending key that a call installs: that of a signature which the session accepts. -/
def installed (s s' : SptpsHandshakeSession) : Option SptpsKey :=
  if s.state = .sig ∧ s'.state ≠ .sig then s'.codec.outKey else none

/-- The sending keys that the handshakes of a run derive. -/
def installedKeys (p : Primitives) : SptpsHandshakeSession → List SessionCall → List SptpsKey
  | _, [] => []
  | s, call :: calls =>
    let s' := (perform p s call).2
    (installed s s').toList ++ installedKeys p s' calls

/-- The keys and the numbers of the records that are encrypted. -/
def nonces (log : List SealedRecord) : List (SptpsKey × UInt32) :=
  log.filterMap fun record => record.key.map fun key => (key, record.seqno)

/-- How many records are encrypted under a key. -/
def recordsUnder (key : SptpsKey) (log : List SealedRecord) : ℕ :=
  (log.map SealedRecord.key).count (some key)

/-! ### The records of a call -/

section Calls

variable {p : Primitives}

/-- Records with these types and payloads, sealed one after another. -/
def sealAll (p : Primitives) (isTcp : Bool) (key : Option SptpsKey) :
    UInt32 → List (UInt8 × List UInt8) → List (List UInt8)
  | _, [] => []
  | seqno, x :: contents =>
    SptpsHandshakeCodec.sealRecord p isTcp key seqno x.1 x.2 ::
      sealAll p isTcp key (seqno + 1) contents

@[simp] lemma length_sealAll (isTcp : Bool) (key : Option SptpsKey) (seqno : UInt32)
    (contents : List (UInt8 × List UInt8)) :
    (sealAll p isTcp key seqno contents).length = contents.length := by
  induction contents generalizing seqno with
  | nil => rfl
  | cons x contents ih => rw [sealAll, List.length_cons, ih, List.length_cons]

lemma succ_add_ofNat (seqno : UInt32) (n : ℕ) :
    seqno + 1 + UInt32.ofNat n = seqno + UInt32.ofNat (n + 1) := by
  rw [UInt32.ofNat_add, UInt32.add_assoc, UInt32.add_comm 1]
  rfl

lemma sealAll_append (isTcp : Bool) (key : Option SptpsKey) (seqno : UInt32)
    (contents contents' : List (UInt8 × List UInt8)) :
    sealAll p isTcp key seqno (contents ++ contents') = sealAll p isTcp key seqno contents ++
      sealAll p isTcp key (seqno + UInt32.ofNat contents.length) contents' := by
  induction contents generalizing seqno with
  | nil => rw [List.nil_append, sealAll, List.nil_append, List.length_nil]; simp
  | cons x contents ih =>
      rw [List.cons_append, sealAll, sealAll, ih, List.cons_append, succ_add_ofNat,
        List.length_cons]

/-- The session queues some records under its sending key, which it keeps. -/
def Emits (p : Primitives) (s s' : SptpsHandshakeSession) : Prop :=
  ∃ contents, s'.outbound = s.outbound ++
      sealAll p s.codec.isTcp s.codec.outKey s.codec.nextOut contents ∧
    s'.codec.nextOut = s.codec.nextOut + UInt32.ofNat contents.length ∧
    s'.codec.isTcp = s.codec.isTcp ∧ s'.codec.outKey = s.codec.outKey

variable {s s' s'' : SptpsHandshakeSession}

/-- Nothing is queued by a change that leaves the sending direction alone. -/
lemma Emits.of_eq (hout : s'.outbound = s.outbound) (hnext : s'.codec.nextOut = s.codec.nextOut)
    (htcp : s'.codec.isTcp = s.codec.isTcp) (hkey : s'.codec.outKey = s.codec.outKey) :
    Emits p s s' := by
  refine ⟨[], ?_, ?_, htcp, hkey⟩
  · rw [hout]
    exact (List.append_nil _).symm
  · rw [hnext]
    exact (UInt32.add_zero _).symm

lemma Emits.refl (s : SptpsHandshakeSession) : Emits p s s := .of_eq rfl rfl rfl rfl

lemma Emits.trans (h : Emits p s s') (h' : Emits p s' s'') : Emits p s s'' := by
  obtain ⟨contents, hout, hnext, htcp, hkey⟩ := h
  obtain ⟨contents', hout', hnext', htcp', hkey'⟩ := h'
  refine ⟨contents ++ contents', ?_, ?_, htcp'.trans htcp, hkey'.trans hkey⟩
  · rw [hout', hout, htcp, hkey, hnext, List.append_assoc, sealAll_append]
  · rw [hnext', hnext, List.length_append, UInt32.ofNat_add, UInt32.add_assoc]

lemma queued_emits (s : SptpsHandshakeSession) (payload : List UInt8) :
    Emits p s (s.queued p payload) := by
  refine ⟨[(sptpsHandshake, payload)], rfl, ?_, ?_, ?_⟩
  · rw [queued_codec, SptpsHandshakeCodec.nextOut_sent]
    rfl
  · rw [queued_codec, SptpsHandshakeCodec.isTcp_sent]
  · rw [queued_codec, SptpsHandshakeCodec.outKey_sent]

lemma sigSent_emits (s : SptpsHandshakeSession) (myKex hisKex : SptpsKex) :
    Emits p s (s.sigSent p myKex hisKex) :=
  .trans (.of_eq rfl rfl rfl rfl) (queued_emits _ _)

lemma emits_refl : ∀ s : SptpsHandshakeSession, Emits p s s := Emits.refl

lemma emits_trans : ∀ s s' s'' : SptpsHandshakeSession, Emits p s s' → Emits p s' s'' →
    Emits p s s'' :=
  fun _ _ _ => Emits.trans

/-- A queued record is sealed with the next sequence number. -/
lemma queueHandshake_emits (payload : List UInt8) : (queueHandshake p payload).Moves (Emits p) := by
  intro s
  by_cases h : SptpsHandshakeCodec.Encodable s.codec.isTcp sptpsHandshake payload
  · have hexec := SptpsHandshakeCodec.exec_encode (p := p) s.codec sptpsHandshake payload h
    have hqueued : (queueHandshake p payload).exec s = (.ok (), s.queued p payload) := by
      simp [queueHandshake, encode, Stateful.exec_bind, hexec, queued]
    rw [hqueued]
    exact queued_emits s payload
  · obtain ⟨e, hexec⟩ := SptpsHandshakeCodec.exec_encode_error (p := p) s.codec _ _ h
    have hsame : ((queueHandshake p payload).exec s).2 = s := by
      simp [queueHandshake, encode, Stateful.exec_bind, hexec]
    rw [hsame]
    exact .refl s

lemma sendSig_emits : (sendSig p).Moves (Emits p) := by
  refine .bind emits_trans (.get emits_refl) fun s => ?_
  refine .bind emits_trans (.ofExcept emits_refl _) fun myKex => ?_
  refine .bind emits_trans (.ofExcept emits_refl _) fun hisKex => ?_
  exact .bind emits_trans (.modify fun s => .of_eq rfl rfl rfl rfl) fun _ =>
    queueHandshake_emits _

lemma sendKex_emits (fresh : Fresh) : (sendKex p fresh).Moves (Emits p) := by
  refine .bind emits_trans (.ofExcept emits_refl _) fun r => ?_
  refine .bind emits_trans (.get emits_refl) fun s => .ite (fun _ => .throw emits_refl _) ?_
  refine fun _ => .bind emits_trans (.modify fun s => .of_eq rfl rfl rfl rfl) fun _ => ?_
  exact queueHandshake_emits _

lemma setState_emits (state : SptpsHandshakeState) : (setState state).Moves (Emits p) :=
  .modify fun _ => .of_eq rfl rfl rfl rfl

lemma answerKex_emits (data : List UInt8) : (answerKex p data).Moves (Emits p) := by
  refine .bind emits_trans ?_ fun _ => ?_
  · refine .bind emits_trans (.get emits_refl) fun s => .ite (fun _ => .throw emits_refl _) ?_
    refine fun _ => .bind emits_trans (.ofExcept emits_refl _) fun kex => ?_
    refine .bind emits_trans (.modify fun s => .of_eq rfl rfl rfl rfl) fun _ => ?_
    exact .ite (fun _ => sendSig_emits) fun _ => .pure emits_refl _
  · exact .bind emits_trans (setState_emits _) fun _ => .pure emits_refl _

/-- What a call does to the sending direction: it seals some records under the key that was there
before it, and may install another key afterwards. -/
def Sends (p : Primitives) (s s' : SptpsHandshakeSession) : Prop :=
  ∃ contents, s'.outbound = s.outbound ++
      sealAll p s.codec.isTcp s.codec.outKey s.codec.nextOut contents ∧
    s'.codec.nextOut = s.codec.nextOut + UInt32.ofNat contents.length ∧
    s'.codec.isTcp = s.codec.isTcp ∧ s'.codec.outKey = (installed s s').or s.codec.outKey

lemma installed_eq_none (h : s.state = .sig → s'.state = .sig) : installed s s' = none :=
  if_neg fun h' => h'.2 (h h'.1)

lemma Emits.sends (h : Emits p s s') (hstate : s.state = .sig → s'.state = .sig) :
    Sends p s s' := by
  obtain ⟨contents, hout, hnext, htcp, hkey⟩ := h
  refine ⟨contents, hout, hnext, htcp, ?_⟩
  rw [hkey, installed_eq_none hstate, Option.none_or]

/-- Records that are sealed before the key changes. -/
lemma Sends.of_emits {t : SptpsHandshakeSession} (h : Emits p s t)
    (hout : s'.outbound = t.outbound) (hnext : s'.codec.nextOut = t.codec.nextOut)
    (htcp : s'.codec.isTcp = s.codec.isTcp)
    (hkey : s'.codec.outKey = (installed s s').or s.codec.outKey) : Sends p s s' := by
  obtain ⟨contents, hout', hnext', -, -⟩ := h
  exact ⟨contents, hout.trans hout', hnext.trans hnext', htcp, hkey⟩

/-- A signature that is accepted: the records are sealed before the new key is installed. -/
lemma sigAccepted_sends {myKex hisKex : SptpsKex} {sharedSecret : Vector UInt8 32}
    (hstate : s.state = .sig) {state : SptpsHandshakeState} (hnext : state ≠ .sig) :
    Sends p s { s.sigAccepted p myKex hisKex sharedSecret with state := state } := by
  obtain ⟨hout, hseq⟩ := sigAccepted_queued p s myKex hisKex sharedSecret
  have hsig : Emits p s (if s.initiator then s else s.sigSent p myKex hisKex) := by
    split_ifs
    · exact .refl s
    · exact sigSent_emits s _ _
  have hqueued : Emits p s (if s.codec.outKey.isSome then
      queued p (if s.initiator then s else s.sigSent p myKex hisKex) []
      else if s.initiator then s else s.sigSent p myKex hisKex) := by
    split_ifs at hsig ⊢
    · exact hsig.trans (queued_emits _ _)
    · exact hsig.trans (queued_emits _ _)
    · exact hsig
    · exact hsig
  refine .of_emits hqueued hout hseq (sigAccepted_isTcp p s _ _ _) ?_
  have hkey := sigAccepted_outKey p s myKex hisKex sharedSecret
  have hinstalled : installed s { s.sigAccepted p myKex hisKex sharedSecret with state := state } =
      (s.sigAccepted p myKex hisKex sharedSecret).codec.outKey := if_pos ⟨hstate, hnext⟩
  rw [hinstalled, hkey]
  rfl

/-- A handshake record is handled. -/
lemma receiveHandshake_sends (fresh : Fresh) (data : List UInt8) (s : SptpsHandshakeSession) :
    Sends p s ((receiveHandshake p fresh data).exec s).2 := by
  cases hstate : s.state with
  | kex =>
      rw [exec_receiveHandshake_kex hstate]
      exact (answerKex_emits data s).sends fun h => absurd (hstate.symm.trans h) (by decide)
  | secondaryKex =>
      rw [exec_receiveHandshake_secondaryKex hstate]
      refine Emits.sends ?_ fun h => absurd (hstate.symm.trans h) (by decide)
      exact Stateful.Moves.bind emits_trans (sendKex_emits fresh) (fun _ => answerKex_emits data) s
  | ack =>
      rw [exec_receiveHandshake_ack hstate]
      refine Emits.sends ?_ fun h => absurd (hstate.symm.trans h) (by decide)
      refine Stateful.Moves.bind emits_trans (fun t => ?_) (fun _ => .bind emits_trans
        (setState_emits _) fun _ => .pure emits_refl _) s
      rw [exec_receiveAck]
      split_ifs
      · split
        · exact .of_eq rfl (SptpsHandshakeCodec.nextOut_setInKey _ _)
            (SptpsHandshakeCodec.isTcp_setInKey _ _) (SptpsHandshakeCodec.outKey_setInKey _ _)
        · exact .refl t
      · exact .refl t
  | sig =>
      by_cases h : ∃ myKex hisKex ecdh sharedSecret,
          AcceptsSig p s data myKex hisKex ecdh sharedSecret
      · obtain ⟨myKex, hisKex, ecdh, sharedSecret, haccepts⟩ := h
        rw [exec_receiveHandshake_sig hstate (exec_receiveSig_ok haccepts)]
        split_ifs
        · exact sigAccepted_sends hstate (by decide)
        · exact sigAccepted_sends hstate (by decide)
      · obtain ⟨e, hexec⟩ := @exec_receiveSig_error p s data
          fun myKex hisKex ecdh sharedSecret h' => h ⟨myKex, hisKex, ecdh, sharedSecret, h'⟩
        have hsame : ((receiveHandshake p fresh data).exec s).2 = s := by
          simp [receiveHandshake, Stateful.exec_bind, hstate, hexec]
        rw [hsame]
        exact (Emits.refl s).sends id

/-- What a received datagram makes the session send. -/
lemma receiveDatagram_sends (fresh : Fresh) (datagram : List UInt8) (s : SptpsHandshakeSession) :
    Sends p s ((receiveDatagram p fresh datagram).exec s).2 := by
  obtain ⟨-, hkey⟩ := SptpsHandshakeCodec.exec_decode_keys (p := p) s.codec datagram
  obtain ⟨hnext, htcp⟩ := SptpsHandshakeCodec.exec_decode_nextOut (p := p) s.codec datagram
  -- What is done after decoding is done from a session with the same sending direction.
  have hthen : ∀ s' : SptpsHandshakeSession,
      Sends p { s with codec := ((SptpsHandshakeCodec.decode p datagram).exec s.codec).2 } s' →
      Sends p s s' := by
    rintro s' ⟨contents, hout', hnext', htcp', hkey'⟩
    refine ⟨contents, ?_, ?_, htcp'.trans htcp, ?_⟩
    · rwa [htcp, hkey, hnext] at hout'
    · rwa [hnext] at hnext'
    · rwa [hkey] at hkey'
  have hidle := (Emits.refl (p := p)
    { s with codec := ((SptpsHandshakeCodec.decode p datagram).exec s.codec).2 }).sends id
  rw [receiveDatagram, Stateful.exec_bind, Stateful.exec_zoom]
  rcases ((SptpsHandshakeCodec.decode p datagram).exec s.codec).1 with e | record
  · exact hthen _ hidle
  · refine hthen _ ?_
    dsimp only
    rw [Stateful.exec_ite, Stateful.exec_ite]
    split_ifs
    · exact receiveHandshake_sends fresh _ _
    · exact hidle
    · exact hidle

lemma forceKex_sends (fresh : Fresh) (s : SptpsHandshakeSession) :
    Sends p s ((forceKex p fresh).exec s).2 := by
  rw [forceKex, Stateful.exec_bind, Stateful.exec_get]
  simp only [Stateful.exec_ite, Stateful.exec_throw]
  split_ifs with hready
  · exact (Emits.refl s).sends id
  · have hstate : s.state = .secondaryKex := not_not.mp (not_or.mp hready).2
    refine Emits.sends ?_ fun h => absurd (hstate.symm.trans h) (by decide)
    exact Stateful.Moves.bind emits_trans (setState_emits _) (fun _ => sendKex_emits fresh) s

lemma perform_sendRecord {recordType : UInt8} {payload : List UInt8}
    (htype : recordType < sptpsHandshake)
    (h : SptpsHandshakeCodec.Encodable s.codec.isTcp recordType payload) :
    perform p s (.sendRecord recordType payload) =
      ([SptpsHandshakeCodec.sealRecord p s.codec.isTcp s.codec.outKey s.codec.nextOut recordType
        payload], { s with codec := s.codec.sent }) := by
  have hexec := SptpsHandshakeCodec.exec_encode (p := p) s.codec recordType payload h
  rw [perform, sendRecord, if_neg (UInt8.not_le.mpr htype), encode, Stateful.exec_zoom, hexec]

/-- A record that can not be sent leaves the session as it is. -/
lemma perform_sendRecord_error {recordType : UInt8} {payload : List UInt8}
    (h : ¬ (recordType < sptpsHandshake ∧
      SptpsHandshakeCodec.Encodable s.codec.isTcp recordType payload)) :
    perform p s (.sendRecord recordType payload) = ([], s) := by
  rw [perform, sendRecord]
  by_cases htype : recordType < sptpsHandshake
  · obtain ⟨e, hexec⟩ := SptpsHandshakeCodec.exec_encode_error (p := p) s.codec recordType payload
      fun h' => h ⟨htype, h'⟩
    rw [if_neg (UInt8.not_le.mpr htype), encode, Stateful.exec_zoom, hexec]
  · rw [if_pos (UInt8.not_lt.mp htype)]
    rfl

/-- **The records of a call are sealed under the sending key that the session has before it**, with
consecutive numbers; a new key is installed afterwards. -/
lemma perform_spec (s : SptpsHandshakeSession) (call : SessionCall) :
    ∃ contents,
      (perform p s call).1 = sealAll p s.codec.isTcp s.codec.outKey s.codec.nextOut contents ∧
      (perform p s call).2.codec.nextOut = s.codec.nextOut + UInt32.ofNat contents.length ∧
      (perform p s call).2.codec.isTcp = s.codec.isTcp ∧
      (perform p s call).2.codec.outKey =
        (installed s (perform p s call).2).or s.codec.outKey := by
  have hsends : ∀ s' : SptpsHandshakeSession, Sends p s s' → ∃ contents,
      s'.outbound.drop s.outbound.length =
        sealAll p s.codec.isTcp s.codec.outKey s.codec.nextOut contents ∧
      s'.codec.nextOut = s.codec.nextOut + UInt32.ofNat contents.length ∧
      s'.codec.isTcp = s.codec.isTcp ∧ s'.codec.outKey = (installed s s').or s.codec.outKey := by
    rintro s' ⟨contents, hout, h⟩
    exact ⟨contents, by rw [hout, List.drop_left], h⟩
  cases call with
  | sendRecord recordType payload =>
      have hidle : ∃ contents, ([] : List (List UInt8)) =
            sealAll p s.codec.isTcp s.codec.outKey s.codec.nextOut contents ∧
          s.codec.nextOut = s.codec.nextOut + UInt32.ofNat contents.length ∧
          s.codec.isTcp = s.codec.isTcp ∧ s.codec.outKey = (installed s s).or s.codec.outKey := by
        refine ⟨[], rfl, (UInt32.add_zero _).symm, rfl, ?_⟩
        rw [installed_eq_none id, Option.none_or]
      by_cases h : recordType < sptpsHandshake ∧
          SptpsHandshakeCodec.Encodable s.codec.isTcp recordType payload
      · rw [perform_sendRecord h.1 h.2]
        refine ⟨[(recordType, payload)], rfl, SptpsHandshakeCodec.nextOut_sent _,
          SptpsHandshakeCodec.isTcp_sent _, ?_⟩
        have hnone : installed s { s with codec := s.codec.sent } = none := installed_eq_none id
        rw [hnone, Option.none_or]
        exact SptpsHandshakeCodec.outKey_sent _
      · rw [perform_sendRecord_error h]
        exact hidle
  | receiveDatagram fresh datagram => exact hsends _ (receiveDatagram_sends fresh datagram s)
  | forceKex fresh => exact hsends _ (forceKex_sends fresh s)
  | drainOutbound =>
      have hnone : installed s (perform p s .drainOutbound).2 = none := installed_eq_none id
      refine ⟨[], rfl, (UInt32.add_zero _).symm, rfl, ?_⟩
      rw [hnone, Option.none_or]
      rfl

end Calls

/-! ### Runs -/

section Runs

variable {p : Primitives}

@[simp] lemma length_sealedFrom (key : Option SptpsKey) (seqno : UInt32)
    (records : List (List UInt8)) : (sealedFrom key seqno records).length = records.length := by
  induction records generalizing seqno with
  | nil => rfl
  | cons bytes records ih => rw [sealedFrom, List.length_cons, ih, List.length_cons]

lemma map_key_sealedFrom (key : Option SptpsKey) (seqno : UInt32) (records : List (List UInt8)) :
    (sealedFrom key seqno records).map SealedRecord.key = List.replicate records.length key := by
  induction records generalizing seqno with
  | nil => rfl
  | cons bytes records ih =>
      rw [sealedFrom, List.map_cons, ih, List.length_cons, List.replicate_succ]

/-- The sequence numbers count up. -/
lemma seqno_sealedFrom {key : Option SptpsKey} {seqno : UInt32} {records : List (List UInt8)}
    {i : ℕ} {record : SealedRecord} (h : (sealedFrom key seqno records)[i]? = some record) :
    record.seqno = seqno + UInt32.ofNat i := by
  induction records generalizing seqno i with
  | nil => cases h
  | cons bytes records ih =>
      cases i with
      | zero =>
          cases h
          exact (UInt32.add_zero _).symm
      | succ i =>
          rw [← succ_add_ofNat]
          exact ih h

lemma bytes_sealedFrom {isTcp : Bool} {key : Option SptpsKey} {seqno : UInt32}
    {contents : List (UInt8 × List UInt8)} {record : SealedRecord}
    (h : record ∈ sealedFrom key seqno (sealAll p isTcp key seqno contents)) :
    ∃ recordType payload, record.bytes =
      SptpsHandshakeCodec.sealRecord p isTcp record.key record.seqno recordType payload := by
  induction contents generalizing seqno with
  | nil => cases h
  | cons x contents ih =>
      rcases List.mem_cons.mp h with rfl | h
      · exact ⟨x.1, x.2, rfl⟩
      · exact ih h

/-- The records of a run are what their keys and numbers say. -/
lemma runCalls_bytes (s : SptpsHandshakeSession) (calls : List SessionCall) :
    ∀ record ∈ (runCalls p s calls).1, ∃ recordType payload, record.bytes =
      SptpsHandshakeCodec.sealRecord p s.codec.isTcp record.key record.seqno recordType payload := by
  induction calls generalizing s with
  | nil => exact fun _ h => absurd h List.not_mem_nil
  | cons call calls ih =>
      intro record h
      obtain ⟨contents, hrecords, -, htcp, -⟩ := perform_spec (p := p) s call
      rw [runCalls] at h
      rcases List.mem_append.mp h with h | h
      · rw [hrecords] at h
        exact bytes_sealedFrom h
      · rw [← htcp]
        exact ih _ record h

/-- The numbers of the records of a run are consecutive. -/
lemma runCalls_seqno (s : SptpsHandshakeSession) (calls : List SessionCall) {i : ℕ}
    {record : SealedRecord} (h : (runCalls p s calls).1[i]? = some record) :
    record.seqno = s.codec.nextOut + UInt32.ofNat i := by
  induction calls generalizing s i with
  | nil => cases h
  | cons call calls ih =>
      obtain ⟨contents, hrecords, hnext, -, -⟩ := perform_spec (p := p) s call
      have hlen := length_sealedFrom s.codec.outKey s.codec.nextOut (perform p s call).1
      have hcount : (perform p s call).1.length = contents.length := by
        rw [hrecords, length_sealAll]
      rw [runCalls] at h
      rcases lt_or_ge i (perform p s call).1.length with hlt | hge
      · rw [List.getElem?_append_left (hlen.symm ▸ hlt)] at h
        exact seqno_sealedFrom h
      · rw [List.getElem?_append_right (hlen.symm ▸ hge), hlen] at h
        rw [ih _ h, hnext, UInt32.add_assoc, ← UInt32.ofNat_add, ← hcount,
          Nat.add_sub_cancel' hge]

/-- **Over a run the keys come in blocks**: that of the session, and then those that the
handshakes derive. -/
lemma runCalls_blocks (s : SptpsHandshakeSession) (calls : List SessionCall) :
    ∃ n blocks, (runCalls p s calls).1.map SealedRecord.key =
        List.replicate n s.codec.outKey ++ KeyedCounter.expand blocks ∧
      blocks.map Prod.fst = (installedKeys p s calls).map some := by
  induction calls generalizing s with
  | nil => exact ⟨0, [], rfl, rfl⟩
  | cons call calls ih =>
      obtain ⟨contents, hrecords, -, -, hkey⟩ := perform_spec (p := p) s call
      obtain ⟨n, blocks, hlog, hblocks⟩ := ih (perform p s call).2
      have hmap : (runCalls p s (call :: calls)).1.map SealedRecord.key =
          List.replicate (perform p s call).1.length s.codec.outKey ++
            (List.replicate n (perform p s call).2.codec.outKey ++
              KeyedCounter.expand blocks) := by
        rw [runCalls, List.map_append, map_key_sealedFrom, ← hlog]
      rw [hmap, installedKeys, List.map_append, ← hblocks]
      cases hinst : installed s (perform p s call).2 with
      | none =>
          rw [hinst, Option.none_or] at hkey
          refine ⟨(perform p s call).1.length + n, blocks, ?_, rfl⟩
          rw [hkey, List.replicate_add, List.append_assoc]
      | some key =>
          rw [hinst, Option.some_or] at hkey
          refine ⟨(perform p s call).1.length, (some key, n) :: blocks, ?_, rfl⟩
          rw [hkey]
          rfl

/-- Two numbers of a run agree when their places do modulo `2 ^ 32`. -/
lemma add_ofNat_inj {seqno : UInt32} {i j : ℕ} :
    seqno + UInt32.ofNat i = seqno + UInt32.ofNat j ↔ i % 2 ^ 32 = j % 2 ^ 32 := by
  rw [UInt32.add_right_inj, ← UInt32.toNat_inj, UInt32.toNat_ofNat', UInt32.toNat_ofNat']

/-- The runs in which no pair is used twice, by the places of the records. -/
lemma nodup_nonces_iff (s : SptpsHandshakeSession) (calls : List SessionCall) :
    (nonces (runCalls p s calls).1).Nodup ↔ ∀ key i j, i < j →
      ((runCalls p s calls).1.map SealedRecord.key)[i]? = some (some key) →
      ((runCalls p s calls).1.map SealedRecord.key)[j]? = some (some key) →
      i % 2 ^ 32 ≠ j % 2 ^ 32 := by
  rw [nonces, List.Nodup, List.pairwise_filterMap, List.pairwise_iff_getElem]
  constructor
  · intro h key i j hij hi hj hmod
    rw [List.getElem?_map, Option.map_eq_some_iff] at hi hj
    obtain ⟨record, hrecord, hkey⟩ := hi
    obtain ⟨record', hrecord', hkey'⟩ := hj
    obtain ⟨hi', hrec⟩ := List.getElem?_eq_some_iff.mp hrecord
    obtain ⟨hj', hrec'⟩ := List.getElem?_eq_some_iff.mp hrecord'
    refine h i j hi' hj' hij (key, record.seqno) ?_ (key, record'.seqno) ?_ ?_
    · rw [hrec, hkey]
      rfl
    · rw [hrec', hkey']
      rfl
    · rw [runCalls_seqno s calls hrecord, runCalls_seqno s calls hrecord', add_ofNat_inj.mpr hmod]
  · intro h i j hi hj hij x hx y hy hxy
    rw [Option.map_eq_some_iff] at hx hy
    obtain ⟨key, hkey, rfl⟩ := hx
    obtain ⟨key', hkey', rfl⟩ := hy
    obtain ⟨rfl, hseqno⟩ := Prod.mk.inj hxy
    refine h key i j hij ?_ ?_ ((@add_ofNat_inj s.codec.nextOut _ _).mp ?_)
    · rw [List.getElem?_map, List.getElem?_eq_getElem hi, Option.map_some, hkey]
    · rw [List.getElem?_map, List.getElem?_eq_getElem hj, Option.map_some, hkey']
    · rw [← runCalls_seqno s calls (List.getElem?_eq_getElem hi),
        ← runCalls_seqno s calls (List.getElem?_eq_getElem hj)]
      exact hseqno

/-- Fresh keys from a session without one: no pair is used twice exactly when no key is used too
often. -/
lemma nodup_nonces_iff_count {s : SptpsHandshakeSession} (hnone : s.codec.outKey = none)
    (calls : List SessionCall) (hkeys : (installedKeys p s calls).Nodup) :
    (nonces (runCalls p s calls).1).Nodup ↔
      ∀ key, recordsUnder key (runCalls p s calls).1 ≤ 2 ^ 32 := by
  obtain ⟨n, blocks, hlog, hblocks⟩ := runCalls_blocks (p := p) s calls
  have hlog' : (runCalls p s calls).1.map SealedRecord.key =
      KeyedCounter.expand ((none, n) :: blocks) := by
    rw [hlog, hnone]
    rfl
  have hnodup : (((none, n) :: blocks).map Prod.fst).Nodup := by
    rw [List.map_cons, hblocks, List.nodup_cons]
    refine ⟨?_, hkeys.map (Option.some_injective _)⟩
    rintro hmem
    obtain ⟨_, -, h⟩ := List.mem_map.mp hmem
    cases h
  rw [nodup_nonces_iff]
  simp only [recordsUnder, hlog']
  exact forall_congr' fun key =>
    KeyedCounter.collision_free_iff (Nat.two_pow_pos 32) hnodup (some key)

/-- A session that was just started, for datagrams or for a TCP stream. -/
def Started (p : Primitives) (s : SptpsHandshakeSession) : Prop :=
  ∃ initiator myKey peerKey label ephemeral nonce,
    (∃ replayWindowBytes, startWithEphemeral p initiator myKey peerKey label replayWindowBytes
      ephemeral nonce = .ok s) ∨
    startTcpWithEphemeral p initiator myKey peerKey label ephemeral nonce = .ok s

lemma Started.outKey {s : SptpsHandshakeSession} (h : Started p s) : s.codec.outKey = none := by
  obtain ⟨initiator, myKey, peerKey, label, ephemeral, nonce, h⟩ := h
  rcases h with ⟨replayWindowBytes, h⟩ | h
  · rw [startWithEphemeral, start, exec_sendKexWith] at h
    cases h
    rfl
  · rw [startTcpWithEphemeral, start, exec_sendKexWith] at h
    cases h
    rfl

/-- **Nonces**: in every run of a session whose handshakes derive fresh keys, every record is sealed
under its key and its number, and no pair of a key and a number is used twice exactly when at most
`2 ^ 32` records are encrypted under each key. -/
theorem nonces_unique_iff (p : Primitives) {s : SptpsHandshakeSession} (hstart : Started p s)
    (calls : List SessionCall) (hkeys : (installedKeys p s calls).Nodup) :
    (∀ record ∈ (runCalls p s calls).1, ∃ recordType payload, record.bytes =
      SptpsHandshakeCodec.sealRecord p s.codec.isTcp record.key record.seqno recordType payload) ∧
    ((nonces (runCalls p s calls).1).Nodup ↔
      ∀ key, recordsUnder key (runCalls p s calls).1 ≤ 2 ^ 32) :=
  ⟨runCalls_bytes s calls, nodup_nonces_iff_count hstart.outKey calls hkeys⟩

end Runs

/-! ### Long runs -/

section Example

variable {p : Primitives}

lemma runCalls_append (s : SptpsHandshakeSession) (calls calls' : List SessionCall) :
    (runCalls p s (calls ++ calls')).1 =
      (runCalls p s calls).1 ++ (runCalls p (runCalls p s calls).2 calls').1 := by
  induction calls generalizing s with
  | nil => rfl
  | cons call calls ih =>
      show _ ++ (runCalls p (perform p s call).2 (calls ++ calls')).1 = _
      rw [ih, ← List.append_assoc]
      rfl

lemma installedKeys_append (s : SptpsHandshakeSession) (calls calls' : List SessionCall) :
    installedKeys p s (calls ++ calls') =
      installedKeys p s calls ++ installedKeys p (runCalls p s calls).2 calls' := by
  induction calls generalizing s with
  | nil => rfl
  | cons call calls ih =>
      show _ ++ installedKeys p (perform p s call).2 (calls ++ calls') = _
      rw [ih, ← List.append_assoc]
      rfl

/-- Sending records keeps the key. -/
lemma runCalls_sendRecord (n : ℕ) (s : SptpsHandshakeSession) :
    (runCalls p s (List.replicate n (.sendRecord 0 []))).1.map SealedRecord.key =
        List.replicate n s.codec.outKey ∧
      installedKeys p s (List.replicate n (.sendRecord 0 [])) = [] := by
  induction n generalizing s with
  | zero => exact ⟨rfl, rfl⟩
  | succ n ih =>
      have hperform := @perform_sendRecord p s 0 [] (by decide)
        ⟨by decide, fun _ => by decide⟩
      obtain ⟨hlog, hkeys⟩ := ih { s with codec := s.codec.sent }
      have hnone : installed s { s with codec := s.codec.sent } = none := installed_eq_none id
      rw [List.replicate_succ, runCalls, installedKeys, hperform, List.map_append, hlog, hkeys,
        hnone]
      refine ⟨?_, rfl⟩
      have hkey : s.codec.sent.outKey = s.codec.outKey := SptpsHandshakeCodec.outKey_sent _
      rw [hkey, List.replicate_succ]
      rfl

/-- Bob receives Alice's KEX record and signature. -/
def handshakeCalls : List SessionCall :=
  [.receiveDatagram (.error (.randomFailed "")) (plainRecord aliceKex.toBytes),
    .receiveDatagram (.error (.randomFailed "")) (plainRecord (zeros 64).toList)]

/-- One record more than there are numbers, all under the key of the first handshake. -/
theorem nonces_repeat :
    let calls := handshakeCalls ++ List.replicate (2 ^ 32 + 1) (.sendRecord 0 [])
    (installedKeys oneSignature bob calls).Nodup ∧
      ¬ (nonces (runCalls oneSignature bob calls).1).Nodup := by
  intro calls
  have hkeys : (installedKeys oneSignature bob calls).Nodup := by
    rw [installedKeys_append, (runCalls_sendRecord _ _).2, List.append_nil]
    decide +kernel
  refine ⟨hkeys, fun hnodup => ?_⟩
  obtain ⟨key, hkey⟩ : ∃ key, (runCalls oneSignature bob handshakeCalls).2.codec.outKey =
      some key := Option.isSome_iff_exists.mp (by decide +kernel)
  have hle := (nodup_nonces_iff_count (s := bob) rfl calls hkeys).mp hnodup key
  rw [recordsUnder, runCalls_append, List.map_append, (runCalls_sendRecord _ _).1, hkey,
    List.count_append, List.count_replicate_self] at hle
  omega

/-- Bob sends three records after the handshake. -/
theorem nonces_unique_iff_bob :
    let calls := handshakeCalls ++ [.sendRecord 0 [1], .sendRecord 0 [1], .sendRecord 0 [2]]
    (∀ record ∈ (runCalls oneSignature bob calls).1, ∃ recordType payload, record.bytes =
      SptpsHandshakeCodec.sealRecord oneSignature bob.codec.isTcp record.key record.seqno recordType
        payload) ∧
    ((nonces (runCalls oneSignature bob calls).1).Nodup ↔
      ∀ key, recordsUnder key (runCalls oneSignature bob calls).1 ≤ 2 ^ 32) :=
  nonces_unique_iff oneSignature ⟨false, bobKey, aliceKey.publicKey, [], ⟨zeros 64, zeros 32⟩,
    bobKex.nonce, Or.inr rfl⟩ _
    (by decide +kernel)

end Example

end SptpsHandshakeSession

end RustyTinc

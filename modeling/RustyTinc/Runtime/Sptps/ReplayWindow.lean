import RustyTinc.Library.SlidingWindow
import RustyTinc.Runtime.Sptps.Record

/-!
The replay window of SPTPS datagrams: a ring of bits that mark the late sequence numbers.

* `check_of_lt`, `accept_of_near`, `accept_of_far`: what a call does with a number, by its place;
* `accept_tracks`: the ring tracks the sequence numbers that were accepted;
* `acceptAll_exactly_once`: over any sequence of calls no number is accepted twice, and a late
  one is accepted exactly when it is in the window and new.
-/

namespace RustyTinc

namespace U32

/-- The largest number. -/
def max : UInt32 := 0xffffffff

/-- `u32::saturating_add`. -/
def saturatingAdd (a b : UInt32) : UInt32 :=
  if a.toNat + b.toNat < 2 ^ 32 then a + b else max

/-- `u32::saturating_sub`. -/
def saturatingSub (a b : UInt32) : UInt32 := if b ≤ a then a - b else 0

/-- `u32::try_from(n).unwrap_or(u32::MAX)`. -/
def tryFrom (n : ℕ) : UInt32 := if n < 2 ^ 32 then UInt32.ofNat n else max

@[simp] lemma toNat_max : max.toNat = 2 ^ 32 - 1 := rfl

lemma toNat_saturatingAdd (a b : UInt32) :
    (saturatingAdd a b).toNat = min (a.toNat + b.toNat) (2 ^ 32 - 1) := by
  rw [saturatingAdd]
  split_ifs with h
  · rw [UInt32.toNat_add, Nat.mod_eq_of_lt h]
    omega
  · rw [toNat_max]
    omega

lemma toNat_tryFrom {n : ℕ} (h : n < 2 ^ 32) : (tryFrom n).toNat = n := by
  rw [tryFrom, if_pos h, UInt32.toNat_ofNat_of_lt' h]

end U32

/-- A ring of bits, in which a number below the expected one is set while it is late. -/
structure SptpsReplayWindow where
  windowBytes : ℕ
  expectedSeqno : UInt32
  received : UInt32
  farFuture : UInt32
  /-- The bit of a sequence number below `expectedSeqno` says that it is still missing. -/
  late : Vector (BitVec 8) windowBytes

namespace SptpsReplayWindow

/-- A window before the first number. -/
def new (windowBytes : ℕ) : SptpsReplayWindow :=
  ⟨windowBytes, 0, 0, 0, Vector.replicate windowBytes 0⟩

/-- The number may still come. -/
def markLate (w : SptpsReplayWindow) (seqno : UInt32) : SptpsReplayWindow :=
  if h : w.windowBytes = 0 then w
  else
    let index : Fin w.windowBytes :=
      ⟨seqno.toNat / 8 % w.windowBytes, Nat.mod_lt _ (Nat.pos_of_ne_zero h)⟩
    { w with late := w.late.set index (w.late.get index ||| 1#8 <<< (seqno.toNat % 8)) index.isLt }

/-- The number has come. -/
def clearLate (w : SptpsReplayWindow) (seqno : UInt32) : SptpsReplayWindow :=
  if h : w.windowBytes = 0 then w
  else
    let index : Fin w.windowBytes :=
      ⟨seqno.toNat / 8 % w.windowBytes, Nat.mod_lt _ (Nat.pos_of_ne_zero h)⟩
    { w with
      late := w.late.set index (w.late.get index &&& ~~~(1#8 <<< (seqno.toNat % 8))) index.isLt }

/-- The number may still come. -/
def isMarkedLate (w : SptpsReplayWindow) (seqno : UInt32) : Bool :=
  if h : w.windowBytes = 0 then false
  else
    let index : Fin w.windowBytes :=
      ⟨seqno.toNat / 8 % w.windowBytes, Nat.mod_lt _ (Nat.pos_of_ne_zero h)⟩
    w.late.get index &&& 1#8 <<< (seqno.toNat % 8) ≠ 0

/-- `window_bytes.saturating_mul(8)`, with 64 bits for a `usize`. -/
def windowBits (w : SptpsReplayWindow) : ℕ := min (w.windowBytes * 8) (2 ^ 64 - 1)

/-- `self.late.fill(0xff)`. -/
def fillLate (w : SptpsReplayWindow) : SptpsReplayWindow :=
  { w with late := Vector.replicate w.windowBytes (BitVec.allOnes 8) }

/-- The loop that marks the numbers from `expected_seqno` up to `seqno` as late. -/
def markMissed (w : SptpsReplayWindow) (seqno : UInt32) : SptpsReplayWindow :=
  (List.range' w.expectedSeqno.toNat (seqno.toNat - w.expectedSeqno.toNat)).foldl
    (fun w missed => w.markLate (UInt32.ofNat missed)) w

/-- A number that passed is not late any more. -/
def clearPassed (w : SptpsReplayWindow) (seqno : UInt32) : SptpsReplayWindow :=
  if w.windowBits ≠ 0 then { w.clearLate seqno with farFuture := 0 } else w

/-- The next number is expected, unless this one was late. -/
def advanceExpected (w : SptpsReplayWindow) (seqno : UInt32) : SptpsReplayWindow :=
  if w.expectedSeqno ≤ seqno then { w with expectedSeqno := seqno + 1 } else w

/-- One more datagram has come; the count starts again when the numbers do. -/
def countReceived (w : SptpsReplayWindow) : SptpsReplayWindow :=
  if w.expectedSeqno = 0 then { w with received := 0 }
  else { w with received := U32.saturatingAdd w.received 1 }

/-- The end of `check`, for a number that passed. -/
def settle (w : SptpsReplayWindow) (seqno : UInt32) (updateState : Bool) : SptpsReplayWindow :=
  if updateState then ((w.clearPassed seqno).advanceExpected seqno).countReceived else w

/-- The check of a sequence number; on an error the window may still have been changed. -/
def check (w : SptpsReplayWindow) (seqno : UInt32) (updateState : Bool) :
    Except SptpsError Unit × SptpsReplayWindow :=
  if w.windowBits ≠ 0 ∧ seqno ≠ w.expectedSeqno then
    let futureCutoff := U32.saturatingAdd w.expectedSeqno (U32.tryFrom w.windowBits)
    if futureCutoff ≤ seqno then
      let previousFarFuture := w.farFuture
      let w :=
        if updateState then { w with farFuture := U32.saturatingAdd w.farFuture 1 } else w
      if previousFarFuture < U32.tryFrom (w.windowBytes >>> 2) then
        let count := if updateState then w.farFuture else U32.saturatingAdd previousFarFuture 1
        let distance := U32.saturatingSub seqno w.expectedSeqno
        (.error (.farFuture seqno w.expectedSeqno distance count), w)
      else
        (.ok (), (if updateState then w.fillLate else w).settle seqno updateState)
    else if seqno < w.expectedSeqno then
      let outsideWindow := UInt32.ofNat w.windowBits ≤ w.expectedSeqno ∧
        seqno < w.expectedSeqno - UInt32.ofNat w.windowBits
      if outsideWindow ∨ w.isMarkedLate seqno = false then
        (.error (.replay seqno w.expectedSeqno), w)
      else
        (.ok (), w.settle seqno updateState)
    else
      (.ok (), (if updateState then w.markMissed seqno else w).settle seqno updateState)
  else
    (.ok (), w.settle seqno updateState)

/-- The check of a number that is received. -/
def accept (w : SptpsReplayWindow) (seqno : UInt32) : Except SptpsError Unit × SptpsReplayWindow :=
  w.check seqno true

/-- The answer for a clone of the window. -/
def verify (w : SptpsReplayWindow) (seqno : UInt32) : Except SptpsError Unit :=
  (w.check seqno false).1

/-! ### The ring of bits -/

/-- Whether the bit number `t` of the ring is set. -/
def bit (w : SptpsReplayWindow) (t : ℕ) : Prop :=
  (w.late[t / 8]?.getD 0).getLsbD (t % 8) = true

lemma getLsbD_one_shiftLeft {i j : ℕ} (hj : j < 8) : (1#8 <<< i).getLsbD j = decide (j = i) := by
  rw [BitVec.getLsbD_shiftLeft, BitVec.getLsbD_one, Bool.eq_iff_iff]
  simp only [Bool.and_eq_true, Bool.not_eq_true', decide_eq_true_eq, decide_eq_false_iff_not]
  omega

/-- The mask tests one bit. -/
lemma and_one_shiftLeft_ne_zero {x : BitVec 8} {i : ℕ} (hi : i < 8) :
    x &&& 1#8 <<< i ≠ 0 ↔ x.getLsbD i = true := by
  constructor
  · intro h
    by_contra hx
    refine h (BitVec.eq_of_getLsbD_eq fun j hj => ?_)
    rw [BitVec.getLsbD_and, getLsbD_one_shiftLeft hj]
    by_cases hji : j = i
    · simp [hji, Bool.eq_false_iff.mpr hx]
    · simp [hji]
  · intro hx h
    have hbit := congrArg (fun y => y.getLsbD i) h
    simp [getLsbD_one_shiftLeft hi, hx] at hbit

/-- Two places of the ring agree when their bytes and their bits do. -/
lemma slot_eq_iff {t n wb : ℕ} :
    t = n % (8 * wb) ↔ t / 8 = n / 8 % wb ∧ t % 8 = n % 8 := by
  have hdiv : n % (8 * wb) / 8 = n / 8 % wb := Nat.mod_mul_right_div_self n 8 wb
  have hmod : n % (8 * wb) % 8 = n % 8 := Nat.mod_mul_right_mod n 8 wb
  omega

lemma isMarkedLate_iff {w : SptpsReplayWindow} (hw : 0 < w.windowBytes) (seqno : UInt32) :
    w.isMarkedLate seqno = true ↔ w.bit (seqno.toNat % (8 * w.windowBytes)) := by
  obtain ⟨hdiv, hmod⟩ := slot_eq_iff.mp (rfl : seqno.toNat % (8 * w.windowBytes) = _)
  have hlt : seqno.toNat / 8 % w.windowBytes < w.windowBytes := Nat.mod_lt _ hw
  rw [isMarkedLate, dif_neg hw.ne', bit, hdiv, hmod, Vector.getElem?_eq_getElem hlt,
    Option.getD_some, decide_eq_true_eq]
  exact and_one_shiftLeft_ne_zero (Nat.mod_lt _ (by omega))

@[simp] lemma markLate_windowBytes (w : SptpsReplayWindow) (seqno : UInt32) :
    (w.markLate seqno).windowBytes = w.windowBytes := by
  rw [markLate]
  split_ifs <;> rfl

@[simp] lemma markLate_expectedSeqno (w : SptpsReplayWindow) (seqno : UInt32) :
    (w.markLate seqno).expectedSeqno = w.expectedSeqno := by
  rw [markLate]
  split_ifs <;> rfl

@[simp] lemma clearLate_windowBytes (w : SptpsReplayWindow) (seqno : UInt32) :
    (w.clearLate seqno).windowBytes = w.windowBytes := by
  rw [clearLate]
  split_ifs <;> rfl

@[simp] lemma clearLate_expectedSeqno (w : SptpsReplayWindow) (seqno : UInt32) :
    (w.clearLate seqno).expectedSeqno = w.expectedSeqno := by
  rw [clearLate]
  split_ifs <;> rfl

/-- Marking sets one bit. -/
lemma bit_markLate {w : SptpsReplayWindow} (hw : 0 < w.windowBytes) (seqno : UInt32) {t : ℕ}
    (ht : t < 8 * w.windowBytes) :
    (w.markLate seqno).bit t ↔ w.bit t ∨ t = seqno.toNat % (8 * w.windowBytes) := by
  have hdiv : t / 8 < w.windowBytes := by omega
  have hmod : t % 8 < 8 := Nat.mod_lt _ (by omega)
  rw [slot_eq_iff, markLate, dif_neg hw.ne']
  simp only [bit, Vector.getElem?_set]
  by_cases hbyte : seqno.toNat / 8 % w.windowBytes = t / 8
  · rw [if_pos hbyte, ← hbyte, Vector.getElem?_eq_getElem (hbyte ▸ hdiv), Option.getD_some,
      Option.getD_some, BitVec.getLsbD_or, getLsbD_one_shiftLeft hmod, Bool.or_eq_true,
      decide_eq_true_eq]
    exact or_congr Iff.rfl (and_iff_right rfl).symm
  · rw [if_neg hbyte]
    exact (or_iff_left fun h => hbyte h.1.symm).symm

/-- Clearing resets one bit. -/
lemma bit_clearLate {w : SptpsReplayWindow} (hw : 0 < w.windowBytes) (seqno : UInt32) {t : ℕ}
    (ht : t < 8 * w.windowBytes) :
    (w.clearLate seqno).bit t ↔ t ≠ seqno.toNat % (8 * w.windowBytes) ∧ w.bit t := by
  have hdiv : t / 8 < w.windowBytes := by omega
  have hmod : t % 8 < 8 := Nat.mod_lt _ (by omega)
  rw [ne_eq, slot_eq_iff, clearLate, dif_neg hw.ne']
  simp only [bit, Vector.getElem?_set]
  by_cases hbyte : seqno.toNat / 8 % w.windowBytes = t / 8
  · rw [if_pos hbyte, ← hbyte, Vector.getElem?_eq_getElem (hbyte ▸ hdiv), Option.getD_some,
      Option.getD_some, BitVec.getLsbD_and, BitVec.getLsbD_not, getLsbD_one_shiftLeft hmod,
      and_comm]
    simp [hmod, Vector.get]
  · rw [if_neg hbyte]
    exact (and_iff_right fun h => hbyte h.1.symm).symm

lemma bit_fillLate (w : SptpsReplayWindow) {t : ℕ} (ht : t < 8 * w.windowBytes) :
    w.fillLate.bit t := by
  have hdiv : t / 8 < w.windowBytes := by omega
  have hmod : t % 8 < 8 := Nat.mod_lt _ (by omega)
  show ((Vector.replicate w.windowBytes (BitVec.allOnes 8))[t / 8]?.getD 0).getLsbD (t % 8) = true
  rw [Vector.getElem?_replicate, if_pos hdiv, Option.getD_some, BitVec.getLsbD_allOnes,
    decide_eq_true hmod]

/-- What marking the numbers from `start` on does, as the loop of `markMissed` does it. -/
lemma foldl_markLate {wb : ℕ} (hwb : 0 < wb) (count start : ℕ) {w : SptpsReplayWindow}
    (hw : w.windowBytes = wb) (hle : start + count ≤ 2 ^ 32) :
    let w' := (List.range' start count).foldl
      (fun w missed => w.markLate (UInt32.ofNat missed)) w
    w'.windowBytes = wb ∧ w'.expectedSeqno = w.expectedSeqno ∧
      ∀ t < 8 * wb, w'.bit t ↔ w.bit t ∨
        ∃ s, start ≤ s ∧ s < start + count ∧ t = s % (8 * wb) := by
  induction count generalizing start w with
  | zero =>
      refine ⟨hw, rfl, fun t _ => (or_iff_left ?_).symm⟩
      rintro ⟨s, h1, h2, -⟩
      omega
  | succ count ih =>
      obtain ⟨hwb', hexp, hbit⟩ := ih (start + 1) (w := w.markLate (UInt32.ofNat start))
        (by rw [markLate_windowBytes, hw]) (by omega)
      rw [List.range'_succ, List.foldl_cons]
      refine ⟨hwb', hexp.trans (markLate_expectedSeqno _ _), fun t ht => ?_⟩
      have hstart : (UInt32.ofNat start).toNat = start :=
        UInt32.toNat_ofNat_of_lt' (show start < 2 ^ 32 by omega)
      rw [hbit t ht, bit_markLate (hw ▸ hwb) _ (hw ▸ ht), hw, hstart, or_assoc]
      refine or_congr_right ⟨?_, ?_⟩
      · rintro (rfl | ⟨s, h1, h2, h3⟩)
        · exact ⟨start, le_rfl, by omega, rfl⟩
        · exact ⟨s, by omega, by omega, h3⟩
      · rintro ⟨s, h1, h2, h3⟩
        rcases Nat.eq_or_lt_of_le h1 with rfl | h1
        · exact Or.inl h3
        · exact Or.inr ⟨s, h1, by omega, h3⟩

/-- The loop over the skipped numbers marks exactly these. -/
lemma markMissed_spec {w : SptpsReplayWindow} (hw : 0 < w.windowBytes) {seqno : UInt32}
    (hle : w.expectedSeqno ≤ seqno) :
    (w.markMissed seqno).windowBytes = w.windowBytes ∧
      (w.markMissed seqno).expectedSeqno = w.expectedSeqno ∧
      ∀ t < 8 * w.windowBytes, (w.markMissed seqno).bit t ↔ w.bit t ∨
        ∃ s, w.expectedSeqno.toNat ≤ s ∧ s < seqno.toNat ∧ t = s % (8 * w.windowBytes) := by
  have hle' := UInt32.le_iff_toNat_le.mp hle
  have hlt := seqno.toNat_lt
  have hloop := foldl_markLate hw (seqno.toNat - w.expectedSeqno.toNat) w.expectedSeqno.toNat
    (w := w) rfl (by omega)
  rwa [Nat.add_sub_cancel' hle'] at hloop

/-! ### What a check does -/

@[simp] lemma settle_false (w : SptpsReplayWindow) (seqno : UInt32) :
    w.settle seqno false = w := by
  simp [settle]

/-- A check without update leaves the window as it is. -/
lemma check_false_snd (w : SptpsReplayWindow) (seqno : UInt32) : (w.check seqno false).2 = w := by
  simp only [check, settle_false, Bool.false_eq_true, if_false]
  split_ifs <;> rfl

/-- A check answers alike with and without update. -/
lemma check_fst (w : SptpsReplayWindow) (seqno : UInt32) :
    (w.check seqno false).1 = (w.check seqno true).1 := by
  simp only [check, Bool.false_eq_true, if_false, if_true]
  split_ifs <;> rfl

/-- A call that answers an error only counts. -/
lemma accept_error {w w' : SptpsReplayWindow} {seqno : UInt32} {e : SptpsError}
    (h : w.accept seqno = (.error e, w')) : ∃ far, w' = { w with farFuture := far } := by
  simp only [accept, check, if_true] at h
  split_ifs at h <;> cases h
  · exact ⟨_, rfl⟩
  · exact ⟨w.farFuture, rfl⟩

/-- The expected number always passes, and the next one is expected. -/
lemma accept_expected (w : SptpsReplayWindow) :
    w.accept w.expectedSeqno = (.ok (), w.settle w.expectedSeqno true) := by
  rw [accept, check, if_neg fun h => h.2 rfl]

lemma settle_expected (w : SptpsReplayWindow) :
    (w.settle w.expectedSeqno true).expectedSeqno = w.expectedSeqno + 1 := by
  have hpassed : (w.clearPassed w.expectedSeqno).expectedSeqno = w.expectedSeqno := by
    rw [clearPassed]
    split_ifs
    · exact clearLate_expectedSeqno w _
    · rfl
  rw [settle, if_pos rfl, advanceExpected, if_pos (by rw [hpassed]; exact UInt32.le_refl _),
    countReceived]
  split_ifs <;> rfl

section Window

variable {wb : ℕ} (hwb : 0 < wb) (hbits : 8 * wb < 2 ^ 32) {w : SptpsReplayWindow}
  (hw : w.windowBytes = wb)

include hwb hw in
/-- What the end of a check does. -/
lemma settle_spec (seqno : UInt32) :
    (w.settle seqno true).windowBytes = wb ∧
      (w.settle seqno true).expectedSeqno =
        (if w.expectedSeqno ≤ seqno then seqno + 1 else w.expectedSeqno) ∧
      ∀ t < 8 * wb, (w.settle seqno true).bit t ↔ t ≠ seqno.toNat % (8 * wb) ∧ w.bit t := by
  have hbits : w.windowBits ≠ 0 := by
    rw [windowBits, hw]
    omega
  subst hw
  have hbit : ∀ t < 8 * w.windowBytes, _ := fun t ht => bit_clearLate hwb seqno ht
  rw [settle, if_pos rfl, clearPassed, if_pos hbits, advanceExpected, clearLate_expectedSeqno]
  split_ifs
  · rw [countReceived]
    split_ifs <;> exact ⟨clearLate_windowBytes w seqno, rfl, hbit⟩
  · rw [countReceived]
    split_ifs <;> exact ⟨clearLate_windowBytes w seqno, clearLate_expectedSeqno w seqno, hbit⟩

include hbits hw in
lemma windowBits_eq : w.windowBits = 8 * wb := by
  rw [windowBits, hw]
  omega

include hbits hw in
lemma toNat_windowBits : (UInt32.ofNat w.windowBits).toNat = 8 * wb := by
  rw [windowBits_eq hbits hw]
  exact UInt32.toNat_ofNat_of_lt' hbits

include hbits hw in
lemma toNat_futureCutoff :
    (U32.saturatingAdd w.expectedSeqno (U32.tryFrom w.windowBits)).toNat =
      min (w.expectedSeqno.toNat + 8 * wb) (2 ^ 32 - 1) := by
  rw [U32.toNat_saturatingAdd, windowBits_eq hbits hw, U32.toNat_tryFrom hbits]

include hwb hbits hw in
/-- A late number passes when it is in the window and marked. -/
lemma check_of_lt {seqno : UInt32} (h : seqno < w.expectedSeqno) (updateState : Bool) :
    w.check seqno updateState =
      if w.expectedSeqno.toNat ≤ seqno.toNat + 8 * wb ∧ w.isMarkedLate seqno = true then
        (.ok (), w.settle seqno updateState)
      else (.error (.replay seqno w.expectedSeqno), w) := by
  have h' := UInt32.lt_iff_toNat_lt.mp h
  have hlt := w.expectedSeqno.toNat_lt
  have hne : w.windowBits ≠ 0 ∧ seqno ≠ w.expectedSeqno := by
    refine ⟨?_, fun heq => ?_⟩
    · rw [windowBits_eq hbits hw]
      omega
    · rw [heq] at h'
      omega
  have hcut : ¬ U32.saturatingAdd w.expectedSeqno (U32.tryFrom w.windowBits) ≤ seqno := by
    rw [UInt32.le_iff_toNat_le, toNat_futureCutoff hbits hw]
    omega
  have hout : UInt32.ofNat w.windowBits ≤ w.expectedSeqno ∧
      seqno < w.expectedSeqno - UInt32.ofNat w.windowBits ↔
        ¬ w.expectedSeqno.toNat ≤ seqno.toNat + 8 * wb := by
    have hwin := toNat_windowBits hbits hw
    constructor
    · rintro ⟨hle, hsub⟩
      rw [UInt32.lt_iff_toNat_lt, UInt32.toNat_sub_of_le _ _ hle, hwin] at hsub
      omega
    · intro hfar
      have hle : UInt32.ofNat w.windowBits ≤ w.expectedSeqno := by
        rw [UInt32.le_iff_toNat_le, hwin]
        omega
      refine ⟨hle, ?_⟩
      rw [UInt32.lt_iff_toNat_lt, UInt32.toNat_sub_of_le _ _ hle, hwin]
      omega
  simp only [check]
  rw [if_pos hne, if_neg hcut, if_pos h]
  by_cases hin : w.expectedSeqno.toNat ≤ seqno.toNat + 8 * wb ∧ w.isMarkedLate seqno = true
  · rw [if_pos hin, if_neg]
    rw [hout, ← Bool.not_eq_true, ← not_and_or]
    exact not_not.mpr hin
  · rw [if_neg hin, if_pos]
    rw [hout, ← Bool.not_eq_true, ← not_and_or]
    exact hin

include hbits hw in
/-- The expected number passes, and every number ahead of it by less than a window. -/
lemma accept_of_near {seqno : UInt32} (hle : w.expectedSeqno ≤ seqno)
    (hnear : seqno.toNat < w.expectedSeqno.toNat + 8 * wb) (hmax : seqno ≠ U32.max) :
    w.accept seqno = (.ok (), (w.markMissed seqno).settle seqno true) := by
  have hle' := UInt32.le_iff_toNat_le.mp hle
  have hlt := seqno.toNat_lt
  have hmax' : seqno.toNat ≠ 2 ^ 32 - 1 := fun h => hmax (UInt32.toNat_inj.mp h)
  have hcut : ¬ U32.saturatingAdd w.expectedSeqno (U32.tryFrom w.windowBits) ≤ seqno := by
    rw [UInt32.le_iff_toNat_le, toNat_futureCutoff hbits hw]
    omega
  simp only [accept, check]
  by_cases heq : seqno = w.expectedSeqno
  · have hmissed : w.markMissed seqno = w := by
      rw [markMissed, heq, Nat.sub_self]
      rfl
    rw [if_neg fun h => h.2 heq, hmissed]
  · have hne : w.windowBits ≠ 0 ∧ seqno ≠ w.expectedSeqno := by
      refine ⟨?_, heq⟩
      rw [windowBits_eq hbits hw]
      omega
    rw [if_pos hne, if_neg hcut, if_neg (UInt32.not_lt.mpr hle), if_pos trivial]

include hwb hbits hw in
/-- A number further ahead is counted, and passes with a full ring once enough were counted. -/
lemma accept_of_far {seqno : UInt32} (hfar : w.expectedSeqno.toNat + 8 * wb ≤ seqno.toNat) :
    ∃ far, w.accept seqno = if w.farFuture < U32.tryFrom (w.windowBytes >>> 2) then
        (.error (.farFuture seqno w.expectedSeqno (U32.saturatingSub seqno w.expectedSeqno) far),
          { w with farFuture := far })
      else (.ok (), ({ w with farFuture := far } : SptpsReplayWindow).fillLate.settle seqno true) := by
  have hlt := seqno.toNat_lt
  have hne : w.windowBits ≠ 0 ∧ seqno ≠ w.expectedSeqno := by
    refine ⟨?_, fun heq => ?_⟩
    · rw [windowBits_eq hbits hw]
      omega
    · rw [heq] at hfar
      omega
  have hcut : U32.saturatingAdd w.expectedSeqno (U32.tryFrom w.windowBits) ≤ seqno := by
    rw [UInt32.le_iff_toNat_le, toNat_futureCutoff hbits hw]
    omega
  refine ⟨U32.saturatingAdd w.farFuture 1, ?_⟩
  simp only [accept, check]
  rw [if_pos hne, if_pos hcut]
  rfl

include hwb hbits hw in
/-- **A number that passes joins the numbers that the ring tracks.** -/
lemma accept_tracks {seen : List ℕ}
    (h : SlidingWindow.Tracks (8 * wb) w.bit w.expectedSeqno.toNat seen) {seqno : UInt32}
    {w' : SptpsReplayWindow} (hacc : w.accept seqno = (.ok (), w')) (hmax : seqno ≠ U32.max) :
    w'.windowBytes = wb ∧
      SlidingWindow.Tracks (8 * wb) w'.bit w'.expectedSeqno.toNat (seqno.toNat :: seen) := by
  have hpos : 0 < 8 * wb := by omega
  -- The numbers that move the window on.
  have hnext : ∀ v : SptpsReplayWindow, v.windowBytes = wb → v.expectedSeqno = w.expectedSeqno →
      w.expectedSeqno ≤ seqno →
      SlidingWindow.Tracks (8 * wb) (fun t => t ≠ seqno.toNat % (8 * wb) ∧ v.bit t)
        (seqno.toNat + 1) (seqno.toNat :: seen) →
      (v.settle seqno true).windowBytes = wb ∧
        SlidingWindow.Tracks (8 * wb) (v.settle seqno true).bit
          (v.settle seqno true).expectedSeqno.toNat (seqno.toNat :: seen) := by
    intro v hv hexp hle htracks
    obtain ⟨hwb', hexp', hbit⟩ := settle_spec hwb hv seqno
    have hmax' : seqno.toNat ≠ 2 ^ 32 - 1 := fun h => hmax (UInt32.toNat_inj.mp h)
    have hlt := seqno.toNat_lt
    have hsucc : (seqno + 1).toNat = seqno.toNat + 1 := by
      rw [UInt32.toNat_add]
      exact Nat.mod_eq_of_lt (by show seqno.toNat + 1 < 2 ^ 32; omega)
    rw [hexp', hexp, if_pos hle, hsucc]
    exact ⟨hwb', htracks.congr hpos hbit⟩
  rcases lt_or_ge seqno.toNat w.expectedSeqno.toNat with hlt | hge
  · have hlt' := UInt32.lt_iff_toNat_lt.mpr hlt
    rw [accept, check_of_lt hwb hbits hw hlt'] at hacc
    split_ifs at hacc with hin
    · obtain ⟨-, rfl⟩ := Prod.mk.inj hacc
      obtain ⟨hwb', hexp, hbit⟩ := settle_spec hwb hw seqno
      have hnew : seqno.toNat ∉ seen := by
        rw [← h.bit_iff _ hlt hin.1, ← hw, ← isMarkedLate_iff (hw ▸ hwb)]
        exact hin.2
      refine ⟨hwb', ?_⟩
      rw [hexp, if_neg (UInt32.not_le.mpr hlt')]
      exact (h.late hlt hin.1 hnew).congr hpos hbit
    · cases hacc
  · have hge' := UInt32.le_iff_toNat_le.mpr hge
    rcases lt_or_ge seqno.toNat (w.expectedSeqno.toNat + 8 * wb) with hnear | hfar
    · rw [accept_of_near hbits hw hge' hnear hmax] at hacc
      obtain ⟨-, rfl⟩ := Prod.mk.inj hacc
      obtain ⟨hwb', hexp, hbit⟩ := markMissed_spec (hw ▸ hwb) hge'
      refine hnext _ (hwb'.trans hw) hexp hge' ?_
      refine (h.advance hge hnear).congr hpos fun t ht => and_congr_right fun _ => ?_
      have hbit' := hbit t (hw ▸ ht)
      rwa [hw] at hbit'
    · obtain ⟨far, heq⟩ := accept_of_far hwb hbits hw hfar
      rw [heq] at hacc
      split_ifs at hacc with hfew
      · cases hacc
      · obtain ⟨-, rfl⟩ := Prod.mk.inj hacc
        refine hnext _ hw rfl hge' ?_
        refine (h.jump hfar).congr hpos fun t ht => and_iff_left ?_
        exact bit_fillLate { w with farFuture := far } (hw ▸ ht)

include hwb hw in
/-- After a number that passes, the largest number so far is behind the expected one. -/
lemma accept_expectedSeqno {seqno : UInt32} {w' : SptpsReplayWindow}
    (hacc : w.accept seqno = (.ok (), w')) (hmax : seqno ≠ U32.max) :
    w'.windowBytes = wb ∧
      w'.expectedSeqno.toNat = max w.expectedSeqno.toNat (seqno.toNat + 1) := by
  obtain ⟨v, rfl, hv, hexp⟩ : ∃ v : SptpsReplayWindow, w' = v.settle seqno true ∧
      v.windowBytes = wb ∧ v.expectedSeqno = w.expectedSeqno := by
    simp only [accept, check, if_true] at hacc
    split_ifs at hacc <;> cases hacc
    · exact ⟨_, rfl, hw, rfl⟩
    · exact ⟨w, rfl, hw, rfl⟩
    · next hlt =>
        have hmissed := markMissed_spec (hw ▸ hwb) (UInt32.not_lt.mp hlt)
        exact ⟨w.markMissed seqno, rfl, hmissed.1.trans hw, hmissed.2.1⟩
    · exact ⟨w, rfl, hw, rfl⟩
  obtain ⟨hwb', hexp', -⟩ := settle_spec hwb hv seqno
  refine ⟨hwb', ?_⟩
  have hmax' : seqno.toNat ≠ 2 ^ 32 - 1 := fun h => hmax (UInt32.toNat_inj.mp h)
  have hlt := seqno.toNat_lt
  have hsucc : (seqno + 1).toNat = seqno.toNat + 1 := by
    rw [UInt32.toNat_add]
    exact Nat.mod_eq_of_lt (by show seqno.toNat + 1 < 2 ^ 32; omega)
  rw [hexp', hexp]
  split_ifs with hle
  · have hle' := UInt32.le_iff_toNat_le.mp hle
    rw [hsucc, max_eq_right (by omega)]
  · have hle' := UInt32.lt_iff_toNat_lt.mp (UInt32.not_le.mp hle)
    rw [max_eq_left (by omega)]

include hwb hbits hw in
/-- A late number passes exactly when it is in the window and new. -/
lemma accept_of_lt_iff {seen : List ℕ}
    (h : SlidingWindow.Tracks (8 * wb) w.bit w.expectedSeqno.toNat seen) {seqno : UInt32}
    (hlt : seqno < w.expectedSeqno) :
    (w.accept seqno).1 = .ok () ↔
      w.expectedSeqno.toNat ≤ seqno.toNat + 8 * wb ∧ seqno.toNat ∉ seen := by
  have hmark : w.isMarkedLate seqno = true ↔ w.bit (seqno.toNat % (8 * wb)) := by
    rw [isMarkedLate_iff (hw ▸ hwb), hw]
  rw [accept, check_of_lt hwb hbits hw hlt]
  split_ifs with hin
  · refine iff_of_true rfl ⟨hin.1, ?_⟩
    exact (h.bit_iff _ (UInt32.lt_iff_toNat_lt.mp hlt) hin.1).mp (hmark.mp hin.2)
  · refine iff_of_false (by simp) fun hnew => hin ⟨hnew.1, hmark.mpr ?_⟩
    exact (h.bit_iff _ (UInt32.lt_iff_toNat_lt.mp hlt) hnew.1).mpr hnew.2

end Window

/-! ### Sequences of calls -/

/-- One call, with the numbers accepted so far. -/
def acceptStep (r : SptpsReplayWindow × List UInt32) (seqno : UInt32) :
    SptpsReplayWindow × List UInt32 :=
  match r.1.accept seqno with
  | (.ok (), w) => (w, seqno :: r.2)
  | (.error _, w) => (w, r.2)

/-- The window after a sequence of calls on a new one, and the numbers accepted, newest first. -/
def acceptAll (windowBytes : ℕ) (calls : List UInt32) : SptpsReplayWindow × List UInt32 :=
  calls.foldl acceptStep (new windowBytes, [])

/-- As long as the largest number was not accepted, the ring tracks the accepted numbers. -/
def Agrees (wb : ℕ) (r : SptpsReplayWindow × List UInt32) : Prop :=
  U32.max ∈ r.2 ∨ r.1.windowBytes = wb ∧
    SlidingWindow.Tracks (8 * wb) r.1.bit r.1.expectedSeqno.toNat (r.2.map UInt32.toNat)

/-- One sequence number is accepted as the specification says. -/
lemma acceptStep_agrees {wb : ℕ} (hwb : 0 < wb) (hbits : 8 * wb < 2 ^ 32)
    {r : SptpsReplayWindow × List UInt32} (h : Agrees wb r) (seqno : UInt32) :
    Agrees wb (acceptStep r seqno) := by
  obtain ⟨w, seen⟩ := r
  rw [acceptStep]
  split
  · next w' hacc =>
      rcases h with h | ⟨hw, h⟩
      · exact Or.inl (List.mem_cons_of_mem _ h)
      · by_cases hmax : seqno = U32.max
        · exact Or.inl (hmax ▸ List.mem_cons_self)
        · exact Or.inr (accept_tracks hwb hbits hw h hacc hmax)
  · next e w' hacc =>
      obtain ⟨far, rfl⟩ := accept_error hacc
      exact h

lemma acceptAll_agrees {wb : ℕ} (hwb : 0 < wb) (hbits : 8 * wb < 2 ^ 32) (calls : List UInt32) :
    Agrees wb (acceptAll wb calls) := by
  have hrun : ∀ (calls : List UInt32) (r : SptpsReplayWindow × List UInt32), Agrees wb r →
      Agrees wb (calls.foldl acceptStep r) := by
    intro calls
    induction calls with
    | nil => exact fun _ h => h
    | cons seqno calls ih => exact fun r h => ih _ (acceptStep_agrees hwb hbits h seqno)
  exact hrun calls _ (Or.inr ⟨rfl, SlidingWindow.Tracks.init _ _⟩)

/-- **Exactly once**: over any sequence of calls no number is accepted twice, a number below
the expected one is accepted exactly when it lies in the window and was not accepted before, and
`verify` answers what `accept` would, on a window that it leaves as it is. -/
theorem acceptAll_exactly_once (wb : ℕ) (hwb : 1 ≤ wb) (hbits : 8 * wb < 2 ^ 32)
    (calls : List UInt32) (hmax : U32.max ∉ (acceptAll wb calls).2) :
    let w := (acceptAll wb calls).1
    let accepted := (acceptAll wb calls).2
    accepted.Nodup ∧
      (∀ seqno < w.expectedSeqno, (w.accept seqno).1 = .ok () ↔
        w.expectedSeqno.toNat ≤ seqno.toNat + 8 * wb ∧ seqno ∉ accepted) ∧
      ∀ seqno, w.verify seqno = (w.accept seqno).1 ∧ (w.check seqno false).2 = w := by
  intro w accepted
  obtain ⟨hw, htracks⟩ := (acceptAll_agrees hwb hbits calls).resolve_left hmax
  refine ⟨htracks.nodup.of_map _, fun seqno hlt => ?_, fun seqno => ?_⟩
  · have hmem : seqno.toNat ∈ accepted.map UInt32.toNat ↔ seqno ∈ accepted :=
      List.mem_map_of_injective fun _ _ => UInt32.toNat_inj.mp
    rw [accept_of_lt_iff hwb hbits hw htracks hlt, hmem]
  · exact ⟨check_fst w seqno, check_false_snd w seqno⟩

/-- A window of one byte: a skipped number still passes once, and a far one at once. -/
theorem acceptAll_exactly_once_skip :
    let w := (acceptAll 1 [0, 3, 1, 20, 1]).1
    let accepted := (acceptAll 1 [0, 3, 1, 20, 1]).2
    accepted.Nodup ∧
      (∀ seqno < w.expectedSeqno, (w.accept seqno).1 = .ok () ↔
        w.expectedSeqno.toNat ≤ seqno.toNat + 8 * 1 ∧ seqno ∉ accepted) ∧
      ∀ seqno, w.verify seqno = (w.accept seqno).1 ∧ (w.check seqno false).2 = w :=
  acceptAll_exactly_once 1 (by decide) (by decide) [0, 3, 1, 20, 1] (by decide +kernel)

end SptpsReplayWindow

end RustyTinc

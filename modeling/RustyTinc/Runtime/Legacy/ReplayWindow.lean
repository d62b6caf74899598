import RustyTinc.Runtime.Legacy.Packet
import RustyTinc.Runtime.Sptps.ReplayWindow

/-!
The replay window of legacy UDP datagrams. Its ring of bits is that of the window of SPTPS, but it
starts after the largest number that was accepted, and a jump clears it.

* `accept_cases`: what the window becomes when it accepts a number;
* `accept_tracks`: the ring tracks the numbers that can not be accepted any more.
-/

namespace RustyTinc

/-- A ring of bits, in which a number below the largest one is set while it is late. -/
structure LegacyReplayWindow where
  windowBytes : ℕ
  /-- The largest number that was accepted. -/
  receivedSeqno : UInt32
  received : UInt32
  farFuture : UInt32
  late : Vector (BitVec 8) windowBytes
deriving DecidableEq

namespace LegacyReplayWindow

/-- A window before the first number. -/
def new (windowBytes : ℕ) : LegacyReplayWindow :=
  ⟨windowBytes, 0, 0, 0, Vector.replicate windowBytes 0⟩

/-- `self.late.fill(0)` -/
def clearAll (w : LegacyReplayWindow) : LegacyReplayWindow :=
  { w with late := Vector.replicate w.windowBytes 0 }

/-- The window as it was at the start. -/
def reset (w : LegacyReplayWindow) : LegacyReplayWindow :=
  { w with receivedSeqno := 0, received := 0, farFuture := 0 }.clearAll

/-- The number may still come. -/
def markLate (w : LegacyReplayWindow) (seqno : UInt32) : LegacyReplayWindow :=
  if h : w.windowBytes = 0 then w
  else
    let index : Fin w.windowBytes :=
      ⟨seqno.toNat / 8 % w.windowBytes, Nat.mod_lt _ (Nat.pos_of_ne_zero h)⟩
    { w with late := w.late.set index (w.late.get index ||| 1#8 <<< (seqno.toNat % 8)) index.isLt }

/-- The number has come. -/
def clearLate (w : LegacyReplayWindow) (seqno : UInt32) : LegacyReplayWindow :=
  if h : w.windowBytes = 0 then w
  else
    let index : Fin w.windowBytes :=
      ⟨seqno.toNat / 8 % w.windowBytes, Nat.mod_lt _ (Nat.pos_of_ne_zero h)⟩
    { w with
      late := w.late.set index (w.late.get index &&& ~~~(1#8 <<< (seqno.toNat % 8))) index.isLt }

/-- The number may still come. -/
def isMarkedLate (w : LegacyReplayWindow) (seqno : UInt32) : Bool :=
  if h : w.windowBytes = 0 then false
  else
    let index : Fin w.windowBytes :=
      ⟨seqno.toNat / 8 % w.windowBytes, Nat.mod_lt _ (Nat.pos_of_ne_zero h)⟩
    w.late.get index &&& 1#8 <<< (seqno.toNat % 8) ≠ 0

/-- `self.window_bytes.saturating_mul(8)`, with 64 bits for a `usize`. -/
def windowBits (w : LegacyReplayWindow) : ℕ := min (w.windowBytes * 8) (2 ^ 64 - 1)

/-- The loop that marks the numbers between `received_seqno` and `seqno` as late. -/
def markMissed (w : LegacyReplayWindow) (seqno : UInt32) : LegacyReplayWindow :=
  let first := U32.saturatingAdd w.receivedSeqno 1
  (List.range' first.toNat (seqno.toNat - first.toNat)).foldl
    (fun w missed => w.markLate (UInt32.ofNat missed)) w

/-- A number that passed is not late any more. -/
def clearPassed (w : LegacyReplayWindow) (seqno : UInt32) : LegacyReplayWindow :=
  if w.windowBits ≠ 0 then { w with farFuture := 0 }.clearLate seqno else w

/-- The end of `accept`, for a number that passed. -/
def settle (w : LegacyReplayWindow) (seqno : UInt32) : LegacyReplayWindow :=
  let w := w.clearPassed seqno
  { w with
    receivedSeqno := if w.receivedSeqno < seqno then seqno else w.receivedSeqno
    received := U32.saturatingAdd w.received 1 }

/-- On an error the window may still have been changed. -/
def accept (w : LegacyReplayWindow) (seqno : UInt32) :
    Except LegacyPacketError Unit × LegacyReplayWindow :=
  if w.windowBits ≠ 0 ∧ seqno ≠ w.receivedSeqno + 1 then
    let futureCutoff := U32.saturatingAdd w.receivedSeqno (U32.tryFrom w.windowBits)
    if futureCutoff ≤ seqno then
      let count := U32.saturatingAdd w.farFuture 1
      let w := { w with farFuture := count }
      if count ≤ U32.tryFrom (w.windowBytes >>> 2) then
        let distance := U32.saturatingSub (U32.saturatingSub seqno w.receivedSeqno) 1
        (.error (.farFuture seqno w.receivedSeqno distance count), w)
      else (.ok (), w.clearAll.settle seqno)
    else if seqno ≤ w.receivedSeqno then
      let outsideWindow := UInt32.ofNat w.windowBits ≤ w.receivedSeqno ∧
        seqno ≤ w.receivedSeqno - UInt32.ofNat w.windowBits
      if outsideWindow ∨ w.isMarkedLate seqno = false then
        (.error (.replayed seqno w.receivedSeqno), w)
      else (.ok (), w.settle seqno)
    else (.ok (), (w.markMissed seqno).settle seqno)
  else (.ok (), w.settle seqno)

/-! ### The ring of bits -/

lemma reset_eq_new (w : LegacyReplayWindow) : w.reset = new w.windowBytes := rfl

/-- The same ring in the window of SPTPS. -/
def ring (w : LegacyReplayWindow) : SptpsReplayWindow :=
  ⟨w.windowBytes, w.receivedSeqno + 1, 0, 0, w.late⟩

/-- Whether the bit number `t` of the ring is set. -/
def bit (w : LegacyReplayWindow) (t : ℕ) : Prop := w.ring.bit t

@[simp] lemma markLate_windowBytes (w : LegacyReplayWindow) (seqno : UInt32) :
    (w.markLate seqno).windowBytes = w.windowBytes := by
  rw [markLate]
  split_ifs <;> rfl

@[simp] lemma markLate_receivedSeqno (w : LegacyReplayWindow) (seqno : UInt32) :
    (w.markLate seqno).receivedSeqno = w.receivedSeqno := by
  rw [markLate]
  split_ifs <;> rfl

@[simp] lemma clearLate_windowBytes (w : LegacyReplayWindow) (seqno : UInt32) :
    (w.clearLate seqno).windowBytes = w.windowBytes := by
  rw [clearLate]
  split_ifs <;> rfl

@[simp] lemma clearLate_receivedSeqno (w : LegacyReplayWindow) (seqno : UInt32) :
    (w.clearLate seqno).receivedSeqno = w.receivedSeqno := by
  rw [clearLate]
  split_ifs <;> rfl

/-- Missed numbers change bits of the ring only. -/
lemma markMissed_untouched (w : LegacyReplayWindow) (seqno : UInt32) :
    (w.markMissed seqno).windowBytes = w.windowBytes ∧
      (w.markMissed seqno).receivedSeqno = w.receivedSeqno := by
  have hfold : ∀ (numbers : List ℕ) (w : LegacyReplayWindow),
      (numbers.foldl (fun w missed => w.markLate (UInt32.ofNat missed)) w).windowBytes =
        w.windowBytes ∧
      (numbers.foldl (fun w missed => w.markLate (UInt32.ofNat missed)) w).receivedSeqno =
        w.receivedSeqno := by
    intro numbers
    induction numbers with
    | nil => exact fun _ => ⟨rfl, rfl⟩
    | cons missed numbers ih =>
        intro w
        obtain ⟨hwindow, hreceived⟩ := ih (w.markLate (UInt32.ofNat missed))
        exact ⟨hwindow.trans (markLate_windowBytes w _),
          hreceived.trans (markLate_receivedSeqno w _)⟩
  exact hfold _ w

@[simp] lemma markMissed_windowBytes (w : LegacyReplayWindow) (seqno : UInt32) :
    (w.markMissed seqno).windowBytes = w.windowBytes := (w.markMissed_untouched seqno).1

@[simp] lemma markMissed_receivedSeqno (w : LegacyReplayWindow) (seqno : UInt32) :
    (w.markMissed seqno).receivedSeqno = w.receivedSeqno := (w.markMissed_untouched seqno).2

@[simp] lemma settle_windowBytes (w : LegacyReplayWindow) (seqno : UInt32) :
    (w.settle seqno).windowBytes = w.windowBytes := by
  show (w.clearPassed seqno).windowBytes = w.windowBytes
  rw [clearPassed]
  split_ifs
  · exact clearLate_windowBytes _ _
  · rfl

lemma settle_receivedSeqno (w : LegacyReplayWindow) (seqno : UInt32) :
    (w.settle seqno).receivedSeqno =
      if w.receivedSeqno < seqno then seqno else w.receivedSeqno := by
  have hpassed : (w.clearPassed seqno).receivedSeqno = w.receivedSeqno := by
    rw [clearPassed]
    split_ifs
    · exact clearLate_receivedSeqno _ _
    · rfl
  rw [settle, hpassed]

lemma ring_markLate (w : LegacyReplayWindow) (seqno : UInt32) :
    (w.markLate seqno).ring = w.ring.markLate seqno := by
  rw [markLate, SptpsReplayWindow.markLate]
  split_ifs with h1 h2 h2
  · rfl
  · exact absurd h1 h2
  · exact absurd h2 h1
  · rfl

lemma ring_clearLate (w : LegacyReplayWindow) (seqno : UInt32) :
    (w.clearLate seqno).ring = w.ring.clearLate seqno := by
  rw [clearLate, SptpsReplayWindow.clearLate]
  split_ifs with h1 h2 h2
  · rfl
  · exact absurd h1 h2
  · exact absurd h2 h1
  · rfl

lemma ring_foldl_markLate (numbers : List ℕ) (w : LegacyReplayWindow) :
    (numbers.foldl (fun w missed => w.markLate (UInt32.ofNat missed)) w).ring =
      numbers.foldl (fun w missed => w.markLate (UInt32.ofNat missed)) w.ring := by
  induction numbers generalizing w with
  | nil => rfl
  | cons missed numbers ih => rw [List.foldl_cons, List.foldl_cons, ih, ring_markLate]

lemma isMarkedLate_iff {w : LegacyReplayWindow} (hw : 0 < w.windowBytes) (seqno : UInt32) :
    w.isMarkedLate seqno = true ↔ w.bit (seqno.toNat % (8 * w.windowBytes)) :=
  SptpsReplayWindow.isMarkedLate_iff (w := w.ring) hw seqno

lemma bit_new {windowBytes t : ℕ} (ht : t < 8 * windowBytes) : ¬ (new windowBytes).bit t := by
  have hdiv : t / 8 < windowBytes := by omega
  show ¬ ((Vector.replicate windowBytes (0 : BitVec 8))[t / 8]?.getD 0).getLsbD (t % 8) = true
  rw [Vector.getElem?_replicate, if_pos hdiv, Option.getD_some]
  simp

lemma bit_clearAll (w : LegacyReplayWindow) {t : ℕ} (ht : t < 8 * w.windowBytes) :
    ¬ w.clearAll.bit t :=
  bit_new ht

section Window

variable {w : LegacyReplayWindow} {seqno : UInt32}

/-- The number after the largest one. -/
lemma toNat_succ (hmax : seqno ≠ U32.max) : (seqno + 1).toNat = seqno.toNat + 1 := by
  have hmax' : seqno.toNat ≠ 2 ^ 32 - 1 := fun h => hmax (UInt32.toNat_inj.mp h)
  have hlt := seqno.toNat_lt
  rw [UInt32.toNat_add]
  exact Nat.mod_eq_of_lt (by show seqno.toNat + 1 < 2 ^ 32; omega)

/-- The loop over the skipped numbers marks exactly these. -/
lemma bit_markMissed (hw : 0 < w.windowBytes) (hmax : w.receivedSeqno ≠ U32.max)
    (hlt : w.receivedSeqno < seqno) {t : ℕ} (ht : t < 8 * w.windowBytes) :
    (w.markMissed seqno).bit t ↔ w.bit t ∨
      ∃ s, w.receivedSeqno.toNat + 1 ≤ s ∧ s < seqno.toNat ∧ t = s % (8 * w.windowBytes) := by
  have hlt' := UInt32.lt_iff_toNat_lt.mp hlt
  have hsucc := toNat_succ hmax
  have hfirst : U32.saturatingAdd w.receivedSeqno 1 = w.receivedSeqno + 1 := by
    have hbound := seqno.toNat_lt
    rw [U32.saturatingAdd, if_pos]
    show w.receivedSeqno.toNat + 1 < 2 ^ 32
    omega
  have hring : (w.markMissed seqno).ring = w.ring.markMissed seqno := by
    rw [markMissed, SptpsReplayWindow.markMissed, ← ring_foldl_markLate, hfirst]
    rfl
  have hle : w.ring.expectedSeqno ≤ seqno := by
    rw [UInt32.le_iff_toNat_le]
    show (w.receivedSeqno + 1).toNat ≤ seqno.toNat
    omega
  obtain ⟨-, -, hbit⟩ := SptpsReplayWindow.markMissed_spec (w := w.ring) hw hle
  rw [← hsucc, bit, hring]
  exact hbit t ht

/-- A number that passed is not marked any more. -/
lemma bit_settle (hw : 0 < w.windowBytes) {t : ℕ} (ht : t < 8 * w.windowBytes) :
    (w.settle seqno).bit t ↔ t ≠ seqno.toNat % (8 * w.windowBytes) ∧ w.bit t := by
  have hbits : w.windowBits ≠ 0 := by
    rw [windowBits]
    omega
  have hbit : (w.settle seqno).bit t ↔ (w.clearPassed seqno).bit t := Iff.rfl
  rw [hbit, clearPassed, if_pos hbits, bit, ring_clearLate]
  exact SptpsReplayWindow.bit_clearLate (w := w.ring) hw seqno ht

/-- The bound above which a number is far in the future. -/
lemma toNat_futureCutoff :
    (U32.saturatingAdd w.receivedSeqno (U32.tryFrom w.windowBits)).toNat =
      min (w.receivedSeqno.toNat + 8 * w.windowBytes) (2 ^ 32 - 1) := by
  have hbits : (U32.tryFrom w.windowBits).toNat = min (8 * w.windowBytes) (2 ^ 32 - 1) := by
    rw [U32.tryFrom]
    split_ifs with h
    · rw [UInt32.toNat_ofNat_of_lt' h, windowBits] at *
      omega
    · rw [U32.toNat_max]
      rw [windowBits] at h
      omega
  rw [U32.toNat_saturatingAdd, hbits]
  omega

/-- What is not outside the window lies in it. -/
lemma inWindow (h : ¬ (UInt32.ofNat w.windowBits ≤ w.receivedSeqno ∧
      seqno ≤ w.receivedSeqno - UInt32.ofNat w.windowBits)) :
    w.receivedSeqno.toNat + 1 ≤ seqno.toNat + 8 * w.windowBytes := by
  have hrec := w.receivedSeqno.toNat_lt
  by_contra hout
  have hlt : w.windowBits < 2 ^ 32 := by
    rw [windowBits]
    omega
  have hbits : (UInt32.ofNat w.windowBits).toNat = 8 * w.windowBytes := by
    rw [UInt32.toNat_ofNat_of_lt' hlt, windowBits]
    rw [windowBits] at hlt
    omega
  have hle : UInt32.ofNat w.windowBits ≤ w.receivedSeqno := by
    rw [UInt32.le_iff_toNat_le, hbits]
    omega
  refine h ⟨hle, ?_⟩
  rw [UInt32.le_iff_toNat_le, UInt32.toNat_sub_of_le _ _ hle, hbits]
  omega

/-- The three ways in which a number passes: it was marked late, it is ahead by less than a window,
or it is further ahead and all bits are cleared. -/
lemma accept_cases (hw : 0 < w.windowBytes) (hmax : w.receivedSeqno ≠ U32.max)
    (hseq : seqno ≠ U32.max) {w' : LegacyReplayWindow} (h : w.accept seqno = (.ok (), w')) :
    (seqno ≤ w.receivedSeqno ∧ w.receivedSeqno.toNat + 1 ≤ seqno.toNat + 8 * w.windowBytes ∧
      w.isMarkedLate seqno = true ∧ w' = w.settle seqno) ∨
    (w.receivedSeqno < seqno ∧ seqno.toNat < w.receivedSeqno.toNat + 8 * w.windowBytes ∧
      w' = (w.markMissed seqno).settle seqno) ∨
    (w.receivedSeqno.toNat + 8 * w.windowBytes ≤ seqno.toNat ∧
      ∃ far, w' = ({ w with farFuture := far } : LegacyReplayWindow).clearAll.settle seqno) := by
  have hseq' : seqno.toNat ≠ 2 ^ 32 - 1 := fun h => hseq (UInt32.toNat_inj.mp h)
  have hbound := seqno.toNat_lt
  have hcut := toNat_futureCutoff (w := w)
  have hbits : w.windowBits ≠ 0 := by
    rw [windowBits]
    omega
  simp only [accept] at h
  split_ifs at h with hne hfar hfew hle hout
  · cases h
  · -- ahead by more than a window
    refine Or.inr (Or.inr ⟨?_, _, (Prod.mk.inj h).2.symm⟩)
    rw [UInt32.le_iff_toNat_le, hcut] at hfar
    omega
  · cases h
  · -- marked late
    obtain ⟨hin, hmark⟩ := not_or.mp hout
    exact Or.inl ⟨hle, inWindow hin, eq_true_of_ne_false hmark, (Prod.mk.inj h).2.symm⟩
  · -- ahead, in the window
    rw [UInt32.not_le] at hfar hle
    refine Or.inr (Or.inl ⟨hle, ?_, (Prod.mk.inj h).2.symm⟩)
    rw [UInt32.lt_iff_toNat_lt, hcut] at hfar
    omega
  · -- the next number
    have heq : seqno = w.receivedSeqno + 1 := not_not.mp fun hne' => hne ⟨hbits, hne'⟩
    have hsucc := toNat_succ hmax
    have hmissed : w.markMissed seqno = w := by
      have hfirst : (U32.saturatingAdd w.receivedSeqno 1).toNat = w.receivedSeqno.toNat + 1 := by
        rw [U32.toNat_saturatingAdd]
        show min (w.receivedSeqno.toNat + 1) _ = _
        rw [heq, hsucc] at hbound
        omega
      rw [markMissed, hfirst, heq, hsucc, Nat.sub_self]
      rfl
    refine Or.inr (Or.inl ⟨?_, ?_, ?_⟩)
    · rw [UInt32.lt_iff_toNat_lt, heq, hsucc]
      omega
    · rw [heq, hsucc]
      omega
    · rw [hmissed]
      exact (Prod.mk.inj h).2.symm

/-- The numbers that the window gives up when a number passes: those that it skips when it is
further ahead than a window. -/
def givenUp (w : LegacyReplayWindow) (seqno : UInt32) : List ℕ :=
  if w.receivedSeqno.toNat + 8 * w.windowBytes ≤ seqno.toNat then
    List.range' (w.receivedSeqno.toNat + 1) (seqno.toNat - (w.receivedSeqno.toNat + 1))
  else []

/-- **A number that passes is new, and joins the numbers that can not pass any more**, with those
that it gives up. -/
lemma accept_tracks (hw : 0 < w.windowBytes) (hmax : w.receivedSeqno ≠ U32.max)
    (hseq : seqno ≠ U32.max) {closed : List ℕ}
    (h : SlidingWindow.Tracks (8 * w.windowBytes) w.bit (w.receivedSeqno.toNat + 1) closed)
    {w' : LegacyReplayWindow} (hacc : w.accept seqno = (.ok (), w')) :
    w'.windowBytes = w.windowBytes ∧ w'.receivedSeqno ≠ U32.max ∧
      w'.receivedSeqno.toNat = max w.receivedSeqno.toNat seqno.toNat ∧
      SlidingWindow.Tracks (8 * w.windowBytes) w'.bit (w'.receivedSeqno.toNat + 1)
        (seqno.toNat :: (w.givenUp seqno ++ closed)) := by
  have hpos : 0 < 8 * w.windowBytes := by omega
  rcases accept_cases hw hmax hseq hacc with ⟨hle, hin, hmark, rfl⟩ | ⟨hlt, hnear, rfl⟩ |
    ⟨hfar, far, rfl⟩
  · have hle' := UInt32.le_iff_toNat_le.mp hle
    have hnew : seqno.toNat ∉ closed := by
      rw [← h.bit_iff _ (by omega) hin, ← isMarkedLate_iff hw]
      exact hmark
    rw [settle_receivedSeqno, if_neg (UInt32.not_lt.mpr hle), givenUp, if_neg (by omega)]
    exact ⟨settle_windowBytes w _, hmax, (max_eq_left hle').symm,
      (h.late (by omega) hin hnew).congr hpos fun t ht => bit_settle hw ht⟩
  · have hwb := markMissed_windowBytes w seqno
    have hlt' := UInt32.lt_iff_toNat_lt.mp hlt
    rw [settle_receivedSeqno, markMissed_receivedSeqno, if_pos hlt, settle_windowBytes, hwb]
    refine ⟨rfl, hseq, (max_eq_right hlt'.le).symm, ?_⟩
    rw [givenUp, if_neg (by omega)]
    refine (h.advance hlt' (by omega)).congr hpos fun t ht => ?_
    rw [bit_settle (hwb.symm ▸ hw) (hwb.symm ▸ ht), hwb, bit_markMissed hw hmax hlt ht]
  · have hlt : w.receivedSeqno < seqno := by
      rw [UInt32.lt_iff_toNat_lt]
      omega
    have hlt' := UInt32.lt_iff_toNat_lt.mp hlt
    have hrec := (settle_receivedSeqno ({ w with farFuture := far } : LegacyReplayWindow).clearAll
      seqno).trans (if_pos hlt)
    rw [hrec, givenUp, if_pos hfar]
    refine ⟨settle_windowBytes _ _, hseq, (max_eq_right hlt'.le).symm, ?_⟩
    refine (h.giveUp (by omega) hlt').congr hpos fun t ht => ?_
    rw [iff_false]
    exact fun hbit => bit_clearAll _ ht
      ((bit_settle (w := ({ w with farFuture := far } : LegacyReplayWindow).clearAll) hw ht).mp hbit).2

/-- A number above the largest one passes, or it is counted as one more from the far future. -/
lemma accept_above (hlt : w.receivedSeqno < seqno) (hseq : seqno ≠ U32.max) :
    (∃ w', w.accept seqno = (.ok (), w') ∧ w'.windowBytes = w.windowBytes ∧
      w'.receivedSeqno = seqno) ∨
    ∃ e far, w.accept seqno = (.error e, { w with farFuture := far }) ∧
      far.toNat = w.farFuture.toNat + 1 ∧ far.toNat ≤ w.windowBytes / 4 := by
  have hseq' : seqno.toNat ≠ 2 ^ 32 - 1 := fun h => hseq (UInt32.toNat_inj.mp h)
  have hbound := seqno.toNat_lt
  have hcut := toNat_futureCutoff (w := w)
  simp only [accept]
  split_ifs with hne hfar hfew hle hout
  · -- counted: the window is smaller than the distance, so that the count does not saturate
    refine Or.inr ⟨_, _, rfl, ?_⟩
    rw [UInt32.le_iff_toNat_le, hcut] at hfar
    have hquarter : (U32.tryFrom (w.windowBytes >>> 2)).toNat = w.windowBytes / 4 := by
      rw [Nat.shiftRight_eq_div_pow, U32.toNat_tryFrom (by omega)]
    rw [UInt32.le_iff_toNat_le, hquarter, U32.toNat_saturatingAdd] at hfew
    rw [U32.toNat_saturatingAdd]
    have hone : (1 : UInt32).toNat = 1 := rfl
    omega
  · refine Or.inl ⟨_, rfl, settle_windowBytes _ _, ?_⟩
    exact (settle_receivedSeqno _ _).trans (if_pos hlt)
  · exact absurd hlt (UInt32.not_lt.mpr hle)
  · exact absurd hlt (UInt32.not_lt.mpr hle)
  · refine Or.inl ⟨_, rfl, (settle_windowBytes _ _).trans (markMissed_windowBytes w _), ?_⟩
    rw [settle_receivedSeqno, markMissed_receivedSeqno, if_pos hlt]
  · refine Or.inl ⟨_, rfl, settle_windowBytes _ _, ?_⟩
    rw [settle_receivedSeqno, if_pos hlt]

/-- The largest number after a call is the one before it or that of the call. -/
lemma accept_le {bound : UInt32} (hrec : w.receivedSeqno ≤ bound) (hseq : seqno ≤ bound)
    {w' : LegacyReplayWindow} (h : w.accept seqno = (.ok (), w')) : w'.receivedSeqno ≤ bound := by
  have hsettle : ∀ v : LegacyReplayWindow, v.receivedSeqno ≤ bound →
      (v.settle seqno).receivedSeqno ≤ bound := by
    intro v hv
    rw [settle_receivedSeqno]
    split_ifs
    · exact hseq
    · exact hv
  simp only [accept] at h
  split_ifs at h <;> cases h
  · exact hsettle _ hrec
  · exact hsettle _ hrec
  · exact hsettle _ ((markMissed_receivedSeqno w seqno).symm ▸ hrec)
  · exact hsettle _ hrec

/-- A call that answers an error only counts. -/
lemma accept_error {w' : LegacyReplayWindow} {e : LegacyPacketError}
    (h : w.accept seqno = (.error e, w')) : ∃ far, w' = { w with farFuture := far } := by
  simp only [accept] at h
  split_ifs at h <;> cases h
  · exact ⟨_, rfl⟩
  · exact ⟨w.farFuture, rfl⟩

end Window

/-- A new window tracks its numbers from zero on. -/
lemma new_tracks (windowBytes : ℕ) : SlidingWindow.Tracks (8 * windowBytes) (new windowBytes).bit
    ((new windowBytes).receivedSeqno.toNat + 1) [0] where
  lt_next s hs := by
    rw [List.mem_singleton.mp hs]
    exact Nat.succ_pos _
  nodup := List.nodup_singleton 0
  bit_iff s hs hwin := by
    have hzero : s = 0 := Nat.lt_one_iff.mp hs
    have hpos : 0 < 8 * windowBytes := by
      have : (0 : ℕ) + 1 ≤ s + 8 * windowBytes := hwin
      omega
    refine iff_of_false (bit_new (Nat.mod_lt _ hpos)) ?_
    rw [hzero]
    simp

end LegacyReplayWindow

end RustyTinc

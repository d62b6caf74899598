import RustyTinc.Runtime.Legacy.ReplayWindow

/-!
What a legacy replay window accepts, over a whole sequence of numbers.

* `Skipped`: a number was skipped by an advance in the window, and not accepted since;
* `Records.accept`: what one call keeps, with the numbers that can not pass any more;
* `judges_iff`: no number passes twice, and the late numbers that pass are those in the window
  that were skipped, for every sequence, exactly when the size of the window is not truncated.
-/

namespace RustyTinc

namespace LegacyReplayWindow

/-- A number passes. -/
def Accepts (w : LegacyReplayWindow) (seqno : UInt32) : Prop := (w.accept seqno).1 = .ok ()

instance (w : LegacyReplayWindow) (seqno : UInt32) : Decidable (w.Accepts seqno) :=
  match h : (w.accept seqno).1 with
  | .ok () => isTrue h
  | .error _ => isFalse fun h' => by rw [Accepts, h] at h'; cases h'

/-- The window after a sequence of numbers. -/
def acceptAll (w : LegacyReplayWindow) (seqnos : List UInt32) : LegacyReplayWindow :=
  seqnos.foldl (fun w seqno => (w.accept seqno).2) w

/-- The numbers of a sequence that pass, in order. -/
def accepted : LegacyReplayWindow → List UInt32 → List UInt32
  | _, [] => []
  | w, seqno :: seqnos =>
      (if w.Accepts seqno then [seqno] else []) ++ (w.accept seqno).2.accepted seqnos

/-- A number lies less than a window behind the largest one. -/
def InWindow (w : LegacyReplayWindow) (seqno : UInt32) : Prop :=
  w.receivedSeqno.toNat < seqno.toNat + 8 * w.windowBytes

/-- Accepting `seqno` advances the window by less than its size, and skips `s`. -/
def Skips (w : LegacyReplayWindow) (seqno s : UInt32) : Prop :=
  w.Accepts seqno ∧ w.receivedSeqno < s ∧ s < seqno ∧
    seqno.toNat < w.receivedSeqno.toNat + 8 * w.windowBytes

/-- In the sequence a number was skipped by an advance in the window, and it has not been accepted
since. -/
def Skipped (w : LegacyReplayWindow) (seqnos : List UInt32) (s : UInt32) : Prop :=
  ∃ before seqno after, seqnos = before ++ seqno :: after ∧ (w.acceptAll before).Skips seqno s ∧
    s ∉ (w.acceptAll (before ++ [seqno])).accepted after

/-! ### Sequences -/

variable {w : LegacyReplayWindow} {seqno s : UInt32} {seqnos : List UInt32}

lemma acceptAll_append (w : LegacyReplayWindow) (seqnos seqnos' : List UInt32) :
    w.acceptAll (seqnos ++ seqnos') = (w.acceptAll seqnos).acceptAll seqnos' :=
  List.foldl_append

lemma acceptAll_concat (w : LegacyReplayWindow) (seqnos : List UInt32) (seqno : UInt32) :
    w.acceptAll (seqnos ++ [seqno]) = ((w.acceptAll seqnos).accept seqno).2 :=
  acceptAll_append w seqnos [seqno]

lemma accepted_append (w : LegacyReplayWindow) (seqnos seqnos' : List UInt32) :
    w.accepted (seqnos ++ seqnos') =
      w.accepted seqnos ++ (w.acceptAll seqnos).accepted seqnos' := by
  induction seqnos generalizing w with
  | nil => rfl
  | cons seqno seqnos ih =>
      rw [List.cons_append, accepted, ih, accepted, List.append_assoc]
      rfl

lemma mem_accepted_singleton : s ∈ w.accepted [seqno] ↔ w.Accepts seqno ∧ s = seqno := by
  rw [accepted, accepted, List.append_nil]
  split_ifs with h
  · simp [h]
  · simp [h]

/-- A sequence that ends with one more number. -/
lemma skipped_concat : w.Skipped (seqnos ++ [seqno]) s ↔
    (w.acceptAll seqnos).Skips seqno s ∨
      w.Skipped seqnos s ∧ ¬ ((w.acceptAll seqnos).Accepts seqno ∧ s = seqno) := by
  constructor
  · rintro ⟨before, m, after, heq, hskips, hnot⟩
    rcases List.eq_nil_or_concat after with rfl | ⟨after, last, rfl⟩
    · obtain ⟨rfl, hm⟩ := List.append_inj' heq rfl
      obtain rfl : seqno = m := (List.cons.inj hm).1
      exact Or.inl hskips
    · rw [List.concat_eq_append, ← List.cons_append, ← List.append_assoc] at heq
      obtain ⟨rfl, hlast⟩ := List.append_inj' heq rfl
      obtain rfl : seqno = last := (List.cons.inj hlast).1
      rw [List.concat_eq_append, accepted_append, List.mem_append, not_or,
        mem_accepted_singleton, ← acceptAll_append, List.append_assoc] at hnot
      exact Or.inr ⟨⟨before, m, after, rfl, hskips, hnot.1⟩, hnot.2⟩
  · rintro (hskips | ⟨⟨before, m, after, rfl, hskips, hnot⟩, hnew⟩)
    · exact ⟨seqnos, seqno, [], rfl, hskips, List.not_mem_nil⟩
    · refine ⟨before, m, after ++ [seqno], by rw [List.append_assoc]; rfl, hskips, ?_⟩
      rw [accepted_append, List.mem_append, not_or, mem_accepted_singleton, ← acceptAll_append,
        List.append_assoc]
      exact ⟨hnot, hnew⟩

/-! ### The record of a sequence -/

/-- **What a window records of the numbers that it was asked about**: among the numbers up to the
largest one, those that can still pass are those that were skipped in the window. -/
structure Records (start : LegacyReplayWindow) (seqnos : List UInt32) (closed : List ℕ) :
    Prop where
  windowBytes_eq : (start.acceptAll seqnos).windowBytes = start.windowBytes
  received_ne : (start.acceptAll seqnos).receivedSeqno ≠ U32.max
  tracks : SlidingWindow.Tracks (8 * start.windowBytes) (start.acceptAll seqnos).bit
    ((start.acceptAll seqnos).receivedSeqno.toNat + 1) closed
  sublist : ((start.accepted seqnos).map UInt32.toNat).reverse.Sublist closed
  mem_closed : ∀ s, s ≤ (start.acceptAll seqnos).receivedSeqno →
    (s.toNat ∈ closed ↔ ¬ start.Skipped seqnos s)
  skipped_le : ∀ s, start.Skipped seqnos s → s ≤ (start.acceptAll seqnos).receivedSeqno

namespace Records

/-- A new window has seen no number. -/
lemma new (windowBytes : ℕ) : (LegacyReplayWindow.new windowBytes).Records [] [0] where
  windowBytes_eq := rfl
  received_ne := show (0 : UInt32) ≠ U32.max by decide
  tracks := new_tracks windowBytes
  sublist := List.nil_sublist _
  mem_closed s hs := by
    have hzero : s.toNat = 0 := Nat.le_zero.mp (UInt32.le_iff_toNat_le.mp hs)
    refine iff_of_true (by simp [hzero]) ?_
    rintro ⟨before, m, after, heq, -⟩
    simp at heq
  skipped_le s h := by
    obtain ⟨before, m, after, heq, -⟩ := h
    simp at heq

variable {start : LegacyReplayWindow} {closed : List ℕ}

/-- A number that does not pass leaves the record as it is. -/
lemma refuse (h : start.Records seqnos closed) (hrefuse : ¬ (start.acceptAll seqnos).Accepts seqno) :
    start.Records (seqnos ++ [seqno]) closed := by
  obtain ⟨far, hfar⟩ : ∃ far, start.acceptAll (seqnos ++ [seqno]) =
      { start.acceptAll seqnos with farFuture := far } := by
    rw [acceptAll_concat]
    rcases hacc : (start.acceptAll seqnos).accept seqno with ⟨e | ⟨⟩, w'⟩
    · exact accept_error hacc
    · exact absurd (congrArg Prod.fst hacc) hrefuse
  have hskipped : ∀ s, start.Skipped (seqnos ++ [seqno]) s ↔ start.Skipped seqnos s := by
    intro s
    rw [skipped_concat]
    refine ⟨?_, fun hs => Or.inr ⟨hs, fun hacc => hrefuse hacc.1⟩⟩
    rintro (hskips | hs)
    · exact absurd hskips.1 hrefuse
    · exact hs.1
  have haccepted : start.accepted (seqnos ++ [seqno]) = start.accepted seqnos := by
    rw [accepted_append, accepted, accepted, if_neg hrefuse]
    simp
  refine ⟨?_, ?_, ?_, haccepted.symm ▸ h.sublist, fun s hs => ?_, fun s hs => ?_⟩
  · rw [hfar]
    exact h.windowBytes_eq
  · rw [hfar]
    exact h.received_ne
  · rw [hfar]
    exact h.tracks
  · rw [hskipped]
    rw [hfar] at hs
    exact h.mem_closed s hs
  · rw [hfar]
    exact h.skipped_le s ((hskipped s).mp hs)

/-- **A number that passes** is closed, with those that the window gives up. -/
lemma accept (hw : 0 < start.windowBytes) (h : start.Records seqnos closed)
    (hseq : seqno ≠ U32.max) (haccepts : (start.acceptAll seqnos).Accepts seqno) :
    start.Records (seqnos ++ [seqno])
      (seqno.toNat :: ((start.acceptAll seqnos).givenUp seqno ++ closed)) := by
  obtain ⟨windowBytes_eq, received_ne, tracks, sublist, mem_closed, skipped_le⟩ := h
  have haccepted : start.accepted (seqnos ++ [seqno]) = start.accepted seqnos ++ [seqno] := by
    rw [accepted_append, accepted, accepted, if_pos haccepts]
    rfl
  have hskipped : ∀ s, start.Skipped (seqnos ++ [seqno]) s ↔
      (start.acceptAll seqnos).Skips seqno s ∨ start.Skipped seqnos s ∧ s ≠ seqno := by
    intro s
    rw [skipped_concat]
    simp [haccepts]
  rw [← windowBytes_eq] at tracks hw
  have hacc : (start.acceptAll seqnos).accept seqno =
      (.ok (), start.acceptAll (seqnos ++ [seqno])) := by
    rw [acceptAll_concat]
    exact Prod.ext haccepts rfl
  obtain ⟨hbytes, hne, hmax, htracks⟩ := accept_tracks hw received_ne hseq tracks hacc
  rw [windowBytes_eq] at hbytes htracks
  refine ⟨hbytes, hne, htracks, ?_, fun s hs => ?_, fun s hs => ?_⟩
  · rw [haccepted, List.map_append, List.reverse_append]
    exact (sublist.trans (List.sublist_append_right _ _)).cons_cons _
  · rw [hskipped]
    rw [UInt32.le_iff_toNat_le, hmax] at hs
    have hskips : (start.acceptAll seqnos).Skips seqno s ↔
        (start.acceptAll seqnos).receivedSeqno.toNat < s.toNat ∧ s.toNat < seqno.toNat ∧
          seqno.toNat < (start.acceptAll seqnos).receivedSeqno.toNat + 8 * start.windowBytes := by
      rw [Skips, UInt32.lt_iff_toNat_lt, UInt32.lt_iff_toNat_lt, windowBytes_eq]
      exact and_iff_right haccepts
    have hgiven : s.toNat ∈ (start.acceptAll seqnos).givenUp seqno ↔
        (start.acceptAll seqnos).receivedSeqno.toNat < s.toNat ∧ s.toNat < seqno.toNat ∧
          (start.acceptAll seqnos).receivedSeqno.toNat + 8 * start.windowBytes ≤ seqno.toNat := by
      rw [givenUp, windowBytes_eq]
      split_ifs with hfar
      · rw [List.mem_range'_1]
        omega
      · exact iff_of_false List.not_mem_nil fun h => hfar h.2.2
    rw [List.mem_cons, List.mem_append, hskips, hgiven, UInt32.toNat_inj]
    by_cases hold : s ≤ (start.acceptAll seqnos).receivedSeqno
    · -- a number of the old record
      have hold' := UInt32.le_iff_toNat_le.mp hold
      have hmem := mem_closed s hold
      rw [hmem]
      have hnew : ¬ (start.acceptAll seqnos).receivedSeqno.toNat < s.toNat := not_lt.mpr hold'
      simp only [hnew, false_and, false_or, not_and, ne_eq, not_not]
      rw [or_comm, ← imp_iff_not_or]
    · -- a number that was skipped now, or the one that passed
      have hold' : (start.acceptAll seqnos).receivedSeqno.toNat < s.toNat := by
        rw [← UInt32.lt_iff_toNat_lt]
        exact UInt32.not_le.mp hold
      have hclosed : s.toNat ∉ closed := fun hmem => by
        have := tracks.lt_next _ hmem
        omega
      have hnot : ¬ start.Skipped seqnos s := fun hs => hold (skipped_le s hs)
      have hne : s = seqno ↔ ¬ s.toNat < seqno.toNat := by
        rw [← UInt32.toNat_inj]
        omega
      simp only [hclosed, hnot, hne, hold', or_false, false_and, true_and]
      omega
  · rw [UInt32.le_iff_toNat_le, hmax]
    rcases (hskipped s).mp hs with hskips | hold
    · have := UInt32.lt_iff_toNat_lt.mp hskips.2.2.1
      omega
    · have := UInt32.le_iff_toNat_le.mp (skipped_le s hold.1)
      omega

/-- What a window records of a sequence from its start. -/
lemma exists_of_new {windowBytes : ℕ} (hw : 0 < windowBytes) (hseqnos : ∀ m ∈ seqnos, m ≠ U32.max) :
    ∃ closed, (LegacyReplayWindow.new windowBytes).Records seqnos closed := by
  induction seqnos using List.reverseRecOn with
  | nil => exact ⟨[0], new windowBytes⟩
  | append_singleton seqnos seqno ih =>
      obtain ⟨closed, h⟩ := ih fun m hm => hseqnos m (List.mem_append_left _ hm)
      have hseq : seqno ≠ U32.max :=
        hseqnos seqno (List.mem_append_right _ (List.mem_singleton_self _))
      by_cases haccepts : ((LegacyReplayWindow.new windowBytes).acceptAll seqnos).Accepts seqno
      · exact ⟨_, h.accept hw hseq haccepts⟩
      · exact ⟨closed, h.refuse haccepts⟩

end Records

/-! ### The size of the window -/

/-- A number up to the largest one passes when it is marked, and the window as a 32-bit number
reaches it. -/
lemma accepts_old_iff (hw : 0 < w.windowBytes) (hmax : w.receivedSeqno ≠ U32.max)
    (hle : seqno ≤ w.receivedSeqno) : w.Accepts seqno ↔
      ¬ (UInt32.ofNat w.windowBits ≤ w.receivedSeqno ∧
        seqno ≤ w.receivedSeqno - UInt32.ofNat w.windowBits) ∧ w.isMarkedLate seqno = true := by
  have hbits : w.windowBits ≠ 0 := by
    rw [windowBits]
    omega
  have hle' := UInt32.le_iff_toNat_le.mp hle
  have hmax' : w.receivedSeqno.toNat ≠ 2 ^ 32 - 1 := fun h => hmax (UInt32.toNat_inj.mp h)
  have hbound := w.receivedSeqno.toNat_lt
  have hnext : seqno ≠ w.receivedSeqno + 1 := by
    intro heq
    have := toNat_succ hmax
    rw [heq, this] at hle'
    omega
  have hnear : ¬ U32.saturatingAdd w.receivedSeqno (U32.tryFrom w.windowBits) ≤ seqno := by
    rw [UInt32.le_iff_toNat_le, toNat_futureCutoff]
    omega
  rw [Accepts, accept, if_pos ⟨hbits, hnext⟩, if_neg hnear, if_pos hle]
  simp only
  split_ifs with hout
  · refine iff_of_false (fun h => by cases h) ?_
    rintro ⟨hin, hmark⟩
    exact hout.elim hin fun hunmarked => absurd (hmark.symm.trans hunmarked) (by decide)
  · obtain ⟨hin, hmark⟩ := not_or.mp hout
    exact iff_of_true rfl ⟨hin, eq_true_of_ne_false hmark⟩

/-- The number of bits is the same as a 32-bit number, or it is more than any number. -/
def SizeKept (windowBytes : ℕ) : Prop := 8 * windowBytes < 2 ^ 32 ∨ 2 ^ 64 ≤ 8 * windowBytes

lemma toNat_windowBits (w : LegacyReplayWindow) :
    (UInt32.ofNat w.windowBits).toNat = min (8 * w.windowBytes) (2 ^ 64 - 1) % 2 ^ 32 := by
  rw [UInt32.toNat_ofNat', windowBits, Nat.mul_comm]

/-- The test of the code is that of the window, when its size is kept. -/
lemma outside_iff (hkept : SizeKept w.windowBytes) (hmax : w.receivedSeqno ≠ U32.max)
    (hle : seqno ≤ w.receivedSeqno) :
    (UInt32.ofNat w.windowBits ≤ w.receivedSeqno ∧
      seqno ≤ w.receivedSeqno - UInt32.ofNat w.windowBits) ↔ ¬ w.InWindow seqno := by
  have hmax' : w.receivedSeqno.toNat ≠ 2 ^ 32 - 1 := fun h => hmax (UInt32.toNat_inj.mp h)
  have hbound := w.receivedSeqno.toNat_lt
  have hbits := w.toNat_windowBits
  have hle' := UInt32.le_iff_toNat_le.mp hle
  rw [InWindow, not_lt]
  by_cases hreach : UInt32.ofNat w.windowBits ≤ w.receivedSeqno
  · rw [and_iff_right hreach, UInt32.le_iff_toNat_le, UInt32.toNat_sub_of_le _ _ hreach, hbits]
    rw [UInt32.le_iff_toNat_le, hbits] at hreach
    rcases hkept with hsmall | hlarge
    · rw [min_eq_left (by omega), Nat.mod_eq_of_lt hsmall] at hreach ⊢
      omega
    · rw [min_eq_right (by omega)] at hreach
      norm_num at hreach
      omega
  · rw [UInt32.le_iff_toNat_le, hbits] at hreach
    refine iff_of_false (fun h => hreach ?_) ?_
    · rw [← hbits, ← UInt32.le_iff_toNat_le]
      exact h.1
    · rcases hkept with hsmall | hlarge
      · rw [min_eq_left (by omega), Nat.mod_eq_of_lt hsmall] at hreach
        omega
      · omega

/-- **What a window of this size is to do**, with any sequence of numbers: none of them passes
twice, and a number up to the largest one passes exactly when it lies in the window, was skipped
by an advance in the window, and has not been accepted since. -/
def Judges (windowBytes : ℕ) : Prop :=
  ∀ seqnos : List UInt32, (∀ m ∈ seqnos, m < U32.max) →
    ((new windowBytes).accepted seqnos).Nodup ∧
      ∀ s ≤ ((new windowBytes).acceptAll seqnos).receivedSeqno,
        (((new windowBytes).acceptAll seqnos).Accepts s ↔
          ((new windowBytes).acceptAll seqnos).InWindow s ∧ (new windowBytes).Skipped seqnos s)

lemma ne_max_of_lt (h : s < U32.max) : s ≠ U32.max := fun heq => by
  rw [heq] at h
  exact absurd h (by decide)

variable {windowBytes : ℕ}

/-- No number passes twice, whatever the size. -/
lemma nodup_accepted (hw : 0 < windowBytes) (hseqnos : ∀ m ∈ seqnos, m < U32.max) :
    ((new windowBytes).accepted seqnos).Nodup := by
  obtain ⟨closed, h⟩ := Records.exists_of_new hw fun m hm => ne_max_of_lt (hseqnos m hm)
  have hnodup := h.tracks.nodup.sublist h.sublist
  exact (List.nodup_reverse.mp hnodup).of_map _

/-- A window whose size is kept judges every number as it should. -/
lemma judges_of_sizeKept (hw : 0 < windowBytes) (hkept : SizeKept windowBytes) :
    Judges windowBytes := by
  refine fun seqnos hseqnos => ⟨nodup_accepted hw hseqnos, fun s hs => ?_⟩
  obtain ⟨closed, h⟩ := Records.exists_of_new hw fun m hm => ne_max_of_lt (hseqnos m hm)
  have hbytes : ((new windowBytes).acceptAll seqnos).windowBytes = windowBytes := h.windowBytes_eq
  have hs' := UInt32.le_iff_toNat_le.mp hs
  rw [accepts_old_iff (hbytes.symm ▸ hw) h.received_ne hs,
    outside_iff (hbytes.symm ▸ hkept) h.received_ne hs, not_not, isMarkedLate_iff (hbytes.symm ▸ hw),
    hbytes]
  refine and_congr_right fun hin => ?_
  rw [InWindow, hbytes] at hin
  have htracks := h.tracks.bit_iff s.toNat (Nat.lt_succ_of_le hs') (by
    show _ + 1 ≤ s.toNat + 8 * windowBytes
    omega)
  rw [show (new windowBytes).windowBytes = windowBytes from rfl] at htracks
  rw [htracks, h.mem_closed s hs, not_not]

/-- A number that is ahead by less than a window passes. -/
lemma accepts_near (hlt : w.receivedSeqno < seqno) (hseq : seqno < U32.max)
    (hnear : seqno.toNat < w.receivedSeqno.toNat + 8 * w.windowBytes) :
    w.Accepts seqno ∧ (w.accept seqno).2.windowBytes = w.windowBytes ∧
      (w.accept seqno).2.receivedSeqno = seqno := by
  have hcut : ¬ U32.saturatingAdd w.receivedSeqno (U32.tryFrom w.windowBits) ≤ seqno := by
    have hseq' := UInt32.lt_iff_toNat_lt.mp hseq
    rw [U32.toNat_max] at hseq'
    rw [UInt32.le_iff_toNat_le, toNat_futureCutoff]
    omega
  have hpassed : w.Accepts seqno := by
    rw [Accepts, accept, if_neg hcut, if_neg (UInt32.not_le.mpr hlt)]
    split_ifs <;> rfl
  rcases accept_above hlt (ne_max_of_lt hseq) with ⟨w', hacc, hbytes, hrec⟩ | ⟨e, far, hacc, -⟩
  · rw [hacc]
    exact ⟨hpassed, hbytes, hrec⟩
  · rw [Accepts, hacc] at hpassed
    cases hpassed

/-- A window whose number of bits is truncated refuses a number that it has just skipped. -/
lemma not_judges (hkept : ¬ SizeKept windowBytes) : ¬ Judges windowBytes := by
  intro h
  have hrange : 2 ^ 32 ≤ 8 * windowBytes ∧ 8 * windowBytes < 2 ^ 64 := by
    rw [SizeKept] at hkept
    omega
  -- The largest number is two ahead of the truncated size.
  have hm : (8 * windowBytes % 2 ^ 32 + 2) < 2 ^ 32 - 1 := by omega
  have htoNat : (UInt32.ofNat (8 * windowBytes % 2 ^ 32 + 2)).toNat =
      8 * windowBytes % 2 ^ 32 + 2 := UInt32.toNat_ofNat_of_lt' (lt_trans hm (by decide))
  generalize UInt32.ofNat (8 * windowBytes % 2 ^ 32 + 2) = m at htoNat
  have hmax : m < U32.max := by
    rw [UInt32.lt_iff_toNat_lt, htoNat, U32.toNat_max]
    exact hm
  have hone : (1 : UInt32).toNat = 1 := rfl
  have hzero : (new windowBytes).receivedSeqno.toNat = 0 := rfl
  have hlt : (new windowBytes).receivedSeqno < m := by
    rw [UInt32.lt_iff_toNat_lt, htoNat, hzero]
    omega
  have hnear : m.toNat < (new windowBytes).receivedSeqno.toNat + 8 * windowBytes := by
    rw [htoNat, hzero]
    omega
  obtain ⟨haccepts, hbytes, hrec⟩ := accepts_near hlt hmax hnear
  have hskipped : (new windowBytes).Skipped [m] 1 := by
    refine ⟨[], m, [], rfl, ⟨haccepts, ?_, ?_, hnear⟩, List.not_mem_nil⟩
    · rw [UInt32.lt_iff_toNat_lt, hone]
      exact Nat.one_pos
    · rw [UInt32.lt_iff_toNat_lt, hone, htoNat]
      omega
  generalize hw : (new windowBytes).acceptAll [m] = w at *
  have hbytes' : w.windowBytes = windowBytes := hw ▸ hbytes
  have hrec' : w.receivedSeqno = m := hw ▸ hrec
  have hle : 1 ≤ w.receivedSeqno := by
    rw [UInt32.le_iff_toNat_le, hone, hrec', htoNat]
    omega
  have hpass : w.Accepts 1 := by
    have hall := (h [m] (fun s hs => (List.mem_singleton.mp hs) ▸ hmax)).2 1
    rw [hw] at hall
    refine (hall hle).mpr ⟨?_, hskipped⟩
    rw [InWindow, hrec', hbytes', hone, htoNat]
    omega
  have hbits : (UInt32.ofNat w.windowBits).toNat = 8 * windowBytes % 2 ^ 32 := by
    rw [toNat_windowBits, hbytes', min_eq_left (by omega)]
  have hreach : UInt32.ofNat w.windowBits ≤ w.receivedSeqno := by
    rw [UInt32.le_iff_toNat_le, hbits, hrec', htoNat]
    omega
  refine ((accepts_old_iff (by omega) (hrec' ▸ ne_max_of_lt hmax) hle).mp hpass).1 ⟨hreach, ?_⟩
  rw [UInt32.le_iff_toNat_le, UInt32.toNat_sub_of_le _ _ hreach, hbits, hrec', htoNat, hone]
  omega

/-- **A window of `windowBytes` bytes does what it is to do with every sequence of numbers exactly
when its number of bits is not truncated.** A window that has been reset is a new one
(`reset_eq_new`). -/
theorem judges_iff (hw : 0 < windowBytes) :
    Judges windowBytes ↔ 8 * windowBytes < 2 ^ 32 ∨ 2 ^ 64 ≤ 8 * windowBytes :=
  ⟨fun h => by_contra fun hkept => not_judges hkept h, judges_of_sizeKept hw⟩

theorem judges_iff_default : Judges 32 ↔ 8 * 32 < 2 ^ 32 ∨ 2 ^ 64 ≤ 8 * 32 :=
  judges_iff (by decide)

/-- A window of half a gibibyte has no bits left as a 32-bit number. -/
theorem not_judges_truncated : ¬ ∀ windowBytes ≥ 1, Judges windowBytes :=
  fun h => @not_judges (2 ^ 29) (by unfold SizeKept; omega) (h (2 ^ 29) (by omega))

end LegacyReplayWindow

end RustyTinc

import Mathlib.Tactic

/-!
A window of `n` numbers kept in a ring of `n` bits: the number `s` owns the bit `s % n`, and
the bit of a number in the window says that it has not been seen yet.

* `Tracks`: the ring agrees with the numbers seen so far, all of them below `next` and none of
  them twice;
* `Tracks.late`, `Tracks.advance`, `Tracks.jump`: the three ways to see a new number, namely
  inside the window, less than a window ahead, and further ahead than that;
* `Tracks.giveUp`: a jump after which the numbers that were skipped count as seen.
-/

namespace SlidingWindow

/-- The ring `bit` of size `n` agrees with the list of the numbers seen so far. -/
structure Tracks (n : ℕ) (bit : ℕ → Prop) (next : ℕ) (seen : List ℕ) : Prop where
  /-- Every number that was seen is below `next`. -/
  lt_next : ∀ s ∈ seen, s < next
  nodup : seen.Nodup
  /-- In the window, a bit is set exactly when its number was not seen. -/
  bit_iff : ∀ s < next, next ≤ s + n → (bit (s % n) ↔ s ∉ seen)

/-- Numbers less than `n` apart own different bits. -/
lemma eq_of_mod_eq {n a b : ℕ} (hab : a ≤ b) (hlt : b < a + n) (h : a % n = b % n) : a = b := by
  have hdvd : n ∣ b - a := (Nat.modEq_iff_dvd' hab).mp h
  have hzero : b - a = 0 := Nat.eq_zero_of_dvd_of_lt hdvd (by omega)
  omega

namespace Tracks

variable {n next m : ℕ} {bit bit' : ℕ → Prop} {seen : List ℕ}

lemma init (n : ℕ) (bit : ℕ → Prop) : Tracks n bit 0 [] where
  lt_next := by simp
  nodup := List.nodup_nil
  bit_iff s hs := absurd hs (Nat.not_lt_zero s)

/-- Every ring agrees with some numbers below `next`. -/
lemma exists_seen (n : ℕ) (bit : ℕ → Prop) (next : ℕ) : ∃ seen, Tracks n bit next seen := by
  classical
  refine ⟨(List.range next).filter fun s => ¬ bit (s % n), ?_, List.nodup_range.filter _, ?_⟩
  · intro s hs
    exact List.mem_range.mp (List.mem_filter.mp hs).1
  · intro s hs _
    rw [List.mem_filter, List.mem_range, decide_eq_true_eq, not_and, not_not]
    exact ⟨fun hbit _ => hbit, fun hseen => hseen hs⟩

lemma congr (h : Tracks n bit next seen) (hn : 0 < n) (hbit : ∀ t < n, bit' t ↔ bit t) :
    Tracks n bit' next seen where
  lt_next := h.lt_next
  nodup := h.nodup
  bit_iff s hs hwin := (hbit _ (Nat.mod_lt s hn)).trans (h.bit_iff s hs hwin)

/-- A number in the window is seen: its bit is cleared. -/
lemma late (h : Tracks n bit next seen) (hm : m < next) (hwin : next ≤ m + n)
    (hnew : m ∉ seen) : Tracks n (fun t => t ≠ m % n ∧ bit t) next (m :: seen) where
  lt_next s hs := by
    rcases List.mem_cons.mp hs with rfl | hs
    · exact hm
    · exact h.lt_next s hs
  nodup := List.nodup_cons.mpr ⟨hnew, h.nodup⟩
  bit_iff s hs hs' := by
    rw [List.mem_cons, not_or, h.bit_iff s hs hs']
    refine and_congr_left fun _ => not_congr ⟨fun hmod => ?_, fun heq => by rw [heq]⟩
    rcases le_total s m with hle | hle
    · exact eq_of_mod_eq hle (by omega) hmod
    · exact (eq_of_mod_eq hle (by omega) hmod.symm).symm

/-- A number less than a window ahead is seen: the bits of those skipped are set. -/
lemma advance (h : Tracks n bit next seen) (hm : next ≤ m) (hwin : m < next + n) :
    Tracks n (fun t => t ≠ m % n ∧ (bit t ∨ ∃ s, next ≤ s ∧ s < m ∧ t = s % n)) (m + 1)
      (m :: seen) where
  lt_next s hs := by
    rcases List.mem_cons.mp hs with rfl | hs
    · exact Nat.lt_succ_self s
    · have := h.lt_next s hs
      omega
  nodup := List.nodup_cons.mpr ⟨fun hs => absurd (h.lt_next m hs) (by omega), h.nodup⟩
  bit_iff s hs hs' := by
    have hself : s % n ≠ m % n ↔ s ≠ m :=
      not_congr ⟨fun hmod => eq_of_mod_eq (by omega) (by omega) hmod, fun heq => by rw [heq]⟩
    rw [List.mem_cons, not_or, hself]
    refine and_congr_right fun hne => ?_
    by_cases hold : s < next
    · -- A number of the old window does not share its bit with one that is skipped.
      rw [← h.bit_iff s hold (by omega)]
      refine or_iff_left ?_
      rintro ⟨r, hr, hrm, hmod⟩
      have := eq_of_mod_eq (by omega) (by omega) hmod
      omega
    · refine iff_of_true (Or.inr ⟨s, by omega, by omega, rfl⟩) fun hs => ?_
      exact hold (h.lt_next s hs)

/-- A number further ahead is seen: the whole window is new, and all other bits are set. -/
lemma jump (h : Tracks n bit next seen) (hm : next + n ≤ m) :
    Tracks n (fun t => t ≠ m % n) (m + 1) (m :: seen) where
  lt_next s hs := by
    rcases List.mem_cons.mp hs with rfl | hs
    · exact Nat.lt_succ_self s
    · have := h.lt_next s hs
      omega
  nodup := List.nodup_cons.mpr ⟨fun hs => absurd (h.lt_next m hs) (by omega), h.nodup⟩
  bit_iff s hs hs' := by
    rw [List.mem_cons, not_or]
    have hnew : s ∉ seen := fun hmem => absurd (h.lt_next s hmem) (by omega)
    refine Iff.trans (not_congr ⟨fun hmod => ?_, fun heq => by rw [heq]⟩)
      (and_iff_left hnew).symm
    exact eq_of_mod_eq (by omega) (by omega) hmod

/-- A number further ahead is seen and those skipped are given up: all bits are cleared. -/
lemma giveUp (h : Tracks n bit next seen) (hm : next + n ≤ m + 1) (hle : next ≤ m) :
    Tracks n (fun _ => False) (m + 1) (m :: (List.range' next (m - next) ++ seen)) where
  lt_next s hs := by
    simp only [List.mem_cons, List.mem_append, List.mem_range'_1] at hs
    rcases hs with rfl | hs | hs
    · exact Nat.lt_succ_self s
    · omega
    · have := h.lt_next s hs
      omega
  nodup := by
    refine List.nodup_cons.mpr ⟨fun hs => ?_, List.nodup_append'.mpr ⟨List.nodup_range', h.nodup, ?_⟩⟩
    · rcases List.mem_append.mp hs with hs | hs
      · rw [List.mem_range'_1] at hs
        omega
      · have := h.lt_next m hs
        omega
    · intro s hs hs'
      rw [List.mem_range'_1] at hs
      have := h.lt_next s hs'
      omega
  bit_iff s hs hs' := by
    refine iff_of_false id (not_not.mpr ?_)
    rw [List.mem_cons, List.mem_append, List.mem_range'_1]
    omega

end Tracks

end SlidingWindow

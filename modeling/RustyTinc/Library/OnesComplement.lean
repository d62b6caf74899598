import Mathlib.Tactic

/-!
The checksum of 16-bit words in ones' complement arithmetic.

* `wordSum`: the sum of the words of some octets; an octet that is left over is a high one;
* `carry_eq_iff`: the sum with all carries added in is `0xffff` exactly for the positive multiples
  of `0xffff`, so numbers that are congruent modulo `0xffff` can stand for each other;
* `wordSum_set`: what one octet contributes depends on whether its position is even.
-/

namespace OnesComplement

/-- The sum of the 16-bit words of some octets, the last one padded with zero. -/
def wordSum : List UInt8 → ℕ
  | [] => 0
  | [high] => high.toNat * 256
  | high :: low :: rest => high.toNat * 256 + low.toNat + wordSum rest

/-- Add the carries of a sum to its low half, until there are none. -/
def carry (n : ℕ) : ℕ := if n < 2 ^ 16 then n else carry (n % 2 ^ 16 + n / 2 ^ 16)
termination_by n
decreasing_by omega

/-- The octets hold a checksum that is right. -/
def Verifies (octets : List UInt8) : Prop := carry (wordSum octets) = 0xffff

/-! ### Carries -/

lemma carry_lt (n : ℕ) : carry n < 2 ^ 16 := by
  induction n using carry.induct with
  | case1 n h => rwa [carry, if_pos h]
  | case2 n h ih => rwa [carry, if_neg h]

lemma carry_mod (n : ℕ) : carry n % 0xffff = n % 0xffff := by
  induction n using carry.induct with
  | case1 n h => rw [carry, if_pos h]
  | case2 n h ih =>
      rw [carry, if_neg h, ih]
      omega

lemma carry_eq_zero {n : ℕ} : carry n = 0 ↔ n = 0 := by
  induction n using carry.induct with
  | case1 n h => rw [carry, if_pos h]
  | case2 n h ih =>
      rw [carry, if_neg h, ih]
      omega

/-- **The sums that verify.** -/
lemma carry_eq_iff {n : ℕ} : carry n = 0xffff ↔ n % 0xffff = 0 ∧ 0 < n := by
  have hlt := carry_lt n
  have hmod := carry_mod n
  have hzero := @carry_eq_zero n
  omega

lemma verifies_iff {octets : List UInt8} :
    Verifies octets ↔ wordSum octets % 0xffff = 0 ∧ 0 < wordSum octets := carry_eq_iff

instance (octets : List UInt8) : Decidable (Verifies octets) := decidable_of_iff' _ verifies_iff

/-! ### Words -/

/-- What an octet at a position is multiplied with. -/
def scale (i : ℕ) : ℕ := if i % 2 = 0 then 256 else 1

@[simp] lemma scale_zero : scale 0 = 256 := rfl

@[simp] lemma scale_one : scale 1 = 1 := rfl

lemma scale_add_two (i : ℕ) : scale (i + 2) = scale i := by rw [scale, scale, Nat.add_mod_right]

/-- **The contribution of one octet.** -/
lemma wordSum_set {octets : List UInt8} {i : ℕ} (h : i < octets.length) (b : UInt8) :
    wordSum (octets.set i b) + scale i * octets[i].toNat = wordSum octets + scale i * b.toNat := by
  induction octets using wordSum.induct generalizing i with
  | case1 => exact absurd h (Nat.not_lt_zero i)
  | case2 high =>
      obtain rfl : i = 0 := by simpa using h
      simp only [List.set_cons_zero, wordSum, scale_zero, List.getElem_cons_zero]
      omega
  | case3 high low rest ih =>
      match i, h with
      | 0, _ =>
          simp only [List.set_cons_zero, wordSum, scale_zero, List.getElem_cons_zero]
          omega
      | 1, _ =>
          simp only [List.set_cons_succ, List.set_cons_zero, wordSum, scale_one,
            List.getElem_cons_succ, List.getElem_cons_zero]
          omega
      | i + 2, h =>
          have hi : i < rest.length := by
            rw [List.length_cons, List.length_cons] at h
            omega
          have hrest := ih hi
          simp only [List.set_cons_succ, wordSum, scale_add_two, List.getElem_cons_succ]
          omega

lemma getElem_le_wordSum {octets : List UInt8} {i : ℕ} (h : i < octets.length) :
    octets[i].toNat ≤ wordSum octets := by
  have hset := wordSum_set h 0
  have hscale : octets[i].toNat ≤ scale i * octets[i].toNat :=
    Nat.le_mul_of_pos_left _ (by rw [scale]; split_ifs <;> omega)
  rw [UInt8.toNat_zero, mul_zero] at hset
  omega

end OnesComplement

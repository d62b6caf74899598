import Mathlib.Tactic

/-!
A bucket that loses one for every whole `unit` of time since it was last filled, and that lets
something in while it stays below `cap`.

* `Admits`: the events at a bucket, each of which is let in, refused, or passes the bucket by;
* `Admits.count_le`: what can still be let in until a given time;
* `Admits.window`: in `L` units of time at most `cap + L` are let in.
-/

/-- How full a bucket is, and when it was last filled. -/
structure LeakyBucket where
  level : ℕ
  last : ℕ

namespace LeakyBucket

/-- The level when one more comes in. -/
def fill (unit : ℕ) (b : LeakyBucket) (now : ℕ) : ℕ := b.level - (now - b.last) / unit + 1

/-- The events at a bucket: when something came, and whether it was let in. The refused ones fill
the bucket up to its cap, or do not touch it at all. -/
inductive Admits (unit cap : ℕ) : LeakyBucket → List (ℕ × Bool) → Prop
  | nil {b : LeakyBucket} : Admits unit cap b []
  | admitted {b : LeakyBucket} {t : ℕ} {events : List (ℕ × Bool)} (h : b.fill unit t < cap)
      (hrest : Admits unit cap ⟨b.fill unit t, t⟩ events) : Admits unit cap b ((t, true) :: events)
  | refuse {b : LeakyBucket} {t : ℕ} {events : List (ℕ × Bool)} (h : cap ≤ b.fill unit t)
      (hrest : Admits unit cap ⟨cap, t⟩ events) : Admits unit cap b ((t, false) :: events)
  | skip {b : LeakyBucket} {t : ℕ} {events : List (ℕ × Bool)} (hrest : Admits unit cap b events) :
      Admits unit cap b ((t, false) :: events)

variable {unit cap : ℕ} {b : LeakyBucket} {events : List (ℕ × Bool)}

lemma fill_pos (now : ℕ) : 0 < b.fill unit now := Nat.succ_pos _

/-- An empty bucket, or one that holds one since a unit of time, holds one after it is filled. -/
lemma fill_eq_one {now : ℕ} (hunit : 0 < unit) (hlevel : b.level ≤ 1)
    (h : b.level = 0 ∨ b.last + unit ≤ now) : b.fill unit now = 1 := by
  rw [fill]
  rcases h with hempty | hlong
  · rw [hempty, Nat.zero_sub]
  · have hleak : 1 ≤ (now - b.last) / unit := (Nat.one_le_div_iff hunit).mpr (by omega)
    omega

/-- What has leaked up to a time, and from then on. -/
lemma leak_add_le {start now stop : ℕ} (h : start ≤ now) (hstop : now ≤ stop) :
    (now - start) / unit + (stop - now) / unit ≤ (stop - start) / unit :=
  Nat.div_add_div_le_add_div.trans (Nat.div_le_div_right (by omega))

/-- Nothing that comes later counts. -/
lemma countP_eq_zero {t stop : ℕ} (h : stop < t)
    (hmono : (t :: events.map Prod.fst).Pairwise (· ≤ ·)) (x : Bool) :
    ((t, x) :: events).countP (fun e => e.2 && e.1 ≤ stop) = 0 := by
  refine List.countP_eq_zero.mpr fun e he => ?_
  have hle : t ≤ e.1 := by
    rcases List.mem_cons.mp he with rfl | he
    · exact le_rfl
    · exact (List.pairwise_cons.mp hmono).1 e.1 (List.mem_map_of_mem he)
  simp only [Bool.and_eq_true, decide_eq_true_eq, not_and]
  omega

namespace Admits

/-- An empty bucket does not know when it was last filled. -/
lemma of_empty (h : Admits unit cap b events) (hempty : b.level = 0) (last : ℕ) :
    Admits unit cap ⟨0, last⟩ events := by
  have hfill : ∀ t, (⟨0, last⟩ : LeakyBucket).fill unit t = b.fill unit t := fun t => by
    rw [fill, fill, hempty, Nat.zero_sub, Nat.zero_sub]
  induction h with
  | nil => exact .nil
  | @admitted b t events hlt hrest _ => exact .admitted (hfill t ▸ hlt) (hfill t ▸ hrest)
  | @refuse b t events hle hrest _ => exact .refuse (hfill t ▸ hle) hrest
  | skip hrest ih => exact .skip (ih hempty hfill)

/-- **What can still be let in until `stop`.** -/
lemma count_le (h : Admits unit cap b events)
    (hmono : (b.last :: events.map Prod.fst).Pairwise (· ≤ ·)) (stop : ℕ) :
    events.countP (fun e => e.2 && e.1 ≤ stop) + b.level ≤
      max b.level (cap - 1) + (stop - b.last) / unit := by
  have hzero : ∀ b : LeakyBucket,
      0 + b.level ≤ max b.level (cap - 1) + (stop - b.last) / unit := fun b => by
    rw [zero_add]
    exact (le_max_left _ _).trans (Nat.le_add_right _ _)
  induction h with
  | @nil b => exact hzero b
  | @admitted b t events hlt hrest ih =>
      obtain ⟨hfirst, hmono⟩ := List.pairwise_cons.mp hmono
      by_cases hstop : t ≤ stop
      · have hcount := ih hmono
        have hleak := @leak_add_le unit b.last t stop (hfirst t List.mem_cons_self) hstop
        have hfill : b.level + 1 ≤ b.fill unit t + (t - b.last) / unit := by
          rw [fill]
          omega
        rw [max_eq_right (by show b.fill unit t ≤ cap - 1; omega)] at hcount
        rw [List.countP_cons_of_pos (by simp [hstop])]
        simp only at hcount
        omega
      · rw [countP_eq_zero (not_le.mp hstop) hmono]
        exact hzero b
  | @refuse b t events hle hrest ih =>
      obtain ⟨hfirst, hmono⟩ := List.pairwise_cons.mp hmono
      by_cases hstop : t ≤ stop
      · have hcount := ih hmono
        have hleak := @leak_add_le unit b.last t stop (hfirst t List.mem_cons_self) hstop
        have hlevel := le_max_left b.level (cap - 1)
        rw [max_eq_left (Nat.sub_le cap 1)] at hcount
        rw [List.countP_cons_of_neg (by simp)]
        simp only at hcount
        have := Nat.zero_le ((t - b.last) / unit)
        omega
      · rw [countP_eq_zero (not_le.mp hstop) hmono]
        exact hzero b
  | @skip b t events hrest ih =>
      rw [List.countP_cons_of_neg (by simp)]
      exact ih (hmono.sublist ((List.sublist_cons_self _ _).cons_cons _))

/-- **In `L` units of time at most `cap + L` are let in.** -/
theorem window (hunit : 0 < unit) (h : Admits unit cap b events)
    (hmono : (b.last :: events.map Prod.fst).Pairwise (· ≤ ·)) (start L : ℕ) :
    events.countP (fun e => e.2 && (start ≤ e.1 && e.1 ≤ start + L * unit)) ≤ cap + L := by
  have hmono_count : ∀ events : List (ℕ × Bool),
      events.countP (fun e => e.2 && (start ≤ e.1 && e.1 ≤ start + L * unit)) ≤
        events.countP (fun e => e.2 && e.1 ≤ start + L * unit) := by
    intro events
    refine List.countP_mono_left fun e _ he => ?_
    simp only [Bool.and_eq_true, decide_eq_true_eq] at he ⊢
    exact ⟨he.1, he.2.2⟩
  have hspan : ∀ t, start ≤ t → (start + L * unit - t) / unit ≤ L := fun t ht =>
    (Nat.div_le_div_right (by omega)).trans (Nat.mul_div_cancel L hunit).le
  induction h with
  | nil => exact Nat.zero_le _
  | @admitted b t events hlt hrest ih =>
      obtain ⟨-, hmono⟩ := List.pairwise_cons.mp hmono
      by_cases hstart : start ≤ t
      · -- the first one in the window
        have hcount := hrest.count_le hmono (start + L * unit)
        have hpos := @fill_pos unit b t
        have hle := hmono_count events
        have hlong := hspan t hstart
        rw [max_eq_right (by show b.fill unit t ≤ cap - 1; omega)] at hcount
        rw [List.countP_cons]
        simp only at hcount
        split_ifs <;> omega
      · rw [List.countP_cons_of_neg (by simp [hstart])]
        exact ih hmono
  | @refuse b t events hle hrest ih =>
      obtain ⟨-, hmono⟩ := List.pairwise_cons.mp hmono
      rw [List.countP_cons_of_neg (by simp)]
      exact ih hmono
  | @skip b t events hrest ih =>
      rw [List.countP_cons_of_neg (by simp)]
      exact ih (hmono.sublist ((List.sublist_cons_self _ _).cons_cons _))

end Admits

end LeakyBucket

import Mathlib.Data.Finset.Card
import Mathlib.Tactic

/-!
Walks along a relation whose steps have weights, and their total weights.

* `Walk`: the walks, with their totals;
* `Walk.split`: a walk that starts at `a` goes in a circle back to `a` and then never meets `a`
  again;
* `exists_lower_bound`: without circles of negative weight the totals of the walks in a finite set
  are bounded below;
* `exists_potential`: then every item reached from a root has a least total;
* `Path`: the walks that meet no item twice, with the totals on the way; `Path.walk` cuts off the
  way to one of its items, and `Path.bounds` bounds its total by the number of its steps.
-/

namespace WeightedWalk

variable {α : Type*} {R : α → α → Prop} {weight : α → α → ℤ}

/-- A walk from one item to another, with the total of the weights of its steps. -/
inductive Walk (R : α → α → Prop) (weight : α → α → ℤ) : α → α → ℤ → Prop
  | nil (a : α) : Walk R weight a a 0
  | step {a b c : α} {total : ℤ} (h : Walk R weight a b total) (hbc : R b c) :
      Walk R weight a c (total + weight b c)

lemma Walk.mono {R' : α → α → Prop} (hR : ∀ a b, R a b → R' a b) {a c : α} {total : ℤ}
    (h : Walk R weight a c total) : Walk R' weight a c total := by
  induction h with
  | nil => exact Walk.nil _
  | step _ hbc ih => exact ih.step (hR _ _ hbc)

/-- The walks that stay in a set. -/
abbrev Within (R : α → α → Prop) (S : Finset α) (a b : α) : Prop := R a b ∧ a ∈ S ∧ b ∈ S

/-- **The last visit to the start**: a walk from `a` is a circle back to `a`, and then nothing or
a step to a walk that avoids `a`. -/
lemma Walk.split [DecidableEq α] {S : Finset α} {a c : α} {total : ℤ}
    (h : Walk (Within R S) weight a c total) :
    ∃ circle, Walk (Within R S) weight a a circle ∧ (c = a ∧ total = circle ∨
      c ≠ a ∧ ∃ b rest, Within R S a b ∧ Walk (Within R (S.erase a)) weight b c rest ∧
        total = circle + weight a b + rest) := by
  induction h with
  | nil => exact ⟨0, Walk.nil _, Or.inl ⟨rfl, rfl⟩⟩
  | @step b c total h hbc ih =>
      obtain ⟨circle, hcircle, hend⟩ := ih
      by_cases hca : c = a
      · exact ⟨_, hca ▸ h.step hbc, Or.inl ⟨hca, by rw [hca]⟩⟩
      · refine ⟨circle, hcircle, Or.inr ⟨hca, ?_⟩⟩
        rcases hend with ⟨rfl, rfl⟩ | ⟨hba, b', rest, hab', hrest, rfl⟩
        · exact ⟨c, 0, hbc, Walk.nil c, (add_zero _).symm⟩
        · refine ⟨b', _, hab', hrest.step ⟨hbc.1, ?_, ?_⟩, by ring⟩
          · exact Finset.mem_erase.mpr ⟨hba, hbc.2.1⟩
          · exact Finset.mem_erase.mpr ⟨hca, hbc.2.2⟩

/-- Without circles of negative weight a walk in a set loses at most a step for each item. -/
lemma Walk.bounded_below [DecidableEq α] {V : Finset α} {B : ℤ} (hB : 0 ≤ B)
    (hstep : ∀ a b, Within R V a b → -B ≤ weight a b)
    (hcircle : ∀ a total, Walk (Within R V) weight a a total → 0 ≤ total)
    {S : Finset α} (hS : S ⊆ V) {a c : α} {total : ℤ} (h : Walk (Within R S) weight a c total) :
    -(B * S.card) ≤ total := by
  have hwithin : ∀ {S : Finset α}, S ⊆ V → ∀ a b, Within R S a b → Within R V a b :=
    fun hS a b hab => ⟨hab.1, hS hab.2.1, hS hab.2.2⟩
  induction hcard : S.card generalizing S a total with
  | zero =>
      obtain rfl := Finset.card_eq_zero.mp hcard
      cases h with
      | nil => simp
      | step _ hbc => exact absurd hbc.2.1 (Finset.notMem_empty _)
  | succ n ih =>
      obtain ⟨circle, hcirc, hend⟩ := h.split
      have hpos := hcircle a circle (hcirc.mono (hwithin hS))
      rcases hend with ⟨-, rfl⟩ | ⟨-, b, rest, hab, hrest, rfl⟩
      · push_cast
        nlinarith
      · have hless : (S.erase a).card = n := by
          rw [Finset.card_erase_of_mem hab.2.1, hcard, Nat.add_sub_cancel]
        have hrest' := ih ((Finset.erase_subset a S).trans hS) hrest hless
        have hone := hstep a b (hwithin hS a b hab)
        push_cast
        linarith

/-- **A lower bound**: without circles of negative weight the totals of the walks in a finite set
are bounded below. -/
theorem exists_lower_bound {V : Finset α}
    (hcircle : ∀ a total, Walk (Within R V) weight a a total → 0 ≤ total) :
    ∃ L, ∀ a c total, Walk (Within R V) weight a c total → L ≤ total := by
  classical
  set B : ℤ := ∑ p ∈ V ×ˢ V, |weight p.1 p.2|
  have hstep : ∀ a b, Within R V a b → -B ≤ weight a b := by
    intro a b hab
    have hle : |weight a b| ≤ B :=
      Finset.single_le_sum (f := fun p : α × α => |weight p.1 p.2|) (fun _ _ => abs_nonneg _)
        (Finset.mk_mem_product hab.2.1 hab.2.2)
    exact (abs_le.mp hle).1
  have hB : 0 ≤ B := Finset.sum_nonneg fun _ _ => abs_nonneg _
  exact ⟨-(B * V.card), fun a c total h => h.bounded_below hB hstep hcircle subset_rfl⟩

/-- **A potential**: where the totals of the walks from a root are bounded below, every item that it
reaches has a least one, which a step raises by at most its weight. -/
theorem exists_potential {root : α} {L : ℤ}
    (hL : ∀ c total, Walk R weight root c total → L ≤ total) :
    ∃ φ : α → ℤ, (∀ c total, Walk R weight root c total → φ c ≤ total) ∧
      ∀ b c total, Walk R weight root b total → R b c → φ c ≤ φ b + weight b c := by
  have hleast : ∀ c, ∃ least : ℤ, (∀ total, Walk R weight root c total → least ≤ total) ∧
      ((∃ total, Walk R weight root c total) → Walk R weight root c least) := by
    intro c
    by_cases hc : ∃ total, Walk R weight root c total
    · obtain ⟨least, hwalk, hle⟩ :=
        Int.exists_least_of_bdd (P := fun total => Walk R weight root c total) ⟨L, hL c⟩ hc
      exact ⟨least, hle, fun _ => hwalk⟩
    · exact ⟨0, fun total htotal => absurd ⟨total, htotal⟩ hc, fun h => absurd h hc⟩
  choose φ hφ hmem using hleast
  exact ⟨φ, hφ, fun b c total hb hbc => hφ c _ ((hmem b ⟨total, hb⟩).step hbc)⟩

/-! ### Paths -/

/-- A walk from `root` that meets no item twice: its items with the totals up to them, the last
item first. -/
inductive Path (R : α → α → Prop) (weight : α → α → ℤ) (root : α) : List (α × ℤ) → Prop
  | start : Path R weight root [(root, 0)]
  | step {b c : α} {total : ℤ} {rest : List (α × ℤ)}
      (h : Path R weight root ((b, total) :: rest)) (hbc : R b c)
      (hnew : c ∉ ((b, total) :: rest).map Prod.fst) :
      Path R weight root ((c, total + weight b c) :: (b, total) :: rest)

variable {root : α} {path : List (α × ℤ)}

lemma Path.nodup (h : Path R weight root path) : (path.map Prod.fst).Nodup := by
  induction h with
  | start => exact List.nodup_singleton root
  | step _ _ hnew ih => exact List.nodup_cons.mpr ⟨hnew, ih⟩

/-- The items of a path can be reached. -/
lemma Path.reaches (h : Path R weight root path) :
    ∀ p ∈ path, Relation.ReflTransGen R root p.1 := by
  induction h with
  | start => simp [Relation.ReflTransGen.refl]
  | step _ hbc _ ih =>
      rw [List.forall_mem_cons]
      exact ⟨(ih _ List.mem_cons_self).tail hbc, ih⟩

/-- **The rest of a path** after one of its items is a walk to its end. -/
lemma Path.walk {k : α} {w : ℤ} {rest : List (α × ℤ)}
    (h : Path R weight root ((k, w) :: rest)) {p : α × ℤ} (hp : p ∈ (k, w) :: rest) :
    Walk R weight p.1 k (w - p.2) := by
  generalize hpath : (k, w) :: rest = path at h hp
  induction h generalizing k w rest with
  | start =>
      obtain ⟨hkw, -⟩ := List.cons.inj hpath
      rw [List.mem_singleton.mp hp, ← hkw, sub_self]
      exact Walk.nil k
  | @step b c total rest' h hbc hnew ih =>
      obtain ⟨hkw, -⟩ := List.cons.inj hpath
      obtain ⟨rfl, rfl⟩ := Prod.mk.inj hkw
      rcases List.mem_cons.mp hp with rfl | hp
      · rw [sub_self]
        exact Walk.nil k
      · have hwalk := (ih rfl hp).step hbc
        rwa [sub_add_eq_add_sub] at hwalk

/-- A path is a walk from its root. -/
lemma Path.walk_root {k : α} {w : ℤ} {rest : List (α × ℤ)}
    (h : Path R weight root ((k, w) :: rest)) : Walk R weight root k w := by
  generalize hpath : (k, w) :: rest = path at h
  induction h generalizing k w rest with
  | start =>
      obtain ⟨hkw, -⟩ := List.cons.inj hpath
      obtain ⟨rfl, rfl⟩ := Prod.mk.inj hkw
      exact Walk.nil k
  | step h hbc _ ih =>
      obtain ⟨hkw, -⟩ := List.cons.inj hpath
      obtain ⟨rfl, rfl⟩ := Prod.mk.inj hkw
      exact (ih rfl).step hbc

/-- The total of a path is between those of as many steps. -/
lemma Path.bounds {low high : ℤ} (hbound : ∀ a b, R a b → -low ≤ weight a b ∧ weight a b ≤ high)
    {k : α} {w : ℤ} {rest : List (α × ℤ)} (h : Path R weight root ((k, w) :: rest)) :
    -(low * rest.length) ≤ w ∧ w ≤ high * rest.length := by
  generalize hpath : (k, w) :: rest = path at h
  induction h generalizing k w rest with
  | start =>
      obtain ⟨hkw, hrest⟩ := List.cons.inj hpath
      obtain ⟨-, rfl⟩ := Prod.mk.inj hkw
      simp [hrest]
  | @step b c total rest' h hbc hnew ih =>
      obtain ⟨hkw, hrest⟩ := List.cons.inj hpath
      obtain ⟨-, rfl⟩ := Prod.mk.inj hkw
      obtain ⟨hlow, hhigh⟩ := ih rfl
      obtain ⟨hlow', hhigh'⟩ := hbound b c hbc
      rw [hrest, List.length_cons]
      push_cast
      constructor
      · linarith
      · linarith

end WeightedWalk

import Mathlib.Data.List.Sort
import Mathlib.Tactic

/-!
Stable sorts: the entries of a list in the order of their keys, where entries with the same key
stay in the order in which they were listed.

* `StableSort.sorts_insertionSort`: insertion sort gives such a list;
* `StableSort.Sorts.concat`: sorting anew after each entry sorts all of them;
* `StableSort.Sorts.pairwise_lt`: where the keys differ, the order is strict.
-/

namespace StableSort

variable {α κ : Type*} [LinearOrder κ] {key : α → κ}

/-- A list that holds the entries of another one in the order of their keys, and the entries of
each key in the order in which they were listed. -/
structure Sorts (key : α → κ) (sorted entries : List α) : Prop where
  pairwise : sorted.Pairwise fun a b => key a ≤ key b
  filter_key : ∀ k, sorted.filter (key · = k) = entries.filter (key · = k)

/-- What is inserted comes before what has its key. -/
lemma filter_orderedInsert (a : α) {l : List α} (h : l.Pairwise fun a b => key a ≤ key b) (k : κ) :
    (l.orderedInsert (fun a b => key a ≤ key b) a).filter (key · = k) =
      (a :: l).filter (key · = k) := by
  induction l with
  | nil => rfl
  | cons b l ih =>
      rw [List.orderedInsert_cons]
      split_ifs with hab
      · rfl
      · have hne : ¬(key a = k ∧ key b = k) := fun hk => hab (hk.1.trans hk.2.symm).le
        rw [List.filter_cons, ih (List.pairwise_cons.mp h).2]
        simp only [List.filter_cons]
        by_cases ha : key a = k <;> by_cases hb : key b = k <;> simp_all

/-- **Insertion sort is stable.** -/
lemma sorts_insertionSort (entries : List α) :
    Sorts key (entries.insertionSort fun a b => key a ≤ key b) entries := by
  have htotal : Std.Total fun a b : α => key a ≤ key b := ⟨fun a b => le_total _ _⟩
  have htrans : IsTrans α fun a b => key a ≤ key b := ⟨fun a b c => le_trans⟩
  refine ⟨List.pairwise_insertionSort _ entries, fun k => ?_⟩
  induction entries with
  | nil => rfl
  | cons a entries ih =>
      rw [List.insertionSort_cons, filter_orderedInsert a (List.pairwise_insertionSort _ entries),
        List.filter_cons, List.filter_cons, ih]

/-- **Sorting anew after each entry** sorts all of them. -/
lemma Sorts.concat {sorted entries : List α} (h : Sorts key sorted entries) (a : α) :
    Sorts key ((sorted ++ [a]).insertionSort fun a b => key a ≤ key b) (entries ++ [a]) := by
  have hsorts : Sorts key _ (sorted ++ [a]) := sorts_insertionSort (sorted ++ [a])
  obtain ⟨hpair, hrun⟩ := hsorts
  refine ⟨hpair, fun k => ?_⟩
  rw [hrun, List.filter_append, List.filter_append, h.filter_key]

/-- A sorted list is a permutation of what it sorts. -/
lemma Sorts.perm {sorted entries : List α} (h : Sorts key sorted entries) :
    sorted.Perm entries := by
  classical
  refine List.perm_iff_count.mpr fun a => ?_
  have hrun : ∀ l : List α, l.count a = (l.filter (key · = key a)).count a :=
    fun l => (List.count_filter (by simp)).symm
  rw [hrun sorted, hrun entries, h.filter_key]

/-- **Entries whose keys differ** are sorted strictly. -/
lemma Sorts.pairwise_lt {sorted entries : List α} (h : Sorts key sorted entries)
    (hkeys : (entries.map key).Nodup) : sorted.Pairwise fun a b => key a < key b := by
  have hne : sorted.Pairwise fun a b => key a ≠ key b :=
    List.pairwise_map.mp ((h.perm.map key).nodup_iff.mpr hkeys)
  exact (h.pairwise.and hne).imp fun hboth => hboth.1.lt_of_ne hboth.2

/-- **The first entry** of a list that is sorted strictly is before all others. -/
lemma head?_eq_some_iff {l : List α} (h : l.Pairwise fun a b => key a < key b) {a : α} :
    l.head? = some a ↔ a ∈ l ∧ ∀ b ∈ l, b = a ∨ key a < key b := by
  cases l with
  | nil => simp
  | cons first rest =>
      have hfirst := (List.pairwise_cons.mp h).1
      rw [List.head?_cons, Option.some_inj]
      constructor
      · rintro rfl
        refine ⟨List.mem_cons_self, fun b hb => ?_⟩
        exact (List.mem_cons.mp hb).imp_right (hfirst b)
      · rintro ⟨ha, hbefore⟩
        rcases List.mem_cons.mp ha with rfl | ha
        · rfl
        · -- the first entry is before `a` and not after it
          rcases hbefore first List.mem_cons_self with heq | hlt
          · exact heq
          · exact absurd hlt (hfirst a ha).not_gt

end StableSort

import Mathlib.Tactic

/-!
A counter that wraps at `N`, under keys that change now and then and never come back: the list
`l` of the keys of its successive values comes in blocks, one for each key.

* `exists_split`: the values under one key are consecutive;
* `collision_free_iff`: no value repeats under a key exactly when at most `N` values are taken
  under each key.
-/

namespace KeyedCounter

variable {κ : Type}

/-- The keys of the values, from the blocks. -/
def expand (blocks : List (κ × ℕ)) : List κ := blocks.flatMap fun b => List.replicate b.2 b.1

@[simp] lemma expand_nil : expand ([] : List (κ × ℕ)) = [] := rfl

@[simp] lemma expand_append (blocks blocks' : List (κ × ℕ)) :
    expand (blocks ++ blocks') = expand blocks ++ expand blocks' := List.flatMap_append

@[simp] lemma expand_singleton (k : κ) (n : ℕ) : expand [(k, n)] = List.replicate n k :=
  List.flatMap_singleton _ _

lemma mem_keys_of_mem_expand {blocks : List (κ × ℕ)} {k : κ} (h : k ∈ expand blocks) :
    k ∈ blocks.map Prod.fst := by
  obtain ⟨b, hb, hk⟩ := List.mem_flatMap.mp h
  rw [List.eq_of_mem_replicate hk]
  exact List.mem_map_of_mem hb

/-- **The values under one key are consecutive.** -/
lemma exists_split {blocks : List (κ × ℕ)} (hnodup : (blocks.map Prod.fst).Nodup) {k : κ}
    (hk : k ∈ blocks.map Prod.fst) :
    ∃ before n after, expand blocks = before ++ List.replicate n k ++ after ∧
      k ∉ before ∧ k ∉ after := by
  obtain ⟨⟨_, n⟩, hb, rfl⟩ := List.mem_map.mp hk
  obtain ⟨left, right, rfl⟩ := List.append_of_mem hb
  rw [List.map_append, List.map_cons, List.nodup_middle, List.nodup_cons, List.mem_append,
    not_or] at hnodup
  refine ⟨expand left, n, expand right, ?_, ?_, ?_⟩
  · show expand (left ++ ([(_, n)] ++ right)) = _
    rw [expand_append, expand_append, expand_singleton, List.append_assoc]
  · exact fun hmem => hnodup.1.1 (mem_keys_of_mem_expand hmem)
  · exact fun hmem => hnodup.1.2 (mem_keys_of_mem_expand hmem)

variable [BEq κ] [LawfulBEq κ] {N : ℕ}

/-- **No value repeats under a key exactly when at most `N` values are taken under each key.** -/
theorem collision_free_iff (hN : 0 < N) {blocks : List (κ × ℕ)}
    (hnodup : (blocks.map Prod.fst).Nodup) (k : κ) :
    (∀ i j, i < j → (expand blocks)[i]? = some k → (expand blocks)[j]? = some k → i % N ≠ j % N) ↔
      (expand blocks).count k ≤ N := by
  by_cases hk : k ∈ blocks.map Prod.fst
  · obtain ⟨before, n, after, hl, hbefore, hafter⟩ := exists_split hnodup hk
    have hcount : (expand blocks).count k = n := by
      rw [hl, List.count_append, List.count_append, List.count_eq_zero_of_not_mem hbefore,
        List.count_eq_zero_of_not_mem hafter, List.count_replicate_self, zero_add, add_zero]
    -- The values under `k` are those of the middle block.
    have hget : ∀ i, (expand blocks)[i]? = some k ↔
        before.length ≤ i ∧ i < before.length + n := by
      intro i
      rw [hl, List.append_assoc]
      constructor
      · intro h
        rcases lt_or_ge i before.length with hlt | hge
        · rw [List.getElem?_append_left hlt] at h
          exact absurd (List.mem_of_getElem? h) hbefore
        · refine ⟨hge, ?_⟩
          by_contra hout
          rw [List.getElem?_append_right hge, List.getElem?_append_right (by simp; omega)] at h
          exact hafter (List.mem_of_getElem? h)
      · rintro ⟨hge, hlt⟩
        rw [List.getElem?_append_right hge, List.getElem?_append_left (by simp; omega)]
        exact List.getElem?_replicate_of_lt (by omega)
    rw [hcount]
    constructor
    · -- one block too long: its first value comes back
      intro h
      by_contra hlong
      refine h before.length (before.length + N) (by omega) ((hget _).mpr (by omega))
        ((hget _).mpr (by omega)) ?_
      rw [Nat.add_mod_right]
    · intro hle i j hij hi hj hmod
      have hi' := (hget i).mp hi
      have hj' := (hget j).mp hj
      have hdvd : N ∣ j - i := (Nat.modEq_iff_dvd' hij.le).mp hmod
      have hfar := Nat.le_of_dvd (by omega) hdvd
      omega
  · have hmem : k ∉ expand blocks := fun h => hk (mem_keys_of_mem_expand h)
    refine iff_of_true (fun i j _ hi _ => absurd (List.mem_of_getElem? hi) hmem) ?_
    rw [List.count_eq_zero_of_not_mem hmem]
    exact Nat.zero_le N

end KeyedCounter

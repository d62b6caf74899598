import Mathlib.Tactic

/-!
The search of a list for a candidate that is good, where the last candidate is kept when none is.

* `search_eq_none`: nothing is found exactly when there is no candidate;
* `search_first`: the first good candidate is found;
* `search_good`: in a list of falling ranks, a good candidate of the highest rank is found;
* `search_last`: when no candidate is good, one of the lowest rank is found.
-/

namespace RankedSearch

variable {α : Type} (candidate good : α → Bool)

/-- The loop over the rest of the list, with the last candidate seen so far. -/
def search : List α → Option α → Option α
  | [], result => result
  | a :: l, result =>
    if !candidate a then search l result
    else if good a then some a
    else search l (some a)

variable {candidate good} {l : List α} {result : Option α}

/-- Nothing is found when there is no candidate. -/
lemma search_eq_none :
    search candidate good l result = none ↔ result = none ∧ ∀ a ∈ l, candidate a = false := by
  induction l generalizing result with
  | nil => simp [search]
  | cons a l ih =>
      rw [search]
      split_ifs with hcandidate hgood
      · rw [Bool.not_eq_true'] at hcandidate
        rw [ih, List.forall_mem_cons]
        exact and_congr_right fun _ => (and_iff_right hcandidate).symm
      · rw [Bool.not_eq_true', Bool.not_eq_false] at hcandidate
        simp [hcandidate]
      · rw [Bool.not_eq_true', Bool.not_eq_false] at hcandidate
        simp [ih, hcandidate]

/-- What is found is a candidate of the list, unless it is the one given. -/
lemma search_eq_some {r : α} (h : search candidate good l result = some r) :
    result = some r ∨ r ∈ l ∧ candidate r = true := by
  induction l generalizing result with
  | nil => exact Or.inl h
  | cons a l ih =>
      rw [search] at h
      split_ifs at h with hcandidate hgood
      · exact (ih h).imp_right fun h => ⟨List.mem_cons_of_mem a h.1, h.2⟩
      · obtain rfl := Option.some.inj h
        exact Or.inr ⟨List.mem_cons_self, by simpa using hcandidate⟩
      · refine Or.inr ?_
        rcases ih h with h | h
        · obtain rfl := Option.some.inj h
          exact ⟨List.mem_cons_self, by simpa using hcandidate⟩
        · exact ⟨List.mem_cons_of_mem a h.1, h.2⟩

/-- **The first good candidate is found**: in a list in order it comes before all the others. -/
theorem search_first {before : α → α → Prop} (hpairwise : l.Pairwise before)
    (hgood : ∃ a ∈ l, candidate a = true ∧ good a = true) :
    ∃ r, search candidate good l result = some r ∧ r ∈ l ∧ candidate r = true ∧ good r = true ∧
      ∀ a ∈ l, candidate a = true → good a = true → a = r ∨ before r a := by
  induction l generalizing result with
  | nil =>
      obtain ⟨a, ha, -⟩ := hgood
      exact absurd ha List.not_mem_nil
  | cons a l ih =>
      obtain ⟨hhead, hpairwise⟩ := List.pairwise_cons.mp hpairwise
      rw [search]
      by_cases ha : candidate a = true ∧ good a = true
      · -- the loop stops here
        rw [ha.1, ha.2]
        refine ⟨a, rfl, List.mem_cons_self, ha.1, ha.2, fun b hb _ _ => ?_⟩
        exact (List.mem_cons.mp hb).imp_right (hhead b)
      · obtain ⟨b, hb, hbgood⟩ := hgood
        have hmem : b ∈ l := by
          rcases List.mem_cons.mp hb with rfl | hb
          · exact absurd hbgood ha
          · exact hb
        have hthen : ∀ result, ∃ r, search candidate good l result = some r ∧ r ∈ a :: l ∧
            candidate r = true ∧ good r = true ∧
            ∀ b ∈ a :: l, candidate b = true → good b = true → b = r ∨ before r b := by
          intro result
          obtain ⟨r, hr, hrl, hrcandidate, hrgood, hfirst⟩ :=
            @ih result hpairwise ⟨b, hmem, hbgood⟩
          refine ⟨r, hr, List.mem_cons_of_mem a hrl, hrcandidate, hrgood, fun c hc hcc hcg => ?_⟩
          rcases List.mem_cons.mp hc with rfl | hc
          · exact absurd ⟨hcc, hcg⟩ ha
          · exact hfirst c hc hcc hcg
        split_ifs with hcandidate hgood
        · exact hthen _
        · exact absurd ⟨by simpa using hcandidate, hgood⟩ ha
        · exact hthen _

variable {rank : α → ℕ} (hsorted : l.Pairwise fun a b => candidate a = true → candidate b = true →
  rank b ≤ rank a)

include hsorted

/-- **A good candidate of the highest rank is found.** -/
theorem search_good (hgood : ∃ a ∈ l, candidate a = true ∧ good a = true) :
    ∃ r, search candidate good l result = some r ∧ r ∈ l ∧ candidate r = true ∧ good r = true ∧
      ∀ a ∈ l, candidate a = true → good a = true → rank a ≤ rank r := by
  obtain ⟨r, hr, hmem, hcandidate, hrgood, hfirst⟩ := @search_first _ _ _ _ result _ hsorted hgood
  refine ⟨r, hr, hmem, hcandidate, hrgood, fun a ha hac hag => ?_⟩
  rcases hfirst a ha hac hag with rfl | hbefore
  · exact le_rfl
  · exact hbefore hcandidate hac

/-- **When no candidate is good, one of the lowest rank is found.** -/
theorem search_last (hcandidate : ∃ a ∈ l, candidate a = true)
    (hbad : ∀ a ∈ l, candidate a = true → good a = false) :
    ∃ r, search candidate good l result = some r ∧ r ∈ l ∧ candidate r = true ∧
      ∀ a ∈ l, candidate a = true → rank r ≤ rank a := by
  induction l generalizing result with
  | nil =>
      obtain ⟨a, ha, -⟩ := hcandidate
      exact absurd ha List.not_mem_nil
  | cons a l ih =>
      obtain ⟨hhead, hsorted⟩ := List.pairwise_cons.mp hsorted
      have hbad' : ∀ b ∈ l, candidate b = true → good b = false :=
        fun b hb => hbad b (List.mem_cons_of_mem a hb)
      rw [search]
      by_cases hrest : ∃ b ∈ l, candidate b = true
      · have hthen : ∀ result, ∃ r, search candidate good l result = some r ∧ r ∈ a :: l ∧
            candidate r = true ∧ ∀ b ∈ a :: l, candidate b = true → rank r ≤ rank b := by
          intro result
          obtain ⟨r, hr, hrl, hrcandidate, hmin⟩ := @ih result hsorted hrest hbad'
          refine ⟨r, hr, List.mem_cons_of_mem a hrl, hrcandidate, fun b hb hbc => ?_⟩
          rcases List.mem_cons.mp hb with rfl | hb
          · exact hhead r hrl hbc hrcandidate
          · exact hmin b hb hbc
        split_ifs with hca hga
        · exact hthen _
        · exact absurd hga (by
            rw [hbad a List.mem_cons_self (by simpa using hca)]
            exact Bool.false_ne_true)
        · exact hthen _
      · -- the head is the only candidate
        push Not at hrest
        have ha : candidate a = true := by
          obtain ⟨b, hb, hbc⟩ := hcandidate
          rcases List.mem_cons.mp hb with rfl | hb
          · exact hbc
          · exact absurd hbc (hrest b hb)
        have hfound : search candidate good l (some a) = some a := by
          rcases hr : search candidate good l (some a) with _ | r
          · exact absurd (search_eq_none.mp hr).1 (by simp)
          · rcases search_eq_some hr with h | h
            · exact h.symm
            · exact absurd h.2 (hrest r h.1)
        rw [ha, hbad a List.mem_cons_self ha]
        refine ⟨a, hfound, List.mem_cons_self, ha, fun b hb hbc => ?_⟩
        rcases List.mem_cons.mp hb with rfl | hb
        · exact le_rfl
        · exact absurd hbc (hrest b hb)

end RankedSearch

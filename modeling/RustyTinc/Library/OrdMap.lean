import Mathlib.Tactic
import Mathlib.Data.List.Sort

/-!
Finite maps with their entries in increasing key order, the value of an ordered tree map:
iteration follows the keys, and two maps that answer every lookup alike are equal.

* `get?_insert`, `get?_erase`, `get?_retain`, `get?_mapValues`, `get?_modify`: the lookup
  after each operation;
* `mem_entries`: an entry is stored exactly when the lookup finds it;
* `ext_get?`: a map is determined by its lookups, since the entries are sorted.

A set is a map to the unit type (`OrdSet`).
-/

universe u v

/-- A finite map whose entries are listed in strictly increasing key order. -/
structure OrdMap (κ : Type u) (α : Type v) [LinearOrder κ] where
  /-- The entries, in the order in which the map is traversed. -/
  entries : List (κ × α)
  /-- No key is listed twice, and the keys increase. -/
  sorted : entries.Pairwise fun x y => x.1 < y.1

/-- A finite set listed in increasing order. -/
abbrev OrdSet (κ : Type u) [LinearOrder κ] := OrdMap κ Unit

namespace OrdMap

variable {κ : Type u} {α : Type v} [LinearOrder κ]

instance [DecidableEq α] : DecidableEq (OrdMap κ α) := fun m₁ m₂ =>
  decidable_of_iff (m₁.entries = m₂.entries)
    ⟨fun h => by cases m₁; cases m₂; simpa using h, fun h => by rw [h]⟩

/-! ### Operations -/

/-- The map without entries. -/
def empty : OrdMap κ α := ⟨[], List.Pairwise.nil⟩

instance : Inhabited (OrdMap κ α) := ⟨empty⟩

/-- The value stored under a key. -/
def get? (m : OrdMap κ α) (k : κ) : Option α := m.entries.lookup k

/-- Whether a key is stored. -/
def contains (m : OrdMap κ α) (k : κ) : Bool := (m.get? k).isSome

/-- The keys in increasing order. -/
def keys (m : OrdMap κ α) : List κ := m.entries.map Prod.fst

/-- The values in key order. -/
def values (m : OrdMap κ α) : List α := m.entries.map Prod.snd

/-- The sorted list of entries with `k ↦ v` put in place. -/
def insertEntry (k : κ) (v : α) : List (κ × α) → List (κ × α)
  | [] => [(k, v)]
  | e :: es =>
      if k < e.1 then (k, v) :: e :: es
      else if k = e.1 then (k, v) :: es
      else e :: insertEntry k v es

/-- The entries after an insertion: the new one, and the old ones under other keys. -/
lemma mem_insertEntry_iff (k : κ) (v : α) {es : List (κ × α)} {x : κ × α}
    (hes : es.Pairwise fun x y => x.1 < y.1) :
    x ∈ insertEntry k v es ↔ x = (k, v) ∨ x.1 ≠ k ∧ x ∈ es := by
  induction es with
  | nil => simp [insertEntry]
  | cons e es ih =>
      obtain ⟨hlt, hes'⟩ := List.pairwise_cons.mp hes
      rw [insertEntry]
      split_ifs with h1 h2
      · have hne : x ∈ e :: es → x.1 ≠ k := by
          intro hx
          rcases List.mem_cons.mp hx with rfl | hx
          · exact ne_of_gt h1
          · exact ne_of_gt (lt_trans h1 (hlt x hx))
        rw [List.mem_cons]
        exact or_congr_right ⟨fun hx => ⟨hne hx, hx⟩, And.right⟩
      · have hne : x ∈ es → x.1 ≠ k := fun hx => ne_of_gt (h2 ▸ hlt x hx)
        rw [List.mem_cons, List.mem_cons]
        refine or_congr_right ⟨fun hx => ⟨hne hx, Or.inr hx⟩, ?_⟩
        rintro ⟨hk, rfl | hx⟩
        · exact absurd h2.symm hk
        · exact hx
      · rw [List.mem_cons, ih hes', List.mem_cons]
        constructor
        · rintro (rfl | rfl | ⟨hk, hx⟩)
          · exact Or.inr ⟨Ne.symm h2, Or.inl rfl⟩
          · exact Or.inl rfl
          · exact Or.inr ⟨hk, Or.inr hx⟩
        · rintro (rfl | ⟨hk, rfl | hx⟩)
          · exact Or.inr (Or.inl rfl)
          · exact Or.inl rfl
          · exact Or.inr (Or.inr ⟨hk, hx⟩)

/-- The keys stay in order. -/
lemma pairwise_insertEntry (k : κ) (v : α) {es : List (κ × α)}
    (hes : es.Pairwise fun x y => x.1 < y.1) :
    (insertEntry k v es).Pairwise fun x y => x.1 < y.1 := by
  induction es with
  | nil => simp [insertEntry]
  | cons e es ih =>
      obtain ⟨hlt, hes'⟩ := List.pairwise_cons.mp hes
      rw [insertEntry]
      split_ifs with h1 h2
      · refine List.pairwise_cons.mpr ⟨fun x hx => ?_, hes⟩
        rcases List.mem_cons.mp hx with rfl | hx
        · exact h1
        · exact lt_trans h1 (hlt x hx)
      · refine List.pairwise_cons.mpr ⟨fun x hx => ?_, hes'⟩
        simpa [h2] using hlt x hx
      · refine List.pairwise_cons.mpr ⟨fun x hx => ?_, ih hes'⟩
        rcases (mem_insertEntry_iff k v hes').mp hx with rfl | ⟨-, hx⟩
        · exact lt_of_le_of_ne (not_lt.mp h1) (Ne.symm h2)
        · exact hlt x hx

/-- Store a value under a key, replacing what was stored there. -/
def insert (m : OrdMap κ α) (k : κ) (v : α) : OrdMap κ α :=
  ⟨insertEntry k v m.entries, pairwise_insertEntry k v m.sorted⟩

/-- Keep the entries that satisfy a test. -/
def retain (m : OrdMap κ α) (p : κ → α → Bool) : OrdMap κ α :=
  ⟨m.entries.filter fun e => p e.1 e.2, m.sorted.filter _⟩

/-- Remove a key. -/
def erase (m : OrdMap κ α) (k : κ) : OrdMap κ α := m.retain fun k' _ => k' ≠ k

/-- Apply a function to every value. -/
def mapValues (m : OrdMap κ α) (f : κ → α → α) : OrdMap κ α :=
  ⟨m.entries.map fun e => (e.1, f e.1 e.2), List.pairwise_map.mpr m.sorted⟩

/-- Apply a function to the value of one key, if it is stored. -/
def modify (m : OrdMap κ α) (k : κ) (f : α → α) : OrdMap κ α :=
  m.mapValues fun k' v => if k' = k then f v else v

/-! ### Lookups -/

/-- The entries are those that a lookup finds. -/
lemma mem_entries {m : OrdMap κ α} {k : κ} {v : α} : (k, v) ∈ m.entries ↔ m.get? k = some v := by
  obtain ⟨es, hes⟩ := m
  show (k, v) ∈ es ↔ es.lookup k = some v
  induction es with
  | nil => simp
  | cons e es ih =>
      obtain ⟨hlt, hes'⟩ := List.pairwise_cons.mp hes
      obtain ⟨k', v'⟩ := e
      rw [List.lookup_cons, List.mem_cons, ih hes']
      by_cases hk : k = k'
      · subst hk
        have hnot : es.lookup k ≠ some v := fun h => lt_irrefl k (hlt (k, v) ((ih hes').mpr h))
        simp [hnot, eq_comm]
      · have hbeq : (k == k') = false := by simpa using hk
        simp [hk, hbeq]

lemma get?_eq_none {m : OrdMap κ α} {k : κ} : m.get? k = none ↔ k ∉ m.keys := by
  rw [Option.eq_none_iff_forall_not_mem, keys, List.mem_map]
  constructor
  · rintro h ⟨⟨k', v⟩, hv, rfl⟩
    exact h v (mem_entries.mp hv)
  · rintro h v hv
    exact h ⟨(k, v), mem_entries.mpr hv, rfl⟩

lemma mem_keys {m : OrdMap κ α} {k : κ} : k ∈ m.keys ↔ ∃ v, m.get? k = some v := by
  rw [← not_iff_not, ← get?_eq_none, ← Option.not_isSome_iff_eq_none, Option.isSome_iff_exists]

lemma mem_values {m : OrdMap κ α} {v : α} : v ∈ m.values ↔ ∃ k, m.get? k = some v := by
  simp only [values, List.mem_map, Prod.exists, mem_entries]
  exact ⟨fun ⟨k, _, h, e⟩ => ⟨k, e ▸ h⟩, fun ⟨k, h⟩ => ⟨k, v, h, rfl⟩⟩

@[simp] lemma contains_eq_true {m : OrdMap κ α} {k : κ} : m.contains k = true ↔ k ∈ m.keys := by
  rw [contains, mem_keys, Option.isSome_iff_exists]

lemma sorted_keys (m : OrdMap κ α) : m.keys.Pairwise (· < ·) := List.pairwise_map.mpr m.sorted

lemma nodup_keys (m : OrdMap κ α) : m.keys.Nodup := m.sorted_keys.imp ne_of_lt

/-- A map is determined by its lookups. -/
theorem ext_get? {m₁ m₂ : OrdMap κ α} (h : ∀ k, m₁.get? k = m₂.get? k) : m₁ = m₂ := by
  have hmem : ∀ e, e ∈ m₁.entries ↔ e ∈ m₂.entries := by
    rintro ⟨k, v⟩
    rw [mem_entries, mem_entries, h k]
  have hirr : Std.Irrefl fun x y : κ × α => x.1 < y.1 := ⟨fun x => lt_irrefl x.1⟩
  have hanti : Std.Antisymm fun x y : κ × α => x.1 < y.1 :=
    ⟨fun _ _ h1 h2 => absurd (lt_trans h1 h2) (lt_irrefl _)⟩
  have hentries := List.Pairwise.eq_of_mem_iff m₁.sorted m₂.sorted hmem
  cases m₁
  cases m₂
  simpa using hentries

@[simp] lemma get?_empty (k : κ) : (empty : OrdMap κ α).get? k = none := rfl

/-- The lookup as a statement about stored entries, for maps given by their entries. -/
lemma get?_eq_of_mem_iff {m : OrdMap κ α} {k : κ} {o : Option α}
    (h : ∀ v, (k, v) ∈ m.entries ↔ o = some v) : m.get? k = o := by
  rw [Option.ext_iff]
  exact fun v => mem_entries.symm.trans (h v)

lemma get?_insert (m : OrdMap κ α) (k k' : κ) (v : α) :
    (m.insert k v).get? k' = if k' = k then some v else m.get? k' :=
  get?_eq_of_mem_iff fun v' => by
    rw [insert, mem_insertEntry_iff k v m.sorted]
    by_cases hk : k' = k
    · simp [hk, eq_comm]
    · simp [hk, mem_entries]

lemma get?_retain (m : OrdMap κ α) (p : κ → α → Bool) (k : κ) :
    (m.retain p).get? k = (m.get? k).filter (p k) :=
  get?_eq_of_mem_iff fun v => by
    rw [retain, List.mem_filter, mem_entries, Option.filter_eq_some_iff]

lemma get?_erase (m : OrdMap κ α) (k k' : κ) :
    (m.erase k).get? k' = if k' = k then none else m.get? k' := by
  rw [erase, get?_retain]
  by_cases hk : k' = k
  · cases m.get? k' <;> simp [hk, Option.filter]
  · cases m.get? k' <;> simp [hk, Option.filter]

lemma get?_mapValues (m : OrdMap κ α) (f : κ → α → α) (k : κ) :
    (m.mapValues f).get? k = (m.get? k).map (f k) :=
  get?_eq_of_mem_iff fun v => by
    simp only [mapValues, List.mem_map, Prod.exists, Prod.mk.injEq, mem_entries,
      Option.map_eq_some_iff]
    exact ⟨fun ⟨k', v', h, hk, hv⟩ => ⟨v', hk ▸ h, hk ▸ hv⟩, fun ⟨v', h, hv⟩ => ⟨k, v', h, rfl, hv⟩⟩

lemma get?_modify (m : OrdMap κ α) (k : κ) (f : α → α) (k' : κ) :
    (m.modify k f).get? k' = if k' = k then (m.get? k').map f else m.get? k' := by
  rw [modify, get?_mapValues]
  by_cases hk : k' = k
  · simp [hk]
  · cases m.get? k' <;> simp [hk]

/-! ### Keys -/

@[simp] lemma keys_mapValues (m : OrdMap κ α) (f : κ → α → α) : (m.mapValues f).keys = m.keys := by
  simp [keys, mapValues]

@[simp] lemma keys_modify (m : OrdMap κ α) (k : κ) (f : α → α) : (m.modify k f).keys = m.keys :=
  keys_mapValues m _

@[simp] lemma keys_empty : (empty : OrdMap κ α).keys = [] := rfl

@[simp] lemma mem_keys_insert {m : OrdMap κ α} {k k' : κ} {v : α} :
    k' ∈ (m.insert k v).keys ↔ k' = k ∨ k' ∈ m.keys := by
  rw [mem_keys, mem_keys, get?_insert]
  by_cases hk : k' = k <;> simp [hk]

@[simp] lemma mem_keys_erase {m : OrdMap κ α} {k k' : κ} :
    k' ∈ (m.erase k).keys ↔ k' ≠ k ∧ k' ∈ m.keys := by
  rw [mem_keys, mem_keys, get?_erase]
  by_cases hk : k' = k <;> simp [hk]

lemma mem_keys_retain {m : OrdMap κ α} {p : κ → α → Bool} {k : κ} :
    k ∈ (m.retain p).keys ↔ ∃ v, m.get? k = some v ∧ p k v = true := by
  rw [mem_keys]
  simp [get?_retain, Option.filter_eq_some_iff]

end OrdMap

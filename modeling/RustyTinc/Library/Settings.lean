import RustyTinc.Library.Text

/-!
Lines that give a name a value, and what a list of such entries says about a name.

* `Text.splitSetting_format`: a setting that is written reads back;
* `Text.splitSetting_name`, `Text.splitSetting_value`: what a name and a value cannot contain;
* `Multimap.values_remove`, `Multimap.values_assign`: what an edit of the entries does to the
  values of each name.
-/

namespace Text

/-! ### Names and values -/

/-- A blank within a line. -/
def isBlank (c : Char) : Bool := c = '\t' || c = ' '

/-- What ends the name at the start of a line. -/
def endsName (c : Char) : Bool := isBlank c || c = '='

/-- A text with its ASCII letters in lower case. -/
def lowercase (text : List Char) : List Char := text.map Char.toLower

/-- The texts differ at most in the case of their letters. -/
def eqIgnoreAsciiCase (a b : List Char) : Bool := lowercase a = lowercase b

/-- A value without the equals sign before it. -/
def afterEquals : List Char → List Char
  | '=' :: rest => rest.dropWhile isBlank
  | rest => rest

/-- The name at the start of a line and its value: what comes after blanks and one equals sign. -/
def splitSetting (line : List Char) : List Char × List Char :=
  (line.takeWhile fun c => !endsName c,
    afterEquals ((line.dropWhile fun c => !endsName c).dropWhile isBlank))

/-- A name has no blanks and no equals sign in it. -/
lemma splitSetting_name (line : List Char) : ∀ c ∈ (splitSetting line).1, endsName c = false := by
  intro c hc
  simpa using List.mem_takeWhile_imp hc

lemma splitSetting_append {name rest : List Char} (hname : ∀ c ∈ name, endsName c = false)
    (hrest : ∀ c ∈ rest.head?, endsName c = true) :
    splitSetting (name ++ rest) = (name, afterEquals (rest.dropWhile isBlank)) := by
  have hkeep : ∀ c ∈ name, (!endsName c) = true := fun c hc => by rw [hname c hc]; rfl
  rw [splitSetting, List.takeWhile_append_of_pos hkeep, List.dropWhile_append_of_pos hkeep]
  cases rest with
  | nil => simp
  | cons c rest =>
      have hc : endsName c = true := hrest c rfl
      simp [hc]

lemma dropWhile_isBlank_of_head {text : List Char} (h : ∀ c ∈ text.head?, isBlank c = false) :
    text.dropWhile isBlank = text := by
  cases text with
  | nil => rfl
  | cons c text => exact List.dropWhile_cons_of_neg (by simp [h c rfl])

/-- **A setting reads back.** -/
lemma splitSetting_format {name value : List Char} (hname : ∀ c ∈ name, endsName c = false)
    (hvalue : ∀ c ∈ value.head?, isBlank c = false) :
    splitSetting (name ++ ' ' :: '=' :: ' ' :: value) = (name, value) := by
  have hrest : ∀ c ∈ (' ' :: '=' :: ' ' :: value).head?, endsName c = true := by
    intro c hc
    cases hc
    rfl
  rw [splitSetting_append hname hrest, List.dropWhile_cons_of_pos (by rfl)]
  show (name, (' ' :: value).dropWhile isBlank) = _
  rw [List.dropWhile_cons_of_pos (by rfl), dropWhile_isBlank_of_head hvalue]

lemma mem_of_mem_afterEquals {rest : List Char} {c : Char} (h : c ∈ afterEquals rest) :
    c ∈ rest := by
  unfold afterEquals at h
  split at h
  · exact List.mem_cons_of_mem _ ((List.dropWhile_suffix _).subset h)
  · exact h

/-- The name and the value are parts of the line. -/
lemma mem_of_mem_splitSetting {line : List Char} {c : Char}
    (h : c ∈ (splitSetting line).1 ∨ c ∈ (splitSetting line).2) : c ∈ line := by
  rcases h with h | h
  · exact (List.takeWhile_prefix _).subset h
  · have hrest := (List.dropWhile_suffix _).subset (mem_of_mem_afterEquals h)
    exact (List.dropWhile_suffix _).subset hrest

lemma head_dropWhile_isBlank {text : List Char} : ∀ c ∈ (text.dropWhile isBlank).head?,
    isBlank c = false := by
  intro c hc
  have hnot := List.head?_dropWhile_not isBlank text
  rw [Option.mem_def.mp hc] at hnot
  simpa using hnot

/-- No value starts with a blank. -/
lemma splitSetting_value (line : List Char) : ∀ c ∈ (splitSetting line).2.head?,
    isBlank c = false := by
  have hafter : ∀ rest : List Char, (∀ c ∈ rest.head?, isBlank c = false) →
      ∀ c ∈ (afterEquals rest).head?, isBlank c = false := by
    intro rest hrest
    unfold afterEquals
    split
    · exact head_dropWhile_isBlank
    · exact hrest
  exact hafter _ head_dropWhile_isBlank

end Text

/-! ### Several values for one name -/

namespace Multimap

variable {κ α : Type*} [DecidableEq κ]

/-- The values of a name, in the order of their entries. -/
def values (entries : List (κ × α)) (k : κ) : List α :=
  (entries.filter (·.1 = k)).map Prod.snd

@[simp] lemma values_nil (k : κ) : values ([] : List (κ × α)) k = [] := rfl

@[simp] lemma values_cons (e : κ × α) (entries : List (κ × α)) (k : κ) :
    values (e :: entries) k = if e.1 = k then e.2 :: values entries k else values entries k := by
  by_cases h : e.1 = k <;> simp [values, h]

lemma values_append (entries entries' : List (κ × α)) (k : κ) :
    values (entries ++ entries') k = values entries k ++ values entries' k := by
  simp [values]

/-- The entries without those of a name whose value has a property. -/
def remove (k : κ) (p : α → Bool) (entries : List (κ × α)) : List (κ × α) :=
  entries.filter fun e => !(e.1 = k && p e.2)

@[simp] lemma remove_nil (k : κ) (p : α → Bool) : remove k p ([] : List (κ × α)) = [] := rfl

@[simp] lemma remove_cons (k : κ) (p : α → Bool) (e : κ × α) (entries : List (κ × α)) :
    remove k p (e :: entries) =
      if e.1 = k ∧ p e.2 then remove k p entries else e :: remove k p entries := by
  by_cases he : e.1 = k <;> by_cases hp : p e.2 <;> simp [remove, he, hp]

/-- **Removing entries of one name.** -/
lemma values_remove (k k' : κ) (p : α → Bool) (entries : List (κ × α)) :
    values (remove k p entries) k' =
      if k' = k then (values entries k).filter (!p ·) else values entries k' := by
  induction entries with
  | nil => simp
  | cons e entries ih =>
      rw [remove_cons, apply_ite (values · k'), values_cons, ih]
      by_cases hk : k' = k
      · subst hk
        by_cases he : e.1 = k' <;> by_cases hp : p e.2 <;> simp [he, hp]
      · by_cases he : e.1 = k
        · have hne : e.1 ≠ k' := fun h => hk (h.symm.trans he)
          by_cases hp : p e.2 <;> simp [hk, he, hp, Ne.symm hk]
        · simp [hk, he]

/-- The entries in which a name gets one value in the place of its first entry, if it has one. -/
def replace (k : κ) (v : α) : Bool → List (κ × α) → List (κ × α)
  | _, [] => []
  | done, e :: entries =>
      if e.1 = k then
        if done then replace k v true entries else (k, v) :: replace k v true entries
      else e :: replace k v done entries

/-- The entries in which a name has one value. -/
def assign (k : κ) (v : α) (entries : List (κ × α)) : List (κ × α) :=
  replace k v false entries ++ if entries.any (·.1 = k) then [] else [(k, v)]

/-- A replaced key has one value, and the others keep theirs. -/
lemma values_replace (k k' : κ) (v : α) (done : Bool) (entries : List (κ × α)) :
    values (replace k v done entries) k' =
      if k' = k then if entries.any (·.1 = k) && !done then [v] else []
      else values entries k' := by
  induction entries generalizing done with
  | nil => simp [replace]
  | cons e entries ih =>
      by_cases he : e.1 = k
      · have hany : (e :: entries).any (·.1 = k) = true := by simp [he]
        rw [replace, if_pos he, hany]
        by_cases hk : k' = k
        · subst hk
          cases done <;> simp [ih]
        · have hne : ¬k = k' := Ne.symm hk
          cases done <;> simp [ih, hk, hne, he]
      · have hany : (e :: entries).any (·.1 = k) = entries.any (·.1 = k) := by simp [he]
        rw [replace, if_neg he, hany, values_cons, values_cons, ih]
        by_cases hk : k' = k
        · subst hk
          rw [if_neg he, if_pos rfl, if_pos rfl]
        · rw [if_neg hk, if_neg hk]

/-- **Assigning a value** leaves the values of the other names as they are. -/
lemma values_assign (k k' : κ) (v : α) (entries : List (κ × α)) :
    values (assign k v entries) k' = if k' = k then [v] else values entries k' := by
  rw [assign, values_append, values_replace]
  by_cases hk : k' = k
  · subst hk
    cases entries.any (·.1 = k') <;> simp
  · have hne : ¬k = k' := Ne.symm hk
    cases entries.any (·.1 = k) <;> simp [hk, hne]

/-- A name has a value with a property exactly when an entry says so. -/
lemma any_values (k : κ) (p : α → Bool) (entries : List (κ × α)) :
    (values entries k).any p = entries.any fun e => e.1 = k && p e.2 := by
  rw [values, List.any_map, List.any_filter]
  rfl

end Multimap

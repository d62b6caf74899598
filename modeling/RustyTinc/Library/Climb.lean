import Mathlib.Order.WellFounded
import Mathlib.Tactic

/-!
Climbing from parent to parent up to a root, in a partial map of parents.

* `Climb`: the items met on the way;
* `exists_climb`: a potential that falls from every item to its parent makes every climb end at
  the root, without a repetition;
* `Climb.of_closed`: a climb from a set closed under parents ends in that set.
-/

namespace ParentMap

variable {α : Type*} {parent : α → Option α} {root : α}

/-- The way from an item to the root. -/
inductive Climb (parent : α → Option α) (root : α) : α → List α → Prop
  | arrived : Climb parent root root [root]
  | up {a b : α} {path : List α} (hne : a ≠ root) (hb : parent a = some b)
      (h : Climb parent root b path) : Climb parent root a (a :: path)

/-- The potential falls along the way to the root. -/
lemma exists_falling_climb {β : Type*} [Preorder β] [WellFoundedLT β] {P : α → Prop}
    (potential : α → β)
    (hup : ∀ a, P a → a ≠ root → ∃ b, parent a = some b ∧ P b ∧ potential b < potential a)
    {a : α} (ha : P a) : ∃ path, Climb parent root a path ∧
      (∀ b ∈ path, b = a ∨ potential b < potential a) ∧
      path.Pairwise fun b c => potential c < potential b := by
  induction hp : potential a using WellFoundedLT.induction generalizing a with
  | _ p ih =>
      by_cases hroot : a = root
      · subst hroot
        exact ⟨[a], Climb.arrived, by simp, by simp⟩
      · obtain ⟨b, hb, hPb, hlt⟩ := hup a ha hroot
        obtain ⟨path, hclimb, hbelow, hfalls⟩ := ih _ (hp ▸ hlt) hPb rfl
        have hless : ∀ c ∈ path, potential c < potential a := by
          intro c hc
          rcases hbelow c hc with rfl | hcb
          · exact hlt
          · exact lt_trans hcb hlt
        refine ⟨a :: path, Climb.up hroot hb hclimb, fun c hc => ?_,
          List.pairwise_cons.mpr ⟨hless, hfalls⟩⟩
        rcases List.mem_cons.mp hc with rfl | hc
        · exact Or.inl rfl
        · exact Or.inr (hp ▸ hless c hc)

/-- **Every climb ends at the root** when a potential falls from each item to its parent. -/
theorem exists_climb {β : Type*} [Preorder β] [WellFoundedLT β] {P : α → Prop}
    (potential : α → β)
    (hup : ∀ a, P a → a ≠ root → ∃ b, parent a = some b ∧ P b ∧ potential b < potential a)
    {a : α} (ha : P a) : ∃ path, Climb parent root a path ∧ path.Nodup := by
  obtain ⟨path, hclimb, -, hfalls⟩ := exists_falling_climb potential hup ha
  refine ⟨path, hclimb, hfalls.imp fun hlt heq => ?_⟩
  rw [heq] at hlt
  exact lt_irrefl _ hlt

/-- A set closed under parents holds the root if a climb starts in it. -/
lemma Climb.of_closed {S : α → Prop} (hclosed : ∀ a b, S a → parent a = some b → S b)
    {a : α} {path : List α} (h : Climb parent root a path) (ha : S a) : S root := by
  induction h with
  | arrived => exact ha
  | up _ hb _ ih => exact ih (hclosed _ _ ha hb)

end ParentMap

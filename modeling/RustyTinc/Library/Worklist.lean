import Mathlib.Logic.Relation
import Mathlib.Tactic

/-!
Worklist loops: a state and a queue of items, where processing the first item changes the
state and appends further items to the queue. The loop may run for ever, so it takes fuel,
and its results are stated for every run that returns.

* `run_inv`: what processing an item keeps holds when the loop returns;
* `run_unique`: the result does not depend on the fuel;
* `run_simulates`: two loops that queue the same items, in related states;
* `run_returns`: a loop under which a measure falls returns; `worth` is a measure of the queue
  for items that queue boundedly many items one level deeper;
* `not_run_of_invariant`: a loop whose queue is never empty does not return;
* `trace`: what the steps of the loop emit, with `trace_inv` for what holds of all of it and
  `run_inv_of_trace` for a run whose emissions all satisfy a condition;
* `Search.visited_iff`: a loop that marks the neighbours of every item it processes, and
  queues what it newly marks, returns with exactly the items marked that a chain of neighbours
  joins to the first one.
-/

namespace Worklist

variable {σ α : Type*} (step : σ → α → σ × List α)

/-- Process the items of the queue in order, until it is empty. -/
def run : ℕ → σ → List α → Option σ
  | _, s, [] => some s
  | 0, _, _ :: _ => none
  | fuel + 1, s, a :: queue => run fuel (step s a).1 (queue ++ (step s a).2)

variable {step}

/-- **The invariant rule.** -/
theorem run_inv {P : σ → List α → Prop}
    (hstep : ∀ s a queue, P s (a :: queue) → P (step s a).1 (queue ++ (step s a).2))
    {fuel : ℕ} {s s' : σ} {queue : List α} (hrun : run step fuel s queue = some s')
    (hP : P s queue) : P s' [] := by
  induction fuel generalizing s queue with
  | zero =>
      cases queue with
      | nil =>
          rw [run, Option.some_inj] at hrun
          exact hrun ▸ hP
      | cons a queue => simp [run] at hrun
  | succ fuel ih =>
      cases queue with
      | nil =>
          rw [run, Option.some_inj] at hrun
          exact hrun ▸ hP
      | cons a queue => exact ih hrun (hstep s a queue hP)

/-- More fuel does not change a result. -/
lemma run_succ {fuel : ℕ} {s s' : σ} {queue : List α} (hrun : run step fuel s queue = some s') :
    run step (fuel + 1) s queue = some s' := by
  induction fuel generalizing s queue with
  | zero =>
      cases queue with
      | nil => exact hrun
      | cons a queue => simp [run] at hrun
  | succ fuel ih =>
      cases queue with
      | nil => exact hrun
      | cons a queue => exact ih hrun

lemma run_mono {fuel fuel' : ℕ} (hle : fuel ≤ fuel') {s s' : σ} {queue : List α}
    (hrun : run step fuel s queue = some s') : run step fuel' s queue = some s' := by
  induction hle with
  | refl => exact hrun
  | step _ ih => exact run_succ ih

/-- The result does not depend on the fuel. -/
lemma run_unique {fuel fuel' : ℕ} {s s₁ s₂ : σ} {queue : List α}
    (h₁ : run step fuel s queue = some s₁) (h₂ : run step fuel' s queue = some s₂) : s₁ = s₂ := by
  have h₁' := run_mono (le_max_left fuel fuel') h₁
  have h₂' := run_mono (le_max_right fuel fuel') h₂
  rw [h₁', Option.some_inj] at h₂'
  exact h₂'

/-- **The simulation rule**: a loop in a related state that queues the same items, all of them in
`P`, takes as many steps. -/
theorem run_simulates {τ : Type*} {step' : τ → α → τ × List α} {R : σ → τ → Prop} {P : α → Prop}
    (hstep : ∀ s t a, R s t → P a → R (step s a).1 (step' t a).1 ∧
      (step' t a).2 = (step s a).2 ∧ ∀ b ∈ (step s a).2, P b)
    {fuel : ℕ} {s s' : σ} {t : τ} {queue : List α} (hrun : run step fuel s queue = some s')
    (hR : R s t) (hP : ∀ a ∈ queue, P a) : ∃ t', run step' fuel t queue = some t' ∧ R s' t' := by
  induction fuel generalizing s t queue with
  | zero =>
      cases queue with
      | nil =>
          rw [run, Option.some_inj] at hrun
          exact ⟨t, rfl, hrun ▸ hR⟩
      | cons a queue => simp [run] at hrun
  | succ fuel ih =>
      cases queue with
      | nil =>
          rw [run, Option.some_inj] at hrun
          exact ⟨t, rfl, hrun ▸ hR⟩
      | cons a queue =>
          obtain ⟨hR', hqueued, hP'⟩ := hstep s t a hR (hP a List.mem_cons_self)
          rw [run, hqueued]
          refine ih hrun hR' fun b hb => ?_
          rcases List.mem_append.mp hb with hb | hb
          · exact hP b (List.mem_cons_of_mem _ hb)
          · exact hP' b hb

/-- One iteration of the loop; an empty queue stays as it is. -/
def pop (step : σ → α → σ × List α) : σ × List α → σ × List α
  | (s, []) => (s, [])
  | (s, a :: queue) => ((step s a).1, queue ++ (step s a).2)

lemma run_pop {fuel : ℕ} {s' : σ} {st : σ × List α} (hrun : run step fuel st.1 st.2 = some s') :
    ∃ fuel', run step fuel' (pop step st).1 (pop step st).2 = some s' := by
  obtain ⟨s, queue⟩ := st
  cases queue with
  | nil => exact ⟨fuel, hrun⟩
  | cons a queue =>
      cases fuel with
      | zero => simp [run] at hrun
      | succ fuel => exact ⟨fuel, hrun⟩

/-- A loop that returns also returns after its first iterations. -/
lemma run_iterate_pop {fuel : ℕ} {s' : σ} {st : σ × List α}
    (hrun : run step fuel st.1 st.2 = some s') (i : ℕ) :
    ∃ fuel', run step fuel' ((pop step)^[i] st).1 ((pop step)^[i] st).2 = some s' := by
  induction i with
  | zero => exact ⟨fuel, hrun⟩
  | succ i ih =>
      obtain ⟨fuel', hrun'⟩ := ih
      rw [Function.iterate_succ_apply']
      exact run_pop hrun'

/-- **Endless loops**: a loop does not return when its iterations keep a set of states with
non-empty queues. -/
theorem not_run_of_invariant {P : σ → List α → Prop} (hqueue : ∀ s, ¬ P s [])
    (hstep : ∀ s a queue, P s (a :: queue) → P (step s a).1 (queue ++ (step s a).2))
    {s : σ} {queue : List α} (hP : P s queue) (fuel : ℕ) : run step fuel s queue = none := by
  cases hrun : run step fuel s queue with
  | none => rfl
  | some s' => exact absurd (run_inv hstep hrun hP) (hqueue s')

/-- **Termination**: a loop returns when processing an item lowers a measure of the state and the
queue. -/
theorem run_returns {β : Type*} [Preorder β] [WellFoundedLT β] {P : σ → List α → Prop}
    (measure : σ → List α → β)
    (hstep : ∀ s a queue, P s (a :: queue) → P (step s a).1 (queue ++ (step s a).2) ∧
      measure (step s a).1 (queue ++ (step s a).2) < measure s (a :: queue))
    {s : σ} {queue : List α} (hP : P s queue) : ∃ fuel s', run step fuel s queue = some s' := by
  induction hn : measure s queue using WellFoundedLT.induction generalizing s queue with
  | _ n ih =>
      cases queue with
      | nil => exact ⟨0, s, rfl⟩
      | cons a queue =>
          obtain ⟨hP', hlt⟩ := hstep s a queue hP
          obtain ⟨fuel, s', hrun⟩ := ih _ (hn ▸ hlt) hP' rfl
          exact ⟨fuel + 1, s', hrun⟩

/-- The worth of a queue whose items have depths up to `D`: an item is worth more than `K` items
one level deeper. -/
def worth (K D : ℕ) (depth : α → ℕ) (queue : List α) : ℕ :=
  (queue.map fun a => (K + 1) ^ (D - depth a)).sum

/-- A queue is worth less when an item makes room for at most `K` items one level deeper. -/
lemma worth_lt {K D : ℕ} {depth depth' : α → ℕ} {a : α} {queue new : List α}
    (hlen : new.length ≤ K) (hsame : ∀ b ∈ queue, depth' b = depth b)
    (hnew : ∀ b ∈ new, depth' b = depth a + 1 ∧ depth a < D) :
    worth K D depth' (queue ++ new) < worth K D depth (a :: queue) := by
  have hqueue : ∀ b ∈ queue, (K + 1) ^ (D - depth' b) = (K + 1) ^ (D - depth b) :=
    fun b hb => by rw [hsame b hb]
  have hpushed : ∀ b ∈ new, (K + 1) ^ (D - depth' b) = (K + 1) ^ (D - (depth a + 1)) :=
    fun b hb => by rw [(hnew b hb).1]
  -- what is queued is worth less than the item that is gone
  have hworth : new.length * (K + 1) ^ (D - (depth a + 1)) < (K + 1) ^ (D - depth a) := by
    rcases new.eq_nil_or_concat with rfl | ⟨rest, b, hb⟩
    · rw [List.length_nil, zero_mul]
      exact Nat.pos_of_ne_zero (pow_ne_zero _ (Nat.succ_ne_zero K))
    · have hlt := (hnew b (by simp [hb])).2
      have hsplit : D - depth a = D - (depth a + 1) + 1 := by omega
      rw [hsplit, pow_succ']
      exact Nat.mul_lt_mul_of_pos_right (Nat.lt_succ_of_le hlen)
        (Nat.pos_of_ne_zero (pow_ne_zero _ (Nat.succ_ne_zero K)))
  rw [worth, worth, List.map_append, List.sum_append, List.map_cons, List.sum_cons,
    List.map_congr_left hqueue, List.map_congr_left hpushed, List.map_const', List.sum_replicate,
    smul_eq_mul]
  omega

/-! ### What the steps emit -/

/-- Everything that `emit` yields at the items that the loop processes, in order. -/
def trace {β : Type*} (step : σ → α → σ × List α) (emit : σ → α → List β) :
    ℕ → σ → List α → List β
  | _, _, [] => []
  | 0, _, _ :: _ => []
  | fuel + 1, s, a :: queue => emit s a ++ trace step emit fuel (step s a).1 (queue ++ (step s a).2)

section Trace

variable {β : Type*} {emit : σ → α → List β} {P : σ → List α → Prop} {Q R : β → Prop}

/-- While all that is emitted satisfies `Q`, the loop keeps `P` and all that is emitted
satisfies `R`. -/
theorem trace_inv
    (hstep : ∀ s a queue, P s (a :: queue) → (∀ r ∈ emit s a, Q r) →
      (∀ r ∈ emit s a, R r) ∧ P (step s a).1 (queue ++ (step s a).2))
    {fuel : ℕ} {s : σ} {queue : List α} (hQ : ∀ r ∈ trace step emit fuel s queue, Q r)
    (hP : P s queue) : ∀ r ∈ trace step emit fuel s queue, R r := by
  induction fuel generalizing s queue with
  | zero => cases queue <;> simp [trace]
  | succ fuel ih =>
      cases queue with
      | nil => simp [trace]
      | cons a queue =>
          rw [trace, List.forall_mem_append] at hQ ⊢
          obtain ⟨hR, hP'⟩ := hstep s a queue hP hQ.1
          exact ⟨hR, ih hQ.2 hP'⟩

/-- The invariant rule for a run in which all that is emitted satisfies `Q`. -/
theorem run_inv_of_trace
    (hstep : ∀ s a queue, P s (a :: queue) → (∀ r ∈ emit s a, Q r) →
      P (step s a).1 (queue ++ (step s a).2))
    {fuel : ℕ} {s s' : σ} {queue : List α} (hQ : ∀ r ∈ trace step emit fuel s queue, Q r)
    (hrun : run step fuel s queue = some s') (hP : P s queue) : P s' [] := by
  induction fuel generalizing s queue with
  | zero =>
      cases queue with
      | nil =>
          rw [run, Option.some_inj] at hrun
          exact hrun ▸ hP
      | cons a queue => simp [run] at hrun
  | succ fuel ih =>
      cases queue with
      | nil =>
          rw [run, Option.some_inj] at hrun
          exact hrun ▸ hP
      | cons a queue =>
          rw [trace, List.forall_mem_append] at hQ
          exact ih hQ.2 hrun (hstep s a queue hP hQ.1)

/-- Termination of a loop in which all that is emitted satisfies `Q`. -/
theorem run_returns_of_trace {γ : Type*} [Preorder γ] [WellFoundedLT γ]
    (measure : σ → List α → γ)
    (hstep : ∀ s a queue, P s (a :: queue) → (∀ r ∈ emit s a, Q r) →
      P (step s a).1 (queue ++ (step s a).2) ∧
        measure (step s a).1 (queue ++ (step s a).2) < measure s (a :: queue))
    {s : σ} {queue : List α} (hQ : ∀ fuel, ∀ r ∈ trace step emit fuel s queue, Q r)
    (hP : P s queue) : ∃ fuel s', run step fuel s queue = some s' := by
  refine run_returns
    (P := fun s queue => P s queue ∧ ∀ fuel, ∀ r ∈ trace step emit fuel s queue, Q r)
    measure (fun s a queue h => ?_) ⟨hP, hQ⟩
  obtain ⟨hP, hQ⟩ := h
  have hnext := fun fuel => List.forall_mem_append.mp (hQ (fuel + 1))
  obtain ⟨hP', hlt⟩ := hstep s a queue hP (hnext 0).1
  exact ⟨⟨hP', fun fuel => (hnext fuel).2⟩, hlt⟩

end Trace

/-! ### Graph search -/

/-- The steps of a graph search along `R`, in states that satisfy `I`: processing a marked item
marks its neighbours, and what it newly marks are neighbours that it queues. -/
structure Search (step : σ → α → σ × List α) (I : σ → Prop) (visited : σ → α → Prop)
    (R : α → α → Prop) : Prop where
  inv : ∀ s a, I s → visited s a → I (step s a).1
  mono : ∀ s a b, I s → visited s a → visited s b → visited (step s a).1 b
  settled : ∀ s a b, I s → visited s a → R a b → visited (step s a).1 b
  fresh : ∀ s a b, I s → visited s a → visited (step s a).1 b →
    visited s b ∨ R a b ∧ b ∈ (step s a).2
  queued : ∀ s a b, I s → visited s a → b ∈ (step s a).2 → visited (step s a).1 b

/-- The invariant of a search from `root`: what is queued is marked, what is marked is joined
to the root, and the neighbours of a marked item are marked unless it is still queued. -/
structure Search.Frontier (visited : σ → α → Prop) (R : α → α → Prop) (root : α) (s : σ)
    (queue : List α) : Prop where
  root_visited : visited s root
  queue_visited : ∀ b ∈ queue, visited s b
  joined : ∀ b, visited s b → Relation.ReflTransGen R root b
  closed : ∀ b, visited s b → b ∉ queue → ∀ c, R b c → visited s c

variable {I : σ → Prop} {visited : σ → α → Prop} {R : α → α → Prop}

/-- A step moves the frontier on. -/
lemma Search.frontier_step (h : Search step I visited R) {root a : α} {s : σ} {queue : List α}
    (hI : I s) (hF : Search.Frontier visited R root s (a :: queue)) :
    Search.Frontier visited R root (step s a).1 (queue ++ (step s a).2) := by
  have ha : visited s a := hF.queue_visited a (by simp)
  refine ⟨h.mono s a root hI ha hF.root_visited, fun b hb => ?_, fun b hb => ?_,
    fun b hb hbq c hc => ?_⟩
  · rcases List.mem_append.mp hb with hb | hb
    · exact h.mono s a b hI ha (hF.queue_visited b (by simp [hb]))
    · exact h.queued s a b hI ha hb
  · rcases h.fresh s a b hI ha hb with hb | ⟨hab, -⟩
    · exact hF.joined b hb
    · exact (hF.joined a ha).tail hab
  · -- The item just processed is settled; any other one was settled before or is still queued.
    obtain ⟨hbq, hbp⟩ := not_or.mp (mt List.mem_append.mpr hbq)
    rcases h.fresh s a b hI ha hb with hb | ⟨-, hb⟩
    · by_cases hba : b = a
      · exact h.settled s a c hI ha (hba ▸ hc)
      · exact h.mono s a c hI ha (hF.closed b hb (by simp [hba, hbq]) c hc)
    · exact absurd hb hbp

/-- **A search marks exactly what is joined to its root.** -/
theorem Search.visited_iff (h : Search step I visited R) {root : α} {s s' : σ} {fuel : ℕ}
    (hI : I s) (hinit : ∀ b, visited s b ↔ b = root) (hrun : run step fuel s [root] = some s') :
    I s' ∧ ∀ b, visited s' b ↔ Relation.ReflTransGen R root b := by
  have hF : Search.Frontier visited R root s [root] := by
    refine ⟨(hinit root).mpr rfl, by simp [hinit], fun b hb => ?_, fun b hb hbq => ?_⟩
    · rw [(hinit b).mp hb]
    · exact absurd ((hinit b).mp hb) (by simpa using hbq)
  obtain ⟨hI', hF'⟩ := run_inv (P := fun s queue => I s ∧ Search.Frontier visited R root s queue)
    (fun s a queue hP => ⟨h.inv s a hP.1 (hP.2.queue_visited a (by simp)),
      h.frontier_step hP.1 hP.2⟩) hrun ⟨hI, hF⟩
  refine ⟨hI', fun b => ⟨hF'.joined b, fun hb => ?_⟩⟩
  induction hb with
  | refl => exact hF'.root_visited
  | tail _ hbc ih => exact hF'.closed _ ih (by simp) _ hbc

end Worklist

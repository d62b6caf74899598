import Mathlib.Data.List.Basic
import Mathlib.Logic.Relation
import Mathlib.Tactic

/-!
Channels that keep the order, and the spreading of a numbered log from one node to all others.
A node passes an entry on when it sees it for the first time; the origin may also answer with
corrections, which are not entries of the log.

* `Channels`: what is in flight between any two nodes;
* `Gossip.Inv`: every node has seen a first part of the log, and what is in flight towards it
  continues this part without a gap;
* `Gossip.Inv.step`: all steps keep the invariant;
* `Gossip.Inv.seen_eq`: with nothing in flight, every node has seen the whole log.
-/

namespace RustyTinc

universe u v w

/-- What is in flight from one node to another, the oldest first. -/
abbrev Channels (ι : Type u) (μ : Type v) := ι → ι → List μ

namespace Channels

variable {ι : Type u} {μ : Type v} {ν : Type w}

/-- The messages of one kind, read as something else. -/
def view (f : μ → Option ν) (c : Channels ι μ) : Channels ι ν := fun a b => (c a b).filterMap f

/-- A view only depends on how the messages in flight are read. -/
lemma view_congr {c : Channels ι μ} {f g : μ → Option ν}
    (h : ∀ a b, ∀ m ∈ c a b, f m = g m) : c.view f = c.view g := by
  funext a b
  exact List.filterMap_congr (h a b)

variable [DecidableEq ι]

/-- A node sends a message to some others. -/
def post (c : Channels ι μ) (u : ι) (targets : List ι) (m : μ) : Channels ι μ :=
  fun a b => if a = u ∧ b ∈ targets then c a b ++ [m] else c a b

/-- The oldest message between two nodes arrives. -/
def pop (c : Channels ι μ) (u v : ι) : Channels ι μ :=
  fun a b => if a = u ∧ b = v then (c a b).tail else c a b

variable {c : Channels ι μ} {u v : ι} {targets : List ι} {m : μ} {f : μ → Option ν}

lemma mem_post {m' : μ} {a b : ι} :
    m' ∈ c.post u targets m a b ↔ m' ∈ c a b ∨ (a = u ∧ b ∈ targets) ∧ m' = m := by
  rw [post]
  split_ifs with h
  · simp [h]
  · simp [h]

lemma post_of_not {a b : ι} (h : ¬ (a = u ∧ b ∈ targets)) : c.post u targets m a b = c a b :=
  if_neg h

lemma mem_of_mem_pop {m' : μ} {a b : ι} (h : m' ∈ c.pop u v a b) : m' ∈ c a b := by
  rw [pop] at h
  split_ifs at h with hab
  · exact List.mem_of_mem_tail h
  · exact h

lemma pop_self {rest : List μ} (h : c u v = m :: rest) : c.pop u v u v = rest := by
  rw [pop, if_pos ⟨rfl, rfl⟩, h]
  rfl

lemma pop_of_ne {a b : ι} (h : ¬ (a = u ∧ b = v)) : c.pop u v a b = c a b := if_neg h

/-- The view of what is in flight, when a message is sent that is part of the view. -/
lemma view_post_some {x : ν} (h : f m = some x) :
    (c.post u targets m).view f = (c.view f).post u targets x := by
  funext a b
  simp only [view, post]
  split_ifs
  · rw [List.filterMap_append, List.filterMap_cons_some h]
    rfl
  · rfl

lemma view_post_none (h : f m = none) : (c.post u targets m).view f = c.view f := by
  funext a b
  simp only [view, post]
  split_ifs
  · rw [List.filterMap_append, List.filterMap_cons_none h]
    exact List.append_nil _
  · rfl

lemma view_pop_some {rest : List μ} {x : ν} (hc : c u v = m :: rest) (h : f m = some x) :
    (c.pop u v).view f = (c.view f).pop u v := by
  funext a b
  by_cases hab : a = u ∧ b = v
  · obtain ⟨rfl, rfl⟩ := hab
    simp [view, pop, hc, List.filterMap_cons_some h]
  · simp only [view, pop, if_neg hab]

lemma view_pop_none {rest : List μ} (hc : c u v = m :: rest) (h : f m = none) :
    (c.pop u v).view f = c.view f := by
  funext a b
  by_cases hab : a = u ∧ b = v
  · obtain ⟨rfl, rfl⟩ := hab
    simp [view, pop, hc, List.filterMap_cons_none h]
  · simp only [view, pop, if_neg hab]

end Channels

/-- The spreading of a log: its length, how much of it each node has seen, and what is in
flight. An entry is given by its number, a correction is `none`. -/
structure Gossip (ι : Type u) where
  length : ℕ
  seen : ι → ℕ
  channel : Channels ι (Option ℕ)

namespace Gossip

variable {ι : Type u}

/-- How much a node has seen when everything in a channel has arrived. -/
def reach : ℕ → List (Option ℕ) → ℕ
  | n, [] => n
  | n, some i :: rest => reach (max n (i + 1)) rest
  | n, none :: rest => reach n rest

/-- Nothing in a channel leaves a gap, and corrections arrive where the whole log is known. -/
def Steady (length : ℕ) : ℕ → List (Option ℕ) → Prop
  | _, [] => True
  | n, some i :: rest => i ≤ n ∧ Steady length (max n (i + 1)) rest
  | n, none :: rest => length ≤ n ∧ Steady length n rest

section Reach

variable {length n n' : ℕ} {rest : List (Option ℕ)}

lemma reach_mono (h : n ≤ n') : reach n rest ≤ reach n' rest := by
  induction rest generalizing n n' with
  | nil => exact h
  | cons x rest ih =>
      cases x with
      | none => exact ih h
      | some i => exact ih (by omega)

lemma le_reach : n ≤ reach n rest := by
  induction rest generalizing n with
  | nil => exact le_rfl
  | cons x rest ih =>
      cases x with
      | none => exact ih
      | some i => exact (le_max_left _ _).trans ih

lemma reach_append (x : Option ℕ) :
    reach n (rest ++ [x]) = match x with
      | some i => max (reach n rest) (i + 1)
      | none => reach n rest := by
  induction rest generalizing n with
  | nil => cases x <;> rfl
  | cons y rest ih => cases y <;> exact ih

lemma Steady.mono (h : Steady length n rest) (hn : n ≤ n') : Steady length n' rest := by
  induction rest generalizing n n' with
  | nil => trivial
  | cons x rest ih =>
      cases x with
      | none => exact ⟨h.1.trans hn, ih h.2 hn⟩
      | some i => exact ⟨h.1.trans hn, ih h.2 (by omega)⟩

/-- What follows without a gap may be sent. -/
lemma Steady.append (h : Steady length n rest) {x : Option ℕ}
    (hx : match x with
      | some i => i ≤ reach n rest
      | none => length ≤ reach n rest) : Steady length n (rest ++ [x]) := by
  induction rest generalizing n with
  | nil => cases x <;> exact ⟨hx, trivial⟩
  | cons y rest ih => cases y <;> exact ⟨h.1, ih h.2 hx⟩

/-- Only corrections depend on the length of the log. -/
lemma Steady.congr (h : Steady length n rest) (hnone : none ∉ rest) (length' : ℕ) :
    Steady length' n rest := by
  induction rest generalizing n with
  | nil => trivial
  | cons x rest ih =>
      cases x with
      | none => exact absurd List.mem_cons_self hnone
      | some i => exact ⟨h.1, ih h.2 fun hmem => hnone (List.mem_cons_of_mem _ hmem)⟩

end Reach

/-- Every node has seen a first part of the log, and nothing in flight leaves a gap. -/
structure Inv (conns : ι → List ι) (root : ι) (g : Gossip ι) : Prop where
  root_eq : g.seen root = g.length
  seen_le : ∀ a, g.seen a ≤ g.length
  connected : ∀ a b, ∀ x ∈ g.channel a b, b ∈ conns a
  origin : ∀ a b, none ∈ g.channel a b → a = root
  bound : ∀ a b, ∀ i, some i ∈ g.channel a b → i < g.seen a
  steady : ∀ a b, Steady g.length (g.seen b) (g.channel a b)
  reaches : ∀ a, ∀ b ∈ conns a, g.seen a ≤ reach (g.seen b) (g.channel a b)

namespace Inv

variable {conns : ι → List ι} {root : ι} {g : Gossip ι}

/-- Nothing in flight, and nothing in the log. -/
lemma empty : Inv conns root ⟨0, fun _ => 0, fun _ _ => []⟩ :=
  ⟨rfl, fun _ => le_rfl, by simp, by simp, by simp, fun _ _ => trivial, fun _ _ _ => le_rfl⟩

/-- An entry arrives where everything before it is known. -/
lemma le_seen (h : Inv conns root g) {u v : ι} {i : ℕ} {rest : List (Option ℕ)}
    (hc : g.channel u v = some i :: rest) : i ≤ g.seen v := by
  have hsteady := h.steady u v
  rw [hc] at hsteady
  exact hsteady.1

/-- **A correction arrives where the whole log is known.** -/
lemma seen_eq_of_correction (h : Inv conns root g) {u v : ι} {rest : List (Option ℕ)}
    (hc : g.channel u v = none :: rest) : g.seen v = g.length := by
  have hsteady := h.steady u v
  rw [hc] at hsteady
  exact le_antisymm (h.seen_le v) hsteady.1

/-- What is dropped was known. -/
lemma reach_pop (h : Inv conns root g) {u v : ι} {x : Option ℕ} {rest : List (Option ℕ)}
    (hc : g.channel u v = x :: rest) (hx : ∀ i ∈ x, i < g.seen v) :
    Steady g.length (g.seen v) rest ∧ reach (g.seen v) (g.channel u v) = reach (g.seen v) rest := by
  have hsteady := h.steady u v
  rw [hc] at hsteady ⊢
  cases x with
  | none => exact ⟨hsteady.2, rfl⟩
  | some i =>
      have hmax : max (g.seen v) (i + 1) = g.seen v := max_eq_left (hx i rfl)
      rw [Steady, hmax] at hsteady
      rw [reach, hmax]
      exact ⟨hsteady.2, rfl⟩

/-- **With nothing in flight, every node has seen the whole log.** -/
theorem seen_eq (h : Inv conns root g) (hempty : ∀ a b, g.channel a b = []) {a : ι}
    (ha : Relation.ReflTransGen (fun a b => b ∈ conns a) root a) : g.seen a = g.length := by
  refine le_antisymm (h.seen_le a) ?_
  induction ha with
  | refl => exact h.root_eq.ge
  | @tail a b _ hb ih =>
      have hreach := h.reaches a b hb
      rw [hempty] at hreach
      exact ih.trans hreach

end Inv

/-! ### Steps -/

variable [DecidableEq ι]

/-- The steps of a log that spreads from `root` along the connections. -/
inductive Step (conns : ι → List ι) (root : ι) : Gossip ι → Gossip ι → Prop
  /-- The origin appends to its log, when all its corrections have arrived. -/
  | announce {g : Gossip ι} (h : ∀ b, none ∉ g.channel root b) :
      Step conns root g ⟨g.length + 1, Function.update g.seen root (g.length + 1),
        g.channel.post root (conns root) (some g.length)⟩
  /-- A node drops what it has seen; the origin and corrections are dropped always. -/
  | drop {g : Gossip ι} {u v : ι} {x : Option ℕ} {rest : List (Option ℕ)}
      (h : g.channel u v = x :: rest) (hx : v = root ∨ ∀ i ∈ x, i < g.seen v) :
      Step conns root g { g with channel := g.channel.pop u v }
  /-- The origin answers with a correction. -/
  | correct {g : Gossip ι} {u : ι} {x : Option ℕ} {rest : List (Option ℕ)}
      (h : g.channel u root = x :: rest) :
      Step conns root g { g with channel := (g.channel.pop u root).post root [u] none }
  /-- A node passes on what it has not seen. -/
  | relay {g : Gossip ι} {u v : ι} {rest : List (Option ℕ)} (hv : v ≠ root)
      (h : g.channel u v = some (g.seen v) :: rest) :
      Step conns root g ⟨g.length, Function.update g.seen v (g.seen v + 1),
        (g.channel.pop u v).post v ((conns v).filter (· ≠ u)) (some (g.seen v))⟩

namespace Inv

variable {conns : ι → List ι} {root : ι} {g g' : Gossip ι}

/-- The origin appends to its log. -/
lemma announce (h : Inv conns root g) (hnone : ∀ b, none ∉ g.channel root b) :
    Inv conns root ⟨g.length + 1, Function.update g.seen root (g.length + 1),
      g.channel.post root (conns root) (some g.length)⟩ := by
  have hseen : ∀ a, g.seen a ≤ Function.update g.seen root (g.length + 1) a := by
    intro a
    by_cases ha : a = root
    · subst ha
      rw [Function.update_self, h.root_eq]
      exact Nat.le_succ _
    · rw [Function.update_of_ne ha]
  have hnone' : ∀ a b, none ∉ g.channel a b := by
    intro a b hmem
    obtain rfl := h.origin a b hmem
    exact hnone b hmem
  refine ⟨Function.update_self .., fun a => ?_, fun a b x hx => ?_, fun a b hmem => ?_,
    fun a b i hi => ?_, fun a b => ?_, fun a b hb => ?_⟩
  · by_cases ha : a = root
    · rw [ha]
      exact (Function.update_self ..).le
    · simp only [Function.update_of_ne ha]
      exact (h.seen_le a).trans (Nat.le_succ _)
  · rcases Channels.mem_post.mp hx with hx | ⟨⟨rfl, hb⟩, -⟩
    · exact h.connected a b x hx
    · exact hb
  · rcases Channels.mem_post.mp hmem with hmem | ⟨⟨rfl, -⟩, -⟩
    · exact h.origin a b hmem
    · rfl
  · rcases Channels.mem_post.mp hi with hi | ⟨⟨rfl, -⟩, hlast⟩
    · exact (h.bound a b i hi).trans_le (hseen a)
    · cases hlast
      simp
  · have hsteady := ((h.steady a b).congr (hnone' a b) (g.length + 1)).mono (hseen b)
    simp only [Channels.post]
    split_ifs with hab
    · obtain ⟨rfl, hb⟩ := hab
      refine hsteady.append ?_
      calc g.length = g.seen a := h.root_eq.symm
        _ ≤ reach (g.seen b) (g.channel a b) := h.reaches a b hb
        _ ≤ _ := reach_mono (hseen b)
    · exact hsteady
  · have hreach := (h.reaches a b hb).trans (reach_mono (hseen b))
    simp only [Channels.post]
    by_cases ha : a = root
    · subst ha
      rw [if_pos ⟨rfl, hb⟩, reach_append, Function.update_self]
      exact le_max_right _ _
    · rw [if_neg fun hab => ha hab.1, Function.update_of_ne ha]
      exact hreach

/-- A node drops what it has seen. -/
lemma drop (h : Inv conns root g) {u v : ι} {x : Option ℕ} {rest : List (Option ℕ)}
    (hc : g.channel u v = x :: rest) (hx : v = root ∨ ∀ i ∈ x, i < g.seen v) :
    Inv conns root { g with channel := g.channel.pop u v } := by
  have hknown : ∀ i ∈ x, i < g.seen v := by
    rcases hx with rfl | hx
    · rintro i rfl
      rw [h.root_eq]
      exact (h.bound u v i (by rw [hc]; exact List.mem_cons_self)).trans_le (h.seen_le u)
    · exact hx
  obtain ⟨hsteady, hreach⟩ := h.reach_pop hc hknown
  refine ⟨h.root_eq, h.seen_le, fun a b x hx => h.connected a b x (Channels.mem_of_mem_pop hx),
    fun a b hmem => h.origin a b (Channels.mem_of_mem_pop hmem),
    fun a b i hi => h.bound a b i (Channels.mem_of_mem_pop hi), fun a b => ?_, fun a b hb => ?_⟩
  · by_cases hab : a = u ∧ b = v
    · obtain ⟨rfl, rfl⟩ := hab
      simpa only [Channels.pop_self hc] using hsteady
    · simpa only [Channels.pop_of_ne hab] using h.steady a b
  · have hle := h.reaches a b hb
    by_cases hab : a = u ∧ b = v
    · obtain ⟨rfl, rfl⟩ := hab
      simpa only [Channels.pop_self hc, ← hreach] using hle
    · simpa only [Channels.pop_of_ne hab] using hle

/-- The origin answers with a correction. -/
lemma correct (h : Inv conns root g) (hsymm : ∀ a b, b ∈ conns a → a ∈ conns b) {u : ι}
    {x : Option ℕ} {rest : List (Option ℕ)} (hc : g.channel u root = x :: rest) :
    Inv conns root { g with channel := (g.channel.pop u root).post root [u] none } := by
  have hroot : u ∈ conns root :=
    hsymm u root (h.connected u root x (by rw [hc]; exact List.mem_cons_self))
  have hdrop := h.drop hc (Or.inl rfl)
  refine ⟨h.root_eq, h.seen_le, fun a b x hx => ?_, fun a b hmem => ?_, fun a b i hi => ?_,
    fun a b => ?_, fun a b hb => ?_⟩
  · rcases Channels.mem_post.mp hx with hx | ⟨⟨rfl, hb⟩, -⟩
    · exact hdrop.connected a b x hx
    · rw [List.mem_singleton.mp hb]
      exact hroot
  · rcases Channels.mem_post.mp hmem with hmem | ⟨⟨rfl, -⟩, -⟩
    · exact hdrop.origin a b hmem
    · rfl
  · rcases Channels.mem_post.mp hi with hi | ⟨-, hi⟩
    · exact hdrop.bound a b i hi
    · cases hi
  · have hsteady := hdrop.steady a b
    simp only [Channels.post]
    split_ifs with hab
    · obtain ⟨rfl, hb⟩ := hab
      obtain rfl := List.mem_singleton.mp hb
      have hreach := hdrop.reaches a b hroot
      exact hsteady.append (h.root_eq ▸ hreach)
    · exact hsteady
  · have hreach := hdrop.reaches a b hb
    simp only [Channels.post]
    split_ifs with hab
    · rw [reach_append]
      exact hreach
    · exact hreach

/-- A node passes on what it has not seen. -/
lemma relay (h : Inv conns root g) {u v : ι} {rest : List (Option ℕ)} (hv : v ≠ root)
    (hc : g.channel u v = some (g.seen v) :: rest) :
    Inv conns root ⟨g.length, Function.update g.seen v (g.seen v + 1),
      (g.channel.pop u v).post v ((conns v).filter (· ≠ u)) (some (g.seen v))⟩ := by
  have hsource : g.seen v < g.seen u := h.bound u v _ (by rw [hc]; exact List.mem_cons_self)
  have hne : u ≠ v := by
    rintro rfl
    exact lt_irrefl _ hsource
  have hseen : ∀ a, g.seen a ≤ Function.update g.seen v (g.seen v + 1) a := by
    intro a
    by_cases ha : a = v
    · subst ha
      rw [Function.update_self]
      exact Nat.le_succ _
    · rw [Function.update_of_ne ha]
  -- Towards `v` only the channel from `u` has changed, and it has been read.
  have hpop : ∀ a b, Steady g.length (Function.update g.seen v (g.seen v + 1) b)
        (g.channel.pop u v a b) ∧
      (b ∈ conns a → g.seen a ≤
        reach (Function.update g.seen v (g.seen v + 1) b) (g.channel.pop u v a b)) := by
    intro a b
    by_cases hab : a = u ∧ b = v
    · obtain ⟨rfl, rfl⟩ := hab
      have hsteady := h.steady a b
      have hreach := h.reaches a b
      have hmax : max (g.seen b) (g.seen b + 1) = g.seen b + 1 := max_eq_right (Nat.le_succ _)
      rw [hc, Steady, hmax] at hsteady
      rw [hc, reach, hmax] at hreach
      rw [Channels.pop_self hc, Function.update_self]
      exact ⟨hsteady.2, hreach⟩
    · rw [Channels.pop_of_ne hab]
      exact ⟨(h.steady a b).mono (hseen b), fun hb => (h.reaches a b hb).trans
        (reach_mono (hseen b))⟩
  refine ⟨?_, fun a => ?_, fun a b x hx => ?_, fun a b hmem => ?_, fun a b i hi => ?_,
    fun a b => ?_, fun a b hb => ?_⟩
  · simpa only [Function.update_of_ne hv.symm] using h.root_eq
  · by_cases ha : a = v
    · subst ha
      simp only [Function.update_self]
      exact hsource.trans_le (h.seen_le u)
    · simpa only [Function.update_of_ne ha] using h.seen_le a
  · rcases Channels.mem_post.mp hx with hx | ⟨⟨rfl, hb⟩, -⟩
    · exact h.connected a b x (Channels.mem_of_mem_pop hx)
    · exact List.mem_of_mem_filter hb
  · rcases Channels.mem_post.mp hmem with hmem | ⟨-, hlast⟩
    · exact h.origin a b (Channels.mem_of_mem_pop hmem)
    · cases hlast
  · rcases Channels.mem_post.mp hi with hi | ⟨⟨rfl, -⟩, hlast⟩
    · exact (h.bound a b i (Channels.mem_of_mem_pop hi)).trans_le (hseen a)
    · cases hlast
      simp
  · obtain ⟨hsteady, hreach⟩ := hpop a b
    simp only [Channels.post]
    split_ifs with hab
    · obtain ⟨rfl, hb⟩ := hab
      exact hsteady.append (hreach (List.mem_of_mem_filter hb))
    · exact hsteady
  · obtain ⟨-, hreach⟩ := hpop a b
    simp only [Channels.post]
    by_cases ha : a = v
    · subst ha
      rw [Function.update_self]
      by_cases hbu : b = u
      · -- The node from which the entry came has seen it.
        subst hbu
        rw [if_neg (by simp), Function.update_of_ne hne, Channels.pop_of_ne (by tauto)]
        exact (Nat.succ_le_of_lt hsource).trans le_reach
      · rw [if_pos ⟨rfl, by simp [hb, hbu]⟩, reach_append]
        exact le_max_right _ _
    · rw [if_neg fun hab => ha hab.1, Function.update_of_ne ha]
      exact hreach hb

/-- **Every step keeps the invariant.** -/
theorem step (h : Inv conns root g) (hsymm : ∀ a b, b ∈ conns a → a ∈ conns b)
    (hstep : Step conns root g g') : Inv conns root g' := by
  cases hstep with
  | announce hnone => exact h.announce hnone
  | drop hc hx => exact h.drop hc hx
  | correct hc => exact h.correct hsymm hc
  | relay hv hc => exact h.relay hv hc

end Inv

end Gossip

end RustyTinc

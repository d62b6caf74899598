import Mathlib.Combinatorics.SimpleGraph.Acyclic
import Mathlib.Tactic

/-!
Flooding a message over a tree: a node that receives the message from a neighbour passes it on
to its other neighbours. Messages in flight are delivered in any order.

* `State`, `Step`, `Run`: the messages in flight as pairs of sender and receiver, and how often
  each node has received the message;
* `eq_of_adj`: a node outside a connected part of an acyclic graph has at most one neighbour in
  it;
* `Inv`: the nodes reached so far are connected, every message in flight leads out of them, and
  every link that leads out of them carries one message;
* `Run.inv`, `Run.length_le`, `Run.received_eq_one`: a flood ends, no node receives the message
  twice nor does the origin, and when nothing is in flight every node has received it.
-/

namespace Flood

variable {V : Type*}

/-- The copies that are on their way, and how often each node has received one. -/
structure State (V : Type*) where
  inFlight : List (V × V)
  received : V → ℕ

/-- The receiver of a message takes it and passes it on to `fwd receiver sender`. -/
def State.deliver [DecidableEq V] (fwd : V → V → List V) (rest : List (V × V)) (received : V → ℕ) (a b : V) :
    State V where
  inFlight := rest ++ (fwd b a).map fun c => (b, c)
  received := Function.update received b (received b + 1)

/-- Some message in flight is delivered. -/
inductive Step [DecidableEq V] (fwd : V → V → List V) : State V → State V → Prop
  | deliver {s : State V} {before after : List (V × V)} {a b : V}
      (h : s.inFlight = before ++ (a, b) :: after) :
      Step fwd s (State.deliver fwd (before ++ after) s.received a b)

/-- A run of the given number of deliveries. -/
inductive Run [DecidableEq V] (fwd : V → V → List V) (s₀ : State V) : ℕ → State V → Prop
  | start : Run fwd s₀ 0 s₀
  | step {n : ℕ} {s s' : State V} (hrun : Run fwd s₀ n s) (hstep : Step fwd s s') :
      Run fwd s₀ (n + 1) s'

/-- The state after the origin has sent the message to `targets`. -/
def State.start (o : V) (targets : List V) : State V where
  inFlight := targets.map fun c => (o, c)
  received _ := 0

/-- The nodes that have the message. -/
def State.Reached (s : State V) (o v : V) : Prop := v = o ∨ 0 < s.received v

variable {T : SimpleGraph V}

/-- A path that stays inside a set. -/
def ConnectedIn (T : SimpleGraph V) (R : V → Prop) (u v : V) : Prop :=
  ∃ p : T.Walk u v, ∀ x ∈ p.support, R x

lemma ConnectedIn.symm {R : V → Prop} {u v : V} (h : ConnectedIn T R u v) :
    ConnectedIn T R v u := by
  obtain ⟨p, hp⟩ := h
  exact ⟨p.reverse, fun x hx => hp x (by simpa using hx)⟩

lemma ConnectedIn.trans {R : V → Prop} {u v w : V} (h : ConnectedIn T R u v)
    (h' : ConnectedIn T R v w) : ConnectedIn T R u w := by
  obtain ⟨p, hp⟩ := h
  obtain ⟨q, hq⟩ := h'
  refine ⟨p.append q, fun x hx => ?_⟩
  rcases (SimpleGraph.Walk.mem_support_append_iff _ _).mp hx with hx | hx
  · exact hp x hx
  · exact hq x hx

/-- **One way in**: a node outside a connected set of an acyclic graph has at most one
neighbour inside. -/
lemma eq_of_adj (hT : T.IsAcyclic) {R : V → Prop} {a b t : V} (hat : ConnectedIn T R a t)
    (hb : ¬ R b) (hab : T.Adj a b) (htb : T.Adj t b) : a = t := by
  by_contra hne
  obtain ⟨p, hp⟩ := hat
  have havoid : s(a, b) ∉ p.edges := fun h => hb (hp b (p.snd_mem_support_of_mem_edges h))
  have hpath : (T.deleteEdges {s(a, b)}).Reachable a t := ⟨p.toDeleteEdge _ havoid⟩
  have hlast : (T.deleteEdges {s(a, b)}).Adj t b := by
    have hne' : s(t, b) ≠ s(a, b) := fun h => hne (Sym2.congr_left.mp h).symm
    simp [htb, hne']
  exact SimpleGraph.isBridge_iff.mp (SimpleGraph.isAcyclic_iff_forall_adj_isBridge.mp hT hab)
    (hpath.trans hlast.reachable)

/-- How a node passes the message on: once to every neighbour but the sender. -/
structure Forwards (T : SimpleGraph V) (o : V) (targets : List V) (fwd : V → V → List V) :
    Prop where
  start_nodup : targets.Nodup
  mem_start : ∀ c, c ∈ targets ↔ T.Adj o c
  fwd_nodup : ∀ a b, T.Reachable o b → T.Adj a b → (fwd b a).Nodup
  mem_fwd : ∀ a b c, T.Reachable o b → T.Adj a b → (c ∈ fwd b a ↔ T.Adj b c ∧ c ≠ a)

/-- The invariant of a flood. -/
structure Inv (T : SimpleGraph V) (o : V) (s : State V) : Prop where
  inFlight : ∀ m ∈ s.inFlight, T.Adj m.1 m.2 ∧ s.Reached o m.1 ∧ ¬ s.Reached o m.2
  nodup : (s.inFlight.map Prod.snd).Nodup
  frontier : ∀ a b, s.Reached o a → T.Adj a b → s.Reached o b ∨ (a, b) ∈ s.inFlight
  connected : ∀ v, s.Reached o v → ConnectedIn T (s.Reached o) o v
  received_le : ∀ v, s.received v ≤ 1
  origin : s.received o = 0

section Tree

variable {o : V} {targets : List V} {fwd : V → V → List V} {s s' : State V}

/-- The invariant holds at the start. -/
lemma Inv.start (h : Forwards T o targets fwd) : Inv T o (State.start o targets) where
  inFlight := by
    intro m hm
    obtain ⟨c, hc, rfl⟩ := List.mem_map.mp hm
    have hadj := (h.mem_start c).mp hc
    exact ⟨hadj, Or.inl rfl, fun hr => hr.elim (fun he => hadj.ne he.symm) (lt_irrefl 0)⟩
  nodup := by
    simpa [State.start, Function.comp_def] using h.start_nodup
  frontier a b ha hab := by
    rcases ha with rfl | ha
    · exact Or.inr (List.mem_map.mpr ⟨b, (h.mem_start b).mpr hab, rfl⟩)
    · exact absurd ha (lt_irrefl 0)
  connected v hv := by
    rcases hv with rfl | hv
    · exact ⟨SimpleGraph.Walk.nil, by simp [State.Reached]⟩
    · exact absurd hv (lt_irrefl 0)
  received_le v := Nat.zero_le 1
  origin := rfl

lemma Inv.reachable (h : Inv T o s) {v : V} (hv : s.Reached o v) : T.Reachable o v := by
  obtain ⟨p, -⟩ := h.connected v hv
  exact ⟨p⟩

/-- **Everyone is reached**: with nothing in flight every other node has received the message. -/
theorem Inv.received_eq_one (h : Inv T o s) (hdone : s.inFlight = []) {v : V}
    (hv : T.Reachable o v) (hne : v ≠ o) : s.received v = 1 := by
  obtain ⟨p⟩ := hv
  have hreach : ∀ u w, T.Walk u w → s.Reached o u → s.Reached o w := by
    intro u w p hu
    induction p with
    | nil => exact hu
    | cons hadj _ ih =>
        refine ih ?_
        rcases h.frontier _ _ hu hadj with hr | hm
        · exact hr
        · exact absurd hm (by simp [hdone])
  rcases hreach o v p (Or.inl rfl) with he | hpos
  · exact absurd he hne
  · have hle := h.received_le v
    omega

variable [DecidableEq V]

/-- Delivering a message adds its receiver to the nodes reached. -/
lemma reached_deliver {rest : List (V × V)} {a b v : V} :
    (State.deliver fwd rest s.received a b).Reached o v ↔ v = b ∨ s.Reached o v := by
  simp only [State.Reached, State.deliver, Function.update_apply]
  split_ifs with hv
  · simp [hv]
  · simp [hv]

/-- **One delivery keeps the invariant.** -/
lemma Inv.step (hT : T.IsAcyclic) (hf : Forwards T o targets fwd) (h : Inv T o s)
    (hstep : Step fwd s s') : Inv T o s' := by
  obtain @⟨before, after, a, b, heq⟩ := hstep
  have hm : (a, b) ∈ s.inFlight := by simp [heq]
  obtain ⟨hab, ha, hb⟩ := h.inFlight (a, b) hm
  have hbo : T.Reachable o b := (h.reachable ha).trans hab.reachable
  have hrest : ∀ m ∈ before ++ after, m ∈ s.inFlight := by
    intro m hm
    rw [heq]
    rcases List.mem_append.mp hm with hm | hm <;> simp [hm]
  have hperm : s.inFlight.map Prod.snd = before.map Prod.snd ++ b :: after.map Prod.snd := by
    simp [heq]
  have hnodup : (b :: (before ++ after).map Prod.snd).Nodup := by
    have hp : (s.inFlight.map Prod.snd).Perm (b :: (before ++ after).map Prod.snd) := by
      rw [hperm, List.map_append]
      exact List.perm_middle
    exact hp.nodup_iff.mp h.nodup
  obtain ⟨hbrest, hnodup'⟩ := List.nodup_cons.mp hnodup
  have hconn : ∀ u v, s.Reached o u → s.Reached o v → ConnectedIn T (s.Reached o) u v :=
    fun u v hu hv => (h.connected u hu).symm.trans (h.connected v hv)
  -- A new target is a fresh node: its only neighbour among the nodes reached would be `b`.
  have hnew : ∀ c, T.Adj b c → c ≠ a → ¬ s.Reached o c := fun c hbc hca hc =>
    hca (eq_of_adj hT (hconn c a hc ha) hb hbc.symm hab)
  have hmono : ∀ v, s.Reached o v →
      (State.deliver fwd (before ++ after) s.received a b).Reached o v :=
    fun v hv => reached_deliver.mpr (Or.inr hv)
  refine ⟨fun m hm => ?_, ?_, fun x y hx hxy => ?_, fun v hv => ?_, fun v => ?_, ?_⟩
  · rcases List.mem_append.mp hm with hm | hm
    · obtain ⟨hadj, hx, hy⟩ := h.inFlight m (hrest m hm)
      refine ⟨hadj, hmono _ hx, fun hr => ?_⟩
      rcases reached_deliver.mp hr with hr | hr
      · exact hbrest (hr ▸ List.mem_map_of_mem hm)
      · exact hy hr
    · obtain ⟨c, hc, rfl⟩ := List.mem_map.mp hm
      obtain ⟨hbc, hca⟩ := (hf.mem_fwd a b c hbo hab).mp hc
      refine ⟨hbc, reached_deliver.mpr (Or.inl rfl), fun hr => ?_⟩
      rcases reached_deliver.mp hr with hr | hr
      · exact hbc.ne hr.symm
      · exact hnew c hbc hca hr
  · -- Two links into the same unreached node would come from the same node.
    rw [State.deliver, List.map_append, List.map_map]
    refine List.nodup_append.mpr ⟨hnodup', ?_, fun x hx y hy => ?_⟩
    · simpa [Function.comp_def] using hf.fwd_nodup a b hbo hab
    · rintro rfl
      obtain ⟨m, hm, rfl⟩ := List.mem_map.mp hx
      obtain ⟨c, hc, hcm⟩ := List.mem_map.mp hy
      obtain rfl : c = m.2 := hcm
      obtain ⟨hbc, hca⟩ := (hf.mem_fwd a b _ hbo hab).mp hc
      obtain ⟨hadj, hx, hy⟩ := h.inFlight m (hrest m hm)
      have hne : m.2 ≠ b := hbc.ne.symm
      have hconn' : ConnectedIn T (fun v => v = b ∨ s.Reached o v) m.1 b := by
        obtain ⟨p, hp⟩ := hconn m.1 a hx ha
        refine ⟨p.concat hab, fun x hx => ?_⟩
        rw [SimpleGraph.Walk.support_concat] at hx
        rcases List.mem_append.mp hx with hx | hx
        · exact Or.inr (hp x hx)
        · exact Or.inl (List.mem_singleton.mp hx)
      have heq' := eq_of_adj hT hconn' (not_or.mpr ⟨hne, hy⟩) hadj hbc
      exact hb (heq' ▸ hx)
  · rcases reached_deliver.mp hx with rfl | hx
    · by_cases hya : y = a
      · exact Or.inl (hmono y (hya ▸ ha))
      · refine Or.inr (List.mem_append_right _ (List.mem_map.mpr ⟨y, ?_, rfl⟩))
        exact (hf.mem_fwd a x y hbo hab).mpr ⟨hxy, hya⟩
    · rcases h.frontier x y hx hxy with hy | hmem
      · exact Or.inl (hmono y hy)
      · rw [heq] at hmem
        rcases List.mem_append.mp hmem with hmem | hmem
        · exact Or.inr (by simp [State.deliver, hmem])
        · rcases List.mem_cons.mp hmem with hmem | hmem
          · exact Or.inl (reached_deliver.mpr (Or.inl (Prod.mk.inj hmem).2))
          · exact Or.inr (by simp [State.deliver, hmem])
  · have hlift : ∀ w, s.Reached o w →
        ConnectedIn T ((State.deliver fwd (before ++ after) s.received a b).Reached o) o w := by
      intro w hw
      obtain ⟨p, hp⟩ := h.connected w hw
      exact ⟨p, fun x hx => hmono x (hp x hx)⟩
    rcases reached_deliver.mp hv with rfl | hv
    · obtain ⟨p, hp⟩ := hlift a ha
      refine ⟨p.concat hab, fun x hx => ?_⟩
      rw [SimpleGraph.Walk.support_concat] at hx
      rcases List.mem_append.mp hx with hx | hx
      · exact hp x hx
      · exact reached_deliver.mpr (Or.inl (List.mem_singleton.mp hx))
    · exact hlift v hv
  · simp only [State.deliver, Function.update_apply]
    split_ifs
    · have hzero : s.received b = 0 := by
        by_contra hpos
        exact hb (Or.inr (Nat.pos_of_ne_zero hpos))
      omega
    · exact h.received_le v
  · have hne : o ≠ b := fun he => hb (Or.inl he.symm)
    simp [State.deliver, hne, h.origin]

/-- **Every state of a flood satisfies the invariant.** -/
theorem Run.inv (hT : T.IsAcyclic) (hf : Forwards T o targets fwd) {n : ℕ}
    (h : Run fwd (State.start o targets) n s) : Inv T o s := by
  induction h with
  | start => exact Inv.start hf
  | step _ hstep ih => exact ih.step hT hf hstep

/-- **A flood ends**: it has no more deliveries than there are nodes besides the origin. -/
theorem Run.length_le (hT : T.IsAcyclic) (hf : Forwards T o targets fwd) {K : Finset V}
    (hK : ∀ v, T.Reachable o v → v ∈ K) {n : ℕ} (h : Run fwd (State.start o targets) n s) :
    n ≤ K.card := by
  have key : n ≤ (K.filter fun v => 0 < s.received v).card := by
    induction h with
    | start => exact Nat.zero_le _
    | @step n s s' hrun hstep ih =>
        have hinv := hrun.inv hT hf
        obtain @⟨before, after, a, b, heq⟩ := hstep
        obtain ⟨hab, ha, hb⟩ := hinv.inFlight (a, b) (by simp [heq])
        have hbK : b ∈ K := hK b ((hinv.reachable ha).trans hab.reachable)
        have hlt : (K.filter fun v => 0 < s.received v) ⊂ K.filter fun v =>
            0 < (State.deliver fwd (before ++ after) s.received a b).received v := by
          refine Finset.ssubset_iff_subset_ne.mpr ⟨fun v hv => ?_, fun heq => ?_⟩
          · obtain ⟨hvK, hv⟩ := Finset.mem_filter.mp hv
            refine Finset.mem_filter.mpr ⟨hvK, ?_⟩
            simp only [State.deliver, Function.update_apply]
            split_ifs
            · exact Nat.succ_pos _
            · exact hv
          · have hmem : b ∈ K.filter fun v =>
                0 < (State.deliver fwd (before ++ after) s.received a b).received v :=
              Finset.mem_filter.mpr ⟨hbK, by simp [State.deliver]⟩
            rw [← heq] at hmem
            exact hb (Or.inr (Finset.mem_filter.mp hmem).2)
        exact lt_of_le_of_lt ih (Finset.card_lt_card hlt)
  exact key.trans (Finset.card_filter_le _ _)

end Tree

end Flood

import RustyTinc.Core.PreviousEdges
import RustyTinc.Core.ShortestRoutes
import RustyTinc.Library.WeightedWalk

/-!
When the route search comes to an end, with exact sums of weights.

* `returns_of_noNegativeCircle`: when no circle of links has a negative weight: weights of routes
  never rise and are bounded below;
* `returns_of_neverDemotes`: when no direct route is replaced by an indirect one: a step makes a
  node visited or its route direct, or leaves all distances as they are;
* `ssspBfs_returns`: the two conditions together;
* `ssspBfs_never_returns`: otherwise the search can go on for ever.
-/

namespace RustyTinc

namespace Graph

/-- No circle of links that the owner can reach has a negative weight. -/
def NoNegativeCircle (g : Graph) : Prop :=
  ∀ a total, g.Joined g.myself a → WeightedWalk.Walk g.Linked g.weightOf a a total → 0 ≤ total

section Returns

variable {g₀ g : Graph} {r : Relaxation} {n : Node}

/-! ### Without circles of negative weight -/

/-- The weight of every visited node is that of a chain. -/
def WeighsChain (g₀ g : Graph) : Prop :=
  ∀ k n, g.node k = some n → n.status.visited = true →
    ∃ m w first, n.route.weightedDistance = some w ∧ g₀.Chain m w first k

lemma weighsChain_start (hg : g.WellFormed) : WeighsChain g g.ssspReset.ssspStart := by
  intro k n hn hv
  obtain ⟨rfl, -, hroute⟩ := node_ssspStart hg hn hv
  exact ⟨0, 0, none, by rw [hroute], Chain.start⟩

lemma Relaxation.Of.chain_tail (h : r.Of g₀) (hchain : WeighsChain g₀ r.graph) :
    ∃ m first, g₀.Chain m (r.newWeightedDistance (· + ·)) first r.edge.toNode := by
  obtain ⟨u, hu, hv, -, -, hw, -⟩ := h.exists_source
  obtain ⟨m, w, first, hw', hm⟩ := hchain _ u hu hv
  obtain rfl : r.source.weightedDistance = w := Option.some_inj.mp (hw.symm.trans hw')
  have htail := hm.tail h.linked
  rw [weightOf_edge h.stored] at htail
  exact ⟨_, _, htail⟩

/-- The search keeps the weight of a node the weight of a chain of links. -/
lemma keeps_weighsChain : Keeps (· + ·) g₀ (fun _ => True) (WeighsChain g₀) := by
  intro r hof _ hchain n hn himp k n' hn' hv'
  rw [r.node_next hn] at hn'
  split_ifs at hn' with hk
  · rw [Option.some_inj] at hn'
    subst hn' hk
    rw [weightedDistance_reroute]
    split_ifs with hup
    · obtain ⟨m, first, htail⟩ := hof.chain_tail hchain
      exact ⟨m, _, first, rfl, htail⟩
    · exact hchain _ n hn (visited_of_not_updateNextHop hup)
  · exact hchain k n' hn' hv'

open Classical in
/-- The nodes that the owner can reach. -/
noncomputable def reached (g : Graph) : Finset String :=
  g.nodes.keys.toFinset.filter fun k => g.Joined g.myself k

lemma mem_reached (hg : g.WellFormed) {k : String} : k ∈ g.reached ↔ g.Joined g.myself k := by
  classical
  rw [reached, Finset.mem_filter, List.mem_toFinset]
  refine ⟨And.right, fun hk => ⟨?_, hk⟩⟩
  cases hk.cases_tail with
  | inl heq => exact heq ▸ hg.myself_mem
  | inr hlast =>
      obtain ⟨b, -, hbk⟩ := hlast
      exact hbk.mem_right hg

/-- A chain is a walk among the nodes that the owner can reach. -/
lemma Chain.walk (hg : g.WellFormed) {m : ℕ} {w : ℤ} {first : Option String} {k : String}
    (h : g.Chain m w first k) :
    WeightedWalk.Walk (WeightedWalk.Within g.Linked g.reached) g.weightOf g.myself k w := by
  induction h with
  | start => exact WeightedWalk.Walk.nil _
  | tail hchain hbc ih =>
      exact ih.step ⟨hbc, (mem_reached hg).mpr hchain.joined,
        (mem_reached hg).mpr (hchain.joined.tail hbc)⟩

lemma NoNegativeCircle.within (hg : g.WellFormed) (h : g.NoNegativeCircle) {a : String}
    {total : ℤ}
    (hwalk : WeightedWalk.Walk (WeightedWalk.Within g.Linked g.reached) g.weightOf a a total) :
    0 ≤ total := by
  cases hwalk with
  | nil => exact le_rfl
  | step hwalk hlast =>
      exact h a _ ((mem_reached hg).mp hlast.2.2) ((hwalk.step hlast).mono fun _ _ hab => hab.1)

/-- The weights of chains are bounded below. -/
lemma NoNegativeCircle.exists_bound (hg : g.WellFormed) (h : g.NoNegativeCircle) :
    ∃ L, ∀ m w first k, g.Chain m w first k → L ≤ w := by
  obtain ⟨L, hL⟩ := WeightedWalk.exists_lower_bound fun a total hwalk => h.within hg hwalk
  exact ⟨L, fun m w first k hchain => hL g.myself k w (hchain.walk hg)⟩

/-- Whether a node still has no route. -/
def unseen (g : Graph) (k : String) : ℕ :=
  if (g.node k).any fun n => n.status.visited then 0 else 1

/-- How far the weight of a node is above the bound; a direct route counts half a unit less. -/
def excess (L : ℤ) (g : Graph) (k : String) : ℕ :=
  match g.node k with
  | some n => (2 * (n.route.weightedDistance.getD L - L)).toNat + if n.status.indirect then 1 else 0
  | none => 0

/-- The number of unvisited nodes, and then how far the weights are above the bound. -/
def heaviness (g₀ : Graph) (L : ℤ) (g : Graph) : ℕ ×ₗ ℕ :=
  toLex (∑ k ∈ g₀.nodes.keys.toFinset, g.unseen k, ∑ k ∈ g₀.nodes.keys.toFinset, g.excess L k)

/-- A sum over the nodes falls when a step lowers it at the node at its end. -/
lemma sum_next_lt {addWeight : ℤ → ℤ → ℤ} (hof : r.Of g₀)
    (hn : r.graph.node r.edge.toNode = some n) (f : Graph → String → ℕ)
    (hlocal : ∀ g g' k, g'.node k = g.node k → f g' k = f g k)
    (hlt : f (r.next addWeight) r.edge.toNode < f r.graph r.edge.toNode) :
    ∑ k ∈ g₀.nodes.keys.toFinset, f (r.next addWeight) k <
      ∑ k ∈ g₀.nodes.keys.toFinset, f r.graph k := by
  refine Finset.sum_lt_sum (fun k _ => ?_) ⟨r.edge.toNode, ?_, hlt⟩
  · by_cases hk : k = r.edge.toNode
    · exact hk ▸ hlt.le
    · exact (hlocal _ _ k (by rw [r.node_next hn, if_neg hk])).le
  · rw [List.mem_toFinset, ← hof.inv.mem_keys]
    exact OrdMap.mem_keys.mpr ⟨n, hn⟩

/-- A relaxation that improves a node lowers what it weighs too much. -/
lemma excess_next_lt {L w w' : ℤ} (hn : r.graph.node r.edge.toNode = some n)
    (hw : n.route.weightedDistance = some w)
    (hw' : (n.reroute (· + ·) r.graph.myself r.source r.edge).route.weightedDistance = some w')
    (hL : L ≤ w')
    (hlt : w' < w ∨ w' = w ∧ n.status.indirect = true ∧ r.indirect = false) :
    (r.next (· + ·)).excess L r.edge.toNode < r.graph.excess L r.edge.toNode := by
  have hnew : (r.next (· + ·)).excess L r.edge.toNode =
      (2 * (w' - L)).toNat + if r.indirect = true then 1 else 0 := by
    rw [excess, r.node_next hn, if_pos rfl]
    show (2 * ((Node.reroute _ _ _ _ n).route.weightedDistance.getD L - L)).toNat + _ = _
    rw [hw']
    rfl
  have hold : r.graph.excess L r.edge.toNode =
      (2 * (w - L)).toNat + if n.status.indirect = true then 1 else 0 := by
    rw [excess, hn]
    show (2 * (n.route.weightedDistance.getD L - L)).toNat + _ = _
    rw [hw]
    rfl
  rw [hnew, hold]
  rcases hlt with hlt | ⟨rfl, hind, hr⟩
  · split_ifs <;> omega
  · rw [if_pos hind, hr]
    simp

/-- Every step makes a node visited, or its route lighter, or direct and no heavier. -/
lemma heaviness_next_lt {L : ℤ} (hL : ∀ m w first k, g₀.Chain m w first k → L ≤ w)
    (hof : r.Of g₀) (hchain : WeighsChain g₀ r.graph)
    (hn : r.graph.node r.edge.toNode = some n) (himp : r.improves (· + ·) n = true) :
    heaviness g₀ L (r.next (· + ·)) < heaviness g₀ L r.graph := by
  have hnode : ∀ k, (r.next (· + ·)).node k =
      if k = r.edge.toNode then some (n.reroute (· + ·) r.graph.myself r.source r.edge)
      else r.graph.node k := r.node_next hn
  rw [heaviness, heaviness, Prod.Lex.toLex_lt_toLex]
  cases hv : n.status.visited with
  | false =>
      refine Or.inl (sum_next_lt hof hn unseen (fun _ _ k h => by rw [unseen, unseen, h]) ?_)
      rw [unseen, unseen, hnode, if_pos rfl, hn]
      simp [hv]
  | true =>
      have hseen : ∀ k, (r.next (· + ·)).unseen k = r.graph.unseen k := by
        intro k
        rw [unseen, unseen, hnode]
        by_cases hk : k = r.edge.toNode
        · rw [if_pos hk, hk, hn, Option.any_some, Option.any_some, hv, Node.reroute_visited]
        · rw [if_neg hk]
      obtain ⟨m, w, first, hw, hold⟩ := hchain _ n hn hv
      obtain ⟨w', hw', hlt⟩ := reroute_lighter hof hn hv himp hw
      have hLw' : L ≤ w' := by
        rcases hlt with ⟨-, rfl⟩ | ⟨rfl, -⟩
        · obtain ⟨m', first', htail⟩ := hof.chain_tail hchain
          exact hL _ _ _ _ htail
        · exact hL _ _ _ _ hold
      have hsum : ∑ k ∈ g₀.nodes.keys.toFinset, (r.next (· + ·)).unseen k =
          ∑ k ∈ g₀.nodes.keys.toFinset, r.graph.unseen k := Finset.sum_congr rfl fun k _ => hseen k
      refine Or.inr ⟨hsum, ?_⟩
      exact sum_next_lt hof hn (excess L) (fun _ _ k h => by rw [excess, excess, h])
        (excess_next_lt hn hw hw' hLw' (hlt.imp_left And.left))

/-- A visit changes nothing and queues nothing, or it lowers the measure. -/
lemma respects_heaviness {L : ℤ} (hL : ∀ m w first k, g₀.Chain m w first k → L ≤ w)
    (src : RouteSourceState) : Respects (· + ·) g₀ (fun _ => True) (WeighsChain g₀) src
      fun st r => r = st ∨ heaviness g₀ L r.1 < heaviness g₀ L st.1 where
  refl _ := Or.inl rfl
  trans st r r' h h' := by
    rcases h with rfl | h
    · exact h'
    · rcases h' with rfl | h'
      · exact Or.inr h
      · exact Or.inr (h'.trans h)
  step _ hof _ _ hchain _ hn himp _ := Or.inr (heaviness_next_lt hL hof hchain hn himp)

/-- **Termination without circles of negative weight.** -/
theorem returns_of_noNegativeCircle (hg : g.WellFormed) (hcircle : g.NoNegativeCircle) :
    ∃ fuel g', g.ssspBfs (· + ·) fuel = some g' := by
  obtain ⟨L, hL⟩ := hcircle.exists_bound hg
  refine ssspBfs_returns_of_measure hg keeps_weighsChain (weighsChain_start hg)
    (fun _ _ _ => trivial) (fun g' queue => toLex (heaviness g L g', queue.length))
    fun g' name queue src hsrc hchain _ => ?_
  rw [Prod.Lex.toLex_lt_toLex]
  rcases ssspVisit_rel hg keeps_weighsChain (respects_heaviness hL src) hsrc hchain
    (fun _ _ => trivial) with hsame | hlt
  · rw [hsame, List.append_nil]
    exact Or.inr ⟨rfl, Nat.lt_succ_self _⟩
  · exact Or.inl hlt

/-! ### Without direct routes that become indirect -/

/-- How far a node is from a direct route: it has none, an indirect one, or a direct one. -/
def indirection (g : Graph) (k : String) : ℕ :=
  match g.node k with
  | some n => if n.status.visited then if n.status.indirect then 1 else 0 else 2
  | none => 0

/-- How far the search may still go down in the indirections of the nodes. -/
def indirections (g₀ g : Graph) : ℕ := ∑ k ∈ g₀.nodes.keys.toFinset, g.indirection k

lemma indirection_le (g : Graph) (k : String) : g.indirection k ≤ 2 := by
  rw [indirection]
  split
  · split_ifs <;> omega
  · omega

lemma indirections_le (g₀ g : Graph) : indirections g₀ g ≤ 2 * g₀.nodes.keys.length := by
  calc indirections g₀ g ≤ g₀.nodes.keys.toFinset.card • 2 :=
        Finset.sum_le_card_nsmul _ _ _ fun k _ => indirection_le g k
    _ ≤ 2 * g₀.nodes.keys.length := by
        rw [smul_eq_mul, mul_comm]
        exact Nat.mul_le_mul_left 2 g₀.nodes.keys.toFinset_card_le

/-- A distance is bounded by what the nodes have gained on their way to direct routes. -/
def HopsBounded (g₀ g : Graph) : Prop :=
  ∀ k, 0 ≤ g.hops k ∧ g.hops k + indirections g₀ g ≤ 2 * g₀.nodes.keys.length

/-- A step that does not demote brings a node closer to a direct route, or keeps all distances. -/
lemma indirections_next (hof : r.Of g₀) (hdemotes : r.demotes (· + ·) = false)
    (hn : r.graph.node r.edge.toNode = some n) (himp : r.improves (· + ·) n = true) :
    indirections g₀ (r.next (· + ·)) < indirections g₀ r.graph ∨
      indirections g₀ (r.next (· + ·)) = indirections g₀ r.graph ∧
        r.graph.hops r.edge.toNode = r.newDistance := by
  have hnew : (r.next (· + ·)).indirection r.edge.toNode = if r.indirect = true then 1 else 0 := by
    rw [indirection, r.node_next hn, if_pos rfl]
    rfl
  have hlocal : ∀ (g g' : Graph) (k : String), g'.node k = g.node k →
      g'.indirection k = g.indirection k := fun _ _ k h => by rw [indirection, indirection, h]
  rcases improves_cases hof.inv hn himp with hv | ⟨hv, hind, hr⟩ | ⟨hv, hd, -⟩
  · refine Or.inl (sum_next_lt hof hn indirection hlocal ?_)
    have hold : r.graph.indirection r.edge.toNode = 2 := by rw [indirection, hn]; simp [hv]
    rw [hnew, hold]
    split_ifs <;> omega
  · refine Or.inl (sum_next_lt hof hn indirection hlocal ?_)
    have hold : r.graph.indirection r.edge.toNode = 1 := by rw [indirection, hn]; simp [hv, hind]
    rw [hnew, hold, hr]
    simp
  · have hold : r.graph.indirection r.edge.toNode =
        if n.status.indirect = true then 1 else 0 := by
      rw [indirection, hn]
      simp [hv]
    have hhops : r.graph.hops r.edge.toNode = r.newDistance := by
      rw [hops, hn, Option.bind_some, hd, Option.getD_some]
    by_cases hless : (r.next (· + ·)).indirection r.edge.toNode <
        r.graph.indirection r.edge.toNode
    · exact Or.inl (sum_next_lt hof hn indirection hlocal hless)
    · -- a direct route stays direct, so that nothing is gained or lost
      refine Or.inr ⟨Finset.sum_congr rfl fun k _ => ?_, hhops⟩
      by_cases hk : k = r.edge.toNode
      · subst hk
        rw [hnew, hold] at hless ⊢
        cases hind : n.status.indirect with
        | false => rw [r.indirect_of_not_demotes hdemotes hn hv hind himp]
        | true =>
            rw [hind] at hless
            cases hr : r.indirect with
            | false => exact absurd (by simp [hr]) hless
            | true => rfl
      · exact hlocal _ _ k (by rw [r.node_next hn, if_neg hk])

/-- The bound holds at the start. -/
lemma hopsBounded_start (hg : g.WellFormed) : HopsBounded g g.ssspReset.ssspStart := by
  obtain ⟨hinv, -⟩ := ssspStart_spec hg
  intro k
  have hzero : g.ssspReset.ssspStart.hops k = 0 := by
    rw [hops]
    cases hn : g.ssspReset.ssspStart.node k with
    | none => rfl
    | some n =>
        cases hv : n.status.visited with
        | true => rw [Option.bind_some, (node_ssspStart hg hn hv).2.2]; rfl
        | false => rw [Option.bind_some, hinv.unrouted k n hn hv]; rfl
  have hle := indirections_le g g.ssspReset.ssspStart
  rw [hzero]
  omega

/-- Relaxations that do not demote keep the bound. -/
lemma keeps_hopsBounded :
    Keeps (· + ·) g₀ (fun r => r.demotes (· + ·) = false) (HopsBounded g₀) := by
  intro r hof hdemotes hbound n hn himp k
  have hsource := hbound r.edge.fromNode
  have hk := hbound k
  have hd : r.newDistance = r.graph.hops r.edge.fromNode + 1 := by
    rw [hof.hops_source, Relaxation.newDistance]
  rw [hops_next hn]
  rcases indirections_next hof hdemotes hn himp with hless | ⟨hsame, hto⟩
  · split_ifs <;> omega
  · split_ifs with hkt
    · rw [← hto, ← hkt, hsame]
      exact hk
    · rw [hsame]
      exact hk

/-- What a visit of a node at distance `d` does: nodes come closer to direct routes, or the
distances stay as they are and what is queued is one hop further. -/
def Settles (g₀ : Graph) (d : ℤ) (st r : Graph × List String) : Prop :=
  indirections g₀ r.1 < indirections g₀ st.1 ∨
    indirections g₀ r.1 = indirections g₀ st.1 ∧ (∀ k, r.1.hops k = st.1.hops k) ∧
      ∃ new, r.2 = st.2 ++ new ∧ ∀ k ∈ new, st.1.hops k = d + 1

/-- A visit settles a node, or brings another one closer to a direct route. -/
lemma respects_settles (src : RouteSourceState) :
    Respects (· + ·) g₀ (fun r => r.demotes (· + ·) = false) (HopsBounded g₀) src
      (Settles g₀ src.distance) where
  refl st := Or.inr ⟨rfl, fun _ => rfl, [], (List.append_nil _).symm, by simp⟩
  trans st r r' h h' := by
    rcases h with h | ⟨h, hhops, new, hnew, hdist⟩
    · rcases h' with h' | ⟨h', -⟩
      · exact Or.inl (h'.trans h)
      · exact Or.inl (h' ▸ h)
    · rcases h' with h' | ⟨h', hhops', more, hmore, hdist'⟩
      · exact Or.inl (h ▸ h')
      · refine Or.inr ⟨h'.trans h, fun k => (hhops' k).trans (hhops k), new ++ more, ?_, ?_⟩
        · rw [hmore, hnew, List.append_assoc]
        · intro k hk
          rcases List.mem_append.mp hk with hk | hk
          · exact hdist k hk
          · exact (hhops k).symm.trans (hdist' k hk)
  step r hof hsrc hdemotes _ n hn himp pushed := by
    refine (indirections_next hof hdemotes hn himp).imp_right fun ⟨hsame, hto⟩ => ?_
    refine ⟨hsame, fun k => ?_, [r.edge.toNode], rfl, fun k hk => ?_⟩
    · rw [hops_next hn]
      split_ifs with hk
      · rw [hk, hto]
      · rfl
    · rw [List.mem_singleton.mp hk]
      exact hto.trans (by rw [Relaxation.newDistance, hsrc])

/-- **Termination without demotion.** -/
theorem returns_of_neverDemotes (hg : g.WellFormed) (hnever : g.NeverDemotes (· + ·)) :
    ∃ fuel g', g.ssspBfs (· + ·) fuel = some g' := by
  refine ssspBfs_returns_of_measure hg keeps_hopsBounded (hopsBounded_start hg) hnever
    (fun g' queue => toLex (indirections g g', Worklist.worth g.edges.values.length
      (2 * g.nodes.keys.length) (fun k => (g'.hops k).toNat) queue))
    fun g' name queue src hsrc hbound hdemotes => ?_
  rw [Prod.Lex.toLex_lt_toLex]
  obtain ⟨n, src', hn, hsrc', -, hd, -⟩ := hsrc.inv.source hsrc.visited
  obtain rfl : src = src' := Option.some_inj.mp (hsrc.source_eq.symm.trans hsrc')
  have hname : g'.hops name = src.distance := by
    rw [hops, hn, Option.bind_some, hd, Option.getD_some]
  have hpos := (hbound name).1
  rcases ssspVisit_rel hg keeps_hopsBounded (respects_settles src) hsrc hbound hdemotes with
    hless | ⟨hsame, hhops, new, hnew, hdist⟩
  · exact Or.inl hless
  · rw [List.nil_append] at hnew
    have hlen := length_ssspVisit hsrc.inv name
    rw [hnew] at hlen ⊢
    have hworth : Worklist.worth g.edges.values.length (2 * g.nodes.keys.length)
        (fun k => ((g'.ssspVisit (· + ·) name).1.hops k).toNat) (queue ++ new) <
        Worklist.worth g.edges.values.length (2 * g.nodes.keys.length)
          (fun k => (g'.hops k).toNat) (name :: queue) := by
      refine Worklist.worth_lt hlen (fun k _ => congrArg Int.toNat (hhops k)) fun k hk => ?_
      have hk' : g'.hops k = src.distance + 1 := hdist k hk
      have hle := (hbound k).2
      rw [hhops, hk', hname]
      omega
    exact Or.inr ⟨hsame, hworth⟩

end Returns

/-! ### Termination -/

/-- **Termination**: the loop ends when no circle of links has a negative weight, and also when no
direct route is replaced by an indirect one. -/
theorem ssspBfs_returns {g : Graph} (hg : g.WellFormed)
    (h : g.NoNegativeCircle ∨ g.NeverDemotes (· + ·)) :
    ∃ fuel g', g.ssspBfs (· + ·) fuel = some g' :=
  h.elim (returns_of_noNegativeCircle hg) (returns_of_neverDemotes hg)

/-- Weights that are not negative make no circle of negative weight. -/
lemma noNegativeCircle_of_nonneg {g : Graph}
    (h : ∀ e ∈ g.edges.values, 0 ≤ e.weight) : g.NoNegativeCircle := by
  have hnonneg : ∀ {a c total}, WeightedWalk.Walk g.Linked g.weightOf a c total → 0 ≤ total := by
    intro a c total hwalk
    induction hwalk with
    | nil => exact le_rfl
    | @step b c total _ hbc ih =>
        obtain ⟨e, he⟩ := OrdMap.mem_keys.mp hbc.1
        have hweight : g.weightOf b c = e.weight := by
          rw [weightOf, he]
          rfl
        rw [hweight]
        exact add_nonneg ih (h e (OrdMap.mem_values.mpr ⟨_, he⟩))
  exact fun a total _ hwalk => hnonneg hwalk

/-- The search of the network whose previous edges form a cycle. -/
theorem ssspBfs_returns_loop : ∃ fuel g', previousLoop.ssspBfs (· + ·) fuel = some g' :=
  ssspBfs_returns (by decide +kernel)
    (Or.inl (noNegativeCircle_of_nonneg (by decide +kernel)))

end Graph

end RustyTinc

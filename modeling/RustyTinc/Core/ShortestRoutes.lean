import RustyTinc.Core.SearchSteps

/-!
Searches that go level by level: no step replaces an indirect route by a direct one over another
number of hops, as when all links are direct. They find the least number of hops, and among the
chains with that number of hops the least weight.

* `Chain`: the chains of links that start at the owner;
* `LevelInv`: what the loop keeps: distances and weights are those of chains, and a node that left
  the queue improves none of its neighbours;
* `LevelInv.least`: the weight of the node that leaves the queue is final;
* `ssspBfs_shortest`: when all links are direct, the search returns, with the route of a shortest
  chain for every node.
-/

namespace RustyTinc

namespace Graph

/-- The weight of the edge from one node to another. -/
def weightOf (g : Graph) (a b : String) : ℤ := ((g.edges.get? ⟨a, b⟩).map Edge.weight).getD 0

/-- A chain of links from the owner: its number of hops, its weight away from the owner, the first
node after the owner, and the node where it ends. -/
inductive Chain (g : Graph) : ℕ → ℤ → Option String → String → Prop
  | start : Chain g 0 0 none g.myself
  | tail {hops : ℕ} {weight : ℤ} {first : Option String} {b c : String}
      (h : Chain g hops weight first b) (hbc : g.Linked b c) :
      Chain g (hops + 1) (weight + g.weightOf b c) (some (first.getD c)) c

/-- The route of a node, which is empty for an unknown one. -/
def routeOf (g : Graph) (name : String) : RouteState := ((g.node name).map Node.route).getD {}

/-- The weight of the path to a node. -/
def weighted (g : Graph) (name : String) : ℤ := (g.routeOf name).weightedDistance.getD 0

/-- The distance and the weight of the route to a node are those of a chain that ends there. -/
def OnChain (g₀ g : Graph) (name : String) : Prop :=
  ∃ m w first, g₀.Chain m w first name ∧ g.hops name = m ∧ g.weighted name = w

/-- A chain with the fewest hops among those to its end, and of the least weight among these. -/
def Lightest (g : Graph) (m : ℕ) (w : ℤ) (first : Option String) (k : String) : Prop :=
  g.Chain m w first k ∧
    ∀ m' w' first', g.Chain m' w' first' k → m ≤ m' ∧ (m' = m → w ≤ w')

/-- No edge that leaves a node joined to the owner, and whose reverse is stored too, is marked
indirect. -/
def ReachedDirect (g : Graph) : Prop :=
  ∀ e, g.edges.get? e.key = some e → g.hasReverseEdge e = true → g.Joined g.myself e.fromNode →
    e.isIndirect = false

lemma AllDirect.reachedDirect {g : Graph} (h : g.AllDirect) : g.ReachedDirect :=
  fun e he hrev _ => h e he hrev

section Shortest

variable {g₀ g : Graph} {name : String} {d : ℤ} {r : Relaxation} {n : Node} {src : RouteSourceState}

lemma Chain.joined {m : ℕ} {w : ℤ} {first : Option String} {k : String}
    (h : g.Chain m w first k) : g.Joined g.myself k := by
  induction h with
  | start => exact Relation.ReflTransGen.refl
  | tail _ hbc ih => exact ih.tail hbc

lemma Chain.of_joined {k : String} (h : g.Joined g.myself k) :
    ∃ m w first, g.Chain m w first k := by
  induction h with
  | refl => exact ⟨0, 0, none, Chain.start⟩
  | tail _ hbc ih =>
      obtain ⟨m, w, first, hchain⟩ := ih
      exact ⟨_, _, _, hchain.tail hbc⟩

lemma Chain.first_eq_none {m : ℕ} {w : ℤ} {first : Option String} {k : String}
    (h : g.Chain m w first k) (hm : m = 0) : first = none := by
  cases h with
  | start => rfl
  | tail => cases hm

lemma hops_eq_routeOf (g : Graph) (k : String) : g.hops k = (g.routeOf k).distance.getD 0 := by
  rw [hops, routeOf]
  cases g.node k <;> rfl

lemma routeOf_modifyNode {k b : String} {f : Node → Node} {n : Node} (hn : g.node k = some n) :
    (g.modifyNode k f).routeOf b = if b = k then (f n).route else g.routeOf b := by
  rw [routeOf, node_modifyNode, routeOf]
  split_ifs with hb
  · rw [hb, hn]
    rfl
  · rfl

lemma weighted_of_weightedDistance {k : String} {w : ℤ} (hn : g.node k = some n)
    (hw : n.route.weightedDistance = some w) : g.weighted k = w := by
  rw [weighted, routeOf, hn, Option.map_some, Option.getD_some, hw, Option.getD_some]

lemma Relaxation.Of.weighted_source (h : r.Of g₀) :
    r.graph.weighted r.edge.fromNode = r.source.weightedDistance := by
  obtain ⟨u, hu, -, -, -, hw, -⟩ := h.exists_source
  exact weighted_of_weightedDistance hu hw

lemma Relaxation.Of.linked (h : r.Of g₀) : g₀.Linked r.edge.fromNode r.edge.toNode :=
  linked_of_hasReverseEdge h.stored h.reverse

lemma weightOf_edge {e : Edge} (he : g.edges.get? e.key = some e) :
    g.weightOf e.fromNode e.toNode = e.weight := by
  show ((g.edges.get? e.key).map Edge.weight).getD 0 = e.weight
  rw [he]
  rfl

/-- The weight after a new route. -/
lemma weighted_next (hn : r.graph.node r.edge.toNode = some n)
    (k : String) : (r.next addWeight).weighted k =
      if k = r.edge.toNode then
        (n.reroute addWeight r.graph.myself r.source r.edge).route.weightedDistance.getD 0
      else r.graph.weighted k := by
  rw [weighted, Relaxation.next, routeOf_modifyNode hn, weighted]
  split_ifs <;> rfl

lemma weighted_next_of_ne (hn : r.graph.node r.edge.toNode = some n) {k : String}
    (hk : k ≠ r.edge.toNode) : (r.next addWeight).weighted k = r.graph.weighted k := by
  rw [weighted_next hn, if_neg hk]

/-- A new weight is that of the source and of the edge. -/
lemma weighted_next_of_updateNextHop (hn : r.graph.node r.edge.toNode = some n)
    (hup : n.updateNextHop r.newDistance (r.newWeightedDistance addWeight) = true) :
    (r.next addWeight).weighted r.edge.toNode = r.newWeightedDistance addWeight := by
  rw [weighted_next hn, if_pos rfl, weightedDistance_reroute, if_pos hup, Option.getD_some]

/-- A step that gives no new weight leaves all weights as they are. -/
lemma weighted_next_of_not_updateNextHop (hn : r.graph.node r.edge.toNode = some n)
    (hup : ¬ n.updateNextHop r.newDistance (r.newWeightedDistance addWeight) = true) (k : String) :
    (r.next addWeight).weighted k = r.graph.weighted k := by
  rw [weighted_next hn]
  split_ifs with hk
  · rw [weightedDistance_reroute, if_neg hup, hk, weighted, routeOf, hn]
    rfl
  · rfl

/-- The new weight of a visited node is less than its old one. -/
lemma newWeightedDistance_lt (hof : r.Of g₀) (hn : r.graph.node r.edge.toNode = some n)
    (hv : n.status.visited = true)
    (hup : n.updateNextHop r.newDistance (r.newWeightedDistance addWeight) = true) :
    r.newWeightedDistance addWeight < r.graph.weighted r.edge.toNode := by
  obtain ⟨w, hw⟩ := hof.inv.weightedDistance_isSome hn hv
  rw [weighted_of_weightedDistance hn hw]
  exact (lt_of_updateNextHop hv hw hup).2

/-! ### Direct routes -/

/-- The visited nodes are joined to the owner, and their routes are direct. -/
def VisitedDirect (g₀ g : Graph) : Prop :=
  ∀ k n, g.node k = some n → n.status.visited = true →
    g₀.Joined g₀.myself k ∧ n.status.indirect = false

lemma visitedDirect_start (hg : g.WellFormed) : VisitedDirect g g.ssspReset.ssspStart := by
  intro k n hn hv
  obtain ⟨rfl, hdir, -⟩ := node_ssspStart hg hn hv
  exact ⟨.refl, hdir⟩

lemma VisitedDirect.step (hall : g₀.ReachedDirect) (hof : r.Of g₀)
    (h : VisitedDirect g₀ r.graph) :
    g₀.Joined g₀.myself r.edge.toNode ∧ r.indirect = false := by
  obtain ⟨u, hu, hv, hind, -⟩ := hof.exists_source
  obtain ⟨hjoined, hdir⟩ := h _ u hu hv
  refine ⟨hjoined.tail hof.linked, ?_⟩
  rw [Relaxation.indirect, ← hind, hdir, hall _ hof.stored hof.reverse hjoined]
  rfl

variable {addWeight : ℤ → ℤ → ℤ}

lemma keeps_visitedDirect (hall : g₀.ReachedDirect) :
    Keeps addWeight g₀ (fun _ => True) (VisitedDirect g₀) := by
  intro r hof _ h n hn _ k n' hn' hv'
  rw [r.node_next hn] at hn'
  split_ifs at hn' with hk
  · obtain rfl := Option.some_inj.mp hn'
    exact hk ▸ h.step hall hof
  · exact h k n' hn' hv'

/-- Without indirect links there is no indirect route to replace. -/
lemma ReachedDirect.neverStretches (hg : g.WellFormed) (hall : g.ReachedDirect) :
    g.NeverStretches addWeight := by
  intro fuel r hr
  obtain ⟨hof, h⟩ := ssspTrace_keeps hg (keeps_visitedDirect hall) (visitedDirect_start hg)
    (fun _ _ => trivial) r hr
  rw [Relaxation.stretches, Bool.and_eq_false_iff]
  refine Or.inr ?_
  cases hn : r.graph.node r.edge.toNode with
  | none => rfl
  | some n =>
      cases hv : n.status.visited with
      | false => simp [hv]
      | true => simp [(h _ n hn hv).2]

/-! ### One step of a search that does not stretch -/

/-- Such a step keeps the distance of a visited node. -/
lemma hops_next_of_visited (hof : r.Of g₀) (hstretch : r.stretches = false)
    (hn : r.graph.node r.edge.toNode = some n) (himp : r.improves addWeight n = true) {k : String}
    (hk : r.graph.Visited k) : (r.next addWeight).hops k = r.graph.hops k := by
  rw [hops_next hn]
  split_ifs with hkt
  · obtain ⟨n', hn', hv⟩ := hk
    rw [hkt, hn, Option.some_inj] at hn'
    subst hn'
    rcases improves_of_not_stretches hof.inv hstretch hn himp with hv' | ⟨-, hd⟩
    · rw [hv] at hv'
      cases hv'
    · rw [hkt, hops_of_distance hn hd]
  · rfl

/-- A step never makes a visited node heavier. -/
lemma weighted_next_le (hof : r.Of g₀) (hn : r.graph.node r.edge.toNode = some n)
    (himp : r.improves addWeight n = true) {k : String} (hk : r.graph.Visited k) :
    (r.next addWeight).weighted k ≤ r.graph.weighted k := by
  rw [weighted_next hn]
  split_ifs with hkt
  · obtain ⟨n', hn', hv⟩ := hk
    rw [hkt, hn, Option.some_inj] at hn'
    subst hn'
    obtain ⟨w, hw⟩ := hof.inv.weightedDistance_isSome hn hv
    obtain ⟨w', hw', hlt⟩ := reroute_lighter hof hn hv himp hw
    rw [hw', hkt, weighted_of_weightedDistance hn hw, Option.getD_some]
    exact hlt.elim (fun h => h.1.le) fun h => h.1.le
  · exact le_rfl

/-- Distances and weights stay those of chains. -/
lemma keeps_onChain : Keeps (· + ·) g₀ (fun r => r.stretches = false)
    fun g => ∀ k, g.Visited k → OnChain g₀ g k := by
  intro r hof hstretch hchain n hn himp k hk
  by_cases hkt : k = r.edge.toNode
  · by_cases hup : n.updateNextHop r.newDistance (r.newWeightedDistance (· + ·)) = true
    · -- the chain of the source, one link longer
      obtain ⟨m, w, first, hm, hd, hw⟩ := hchain _ hof.source_visited
      rw [hof.hops_source] at hd
      rw [hof.weighted_source] at hw
      refine ⟨m + 1, _, _, hkt ▸ hm.tail hof.linked, ?_, ?_⟩
      · rw [hops_next hn, if_pos hkt, Relaxation.newDistance, hd]
        push_cast
        rfl
      · rw [hkt, weighted_next_of_updateNextHop hn hup, weightOf_edge hof.stored, ← hw]
        rfl
    · have hv := visited_of_not_updateNextHop hup
      have hk' : r.graph.Visited k := hkt ▸ ⟨n, hn, hv⟩
      obtain ⟨m, w, first, hm, hd, hw⟩ := hchain k hk'
      exact ⟨m, w, first, hm, by rw [hops_next_of_visited hof hstretch hn himp hk', hd],
        by rw [weighted_next_of_not_updateNextHop hn hup, hw]⟩
  · obtain ⟨m, w, first, hm, hd, hw⟩ := hchain k (((r.visited_next hn k).mp hk).resolve_left hkt)
    exact ⟨m, w, first, hm, by rw [hops_next hn, if_neg hkt, hd],
      by rw [weighted_next_of_ne hn hkt, hw]⟩

/-- The stage reached by following edges out of a node at distance `d`: known distances are kept,
weights fall, and what is new or changes its weight is queued. -/
structure Advances (d : ℤ) (st r : Graph × List String) : Prop where
  mono : ∀ k, st.1.Visited k → r.1.Visited k
  kept : ∀ k ∈ st.2, k ∈ r.2
  levels : Levels d st r
  le : ∀ k, st.1.Visited k → r.1.weighted k ≤ st.1.weighted k
  same : ∀ k, r.1.Visited k → k ∉ r.2 → st.1.Visited k ∧ r.1.weighted k = st.1.weighted k

lemma Advances.refl (st : Graph × List String) : Advances d st st :=
  ⟨fun _ => id, fun _ => id, Levels.refl st, fun _ _ => le_rfl, fun _ hk _ => ⟨hk, rfl⟩⟩

lemma Advances.trans {st r r' : Graph × List String} (h : Advances d st r)
    (h' : Advances d r r') : Advances d st r' where
  mono k hk := h'.mono k (h.mono k hk)
  kept k hk := h'.kept k (h.kept k hk)
  levels := h.levels.trans h.mono h'.mono h'.levels
  le k hk := (h'.le k (h.mono k hk)).trans (h.le k hk)
  same k hk hkr := by
    obtain ⟨hk', hw'⟩ := h'.same k hk hkr
    obtain ⟨hk'', hw⟩ := h.same k hk' fun hmem => hkr (h'.kept k hmem)
    exact ⟨hk'', hw'.trans hw⟩

/-- A relaxation that does not stretch a path stays on the next level. -/
lemma advances_next (hof : r.Of g₀) (hstretch : r.stretches = false)
    (hn : r.graph.node r.edge.toNode = some n) (himp : r.improves addWeight n = true)
    (pushed : List String) : Advances r.source.distance (r.graph, pushed)
      (r.next addWeight, pushed ++ [r.edge.toNode]) := by
  have hvis : ∀ k, (r.next addWeight).Visited k ↔ k = r.edge.toNode ∨ r.graph.Visited k :=
    r.visited_next hn
  have hnew : (r.next addWeight).hops r.edge.toNode = r.source.distance + 1 := by
    rw [hops_next hn, if_pos rfl, Relaxation.newDistance]
  refine ⟨fun k hk => (hvis k).mpr (Or.inr hk), fun k => List.mem_append_left _,
    ⟨fun k => hops_next_of_visited hof hstretch hn himp, fun k hk => ?_,
      [r.edge.toNode], rfl, fun k hk => ?_⟩,
    fun k => weighted_next_le hof hn himp, fun k hk hkr => ?_⟩
  · rcases (hvis k).mp hk with hkt | hk
    · exact Or.inr (hkt ▸ hnew)
    · exact Or.inl hk
  · rw [List.mem_singleton.mp hk]
    exact ⟨(hvis _).mpr (Or.inl rfl), hnew⟩
  · have hkt : k ≠ r.edge.toNode := fun hkt => hkr (List.mem_append_right _ (by simp [hkt]))
    exact ⟨((hvis k).mp hk).resolve_left hkt, by rw [weighted_next hn, if_neg hkt]⟩

/-- A route that is kept over the same distance is no heavier than the new one. -/
lemma weighted_le_of_not_improves (hof : r.Of g₀) (hn : r.graph.node r.edge.toNode = some n)
    (himp : r.improves addWeight n = false) (hhops : r.graph.hops r.edge.toNode = r.newDistance) :
    r.graph.weighted r.edge.toNode ≤ r.newWeightedDistance addWeight := by
  simp only [Relaxation.improves, shouldKeepExistingRoute, Bool.not_eq_false', Bool.and_eq_true,
    Bool.or_eq_true, bne_iff_ne] at himp
  obtain ⟨⟨hv, -⟩, hkeep⟩ := himp
  obtain ⟨n', src, hn', -, -, hd, hw, -⟩ := hof.inv.source ⟨n, hn, hv⟩
  obtain rfl : n = n' := Option.some_inj.mp (hn.symm.trans hn')
  rw [hops_of_distance hn hd] at hhops
  rw [weighted_of_weightedDistance hn hw]
  rw [hd, hw, hhops] at hkeep
  simpa using hkeep

/-- A step that gives a new route leaves the node no heavier than that route. -/
lemma weighted_next_le_sum (hof : r.Of g₀) (hstretch : r.stretches = false)
    (hn : r.graph.node r.edge.toNode = some n) (himp : r.improves addWeight n = true) :
    (r.next addWeight).weighted r.edge.toNode ≤ r.newWeightedDistance addWeight := by
  rw [weighted_next hn, if_pos rfl, weightedDistance_reroute]
  split_ifs with hup
  · exact le_rfl
  · have hv := visited_of_not_updateNextHop hup
    obtain ⟨w, hw⟩ := hof.inv.weightedDistance_isSome hn hv
    rw [hw, Option.getD_some]
    rcases improves_of_not_stretches hof.inv hstretch hn himp with hv' | ⟨-, hd⟩
    · rw [hv] at hv'
      cases hv'
    · simpa [Node.updateNextHop, hv, hd, hw] using hup

/-! ### One visit -/

/-- Following a list of edges out of a node, and what becomes of the nodes at their ends. -/
lemma advances_foldl (hg : g₀.WellFormed) (es : List Edge)
    (hes : ∀ e ∈ es, e.fromNode = name ∧ g₀.edges.get? e.key = some e)
    {st : Graph × List String} (hsrc : IsSource g₀ name src st.1)
    (hstretch : ∀ r ∈ relaxations addWeight src st es, r.stretches = false) :
    Advances src.distance st (es.foldl (relaxEdge addWeight src) st) ∧
      ∀ e ∈ es, g₀.hasReverseEdge e = true → e.toNode ≠ g₀.myself →
        (es.foldl (relaxEdge addWeight src) st).1.hops e.toNode = src.distance + 1 →
        (es.foldl (relaxEdge addWeight src) st).1.weighted e.toNode ≤
          addWeight src.weightedDistance e.weight := by
  induction es generalizing st with
  | nil => exact ⟨Advances.refl st, by simp⟩
  | cons e es ih =>
      obtain ⟨g, pushed⟩ := st
      obtain ⟨hfrom, he⟩ := hes e (by simp)
      have hes' := fun e' (he' : e' ∈ es) => hes e' (by simp [he'])
      have hrest := fun r hr => hstretch r (mem_relaxations_tail hr)
      -- the edge itself
      have hone : IsSource g₀ name src (relaxEdge addWeight src (g, pushed) e).1 ∧
          Advances src.distance (g, pushed) (relaxEdge addWeight src (g, pushed) e) ∧
          (Relaxation.Of g₀ ⟨g, src, e⟩ →
            (relaxEdge addWeight src (g, pushed) e).1.Visited e.toNode ∧
            ((relaxEdge addWeight src (g, pushed) e).1.hops e.toNode = src.distance + 1 →
              (relaxEdge addWeight src (g, pushed) e).1.weighted e.toNode ≤
                addWeight src.weightedDistance e.weight)) := by
        rcases hsrc.relaxEdge_cases hg pushed hfrom he with
          ⟨hrel, hkept⟩ | ⟨n, hof, hn, himp, hrel, hnext⟩
        · rw [hrel]
          refine ⟨hsrc, Advances.refl _, fun hof => ?_⟩
          obtain ⟨n, hn, himp⟩ := hkept hof
          refine ⟨⟨n, hn, ?_⟩, fun hhops => ?_⟩
          · by_contra hv
            simp [Relaxation.improves, shouldKeepExistingRoute, hv] at himp
          · exact weighted_le_of_not_improves (r := ⟨g, src, e⟩) hof hn himp hhops
        · rw [hrel]
          have hstretch₀ := hstretch _ (mem_relaxations_head hof)
          refine ⟨hnext, advances_next hof hstretch₀ hn himp pushed, fun _ => ⟨?_, fun _ => ?_⟩⟩
          · exact (Relaxation.visited_next (r := ⟨g, src, e⟩) hn _).mpr (Or.inl rfl)
          · exact weighted_next_le_sum (r := ⟨g, src, e⟩) hof hstretch₀ hn himp
      obtain ⟨hsrc', hadv, hend⟩ := hone
      obtain ⟨hadv', hends⟩ := ih hes' hsrc' hrest
      rw [List.foldl_cons]
      refine ⟨hadv.trans hadv', fun e' he' hrev hne hhops => ?_⟩
      rcases List.mem_cons.mp he' with rfl | he'
      · -- the edges after this one can only lower the weight again
        obtain ⟨hvis, hsum⟩ := hend (hsrc.of hfrom he (hsrc.inv.myself_eq ▸ hne)
          ((hsrc.inv.hasReverseEdge_eq e').trans hrev))
        rw [hadv'.levels.same _ hvis] at hhops
        exact (hadv'.le _ hvis).trans (hsum hhops)
      · exact hends e' he' hrev hne hhops

/-- Processing a node: afterwards it improves none of its neighbours over the next hop. -/
lemma advances_ssspVisit (hg : g₀.WellFormed) (h : SsspInv g₀ g) (hvis : g.Visited name)
    (hstretch : ∀ r ∈ g.visitTrace (· + ·) name, r.stretches = false) :
    Advances (g.hops name) (g, []) (g.ssspVisit (· + ·) name) ∧
      ∀ b, g₀.Linked name b → b ≠ g₀.myself →
        (g.ssspVisit (· + ·) name).1.hops b = g.hops name + 1 →
        (g.ssspVisit (· + ·) name).1.weighted b ≤ g.weighted name + g₀.weightOf name b := by
  obtain ⟨src, hsrc⟩ := h.isSource hvis
  obtain ⟨n, src', hn, hsrc', -, hd, hw, -⟩ := h.source hvis
  obtain rfl : src' = src := Option.some_inj.mp (hsrc'.symm.trans hsrc.source_eq)
  rw [visitTrace, hsrc'] at hstretch
  rw [ssspVisit, hsrc', hops_of_distance hn hd, weighted_of_weightedDistance hn hw]
  obtain ⟨hadv, hends⟩ :=
    advances_foldl hg _ (h.stored_of_mem_outgoingEdges hg) hsrc hstretch
  refine ⟨hadv, fun b hb hne hhops => ?_⟩
  obtain ⟨e, he, rfl, rfl, hrev⟩ := hb.exists_edge hg
  rw [weightOf_edge he]
  refine hends e ((mem_outgoingEdges (h.wellFormed hg)).mpr ⟨rfl, ?_⟩) hrev hne hhops
  rw [h.edges_eq, he]

/-- What the loop keeps: the nodes are found in order of distance, distances and weights are those
of chains, a node that left the queue improves none of its neighbours, and no distance up to that
of a visited node is left out. -/
structure LevelInv (g₀ g : Graph) (queue : List String) : Prop extends LevelOrder g₀ g queue where
  sssp : SsspInv g₀ g
  onChain : ∀ k, g.Visited k → OnChain g₀ g k
  improved : ∀ k, g.Visited k → k ∉ queue → ∀ b, g₀.Linked k b → g.hops b = g.hops k + 1 →
    g.weighted b ≤ g.weighted k + g₀.weightOf k b
  filled : ∀ k, g.Visited k → ∀ j : ℕ, (j : ℤ) ≤ g.hops k → ∃ b, g.Visited b ∧ g.hops b = j

/-- A visit that does not stretch a path keeps the order of the queue. -/
lemma LevelInv.step (hg : g₀.WellFormed) {queue : List String}
    (h : LevelInv g₀ g (name :: queue))
    (hstretch : ∀ r ∈ g.visitTrace (· + ·) name, r.stretches = false) :
    LevelInv g₀ (g.ssspVisit (· + ·) name).1 (queue ++ (g.ssspVisit (· + ·) name).2) := by
  have hname : g.Visited name := h.queue_visited name (by simp)
  obtain ⟨hext, hnb⟩ := extends_ssspVisit (· + ·) hg h.sssp hname
  obtain ⟨hadv, hrelaxed⟩ := advances_ssspVisit hg h.sssp hname hstretch
  have hlev := hadv.levels
  have hchain := (ssspVisit_keeps hg keeps_onChain h.sssp hname h.onChain hstretch).2
  set r := g.ssspVisit (· + ·) name
  refine ⟨h.toLevelOrder.step hext hnb hlev, hext.inv, hchain, fun k hk hkq b hb hhops => ?_,
    fun k hk j hj => ?_⟩
  · obtain ⟨hkq, hkr⟩ := not_or.mp (mt List.mem_append.mpr hkq)
    obtain ⟨hkvis, hweight⟩ := hadv.same k hk hkr
    rw [hlev.same k hkvis] at hhops
    rw [hweight]
    by_cases hkname : k = name
    · -- the node just processed
      rw [hkname] at hb hhops ⊢
      refine hrelaxed b hb (fun hme => ?_) hhops
      obtain ⟨m, -, -, -, hm, -⟩ := h.onChain name hname
      obtain ⟨n, hn, -, -, hroute⟩ := hext.inv.own
      have hzero : r.1.hops g₀.myself = 0 := hops_of_distance hn (by rw [hroute])
      rw [hme, hzero] at hhops
      have hhops' : 0 = g.hops name + 1 := hhops
      omega
    · have hknq : k ∉ name :: queue := by simp [hkname, hkq]
      obtain ⟨hbvis, -⟩ := h.settled k hkvis hknq b hb
      rw [hlev.same b hbvis] at hhops
      exact (hadv.le b hbvis).trans (h.improved k hkvis hknq b hb hhops)
  · have hold : ∀ k, g.Visited k → (j : ℤ) ≤ g.hops k → ∃ b, r.1.Visited b ∧ r.1.hops b = j := by
      intro k hk hj
      obtain ⟨b, hb, hbj⟩ := h.filled k hk j hj
      exact ⟨b, hext.mono b hb, (hlev.same b hb).trans hbj⟩
    rcases hlev.fresh k hk with hkvis | hnew
    · exact hold k hkvis (hlev.same k hkvis ▸ hj)
    · -- a new level
      by_cases hjd : (j : ℤ) ≤ g.hops name
      · exact hold name hname hjd
      · exact ⟨k, hk, by omega⟩

/-- The queue is in order at the start. -/
lemma levelInv_start (hg : g.WellFormed) : LevelInv g g.ssspReset.ssspStart [g.myself] := by
  obtain ⟨hinv, hvis⟩ := ssspStart_spec hg
  obtain ⟨n, hn, -, -, hroute⟩ := hinv.own
  have hhops : g.ssspReset.ssspStart.hops g.myself = 0 := hops_of_distance hn (by rw [hroute])
  have hweight : g.ssspReset.ssspStart.weighted g.myself = 0 :=
    weighted_of_weightedDistance hn (by rw [hroute])
  refine ⟨levelOrder_start hg, hinv, fun k hk => ?_, fun k hk hkq => ?_, fun k hk j hj => ⟨k, hk, ?_⟩⟩
  · obtain rfl := (hvis k).mp hk
    exact ⟨0, 0, none, Chain.start, hhops, hweight⟩
  · exact absurd (List.mem_singleton.mpr ((hvis k).mp hk)) hkq
  · obtain rfl := (hvis k).mp hk
    rw [hhops] at hj ⊢
    omega

/-- **The least weight**: a chain with no more hops than the nodes in the queue has at least the
hops of the route to its end, and if it has as many, at least the weight. -/
lemma LevelInv.least {queue : List String} (h : LevelInv g₀ g queue) {D : ℤ}
    (hD : ∀ a ∈ queue, D ≤ g.hops a) {m : ℕ} {w : ℤ} {first : Option String} {k : String}
    (hchain : g₀.Chain m w first k) (hm : (m : ℤ) ≤ D) :
    g.Visited k ∧ g.hops k ≤ m ∧ (g.hops k = m → g.weighted k ≤ w) := by
  induction hchain with
  | start =>
      obtain ⟨n, hn, hv, -, hroute⟩ := h.sssp.own
      rw [hops_of_distance hn (by rw [hroute]), weighted_of_weightedDistance hn (by rw [hroute])]
      exact ⟨⟨n, hn, hv⟩, le_rfl, fun _ => le_rfl⟩
  | @tail m w first b c _ hbc ih =>
      push_cast at hm
      obtain ⟨hb, hle, hweight⟩ := ih (by omega)
      -- the node before the end has left the queue
      have hbq : b ∉ queue := fun hmem => by
        have hDb := hD b hmem
        omega
      obtain ⟨hc, hle'⟩ := h.settled b hb hbq c hbc
      refine ⟨hc, by push_cast; omega, fun heq => ?_⟩
      push_cast at heq
      have himproved := h.improved b hb hbq c hbc (by omega)
      have hw := hweight (by omega)
      omega

/-- The weight of the node that leaves the queue is that of a lightest chain among those with the
fewest hops. -/
lemma LevelInv.least_head {queue : List String} (h : LevelInv g₀ g (name :: queue)) :
    ∃ m w first, g₀.Lightest m w first name ∧ g.hops name = m ∧ g.weighted name = w := by
  obtain ⟨m, w, first, hchain, hm, hw⟩ := h.onChain name (h.queue_visited name (by simp))
  refine ⟨m, w, first, ⟨hchain, fun m' w' first' hchain' => ?_⟩, hm, hw⟩
  have hD : ∀ a ∈ name :: queue, g.hops name ≤ g.hops a := by
    rw [List.forall_mem_cons]
    exact ⟨le_rfl, (List.pairwise_cons.mp h.sorted).1⟩
  by_cases hle : (m' : ℤ) ≤ g.hops name
  · obtain ⟨-, hle', hweight⟩ := h.least hD hchain' hle
    exact ⟨by omega, fun heq => hw ▸ hweight (by omega)⟩
  · exact ⟨by omega, fun heq => by omega⟩

/-! ### The search returns -/

lemma Visited.mem_keys {k : String} (h : SsspInv g₀ g) (hk : g.Visited k) : k ∈ g₀.nodes.keys := by
  obtain ⟨n, hn, -⟩ := hk
  exact h.mem_keys.mp (OrdMap.mem_keys.mpr ⟨n, hn⟩)

/-- All distances up to that of a node are taken, so that there are more nodes. -/
lemma LevelInv.hops_lt {queue : List String} (h : LevelInv g₀ g queue) {k : String}
    (hk : g.Visited k) : (g.hops k).toNat < g₀.nodes.keys.length := by
  have hsub : (List.range ((g.hops k).toNat + 1)).map Int.ofNat ⊆ g₀.nodes.keys.map g.hops := by
    intro x hx
    obtain ⟨j, hj, rfl⟩ := List.mem_map.mp hx
    rw [List.mem_range] at hj
    obtain ⟨m, w, first, -, hm, -⟩ := h.onChain k hk
    obtain ⟨b, hb, hbj⟩ := h.filled k hk j (by omega)
    exact List.mem_map.mpr ⟨b, hb.mem_keys h.sssp, hbj⟩
  have hnodup : ((List.range ((g.hops k).toNat + 1)).map Int.ofNat).Nodup :=
    List.nodup_range.map fun _ _ => Int.ofNat.inj
  have hle := (hnodup.subperm hsub).length_le
  rw [List.length_map, List.length_map, List.length_range] at hle
  exact hle

/-- A visit puts at most one node for each edge into the queue. -/
lemma length_foldl_relaxEdge (src : RouteSourceState) (es : List Edge)
    (st : Graph × List String) :
    (es.foldl (relaxEdge (· + ·) src) st).2.length ≤ st.2.length + es.length := by
  induction es generalizing st with
  | nil => exact le_rfl
  | cons e es ih =>
      have hrest := ih (relaxEdge (· + ·) src st e)
      have hone : (relaxEdge (· + ·) src st e).2.length ≤ st.2.length + 1 := by
        obtain ⟨g, pushed⟩ := st
        rcases relaxEdge_cases src g pushed e with ⟨hrel, -⟩ | ⟨n, -, -, -, -, hrel⟩
        · rw [hrel]
          exact Nat.le_succ _
        · rw [hrel, List.length_append]
          exact le_rfl
      rw [List.foldl_cons, List.length_cons]
      omega

lemma length_ssspVisit (h : SsspInv g₀ g) (name : String) :
    (g.ssspVisit (· + ·) name).2.length ≤ g₀.edges.values.length := by
  rw [ssspVisit]
  cases g.routeSourceState name with
  | none => exact Nat.zero_le _
  | some src =>
      refine (length_foldl_relaxEdge src _ _).trans ?_
      rw [List.length_nil, zero_add, ← h.edges_eq]
      exact List.length_filter_le _ _

/-- A measure of the queue: an item is worth more than all items that it can queue one hop
further. -/
def queueWorth (g₀ g : Graph) (queue : List String) : ℕ :=
  (queue.map fun k =>
    (g₀.edges.values.length + 1) ^ (g₀.nodes.keys.length - (g.hops k).toNat)).sum

/-- Every visit makes the queue worth less. -/
lemma LevelInv.queueWorth_lt (hg : g₀.WellFormed) {queue : List String}
    (h : LevelInv g₀ g (name :: queue))
    (hstretch : ∀ r ∈ g.visitTrace (· + ·) name, r.stretches = false) :
    queueWorth g₀ (g.ssspVisit (· + ·) name).1 (queue ++ (g.ssspVisit (· + ·) name).2) <
      queueWorth g₀ g (name :: queue) := by
  have hname : g.Visited name := h.queue_visited name (by simp)
  have hstep := h.step hg hstretch
  have hlev := (advances_ssspVisit hg h.sssp hname hstretch).1.levels
  obtain ⟨new, hnew, hnew'⟩ := hlev.pushed
  rw [List.nil_append] at hnew
  have hlen := length_ssspVisit h.sssp name
  obtain ⟨m, -, -, -, hm, -⟩ := h.onChain name hname
  rw [hnew] at hlen hstep ⊢
  show Worklist.worth _ _ (fun k => ((g.ssspVisit (· + ·) name).1.hops k).toNat) _ <
    Worklist.worth _ _ (fun k => (g.hops k).toNat) _
  refine Worklist.worth_lt hlen (fun k hk => ?_) fun k hk => ?_
  · rw [hlev.same k (h.queue_visited k (by simp [hk]))]
  · have hlt := hstep.hops_lt (hnew' k hk).1
    rw [(hnew' k hk).2, hm] at hlt
    rw [(hnew' k hk).2, hm]
    omega

/-- **Termination level by level**: a search that does not stretch returns. -/
lemma returns_of_neverStretches (hg : g.WellFormed) (h : g.NeverStretches (· + ·)) :
    ∃ fuel g', g.ssspBfs (· + ·) fuel = some g' ∧ LevelInv g g' [] := by
  have htrace : ∀ fuel, ∀ r ∈ Worklist.trace (ssspVisit (· + ·)) (visitTrace (· + ·)) fuel
      g.ssspReset.ssspStart [g.myself], r.stretches = false := by
    intro fuel
    rw [← ssspTrace_eq hg]
    exact h fuel
  obtain ⟨fuel, g', hrun⟩ := Worklist.run_returns_of_trace (queueWorth g)
    (fun s a queue (h : LevelInv g s (a :: queue)) hstretch =>
      ⟨h.step hg hstretch, h.queueWorth_lt hg hstretch⟩) htrace (levelInv_start hg)
  refine ⟨fuel, g', (ssspBfs_eq_run hg fuel).trans hrun, ?_⟩
  exact Worklist.run_inv_of_trace (P := LevelInv g)
    (fun s a queue h hstretch => h.step hg hstretch) (htrace fuel) hrun (levelInv_start hg)

/-! ### The routes without indirect links -/

/-- The route of a node is that of a chain that ends there, without a relay. -/
def Follows (g₀ g : Graph) (name : String) : Prop :=
  ∃ m w first previous, g₀.Chain m w first name ∧
    g.routeOf name = ⟨some m, some w, some (first.getD g₀.myself), previous, some name⟩

lemma follows_start (hg : g.WellFormed) :
    ∀ k, g.ssspReset.ssspStart.Visited k → Follows g g.ssspReset.ssspStart k := by
  rintro k ⟨n, hn, hv⟩
  obtain ⟨rfl, -, hroute⟩ := node_ssspStart hg hn hv
  refine ⟨0, 0, none, none, Chain.start, ?_⟩
  rw [routeOf, hn, Option.map_some, Option.getD_some, hroute]
  rfl

/-- The first hop behind a source that follows a chain. -/
lemma Relaxation.Of.firstHop (hof : r.Of g₀) {m : ℕ} {w : ℤ} {first : Option String}
    (hchain : g₀.Chain m w first r.edge.fromNode) (hdistance : r.source.distance = m)
    (hnext : r.source.nextHop = first.getD g₀.myself) :
    (if r.source.nextHop = r.graph.myself then r.edge.toNode else r.source.nextHop) =
      first.getD r.edge.toNode := by
  obtain ⟨-, src, -, hsrc, -, -, -, -, -, hown⟩ := hof.inv.source hof.source_visited
  obtain rfl : src = r.source := Option.some_inj.mp (hsrc.symm.trans hof.source_eq)
  rw [hof.inv.myself_eq]
  rcases hown with ⟨-, hself, hzero⟩ | ⟨-, hne, -⟩
  · rw [if_pos hself, hchain.first_eq_none (by omega)]
    rfl
  · rw [if_neg hne]
    cases first with
    | none => exact absurd hnext hne
    | some f => exact hnext

/-- The direct route that a step gives together with a new weight. -/
lemma route_reroute (hind : r.indirect = false)
    (hup : n.updateNextHop r.newDistance (r.newWeightedDistance addWeight) = true) :
    (n.reroute addWeight r.graph.myself r.source r.edge).route =
      ⟨some r.newDistance, some (r.newWeightedDistance addWeight),
        some (if r.source.nextHop = r.graph.myself then r.edge.toNode else r.source.nextHop),
        some r.edge.key, some r.edge.toNode⟩ := by
  have hweighted := @weightedDistance_reroute addWeight r n
  have hnext := @nextHop_reroute addWeight r n
  have hvia := @via_reroute addWeight r n
  rw [if_pos hup] at hweighted hnext
  rw [if_neg (by simp [hind])] at hvia
  have heta : ∀ x : RouteState,
      x = ⟨x.distance, x.weightedDistance, x.nextHop, x.previousEdge, x.via⟩ := fun _ => rfl
  rw [heta (Node.route _), hweighted, hnext, hvia]
  rfl

/-- A step gives a node the route of the chain of its source, one link longer. -/
lemma keeps_follows (hall : g₀.ReachedDirect) : Keeps (· + ·) g₀ (fun _ => True)
    fun g => VisitedDirect g₀ g ∧ ∀ k, g.Visited k → Follows g₀ g k := by
  intro r hof _ ⟨hdirect, hfollows⟩ n hn himp
  refine ⟨keeps_visitedDirect hall r hof trivial hdirect n hn himp, fun k hk => ?_⟩
  have hrouteOf : (r.next (· + ·)).routeOf k = if k = r.edge.toNode then
      (n.reroute (· + ·) r.graph.myself r.source r.edge).route else r.graph.routeOf k :=
    routeOf_modifyNode hn
  by_cases hkt : k = r.edge.toNode
  · have hind := (hdirect.step hall hof).2
    -- the old route, if there is one, is direct and over the same distance
    have hup : n.updateNextHop r.newDistance (r.newWeightedDistance (· + ·)) = true := by
      rcases improves_cases hof.inv hn himp with hv | ⟨hv, hind', -⟩ | ⟨-, hd, w, hw, hlt⟩
      · simp [Node.updateNextHop, hv]
      · rw [(hdirect _ n hn hv).2] at hind'
        cases hind'
      · simp [Node.updateNextHop, hd, hw, hlt]
    obtain ⟨m, w, first, p, hchain, hroute⟩ := hfollows _ hof.source_visited
    obtain ⟨u, hu, -, -, hd, hw, -, hnext⟩ := hof.exists_source
    rw [routeOf, hu, Option.map_some, Option.getD_some] at hroute
    rw [hroute, Option.some_inj] at hd hw hnext
    subst hkt
    refine ⟨m + 1, _, _, some r.edge.key, hchain.tail hof.linked, ?_⟩
    rw [hrouteOf, if_pos rfl, route_reroute hind hup, hof.firstHop hchain hd.symm hnext.symm,
      weightOf_edge hof.stored, Relaxation.newDistance, Relaxation.newWeightedDistance, ← hd, ← hw]
    push_cast
    rfl
  · obtain ⟨m, w, first, p, hchain, hroute⟩ :=
      hfollows k (((r.visited_next hn k).mp hk).resolve_left hkt)
    exact ⟨m, w, first, p, hchain, by rw [hrouteOf, if_neg hkt, hroute]⟩

end Shortest

/-- **The routes of a graph without indirect links**: the search returns, whatever the weights; it
has visited the nodes that a chain of links joins to the owner; and the route of every other node
is that of a chain with the least number of hops, and of the least weight among these. -/
theorem ssspBfs_shortest {g : Graph} (hg : g.WellFormed) (hall : g.AllDirect) :
    ∃ fuel g', g.ssspBfs (· + ·) fuel = some g' ∧
      (∀ k, g'.Visited k ↔ ∃ hops weight first, g.Chain hops weight first k) ∧
      ∀ k n, g'.node k = some n → n.status.visited = true → k ≠ g.myself →
        ∃ (hops : ℕ) (weight : ℤ) (first : String),
          n.route.distance = some (hops : ℤ) ∧ n.route.weightedDistance = some weight ∧
          n.route.nextHop = some first ∧ n.route.via = some k ∧
          g.Chain hops weight (some first) k ∧
          ∀ hops' weight' first', g.Chain hops' weight' first' k →
            hops ≤ hops' ∧ (hops' = hops → weight ≤ weight') := by
  have hreached := hall.reachedDirect
  obtain ⟨fuel, g', hrun, hend⟩ := returns_of_neverStretches hg (hreached.neverStretches hg)
  have hfollows := (ssspBfs_keeps hg (keeps_follows hreached)
    ⟨visitedDirect_start hg, follows_start hg⟩ (fun _ _ => trivial) hrun).2
  have hleast := fun {m w first k} (hchain : g.Chain m w first k) =>
    hend.least (D := m) (fun a ha => absurd ha List.not_mem_nil) hchain le_rfl
  refine ⟨fuel, g', hrun, fun k => ⟨fun hk => ?_, fun ⟨_, _, _, hchain⟩ => ?_⟩,
    fun k n hn hv hne => ?_⟩
  · exact Chain.of_joined (((ssspBfs_spec hg hrun).2 k).mp hk)
  · exact (hleast hchain).1
  · obtain ⟨m, w, first, p, hchain, hroute⟩ := hfollows k ⟨n, hn, hv⟩
    have hnode : n.route = ⟨some m, some w, some (first.getD g.myself), p, some k⟩ := by
      rw [← hroute, routeOf, hn]
      rfl
    obtain ⟨first, rfl⟩ : ∃ f, first = some f := by
      cases hchain with
      | start => exact absurd rfl hne
      | tail => exact ⟨_, rfl⟩
    rw [hnode]
    refine ⟨m, w, first, rfl, rfl, rfl, rfl, hchain, fun m' w' first' hchain' => ?_⟩
    obtain ⟨-, hle, hweight⟩ := hleast hchain'
    rw [hops_eq_routeOf, hroute, Option.getD_some] at hle hweight
    rw [weighted, hroute, Option.getD_some] at hweight
    exact ⟨by exact_mod_cast hle, fun heq => hweight (by rw [heq])⟩

/-- The line of three nodes. -/
theorem ssspBfs_shortest_line : ∃ fuel g', lineNetwork.ssspBfs (· + ·) fuel = some g' ∧
    ∃ n, g'.node "c" = some n ∧ n.route.distance = some 2 ∧ n.route.weightedDistance = some 12 := by
  obtain ⟨fuel, g', hrun, -, -⟩ := @ssspBfs_shortest lineNetwork (by decide +kernel)
    (by decide +kernel)
  refine ⟨fuel, g', hrun, ?_⟩
  obtain ⟨g'', hrun'', n, hn, hroute⟩ : ∃ g'', lineNetwork.ssspBfs (· + ·) 10 = some g'' ∧
      ∃ n, g''.node "c" = some n ∧ n.route.distance = some 2 ∧
        n.route.weightedDistance = some 12 := by
    refine ⟨(lineNetwork.ssspBfs (· + ·) 10).getD lineNetwork, by decide +kernel, ?_⟩
    refine ⟨(((lineNetwork.ssspBfs (· + ·) 10).getD lineNetwork).node "c").getD { name := "" },
      by decide +kernel, by decide +kernel, by decide +kernel⟩
  rw [ssspBfs_unique hrun hrun'']
  exact ⟨n, hn, hroute⟩

end Graph

end RustyTinc

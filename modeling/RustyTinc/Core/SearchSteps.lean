import RustyTinc.Core.Relay

/-!
The steps of the route search as data: which edges it compares routes for, with the graph as it
is at that moment.

* `ssspTrace`: the steps of a search, in order;
* `Relaxation.Of`: what is known of each of them;
* `Relaxation.demotes`, `Relaxation.stretches`: the step replaces a direct route by an indirect
  one, or an indirect route by a direct one over another number of hops;
* `ssspBfs_keeps`, `ssspTrace_keeps`: what every step keeps holds in every graph of the search
  and in its result.
-/

namespace RustyTinc

namespace Graph

/-- One step of the search: an edge to another node whose reverse is stored too, the state of
the node that it leaves, as it was when that node left the queue, and the graph at that moment. -/
structure Relaxation where
  graph : Graph
  source : RouteSourceState
  edge : Edge

variable (addWeight : ℤ → ℤ → ℤ)

namespace Relaxation

/-- The path goes over an edge that packets cannot take directly. -/
def indirect (r : Relaxation) : Bool := r.source.indirect || r.edge.isIndirect

/-- The number of steps over the edge. -/
def newDistance (r : Relaxation) : ℤ := r.source.distance + 1

/-- The weight of the path over the edge. -/
def newWeightedDistance (r : Relaxation) : ℤ := addWeight r.source.weightedDistance r.edge.weight

/-- The step gives the node at the end of its edge the new route. -/
def improves (r : Relaxation) (n : Node) : Bool :=
  !shouldKeepExistingRoute n r.indirect r.newDistance (r.newWeightedDistance addWeight)

/-- The graph after a step that gives a new route. -/
def next (r : Relaxation) : Graph :=
  r.graph.modifyNode r.edge.toNode (Node.reroute addWeight r.graph.myself r.source r.edge)

/-- The step replaces a direct route by an indirect one. -/
def demotes (r : Relaxation) : Bool :=
  r.indirect && (r.graph.node r.edge.toNode).any fun n =>
    n.status.visited && !n.status.indirect && r.improves addWeight n

/-- The step replaces an indirect route by a direct one over another number of hops. -/
def stretches (r : Relaxation) : Bool :=
  !r.indirect && (r.graph.node r.edge.toNode).any fun n =>
    n.status.visited && n.status.indirect && n.route.distance != some r.newDistance

/-- What is known of a step of a search of `g₀`. -/
structure Of (g₀ : Graph) (r : Relaxation) : Prop where
  inv : SsspInv g₀ r.graph
  source_eq : r.graph.routeSourceState r.edge.fromNode = some r.source
  source_visited : r.graph.Visited r.edge.fromNode
  stored : g₀.edges.get? r.edge.key = some r.edge
  reverse : g₀.hasReverseEdge r.edge = true
  ne_myself : r.edge.toNode ≠ g₀.myself

end Relaxation

/-! ### The steps of a search -/

/-- The steps that follow a list of edges out of one node. -/
def relaxations (src : RouteSourceState) : Graph × List String → List Edge → List Relaxation
  | _, [] => []
  | st, e :: es =>
      let rest := relaxations src (relaxEdge addWeight src st e) es
      if e.toNode = st.1.myself ∨ st.1.hasReverseEdge e = false then rest
      else ⟨st.1, src, e⟩ :: rest

/-- The steps made when one node leaves the queue. -/
def visitTrace (g : Graph) (name : String) : List Relaxation :=
  match g.routeSourceState name with
  | none => []
  | some src => relaxations addWeight src (g, []) (g.outgoingEdges name)

/-- The steps that a search makes with the given fuel. -/
def ssspTrace (fuel : ℕ) (g : Graph) : List Relaxation :=
  match g.ssspReset.node g.myself with
  | none => []
  | some _ =>
      Worklist.trace (ssspVisit addWeight) (visitTrace addWeight) fuel g.ssspReset.ssspStart
        [g.myself]

/-- The search never replaces a direct route by an indirect one. -/
def NeverDemotes (g : Graph) : Prop :=
  ∀ fuel, ∀ r ∈ g.ssspTrace addWeight fuel, r.demotes addWeight = false

/-- The search never replaces an indirect route by a direct one over another number of hops. -/
def NeverStretches (g : Graph) : Prop :=
  ∀ fuel, ∀ r ∈ g.ssspTrace addWeight fuel, r.stretches = false

/-! ### One step -/

section Step

variable {addWeight} {g₀ g : Graph} {name : String} {src : RouteSourceState} {r : Relaxation}
  {n : Node}

lemma routeSourceState_congr {g' : Graph} (h : g'.node name = g.node name) :
    g'.routeSourceState name = g.routeSourceState name := by
  rw [routeSourceState, routeSourceState, h]

/-- The source of a step, as a node of its graph. -/
lemma Relaxation.Of.exists_source (h : r.Of g₀) :
    ∃ u, r.graph.node r.edge.fromNode = some u ∧ u.status.visited = true ∧
      u.status.indirect = r.source.indirect ∧ u.route.distance = some r.source.distance ∧
      u.route.weightedDistance = some r.source.weightedDistance ∧
      u.route.via = some r.source.via ∧ u.route.nextHop = some r.source.nextHop := by
  obtain ⟨u, src, hu, hsrc, hind, hdist, hw, hnext, hvia, -⟩ := h.inv.source h.source_visited
  obtain ⟨u', hu', hv⟩ := h.source_visited
  obtain rfl : u' = u := Option.some_inj.mp (hu'.symm.trans hu)
  obtain rfl : src = r.source := Option.some_inj.mp (hsrc.symm.trans h.source_eq)
  exact ⟨u', hu, hv, hind.symm, hdist, hw, hvia, hnext⟩

lemma hops_of_distance {k : String} {d : ℤ} (hn : g.node k = some n)
    (hd : n.route.distance = some d) : g.hops k = d := by
  rw [hops, hn, Option.bind_some, hd, Option.getD_some]

lemma Relaxation.Of.hops_source (h : r.Of g₀) :
    r.graph.hops r.edge.fromNode = r.source.distance := by
  obtain ⟨u, hu, -, -, hd, -⟩ := h.exists_source
  exact hops_of_distance hu hd

/-- The distance after a new route. -/
lemma hops_next (hn : r.graph.node r.edge.toNode = some n) (k : String) :
    (r.next addWeight).hops k = if k = r.edge.toNode then r.newDistance else r.graph.hops k :=
  hops_modifyNode hn

/-- The weight after a new route: the sum, or the old weight if the node is visited, which is
no larger at the same distance. -/
lemma weightedDistance_reroute (r : Relaxation) (n : Node) :
    (n.reroute addWeight r.graph.myself r.source r.edge).route.weightedDistance =
      if n.updateNextHop r.newDistance (r.newWeightedDistance addWeight) = true
      then some (r.newWeightedDistance addWeight) else n.route.weightedDistance := rfl

/-- The next hop after a new route, which is new where the weight is. -/
lemma nextHop_reroute (r : Relaxation) (n : Node) :
    (n.reroute addWeight r.graph.myself r.source r.edge).route.nextHop =
      if n.updateNextHop r.newDistance (r.newWeightedDistance addWeight) = true
      then some (if r.source.nextHop = r.graph.myself then r.edge.toNode else r.source.nextHop)
      else n.route.nextHop := rfl

/-- The static relay after a new route. -/
lemma via_reroute (r : Relaxation) (n : Node) :
    (n.reroute addWeight r.graph.myself r.source r.edge).route.via =
      if r.indirect = true then some r.source.via else some r.edge.toNode := rfl

lemma visited_of_not_updateNextHop {d w : ℤ} (h : ¬ n.updateNextHop d w = true) :
    n.status.visited = true := by
  by_contra hv
  exact h (by simp [Node.updateNextHop, hv])

/-- A visited node gets a new weight only over the same distance, and if it is less. -/
lemma lt_of_updateNextHop {d w w₀ : ℤ} (hv : n.status.visited = true)
    (hw : n.route.weightedDistance = some w₀) (h : n.updateNextHop d w = true) :
    n.route.distance = some d ∧ w < w₀ := by
  simpa [Node.updateNextHop, hv, hw] using h

/-- When a step gives a new route: the node had none, or an indirect one and the new one is
direct, or one over the same distance and of more weight. -/
lemma improves_cases (h : SsspInv g₀ r.graph) (hn : r.graph.node r.edge.toNode = some n)
    (himp : r.improves addWeight n = true) :
    n.status.visited = false ∨
      n.status.visited = true ∧ n.status.indirect = true ∧ r.indirect = false ∨
      n.status.visited = true ∧ n.route.distance = some r.newDistance ∧
        ∃ w, n.route.weightedDistance = some w ∧ r.newWeightedDistance addWeight < w := by
  by_cases hv : n.status.visited = true
  · right
    simp only [Relaxation.improves, shouldKeepExistingRoute, hv, Bool.true_and, Bool.not_eq_true',
      Bool.and_eq_false_iff, Bool.or_eq_false_iff] at himp
    rcases himp with ⟨hdir, hind⟩ | ⟨hdist, hw⟩
    · exact Or.inl ⟨hv, by simpa using hdir, hind⟩
    · refine Or.inr ⟨hv, by simpa using hdist, ?_⟩
      obtain ⟨w, hw'⟩ : ∃ w, n.route.weightedDistance = some w := by
        by_cases hme : r.edge.toNode = g₀.myself
        · obtain ⟨n', hn', -, -, hroute⟩ := h.own
          rw [← hme, hn, Option.some_inj] at hn'
          exact ⟨0, by rw [hn', hroute]⟩
        · obtain ⟨d, w, nh, v, p, hroute, -⟩ := h.routed _ n hn hv hme
          exact ⟨w, by rw [hroute]⟩
      refine ⟨w, hw', ?_⟩
      rw [hw'] at hw
      simpa using hw
  · exact Or.inl (by simpa using hv)

/-- The new route of a visited node is lighter, or as heavy and direct while the old one was
not. -/
lemma reroute_lighter (hof : r.Of g₀) (hn : r.graph.node r.edge.toNode = some n)
    (hv : n.status.visited = true) (himp : r.improves addWeight n = true) {w : ℤ}
    (hw : n.route.weightedDistance = some w) :
    ∃ w', (n.reroute addWeight r.graph.myself r.source r.edge).route.weightedDistance = some w' ∧
      (w' < w ∧ w' = r.newWeightedDistance addWeight ∨
        w' = w ∧ n.status.indirect = true ∧ r.indirect = false) := by
  rw [weightedDistance_reroute]
  by_cases hup : n.updateNextHop r.newDistance (r.newWeightedDistance addWeight) = true
  · rw [if_pos hup]
    exact ⟨_, rfl, Or.inl ⟨(lt_of_updateNextHop hv hw hup).2, rfl⟩⟩
  · rw [if_neg hup]
    refine ⟨w, hw, Or.inr ⟨rfl, ?_⟩⟩
    rcases improves_cases hof.inv hn himp with hv' | ⟨-, hind, hr⟩ | ⟨-, hd, w₁, hw₁, hlt⟩
    · rw [hv] at hv'
      cases hv'
    · exact ⟨hind, hr⟩
    · exact absurd (by simp [Node.updateNextHop, hd, hw₁, hlt]) hup

/-- When a step that does not stretch gives a new route: the node had none, or one over the same
distance. -/
lemma improves_of_not_stretches (h : SsspInv g₀ r.graph) (hr : r.stretches = false)
    (hn : r.graph.node r.edge.toNode = some n) (himp : r.improves addWeight n = true) :
    n.status.visited = false ∨
      n.status.visited = true ∧ n.route.distance = some r.newDistance := by
  rcases improves_cases h hn himp with hv | ⟨hv, hind, hdir⟩ | ⟨hv, hd, -⟩
  · exact Or.inl hv
  · refine Or.inr ⟨hv, ?_⟩
    simpa [Relaxation.stretches, hn, hv, hind, hdir] using hr
  · exact Or.inr ⟨hv, hd⟩

/-- A step gives no new route to the node that its edge leaves. -/
lemma Relaxation.Of.ne_source (h : r.Of g₀) (hn : r.graph.node r.edge.toNode = some n)
    (himp : r.improves addWeight n = true) : r.edge.toNode ≠ r.edge.fromNode := by
  intro heq
  obtain ⟨u, hu, hv, hind, hdist, -⟩ := h.exists_source
  obtain rfl : n = u := by rw [heq, hu, Option.some_inj] at hn; exact hn.symm
  rcases improves_cases h.inv hn himp with hv' | ⟨-, hn_ind, hr⟩ | ⟨-, hd, -⟩
  · rw [hv] at hv'
    cases hv'
  · rw [hind] at hn_ind
    rw [Relaxation.indirect, hn_ind] at hr
    cases hr
  · rw [hdist, Option.some_inj, Relaxation.newDistance] at hd
    omega

lemma Relaxation.node_next (hn : r.graph.node r.edge.toNode = some n) (k : String) :
    (r.next addWeight).node k =
      if k = r.edge.toNode then some (n.reroute addWeight r.graph.myself r.source r.edge)
      else r.graph.node k := by
  rw [Relaxation.next, node_modifyNode]
  split_ifs with hk
  · rw [hk, hn, Option.map_some]
  · rfl

lemma Relaxation.visited_next (hn : r.graph.node r.edge.toNode = some n) (k : String) :
    (r.next addWeight).Visited k ↔ k = r.edge.toNode ∨ r.graph.Visited k :=
  visited_modifyNode (fun _ => rfl) hn

/-- What the loop over the edges of one node keeps about that node. -/
structure IsSource (g₀ : Graph) (name : String) (src : RouteSourceState) (g : Graph) : Prop where
  inv : SsspInv g₀ g
  visited : g.Visited name
  source_eq : g.routeSourceState name = some src

lemma IsSource.of (h : IsSource g₀ name src g) {e : Edge} (hfrom : e.fromNode = name)
    (he : g₀.edges.get? e.key = some e) (hne : e.toNode ≠ g.myself)
    (hrev : g.hasReverseEdge e = true) : Relaxation.Of g₀ ⟨g, src, e⟩ where
  inv := h.inv
  source_eq := hfrom ▸ h.source_eq
  source_visited := hfrom ▸ h.visited
  stored := he
  reverse := h.inv.hasReverseEdge_eq e ▸ hrev
  ne_myself := h.inv.myself_eq ▸ hne

/-- Following one edge is no step, a step that changes nothing, or one that gives a new route. -/
lemma IsSource.relaxEdge_cases (hg : g₀.WellFormed) (h : IsSource g₀ name src g)
    (pushed : List String) {e : Edge} (hfrom : e.fromNode = name)
    (he : g₀.edges.get? e.key = some e) :
    relaxEdge addWeight src (g, pushed) e = (g, pushed) ∧
        (Relaxation.Of g₀ ⟨g, src, e⟩ → ∃ n, g.node e.toNode = some n ∧
          Relaxation.improves addWeight ⟨g, src, e⟩ n = false) ∨
      ∃ n, Relaxation.Of g₀ ⟨g, src, e⟩ ∧ g.node e.toNode = some n ∧
        Relaxation.improves addWeight ⟨g, src, e⟩ n = true ∧
        relaxEdge addWeight src (g, pushed) e =
          (Relaxation.next addWeight ⟨g, src, e⟩, pushed ++ [e.toNode]) ∧
        IsSource g₀ name src (Relaxation.next addWeight ⟨g, src, e⟩) := by
  rcases @Graph.relaxEdge_cases addWeight src g pushed e with
    ⟨hrel, hwhy⟩ | ⟨n, hn, hne, hrev, hkeep, hrel⟩
  · refine Or.inl ⟨hrel, fun hof => ?_⟩
    rcases hwhy with hme | hrev | hnone | ⟨n, hn, hkeep⟩
    · exact absurd (hme.trans h.inv.myself_eq) hof.ne_myself
    · have hrev' : g.hasReverseEdge e = true := (h.inv.hasReverseEdge_eq e).trans hof.reverse
      exact absurd hrev (by simp [hrev'])
    · have hmem := h.inv.mem_keys.mpr
        ((linked_of_hasReverseEdge hof.stored hof.reverse).mem_right hg)
      exact absurd hmem (OrdMap.get?_eq_none.mp hnone)
    · exact ⟨n, hn, by rw [Relaxation.improves]; exact congrArg not hkeep⟩
  · right
    have hof := h.of hfrom he hne hrev
    have himp : Relaxation.improves addWeight ⟨g, src, e⟩ n = true := by
      rw [Relaxation.improves]
      exact congrArg not hkeep
    refine ⟨n, hof, hn, himp, hrel, ?_⟩
    have hne' : name ≠ e.toNode := fun heq =>
      hof.ne_source (r := ⟨g, src, e⟩) hn himp (heq.symm.trans hfrom.symm)
    have hname : (Relaxation.next addWeight ⟨g, src, e⟩).node name = g.node name := by
      rw [Relaxation.node_next (r := ⟨g, src, e⟩) hn, if_neg hne']
    obtain ⟨-, src', -, hsrc', -, -, -, -, -, hown⟩ := h.inv.source h.visited
    obtain rfl : src' = src := Option.some_inj.mp (hsrc'.symm.trans h.source_eq)
    have hinv : SsspInv g₀ (g, pushed).1 := h.inv
    have hext := (extends_relaxEdge addWeight hg
      (hown.imp (fun h => ⟨h.1, h.2.1⟩) And.right) hinv hfrom he).1
    rw [hrel] at hext
    refine ⟨hext.inv, hext.mono name h.visited, ?_⟩
    rw [routeSourceState_congr hname, h.source_eq]

end Step

/-! ### What every step keeps -/

/-- Every step of a search of `g₀` that satisfies `Q` keeps `I`. -/
def Keeps (g₀ : Graph) (Q : Relaxation → Prop) (I : Graph → Prop) : Prop :=
  ∀ r : Relaxation, r.Of g₀ → Q r → I r.graph → ∀ n, r.graph.node r.edge.toNode = some n →
    r.improves addWeight n = true → I (r.next addWeight)

section Rules

variable {addWeight} {g₀ g : Graph} {name : String} {Q : Relaxation → Prop} {I : Graph → Prop}

lemma mem_relaxations_head {src : RouteSourceState} {e : Edge} {es : List Edge}
    {st : Graph × List String} (hof : Relaxation.Of g₀ ⟨st.1, src, e⟩) :
    (⟨st.1, src, e⟩ : Relaxation) ∈ relaxations addWeight src st (e :: es) := by
  rw [relaxations, if_neg]
  · exact List.mem_cons_self
  · rintro (hme | hrev)
    · exact hof.ne_myself (hme.trans hof.inv.myself_eq)
    · rw [hof.inv.hasReverseEdge_eq, hof.reverse] at hrev
      cases hrev

lemma mem_relaxations_tail {src : RouteSourceState} {e : Edge} {es : List Edge}
    {st : Graph × List String} {r : Relaxation}
    (hr : r ∈ relaxations addWeight src (relaxEdge addWeight src st e) es) :
    r ∈ relaxations addWeight src st (e :: es) := by
  rw [relaxations]
  split_ifs
  · exact hr
  · exact List.mem_cons_of_mem _ hr

/-- What single relaxations keep holds during a visit. -/
lemma relaxations_keeps (hg : g₀.WellFormed) (hkeep : Keeps addWeight g₀ Q I)
    {src : RouteSourceState} (es : List Edge)
    (hes : ∀ e ∈ es, e.fromNode = name ∧ g₀.edges.get? e.key = some e)
    {st : Graph × List String} (hsrc : IsSource g₀ name src st.1) (hI : I st.1)
    (hQ : ∀ r ∈ relaxations addWeight src st es, Q r) :
    (∀ r ∈ relaxations addWeight src st es, r.Of g₀ ∧ I r.graph) ∧
      I (es.foldl (relaxEdge addWeight src) st).1 := by
  induction es generalizing st with
  | nil => exact ⟨by simp [relaxations], hI⟩
  | cons e es ih =>
      obtain ⟨g, pushed⟩ := st
      obtain ⟨hfrom, he⟩ := hes e (by simp)
      have hes' := fun e' (he' : e' ∈ es) => hes e' (by simp [he'])
      -- what the step itself does, recorded or not
      have hstep : (e.toNode = g.myself ∨ g.hasReverseEdge e = false ∨ Q ⟨g, src, e⟩) →
          IsSource g₀ name src (relaxEdge addWeight src (g, pushed) e).1 ∧
            I (relaxEdge addWeight src (g, pushed) e).1 := by
        intro hwhy
        rcases hsrc.relaxEdge_cases hg pushed hfrom he with
          ⟨hrel, -⟩ | ⟨n, hof, hn, himp, hrel, hnext⟩
        · rw [hrel]
          exact ⟨hsrc, hI⟩
        · rw [hrel]
          refine ⟨hnext, hkeep _ hof ?_ hI n hn himp⟩
          rcases hwhy with hme | hrev | hQ
          · exact absurd (hme.trans hof.inv.myself_eq) hof.ne_myself
          · rw [hof.inv.hasReverseEdge_eq, hof.reverse] at hrev
            cases hrev
          · exact hQ
      rw [relaxations] at hQ ⊢
      dsimp only at hQ ⊢
      by_cases hskip : e.toNode = g.myself ∨ g.hasReverseEdge e = false
      · rw [if_pos hskip] at hQ ⊢
        obtain ⟨hsrc', hI'⟩ := hstep (hskip.imp_right Or.inl)
        exact ih hes' hsrc' hI' hQ
      · rw [if_neg hskip] at hQ ⊢
        rw [List.forall_mem_cons] at hQ ⊢
        obtain ⟨hsrc', hI'⟩ := hstep (Or.inr (Or.inr hQ.1))
        obtain ⟨hrest, hend⟩ := ih hes' hsrc' hI' hQ.2
        obtain ⟨hne, hrev⟩ := not_or.mp hskip
        exact ⟨⟨⟨hsrc.of hfrom he hne (by simpa using hrev), hI⟩, hrest⟩, hend⟩

/-- The edges that are followed out of a node are the stored ones that leave it. -/
lemma SsspInv.stored_of_mem_outgoingEdges (h : SsspInv g₀ g) (hg : g₀.WellFormed) :
    ∀ e ∈ g.outgoingEdges name, e.fromNode = name ∧ g₀.edges.get? e.key = some e :=
  fun _ he => h.edges_eq ▸ (mem_outgoingEdges (h.wellFormed hg)).mp he

lemma SsspInv.isSource (h : SsspInv g₀ g) (hvis : g.Visited name) :
    ∃ src, IsSource g₀ name src g := by
  obtain ⟨-, src, -, hsrc, -⟩ := h.source hvis
  exact ⟨src, h, hvis, hsrc⟩

lemma ssspVisit_keeps (hg : g₀.WellFormed) (hkeep : Keeps addWeight g₀ Q I) (h : SsspInv g₀ g)
    (hvis : g.Visited name) (hI : I g) (hQ : ∀ r ∈ g.visitTrace addWeight name, Q r) :
    (∀ r ∈ g.visitTrace addWeight name, r.Of g₀ ∧ I r.graph) ∧
      I (g.ssspVisit addWeight name).1 := by
  obtain ⟨src, hsrc⟩ := h.isSource hvis
  rw [visitTrace, hsrc.source_eq] at hQ ⊢
  rw [ssspVisit, hsrc.source_eq]
  exact relaxations_keeps hg hkeep _ (h.stored_of_mem_outgoingEdges hg) hsrc hI hQ

/-- What the loop keeps: the invariant of the search, and that the queued nodes are visited. -/
def Searching (g₀ g : Graph) (queue : List String) : Prop :=
  SsspInv g₀ g ∧ ∀ b ∈ queue, g.Visited b

lemma Searching.step (hg : g₀.WellFormed) {queue : List String}
    (h : Searching g₀ g (name :: queue)) :
    Searching g₀ (g.ssspVisit addWeight name).1 (queue ++ (g.ssspVisit addWeight name).2) := by
  obtain ⟨hext, -⟩ := extends_ssspVisit addWeight hg h.1 (h.2 name (by simp))
  refine ⟨hext.inv, fun b hb => ?_⟩
  rcases List.mem_append.mp hb with hb | hb
  · exact hext.mono b (h.2 b (by simp [hb]))
  · exact (hext.queued b hb).resolve_left List.not_mem_nil

lemma searching_start (hg : g.WellFormed) : Searching g g.ssspReset.ssspStart [g.myself] := by
  obtain ⟨hinv, hvis⟩ := ssspStart_spec hg
  exact ⟨hinv, fun b hb => (hvis b).mpr (List.mem_singleton.mp hb)⟩

lemma ssspTrace_eq (hg : g.WellFormed) (fuel : ℕ) :
    g.ssspTrace addWeight fuel =
      Worklist.trace (ssspVisit addWeight) (visitTrace addWeight) fuel g.ssspReset.ssspStart
        [g.myself] := by
  obtain ⟨n, hn⟩ := OrdMap.mem_keys.mp hg.myself_mem
  rw [ssspTrace, node_ssspReset, node, hn]
  rfl

/-- **The rule for the result**: what every step keeps holds of the result of a search. -/
theorem ssspBfs_keeps (hg : g.WellFormed) (hkeep : Keeps addWeight g Q I)
    (hI : I g.ssspReset.ssspStart) {fuel : ℕ} (hQ : ∀ r ∈ g.ssspTrace addWeight fuel, Q r)
    {g' : Graph} (hrun : g.ssspBfs addWeight fuel = some g') : I g' := by
  rw [ssspTrace_eq hg] at hQ
  rw [ssspBfs_eq_run hg] at hrun
  refine (Worklist.run_inv_of_trace (P := fun s queue => Searching g s queue ∧ I s)
    (fun s a queue h hQ => ?_) hQ hrun ⟨searching_start hg, hI⟩).2
  exact ⟨h.1.step hg, (ssspVisit_keeps hg hkeep h.1.1 (h.1.2 a (by simp)) h.2 hQ).2⟩

/-- **The rule for the steps**: what every step keeps holds before each of them. -/
theorem ssspTrace_keeps (hg : g.WellFormed) (hkeep : Keeps addWeight g Q I)
    (hI : I g.ssspReset.ssspStart) {fuel : ℕ} (hQ : ∀ r ∈ g.ssspTrace addWeight fuel, Q r) :
    ∀ r ∈ g.ssspTrace addWeight fuel, r.Of g ∧ I r.graph := by
  rw [ssspTrace_eq hg] at hQ ⊢
  refine Worklist.trace_inv (P := fun s queue => Searching g s queue ∧ I s)
    (fun s a queue h hQ => ?_) hQ ⟨searching_start hg, hI⟩
  obtain ⟨htrace, hI'⟩ := ssspVisit_keeps hg hkeep h.1.1 (h.1.2 a (by simp)) h.2 hQ
  exact ⟨htrace, h.1.step hg, hI'⟩

/-- A relation between the stages of a visit that every step with a new route respects. -/
structure Respects (addWeight : ℤ → ℤ → ℤ) (g₀ : Graph) (Q : Relaxation → Prop)
    (I : Graph → Prop) (src : RouteSourceState)
    (Rel : Graph × List String → Graph × List String → Prop) : Prop where
  refl : ∀ st, Rel st st
  trans : ∀ st r r', Rel st r → Rel r r' → Rel st r'
  step : ∀ r : Relaxation, r.Of g₀ → r.source = src → Q r → I r.graph → ∀ n,
    r.graph.node r.edge.toNode = some n → r.improves addWeight n = true →
    ∀ pushed, Rel (r.graph, pushed) (r.next addWeight, pushed ++ [r.edge.toNode])

/-- What single relaxations do, a visit does. -/
lemma relaxations_rel (hg : g₀.WellFormed) (hkeep : Keeps addWeight g₀ Q I)
    {src : RouteSourceState} {Rel : Graph × List String → Graph × List String → Prop}
    (hrel : Respects addWeight g₀ Q I src Rel) (es : List Edge)
    (hes : ∀ e ∈ es, e.fromNode = name ∧ g₀.edges.get? e.key = some e)
    {st : Graph × List String} (hsrc : IsSource g₀ name src st.1) (hI : I st.1)
    (hQ : ∀ r ∈ relaxations addWeight src st es, Q r) :
    Rel st (es.foldl (relaxEdge addWeight src) st) := by
  induction es generalizing st with
  | nil => exact hrel.refl st
  | cons e es ih =>
      obtain ⟨g, pushed⟩ := st
      obtain ⟨hfrom, he⟩ := hes e (by simp)
      have hes' := fun e' (he' : e' ∈ es) => hes e' (by simp [he'])
      have hrest : ∀ r ∈ relaxations addWeight src (relaxEdge addWeight src (g, pushed) e) es,
          Q r := fun r hr => hQ r (mem_relaxations_tail hr)
      rcases hsrc.relaxEdge_cases hg pushed hfrom he with
        ⟨hst, -⟩ | ⟨n, hof, hn, himp, hst, hnext⟩
      · rw [hst] at hrest
        rw [List.foldl_cons, hst]
        exact ih hes' hsrc hI hrest
      · rw [hst] at hrest
        rw [List.foldl_cons, hst]
        have hmem : (⟨g, src, e⟩ : Relaxation) ∈ relaxations addWeight src (g, pushed) (e :: es) :=
          mem_relaxations_head hof
        have hone := hrel.step _ hof rfl (hQ _ hmem) hI n hn himp pushed
        exact hrel.trans _ _ _ hone
          (ih hes' hnext (hkeep _ hof (hQ _ hmem) hI n hn himp) hrest)

/-- What a visit of a node does, as far as the relation tells. -/
lemma ssspVisit_rel (hg : g₀.WellFormed) (hkeep : Keeps addWeight g₀ Q I)
    {src : RouteSourceState} {Rel : Graph × List String → Graph × List String → Prop}
    (hrel : Respects addWeight g₀ Q I src Rel) (hsrc : IsSource g₀ name src g) (hI : I g)
    (hQ : ∀ r ∈ g.visitTrace addWeight name, Q r) :
    Rel (g, []) (g.ssspVisit addWeight name) := by
  rw [visitTrace, hsrc.source_eq] at hQ
  rw [ssspVisit, hsrc.source_eq]
  exact relaxations_rel hg hkeep hrel _ (hsrc.inv.stored_of_mem_outgoingEdges hg) hsrc hI hQ

/-- The steps of a visit leave its node, along the edges that are followed. -/
lemma mem_relaxations {src : RouteSourceState} {es : List Edge} {st : Graph × List String}
    {r : Relaxation} (hr : r ∈ relaxations addWeight src st es) : r.source = src ∧ r.edge ∈ es := by
  induction es generalizing st with
  | nil => exact absurd hr List.not_mem_nil
  | cons e es ih =>
      have htail : r ∈ relaxations addWeight src (relaxEdge addWeight src st e) es →
          r.source = src ∧ r.edge ∈ e :: es := fun hr => (ih hr).imp_right (List.mem_cons_of_mem _)
      rw [relaxations] at hr
      split_ifs at hr with hskip
      · exact htail hr
      · rcases List.mem_cons.mp hr with rfl | hr
        · exact ⟨rfl, List.mem_cons_self⟩
        · exact htail hr

/-- What is known of the steps of a visit. -/
lemma mem_visitTrace (hg : g₀.WellFormed) (h : SsspInv g₀ g) (hvis : g.Visited name)
    {r : Relaxation} (hr : r ∈ g.visitTrace addWeight name) :
    r.Of g₀ ∧ r.edge.fromNode = name ∧ g.routeSourceState name = some r.source := by
  obtain ⟨src, hsrc⟩ := h.isSource hvis
  have hkeep : Keeps addWeight g₀ (fun _ => True) fun _ => True := fun _ _ _ _ _ _ _ => trivial
  have hof := ((ssspVisit_keeps hg hkeep h hvis trivial fun _ _ => trivial).1 r hr).1
  rw [visitTrace, hsrc.source_eq] at hr
  obtain ⟨hsource, hedge⟩ := mem_relaxations hr
  exact ⟨hof, (h.stored_of_mem_outgoingEdges hg r.edge hedge).1, hsource ▸ hsrc.source_eq⟩

/-- Every edge whose reverse is stored too is followed, unless it leads to the owner. -/
lemma exists_mem_relaxations (hg : g₀.WellFormed) {src : RouteSourceState} (es : List Edge)
    (hes : ∀ e ∈ es, e.fromNode = name ∧ g₀.edges.get? e.key = some e)
    {st : Graph × List String} (hsrc : IsSource g₀ name src st.1) {e : Edge} (he : e ∈ es)
    (hrev : g₀.hasReverseEdge e = true) (hne : e.toNode ≠ g₀.myself) :
    ∃ r ∈ relaxations addWeight src st es, r.edge = e := by
  induction es generalizing st with
  | nil => exact absurd he List.not_mem_nil
  | cons e' es ih =>
      obtain ⟨g, pushed⟩ := st
      obtain ⟨hfrom, he'⟩ := hes e' (by simp)
      rcases List.mem_cons.mp he with rfl | he
      · exact ⟨_, mem_relaxations_head (hsrc.of hfrom he' (hsrc.inv.myself_eq ▸ hne)
          ((hsrc.inv.hasReverseEdge_eq e).trans hrev)), rfl⟩
      · have hsrc' : IsSource g₀ name src (relaxEdge addWeight src (g, pushed) e').1 := by
          rcases hsrc.relaxEdge_cases hg pushed hfrom he' with ⟨hst, -⟩ | ⟨-, -, -, -, hst, hnext⟩
          · rw [hst]
            exact hsrc
          · rw [hst]
            exact hnext
        obtain ⟨r, hr, hedge⟩ := ih (fun e' he' => hes e' (by simp [he'])) hsrc' he
        exact ⟨r, mem_relaxations_tail hr, hedge⟩

lemma exists_mem_visitTrace (hg : g₀.WellFormed) (h : SsspInv g₀ g) {e : Edge}
    (hvis : g.Visited e.fromNode) (he : g₀.edges.get? e.key = some e)
    (hrev : g₀.hasReverseEdge e = true) (hne : e.toNode ≠ g₀.myself) :
    ∃ r ∈ g.visitTrace addWeight e.fromNode, r.edge = e := by
  obtain ⟨src, hsrc⟩ := h.isSource hvis
  rw [visitTrace, hsrc.source_eq]
  refine exists_mem_relaxations hg _ (h.stored_of_mem_outgoingEdges hg) hsrc ?_ hrev hne
  exact (mem_outgoingEdges (h.wellFormed hg)).mpr ⟨rfl, h.edges_eq ▸ he⟩

section Congr

variable {addWeight' : ℤ → ℤ → ℤ}

lemma relaxEdge_congr {src : RouteSourceState} {e : Edge}
    (h : addWeight src.weightedDistance e.weight = addWeight' src.weightedDistance e.weight)
    (st : Graph × List String) : relaxEdge addWeight' src st e = relaxEdge addWeight src st e := by
  have hreroute : Node.reroute addWeight' st.1.myself src e =
      Node.reroute addWeight st.1.myself src e := funext fun n => by simp only [Node.reroute, h]
  rw [relaxEdge, relaxEdge, h, hreroute]

/-- Two additions of weights that agree on the sums of a visit lead to the same steps. -/
lemma relaxations_congr {src : RouteSourceState} {es : List Edge} {st : Graph × List String}
    (h : ∀ r ∈ relaxations addWeight src st es,
      r.newWeightedDistance addWeight = r.newWeightedDistance addWeight') :
    relaxations addWeight' src st es = relaxations addWeight src st es ∧
      es.foldl (relaxEdge addWeight' src) st = es.foldl (relaxEdge addWeight src) st := by
  induction es generalizing st with
  | nil => exact ⟨rfl, rfl⟩
  | cons e es ih =>
      rw [relaxations] at h
      by_cases hskip : e.toNode = st.1.myself ∨ st.1.hasReverseEdge e = false
      · -- an edge that is skipped is no step
        have hsame : ∀ add : ℤ → ℤ → ℤ, relaxEdge add src st e = st := fun _ => if_pos hskip
        rw [if_pos hskip, hsame] at h
        rw [relaxations, relaxations, List.foldl_cons, List.foldl_cons]
        simp only [if_pos hskip, hsame]
        exact ih h
      · rw [if_neg hskip, List.forall_mem_cons] at h
        have hone := relaxEdge_congr h.1 st
        rw [relaxations, relaxations, List.foldl_cons, List.foldl_cons]
        simp only [if_neg hskip, hone, (ih h.2).1, (ih h.2).2, and_self]

lemma ssspVisit_congr (h : ∀ r ∈ g.visitTrace addWeight name,
      r.newWeightedDistance addWeight = r.newWeightedDistance addWeight') :
    g.visitTrace addWeight' name = g.visitTrace addWeight name ∧
      g.ssspVisit addWeight' name = g.ssspVisit addWeight name := by
  rw [visitTrace] at h
  rw [visitTrace, visitTrace, ssspVisit, ssspVisit]
  cases hsrc : g.routeSourceState name with
  | none => exact ⟨rfl, rfl⟩
  | some src =>
      rw [hsrc] at h
      exact relaxations_congr h

end Congr

/-- **The rule for termination**: the loop ends when every visit lowers a measure of the graph
and the queue. -/
theorem ssspBfs_returns_of_measure {γ : Type*} [Preorder γ] [WellFoundedLT γ] (hg : g.WellFormed)
    (hkeep : Keeps addWeight g Q I) (hI : I g.ssspReset.ssspStart)
    (hQ : ∀ fuel, ∀ r ∈ g.ssspTrace addWeight fuel, Q r) (measure : Graph → List String → γ)
    (hlt : ∀ g' name queue src, IsSource g name src g' → I g' →
      (∀ r ∈ g'.visitTrace addWeight name, Q r) →
      measure (g'.ssspVisit addWeight name).1 (queue ++ (g'.ssspVisit addWeight name).2) <
        measure g' (name :: queue)) :
    ∃ fuel g', g.ssspBfs addWeight fuel = some g' := by
  simp only [ssspTrace_eq hg] at hQ
  simp only [ssspBfs_eq_run hg]
  refine Worklist.run_returns_of_trace (P := fun s queue => Searching g s queue ∧ I s) measure
    (fun s a queue h hQ => ?_) hQ ⟨searching_start hg, hI⟩
  have hvis := h.1.2 a (by simp)
  obtain ⟨src, hsrc⟩ := h.1.1.isSource hvis
  exact ⟨⟨h.1.step hg, (ssspVisit_keeps hg hkeep h.1.1 hvis h.2 hQ).2⟩,
    hlt s a queue src hsrc h.2 hQ⟩

/-- The one visited node of the graph at the start of a search. -/
lemma node_ssspStart (hg : g.WellFormed) {k : String} {n : Node}
    (hn : g.ssspReset.ssspStart.node k = some n) (hv : n.status.visited = true) :
    k = g.myself ∧ n.status.indirect = false ∧
      n.route = ⟨some 0, some 0, some g.myself, none, some g.myself⟩ := by
  obtain ⟨hinv, hvis⟩ := ssspStart_spec hg
  have hk : k = g.myself := (hvis k).mp ⟨n, hn, hv⟩
  obtain ⟨n', hn', -, hdir, hroute⟩ := hinv.own
  rw [← hk, hn, Option.some_inj] at hn'
  exact ⟨hk, hn' ▸ hdir, hn' ▸ hroute⟩

/-- A step that does not demote leaves the node at its end direct when it was. -/
lemma Relaxation.indirect_of_not_demotes {r : Relaxation} (hr : r.demotes addWeight = false)
    {n : Node} (hn : r.graph.node r.edge.toNode = some n) (hv : n.status.visited = true)
    (hdir : n.status.indirect = false) (himp : r.improves addWeight n = true) :
    r.indirect = false := by
  simpa [Relaxation.demotes, hn, hv, hdir, himp] using hr

end Rules

/-! ### Small networks -/

/-- Nodes that hold these edges; the first of them owns the graph. -/
def ofEdges (names : List String) (edges : List (String × String × ℤ × UInt32)) : Graph where
  myself := names.headD ""
  nodes := names.foldl (fun nodes name => nodes.insert name { name := name }) OrdMap.empty
  edges := edges.foldl (fun edges e => edges.insert ⟨e.1, e.2.1⟩
    { fromNode := e.1, toNode := e.2.1, weight := e.2.2.1, options := e.2.2.2 }) OrdMap.empty
  mstEdges := OrdMap.empty

end Graph

end RustyTinc

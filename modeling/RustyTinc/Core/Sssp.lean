import RustyTinc.Core.Graph
import RustyTinc.Library.Worklist

/-!
The route search of a node: a worklist over the nodes, started at the owner of the graph, that
follows linked edges, prefers direct paths to indirect ones, then fewer hops, then less weight.

* `ssspBfs`: the search; it revisits nodes and may in principle not return, so it takes fuel;
* `SsspInv`: what every stage of the search keeps: nothing but the route fields changes, the
  owner keeps its own route, and every visited node has a complete route whose next hop is
  linked to the owner;
* `ssspBfs_spec`: a search that returns has visited exactly the nodes joined to the owner.
-/

namespace RustyTinc

/-- Addition of two `i32` values, which wraps. The search takes the addition of weights as a
parameter, so that it can also be read with exact sums. -/
def addI32 (a b : ℤ) : ℤ := (a + b).bmod (2 ^ 32)

/-- The part of a node's state that its outgoing edges extend. -/
structure RouteSourceState where
  indirect : Bool
  distance : ℤ
  weightedDistance : ℤ
  nextHop : String
  via : String
deriving DecidableEq

/-- Whether the route that a node already has is kept against a newly found one. -/
def shouldKeepExistingRoute (toNode : Node) (indirect : Bool)
    (newDistance newWeightedDistance : ℤ) : Bool :=
  toNode.status.visited && (!toNode.status.indirect || indirect) &&
    (toNode.route.distance != some newDistance ||
      toNode.route.weightedDistance.any fun current => current ≤ newWeightedDistance)

variable (addWeight : ℤ → ℤ → ℤ)

namespace Node

/-- Whether a newly found route also replaces the next hop and the weight of the old one. -/
def updateNextHop (n : Node) (newDistance newWeightedDistance : ℤ) : Bool :=
  !n.status.visited || (n.route.distance == some newDistance &&
    n.route.weightedDistance.any fun current => current > newWeightedDistance)

/-- The node at the end of `e` with the route through the source of `e`. -/
def reroute (myself : String) (src : RouteSourceState) (e : Edge) (n : Node) : Node :=
  let newDistance := src.distance + 1
  let newWeightedDistance := addWeight src.weightedDistance e.weight
  let indirect := src.indirect || e.isIndirect
  let update := n.updateNextHop newDistance newWeightedDistance
  { n with
    status := { n.status with visited := true, indirect := indirect }
    route :=
      { nextHop :=
          if update then some (if src.nextHop = myself then e.toNode else src.nextHop)
          else n.route.nextHop
        weightedDistance := if update then some newWeightedDistance else n.route.weightedDistance
        previousEdge := some e.key
        via := if indirect then some src.via else some e.toNode
        distance := some newDistance }
    options := e.options }

/-- A node without what the route search writes. -/
def sansRoute (n : Node) : Node :=
  { n with
    status := { n.status with visited := false, indirect := false }
    route := {}
    options := 0 }

@[simp] lemma sansRoute_reroute (myself : String) (src : RouteSourceState) (e : Edge) (n : Node) :
    (n.reroute addWeight myself src e).sansRoute = n.sansRoute := rfl

@[simp] lemma reroute_visited (myself : String) (src : RouteSourceState) (e : Edge) (n : Node) :
    (n.reroute addWeight myself src e).status.visited = true := rfl

@[simp] lemma reroute_indirect (myself : String) (src : RouteSourceState) (e : Edge) (n : Node) :
    (n.reroute addWeight myself src e).status.indirect = (src.indirect || e.isIndirect) := rfl

@[simp] lemma reroute_distance (myself : String) (src : RouteSourceState) (e : Edge) (n : Node) :
    (n.reroute addWeight myself src e).route.distance = some (src.distance + 1) := rfl

lemma name_of_sansRoute {n n' : Node} (h : n.sansRoute = n'.sansRoute) : n.name = n'.name :=
  (congrArg Node.name h : n.sansRoute.name = n'.sansRoute.name)

lemma reachable_of_sansRoute {n n' : Node} (h : n.sansRoute = n'.sansRoute) :
    n.status.reachable = n'.status.reachable :=
  (congrArg (fun n => n.status.reachable) h :
    n.sansRoute.status.reachable = n'.sansRoute.status.reachable)

end Node

namespace Graph

/-! ### The search -/

/-- What a relaxation needs of a node that has been visited. -/
def routeSourceState (g : Graph) (name : String) : Option RouteSourceState := do
  let node ← g.node name
  let distance ← node.route.distance
  let weightedDistance ← node.route.weightedDistance
  let nextHop ← node.route.nextHop
  let via ← node.route.via
  return { indirect := node.status.indirect, distance, weightedDistance, nextHop, via }

/-- Follow one edge from a node whose state was `src` when it left the queue. The second
component lists the nodes to be queued. -/
def relaxEdge (src : RouteSourceState) (st : Graph × List String) (e : Edge) :
    Graph × List String :=
  if e.toNode = st.1.myself ∨ st.1.hasReverseEdge e = false then st
  else match st.1.node e.toNode with
    | none => st
    | some toNode =>
        if shouldKeepExistingRoute toNode (src.indirect || e.isIndirect) (src.distance + 1)
            (addWeight src.weightedDistance e.weight) then st
        else
          (st.1.modifyNode e.toNode (Node.reroute addWeight st.1.myself src e),
            st.2 ++ [e.toNode])

/-- Take one node from the queue: follow its outgoing edges in order. -/
def ssspVisit (g : Graph) (name : String) : Graph × List String :=
  match g.routeSourceState name with
  | none => (g, [])
  | some src => (g.outgoingEdges name).foldl (relaxEdge addWeight src) (g, [])

/-- No node has been visited, and no route is known. -/
def ssspReset (g : Graph) : Graph :=
  { g with nodes := g.nodes.mapValues fun _ n =>
      { n with status := { n.status with visited := false, indirect := true }, route := {} } }

/-- The search begins at `myself`. -/
def ssspStart (g : Graph) : Graph :=
  g.modifyNode g.myself fun n =>
    { n with
      status := { n.status with visited := true, indirect := false }
      route := { n.route with
        nextHop := some g.myself
        via := some g.myself
        distance := some 0
        weightedDistance := some 0 } }

/-- The search for the best paths from `myself`. -/
def ssspBfs (fuel : ℕ) (g : Graph) : Option Graph :=
  match g.ssspReset.node g.myself with
  | none => some g.ssspReset
  | some _ => Worklist.run (ssspVisit addWeight) fuel g.ssspReset.ssspStart [g.myself]

variable {addWeight}

/-- The result of the search does not depend on the fuel. -/
lemma ssspBfs_unique {fuel fuel' : ℕ} {g g₁ g₂ : Graph} (h₁ : g.ssspBfs addWeight fuel = some g₁)
    (h₂ : g.ssspBfs addWeight fuel' = some g₂) : g₁ = g₂ := by
  rw [ssspBfs] at h₁ h₂
  cases hnode : g.ssspReset.node g.myself with
  | none =>
      rw [hnode, Option.some_inj] at h₁ h₂
      rw [← h₁, ← h₂]
  | some n =>
      rw [hnode] at h₁ h₂
      exact Worklist.run_unique h₁ h₂

/-! ### What one edge does -/

/-- A known node has been given a route. -/
def Visited (g : Graph) (name : String) : Prop :=
  ∃ n, g.node name = some n ∧ n.status.visited = true

lemma node_modifyNode (g : Graph) (name k : String) (f : Node → Node) :
    (g.modifyNode name f).node k = if k = name then (g.node k).map f else g.node k :=
  OrdMap.get?_modify _ _ _ _

@[simp] lemma modifyNode_myself (g : Graph) (name : String) (f : Node → Node) :
    (g.modifyNode name f).myself = g.myself := rfl

@[simp] lemma modifyNode_edges (g : Graph) (name : String) (f : Node → Node) :
    (g.modifyNode name f).edges = g.edges := rfl

@[simp] lemma modifyNode_mstEdges (g : Graph) (name : String) (f : Node → Node) :
    (g.modifyNode name f).mstEdges = g.mstEdges := rfl

/-- Following an edge changes nothing, for one of the reasons listed, or gives the node at its
end a new route and queues it. -/
lemma relaxEdge_cases (src : RouteSourceState) (g : Graph) (pushed : List String) (e : Edge) :
    relaxEdge addWeight src (g, pushed) e = (g, pushed) ∧
        (e.toNode = g.myself ∨ g.hasReverseEdge e = false ∨ g.node e.toNode = none ∨
          ∃ n, g.node e.toNode = some n ∧ shouldKeepExistingRoute n
            (src.indirect || e.isIndirect) (src.distance + 1)
            (addWeight src.weightedDistance e.weight) = true) ∨
      ∃ n, g.node e.toNode = some n ∧ e.toNode ≠ g.myself ∧ g.hasReverseEdge e = true ∧
        shouldKeepExistingRoute n (src.indirect || e.isIndirect) (src.distance + 1)
          (addWeight src.weightedDistance e.weight) = false ∧
        relaxEdge addWeight src (g, pushed) e =
          (g.modifyNode e.toNode (Node.reroute addWeight g.myself src e), pushed ++ [e.toNode]) := by
  simp only [relaxEdge]
  by_cases hskip : e.toNode = g.myself ∨ g.hasReverseEdge e = false
  · left
    rw [if_pos hskip]
    exact ⟨rfl, hskip.elim Or.inl fun h => Or.inr (Or.inl h)⟩
  · rw [if_neg hskip]
    obtain ⟨hme, hrev⟩ := not_or.mp hskip
    cases hnode : g.node e.toNode with
    | none => exact Or.inl ⟨rfl, by simp⟩
    | some n =>
        cases hkeep : shouldKeepExistingRoute n (src.indirect || e.isIndirect) (src.distance + 1)
            (addWeight src.weightedDistance e.weight) with
        | true => exact Or.inl ⟨by simp [hkeep], Or.inr (Or.inr (Or.inr ⟨n, rfl, hkeep⟩))⟩
        | false => exact Or.inr ⟨n, rfl, hme, by simpa using hrev, hkeep, by simp [hkeep]⟩

/-! ### The invariant of the search -/

/-- A complete route whose next hop is another node linked to the owner. -/
def Routed (g : Graph) (r : RouteState) : Prop :=
  ∃ d w h v p, r = ⟨some d, some w, some h, p, some v⟩ ∧ h ≠ g.myself ∧ g.Linked g.myself h

/-- What every stage `g` of a search of `g₀` keeps. -/
structure SsspInv (g₀ g : Graph) : Prop where
  myself_eq : g.myself = g₀.myself
  edges_eq : g.edges = g₀.edges
  mstEdges_eq : g.mstEdges = g₀.mstEdges
  node_eq : ∀ k, (g.node k).map Node.sansRoute = (g₀.node k).map Node.sansRoute
  own : ∃ n, g.node g₀.myself = some n ∧ n.status.visited = true ∧ n.status.indirect = false ∧
    n.route = ⟨some 0, some 0, some g₀.myself, none, some g₀.myself⟩
  routed : ∀ k n, g.node k = some n → n.status.visited = true → k ≠ g₀.myself →
    g₀.Routed n.route
  unrouted : ∀ k n, g.node k = some n → n.status.visited = false → n.route = {}

section Invariant

variable {g₀ g : Graph}

lemma SsspInv.node_isSome (h : SsspInv g₀ g) (k : String) :
    (g.node k).isSome = (g₀.node k).isSome := by
  simpa using congrArg Option.isSome (h.node_eq k)

lemma SsspInv.mem_keys (h : SsspInv g₀ g) {k : String} :
    k ∈ g.nodes.keys ↔ k ∈ g₀.nodes.keys := by
  rw [OrdMap.mem_keys, OrdMap.mem_keys, ← Option.isSome_iff_exists, ← Option.isSome_iff_exists]
  exact iff_of_eq (congrArg (· = true) (h.node_isSome k))

lemma SsspInv.hasReverseEdge_eq (h : SsspInv g₀ g) (e : Edge) :
    g.hasReverseEdge e = g₀.hasReverseEdge e := by
  rw [hasReverseEdge, hasReverseEdge, h.edges_eq]

lemma SsspInv.wellFormed (h : SsspInv g₀ g) (hg : g₀.WellFormed) : g.WellFormed := by
  refine hg.of_nodes h.myself_eq h.edges_eq (fun k => h.mem_keys.mpr) fun k n hn => ?_
  have hmap := h.node_eq k
  rw [node, hn, Option.map_some] at hmap
  obtain ⟨n₀, hn₀, heq⟩ := Option.map_eq_some_iff.mp hmap.symm
  rw [← Node.name_of_sansRoute heq, hg.name_eq k n₀ hn₀]

/-- The state of a visited node as a source: it is the owner and its next hop is the owner, or
it is another node and its next hop is a neighbour of the owner. -/
lemma SsspInv.source (h : SsspInv g₀ g) {name : String} (hvis : g.Visited name) :
    ∃ n src, g.node name = some n ∧ g.routeSourceState name = some src ∧
      src.indirect = n.status.indirect ∧ n.route.distance = some src.distance ∧
      n.route.weightedDistance = some src.weightedDistance ∧
      n.route.nextHop = some src.nextHop ∧ n.route.via = some src.via ∧
      (name = g₀.myself ∧ src.nextHop = g₀.myself ∧ src.distance = 0 ∨
        name ≠ g₀.myself ∧ src.nextHop ≠ g₀.myself ∧ g₀.Linked g₀.myself src.nextHop) := by
  obtain ⟨n, hn, hv⟩ := hvis
  by_cases hname : name = g₀.myself
  · obtain ⟨n', hn', -, -, hroute⟩ := h.own
    rw [← hname, hn, Option.some_inj] at hn'
    subst hn'
    refine ⟨n, ⟨n.status.indirect, 0, 0, g₀.myself, g₀.myself⟩, hn, ?_, rfl, ?_⟩
    · simp [routeSourceState, hn, hroute]
    · simp [hroute, hname]
  · obtain ⟨d, w, nh, v, p, hroute, hne, hlink⟩ := h.routed name n hn hv hname
    refine ⟨n, ⟨n.status.indirect, d, w, nh, v⟩, hn, ?_, rfl, ?_⟩
    · simp [routeSourceState, hn, hroute]
    · simp [hroute, hname, hne, hlink]

/-- The new route of a node whose edge from a visited node is followed. -/
lemma SsspInv.routed_reroute (h : SsspInv g₀ g) {name : String} {src : RouteSourceState}
    (hsrc : name = g₀.myself ∧ src.nextHop = g₀.myself ∨
      src.nextHop ≠ g₀.myself ∧ g₀.Linked g₀.myself src.nextHop)
    {e : Edge} {n : Node} (hn : g.node e.toNode = some n) (hne : e.toNode ≠ g₀.myself)
    (hlink : g₀.Linked name e.toNode) : g₀.Routed (n.reroute addWeight g₀.myself src e).route := by
  obtain ⟨v, hvia⟩ : ∃ v, (n.reroute addWeight g₀.myself src e).route.via = some v := by
    simp only [Node.reroute]
    split_ifs
    · exact ⟨_, rfl⟩
    · exact ⟨_, rfl⟩
  by_cases hup : n.updateNextHop (src.distance + 1) (addWeight src.weightedDistance e.weight) = true
  · have hnext : (n.reroute addWeight g₀.myself src e).route.nextHop =
        some (if src.nextHop = g₀.myself then e.toNode else src.nextHop) := by
      simp [Node.reroute, hup]
    have hw : (n.reroute addWeight g₀.myself src e).route.weightedDistance =
        some (addWeight src.weightedDistance e.weight) := by
      simp [Node.reroute, hup]
    refine ⟨_, _, _, _, _, RouteState.mk.injEq .. |>.mpr ⟨rfl, hw, hnext, rfl, hvia⟩, ?_⟩
    rcases hsrc with ⟨rfl, hsrc⟩ | ⟨hsrc, hsl⟩
    · rw [if_pos hsrc]
      exact ⟨hne, hlink⟩
    · rw [if_neg hsrc]
      exact ⟨hsrc, hsl⟩
  · have hv : n.status.visited = true := by
      by_contra hv
      exact hup (by simp [Node.updateNextHop, hv])
    obtain ⟨d, w, nh, v', p, hroute, hne', hlink'⟩ := h.routed _ n hn hv hne
    have hnext : (n.reroute addWeight g₀.myself src e).route.nextHop = some nh := by
      simp [Node.reroute, hup, hroute]
    have hw : (n.reroute addWeight g₀.myself src e).route.weightedDistance = some w := by
      simp [Node.reroute, hup, hroute]
    exact ⟨_, _, _, _, _, RouteState.mk.injEq .. |>.mpr ⟨rfl, hw, hnext, rfl, hvia⟩, hne', hlink'⟩

/-- Giving a node other than the owner a new route keeps the invariant. -/
lemma SsspInv.modifyNode (h : SsspInv g₀ g) {k : String} {f : Node → Node}
    (hne : k ≠ g₀.myself) (hsame : ∀ n, (f n).sansRoute = n.sansRoute)
    (hvis : ∀ n, (f n).status.visited = true)
    (hrouted : ∀ n, g.node k = some n → g₀.Routed (f n).route) :
    SsspInv g₀ (g.modifyNode k f) where
  myself_eq := h.myself_eq
  edges_eq := h.edges_eq
  mstEdges_eq := h.mstEdges_eq
  node_eq k' := by
    rw [node_modifyNode, ← h.node_eq k']
    split_ifs
    · cases g.node k' <;> simp [hsame]
    · rfl
  own := by
    simpa [node_modifyNode, Ne.symm hne] using h.own
  routed k' n hn hv hne' := by
    rw [node_modifyNode] at hn
    split_ifs at hn with hk
    · obtain ⟨n', hn', rfl⟩ := Option.map_eq_some_iff.mp hn
      exact hrouted n' (hk ▸ hn')
    · exact h.routed k' n hn hv hne'
  unrouted k' n hn hv := by
    rw [node_modifyNode] at hn
    split_ifs at hn
    · obtain ⟨n', -, rfl⟩ := Option.map_eq_some_iff.mp hn
      exact absurd hv (by simp [hvis n'])
    · exact h.unrouted k' n hn hv

lemma visited_modifyNode {k b : String} {f : Node → Node} (hf : ∀ n, (f n).status.visited = true)
    {n : Node} (hn : g.node k = some n) :
    (g.modifyNode k f).Visited b ↔ b = k ∨ g.Visited b := by
  rw [Visited, node_modifyNode]
  by_cases hb : b = k
  · subst hb
    simp [hn, hf]
  · simp [hb, Visited]

/-- The stage reached from `st` by following edges out of `name`. -/
structure Extends (g₀ : Graph) (name : String) (st r : Graph × List String) : Prop where
  inv : SsspInv g₀ r.1
  mono : ∀ k, st.1.Visited k → r.1.Visited k
  fresh : ∀ k, r.1.Visited k → st.1.Visited k ∨ g₀.Linked name k ∧ k ∈ r.2
  queued : ∀ k ∈ r.2, k ∈ st.2 ∨ r.1.Visited k
  kept : ∀ k ∈ st.2, k ∈ r.2

lemma Extends.refl {name : String} {st : Graph × List String} (h : SsspInv g₀ st.1) :
    Extends g₀ name st st := ⟨h, fun _ => id, fun _ => Or.inl, fun _ => Or.inl, fun _ => id⟩

lemma Extends.trans {name : String} {st r r' : Graph × List String} (h : Extends g₀ name st r)
    (h' : Extends g₀ name r r') : Extends g₀ name st r' where
  inv := h'.inv
  mono k hk := h'.mono k (h.mono k hk)
  fresh k hk := (h'.fresh k hk).elim
    (fun hr => (h.fresh k hr).imp_right fun hl => ⟨hl.1, h'.kept k hl.2⟩) Or.inr
  queued k hk := (h'.queued k hk).elim
    (fun hr => (h.queued k hr).imp_right (h'.mono k)) Or.inr
  kept k hk := h'.kept k (h.kept k hk)

variable (addWeight)

/-- Following one stored edge, and the node at its end afterwards. -/
lemma extends_relaxEdge (hg : g₀.WellFormed) {name : String} {src : RouteSourceState}
    (hsrc : name = g₀.myself ∧ src.nextHop = g₀.myself ∨
      src.nextHop ≠ g₀.myself ∧ g₀.Linked g₀.myself src.nextHop)
    {st : Graph × List String} (h : SsspInv g₀ st.1) {e : Edge} (hfrom : e.fromNode = name)
    (he : g₀.edges.get? e.key = some e) :
    Extends g₀ name st (relaxEdge addWeight src st e) ∧
      (g₀.hasReverseEdge e = true → (relaxEdge addWeight src st e).1.Visited e.toNode) := by
  obtain ⟨g, pushed⟩ := st
  rcases relaxEdge_cases src g pushed e with ⟨hrel, hwhy⟩ | ⟨n, hn, hme, hrev, -, hrel⟩
  · rw [hrel]
    refine ⟨Extends.refl h, fun hrev => ?_⟩
    rcases hwhy with hme | hrev' | hnone | ⟨n, hn, hkeep⟩
    · obtain ⟨n, hn, hv, -⟩ := h.own
      exact ⟨n, by rw [hme, h.myself_eq, hn], hv⟩
    · rw [h.hasReverseEdge_eq, hrev] at hrev'
      exact absurd hrev' (by simp)
    · have hmem := h.mem_keys.mpr ((linked_of_hasReverseEdge he hrev).mem_right hg)
      exact absurd hmem (OrdMap.get?_eq_none.mp hnone)
    · refine ⟨n, hn, ?_⟩
      simp only [shouldKeepExistingRoute, Bool.and_eq_true] at hkeep
      exact hkeep.1.1
  · rw [hrel]
    have hlink : g₀.Linked name e.toNode := by
      rw [h.hasReverseEdge_eq] at hrev
      exact hfrom ▸ linked_of_hasReverseEdge he hrev
    have hme' : e.toNode ≠ g₀.myself := h.myself_eq ▸ hme
    have hvis : ∀ k, (g.modifyNode e.toNode (Node.reroute addWeight g.myself src e)).Visited k ↔
        k = e.toNode ∨ g.Visited k := fun k => visited_modifyNode (fun _ => rfl) hn
    refine ⟨⟨?_, ?_, ?_, ?_, ?_⟩, fun _ => (hvis _).mpr (Or.inl rfl)⟩
    · refine h.modifyNode hme' (fun n => rfl) (fun n => rfl) fun n' hn' => ?_
      rw [h.myself_eq]
      exact h.routed_reroute hsrc hn' hme' hlink
    · exact fun k hk => (hvis k).mpr (Or.inr hk)
    · intro k hk
      rcases (hvis k).mp hk with rfl | hk
      · exact Or.inr ⟨hlink, by simp⟩
      · exact Or.inl hk
    · intro k hk
      rcases List.mem_append.mp hk with hk | hk
      · exact Or.inl hk
      · exact Or.inr ((hvis k).mpr (Or.inl (List.mem_singleton.mp hk)))
    · exact fun k hk => List.mem_append_left _ hk

/-- Following a list of edges out of one node visits the ends of those with a reverse. -/
lemma extends_foldl (hg : g₀.WellFormed) {name : String} {src : RouteSourceState}
    (hsrc : name = g₀.myself ∧ src.nextHop = g₀.myself ∨
      src.nextHop ≠ g₀.myself ∧ g₀.Linked g₀.myself src.nextHop) (es : List Edge)
    (hes : ∀ e ∈ es, e.fromNode = name ∧ g₀.edges.get? e.key = some e)
    {st : Graph × List String} (h : SsspInv g₀ st.1) :
    Extends g₀ name st (es.foldl (relaxEdge addWeight src) st) ∧
      ∀ e ∈ es, g₀.hasReverseEdge e = true →
        (es.foldl (relaxEdge addWeight src) st).1.Visited e.toNode := by
  induction es generalizing st with
  | nil => exact ⟨Extends.refl h, by simp⟩
  | cons e es ih =>
      obtain ⟨hfrom, he⟩ := hes e (by simp)
      obtain ⟨hext, hend⟩ := extends_relaxEdge addWeight hg hsrc h hfrom he
      obtain ⟨hext', hends⟩ := ih (fun e' he' => hes e' (by simp [he'])) hext.inv
      refine ⟨hext.trans hext', fun e' he' hrev => ?_⟩
      rcases List.mem_cons.mp he' with rfl | he'
      · exact hext'.mono _ (hend hrev)
      · exact hends e' he' hrev

/-- Taking a visited node from the queue visits the nodes linked to it. -/
lemma extends_ssspVisit (hg : g₀.WellFormed) (h : SsspInv g₀ g) {name : String}
    (hvis : g.Visited name) :
    Extends g₀ name (g, []) (g.ssspVisit addWeight name) ∧
      ∀ b, g₀.Linked name b → (g.ssspVisit addWeight name).1.Visited b := by
  obtain ⟨n, src, -, hsrc, -, -, -, -, -, hown⟩ := h.source hvis
  have hes : ∀ e ∈ g.outgoingEdges name, e.fromNode = name ∧ g₀.edges.get? e.key = some e :=
    fun e he => h.edges_eq ▸ (mem_outgoingEdges (h.wellFormed hg)).mp he
  have h' : SsspInv g₀ (g, ([] : List String)).1 := h
  obtain ⟨hext, hends⟩ := extends_foldl addWeight hg (hown.imp (fun h => ⟨h.1, h.2.1⟩) And.right) _ hes h'
  rw [ssspVisit, hsrc]
  refine ⟨hext, fun b hb => ?_⟩
  obtain ⟨e, he, hfrom, rfl, hrev⟩ := hb.exists_edge hg
  refine hends e ((mem_outgoingEdges (h.wellFormed hg)).mpr ⟨hfrom, ?_⟩) hrev
  rw [h.edges_eq, he]

/-- The route search is a search along the links of the graph. -/
lemma search_ssspVisit (hg : g₀.WellFormed) :
    Worklist.Search (ssspVisit addWeight) (SsspInv g₀) Visited g₀.Linked where
  inv _ _ h hv := (extends_ssspVisit addWeight hg h hv).1.inv
  mono _ _ b h hv hb := (extends_ssspVisit addWeight hg h hv).1.mono b hb
  settled _ _ b h hv hb := (extends_ssspVisit addWeight hg h hv).2 b hb
  fresh _ _ b h hv hb := (extends_ssspVisit addWeight hg h hv).1.fresh b hb
  queued _ _ b h hv hb := ((extends_ssspVisit addWeight hg h hv).1.queued b hb).resolve_left (by simp)

end Invariant

/-! ### The search as a whole -/

lemma node_ssspReset (g : Graph) (k : String) :
    g.ssspReset.node k = (g.node k).map fun n =>
      { n with status := { n.status with visited := false, indirect := true }, route := {} } :=
  OrdMap.get?_mapValues _ _ _

/-- At the start only the owner is visited. -/
lemma ssspStart_spec {g : Graph} (hg : g.WellFormed) :
    SsspInv g g.ssspReset.ssspStart ∧
      ∀ b, g.ssspReset.ssspStart.Visited b ↔ b = g.myself := by
  obtain ⟨n, hn⟩ := OrdMap.mem_keys.mp hg.myself_mem
  have hnode : ∀ k, g.ssspReset.ssspStart.node k = if k = g.myself then _ else _ :=
    fun k => node_modifyNode _ _ _ _
  have hvis : ∀ b, g.ssspReset.ssspStart.Visited b ↔ b = g.myself := by
    intro b
    rw [Visited, hnode b, node_ssspReset]
    by_cases hb : b = g.myself
    · simp [hb, node, hn]
    · simp [hb]
  refine ⟨⟨rfl, rfl, rfl, fun k => ?_, ?_, fun k n' hn' hv hne => ?_, fun k n' hn' hv => ?_⟩, hvis⟩
  · rw [hnode k, node_ssspReset]
    split_ifs
    · cases g.node k <;> rfl
    · cases g.node k <;> rfl
  · rw [hnode, node_ssspReset, if_pos rfl, node, hn]
    exact ⟨_, rfl, rfl, rfl, rfl⟩
  · exact absurd ((hvis k).mp ⟨n', hn', hv⟩) hne
  · rw [hnode k, node_ssspReset] at hn'
    split_ifs at hn'
    · obtain ⟨n'', -, rfl⟩ := Option.map_eq_some_iff.mp hn'
      simp at hv
    · obtain ⟨n'', -, rfl⟩ := Option.map_eq_some_iff.mp hn'
      rfl

/-- The search of a well-formed graph is a run of the worklist. -/
lemma ssspBfs_eq_run {g : Graph} (hg : g.WellFormed) (fuel : ℕ) :
    g.ssspBfs addWeight fuel =
      Worklist.run (ssspVisit addWeight) fuel g.ssspReset.ssspStart [g.myself] := by
  obtain ⟨n, hn⟩ := OrdMap.mem_keys.mp hg.myself_mem
  rw [ssspBfs, node_ssspReset, node, hn]
  rfl

/-- **The route search**: a search that returns changes nothing but routes and has visited
exactly the nodes joined to the owner. -/
theorem ssspBfs_spec {g g' : Graph} (hg : g.WellFormed) {fuel : ℕ}
    (hrun : g.ssspBfs addWeight fuel = some g') :
    SsspInv g g' ∧ ∀ b, g'.Visited b ↔ g.Joined g.myself b := by
  rw [ssspBfs_eq_run hg] at hrun
  obtain ⟨hinv, hvis⟩ := ssspStart_spec hg
  exact (search_ssspVisit addWeight hg).visited_iff hinv hvis hrun

end Graph

end RustyTinc

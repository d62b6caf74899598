import RustyTinc.Core.Runs
import RustyTinc.Library.Flood
import RustyTinc.Runtime.Engine

/-!
Broadcasts along the spanning tree in a network whose nodes hold the same edges: every node
that receives the packet runs `broadcastPacket` with the sending neighbour as its source.

* `SharedNetwork`: the nodes of one component hold the same edges and have recomputed their
  routes; they compute the same tree (`SharedNetwork.mstEdges_eq`);
* `FloodRun`: the deliveries of one broadcast, in any order, with what is written to the devices;
* `TreeNeighboursDirect`: the next hop towards every tree neighbour is that neighbour;
* `floodRun_abs`: under this condition a broadcast is a flood over the tree;
* `broadcast_exactly_once_iff`: all broadcasts end and reach every other node exactly once and
  the originator never, exactly when this condition holds.
-/

namespace RustyTinc

/-- A packet on its way between two nodes. -/
structure Envelope where
  sender : String
  receiver : String
  packet : VpnPacket
deriving DecidableEq

/-- The envelopes on their way, and the packets that each node has written to its device. -/
structure FloodState where
  inFlight : List Envelope
  written : String → List VpnPacket

namespace EngineEvent

/-- The packets that an event of a node puts on their way. -/
def sends (node : String) : EngineEvent → List Envelope
  | .broadcast targets packet => targets.map fun target => ⟨node, target, packet⟩
  | .deviceWrite _ => []

/-- The packets that an event writes to the device. -/
def writes : EngineEvent → List VpnPacket
  | .deviceWrite packet => [packet]
  | .broadcast _ _ => []

end EngineEvent

/-- The events of a broadcast along the tree, with every send succeeding; an error has none. -/
def broadcastEvents (s : NetworkState) (source : String) (data : List UInt8) (priority : ℤ) :
    List EngineEvent :=
  match ((broadcastPacket .ideal s {} source data priority).exec ()).1 with
  | .ok events => events
  | .error _ => []

/-- A node of the network broadcasts a packet that came from `source`. -/
def FloodState.handle (states : String → NetworkState) (f : FloodState) (node source : String)
    (data : List UInt8) (priority : ℤ) : FloodState :=
  let events := broadcastEvents (states node) source data priority
  { inFlight := f.inFlight ++ events.flatMap (EngineEvent.sends node)
    written := Function.update f.written node
      (f.written node ++ events.flatMap EngineEvent.writes) }

/-- The states reached by a broadcast of `o` after a number of deliveries. The priority is not
carried on the wire, so every node may use its own. -/
inductive FloodRun (states : String → NetworkState) (o : String) (data : List UInt8) :
    ℕ → FloodState → Prop
  | start (priority : ℤ) :
      FloodRun states o data 0 (FloodState.handle states ⟨[], fun _ => []⟩ o o data priority)
  | deliver {n : ℕ} {f : FloodState} {before after : List Envelope} {m : Envelope}
      (priority : ℤ) (hrun : FloodRun states o data n f)
      (h : f.inFlight = before ++ m :: after) :
      FloodRun states o data (n + 1)
        (FloodState.handle states { f with inFlight := before ++ after } m.receiver m.sender
          m.packet.data priority)

/-- The broadcasts of `o` end, are never written to its own device nor twice to another one,
and when they have ended every other member has the packet. -/
structure FloodsExactlyOnce (states : String → NetworkState) (members : String → Prop)
    (o : String) (data : List UInt8) : Prop where
  ends : ∃ bound, ∀ n f, FloodRun states o data n f → n ≤ bound
  origin : ∀ n f, FloodRun states o data n f → f.written o = []
  once : ∀ n f, FloodRun states o data n f → ∀ v, (f.written v).length ≤ 1
  all : ∀ n f, FloodRun states o data n f → f.inFlight = [] → ∀ v, members v → v ≠ o →
    (f.written v).map VpnPacket.data = [data]

/-- The nodes joined to `root` hold the edges of `base`, each with itself as the owner, and
have recomputed their routes. -/
def SharedNetwork (addWeight : ℤ → ℤ → ℤ) (base : Graph) (root : String)
    (states : String → NetworkState) : Prop :=
  ∀ a, base.Joined root a → ∃ (s : NetworkState) (fuel : ℕ) (now : ℤ)
    (changes : ReachabilityChanges), s.graph.WellFormed ∧ s.graph.myself = a ∧
      s.graph.edges = base.edges ∧
      s.recomputeRoutesAt addWeight fuel now = some (states a, changes)

/-- At every member, the next hop towards each of its tree neighbours is that neighbour. -/
def TreeNeighboursDirect (states : String → NetworkState) (members : String → Prop) : Prop :=
  ∀ a, members a → ∀ b ∈ (states a).graph.mstNeighbors a, (states a).graph.nextHop b = some b

/-! ### What the members share -/

section Shared

variable {addWeight : ℤ → ℤ → ℤ} {base : Graph} {root : String} {states : String → NetworkState}

/-- What a member knows after its recompute. -/
structure MemberSpec (base : Graph) (root a : String) (s : NetworkState) : Prop where
  wellFormed : s.graph.WellFormed
  myself_eq : s.graph.myself = a
  edges_eq : s.graph.edges = base.edges
  reachable : ∀ k, s.graph.isReachable k = true ↔ base.Joined root k
  tree : base.IsMinSpanningTree {k | base.Joined root k} s.graph.mstEdges
  nextHop_self : s.graph.nextHop a = some a

lemma nextHop_mstKruskal_reconcile (g : Graph) (experimental : Bool) (now : ℤ) (k : String) :
    (g.reconcileReachabilityAt experimental now).1.mstKruskal.nextHop k = g.nextHop k := by
  rw [Graph.nextHop, Graph.node, Graph.mstKruskal_nodes]
  have hnode := Graph.node_reconcile (g := g) experimental now k
  rw [Graph.node] at hnode
  rw [hnode, Graph.nextHop]
  cases g.node k <;> simp [Node.reconcile_route]

/-- What every node of the network knows of it. -/
lemma SharedNetwork.member (h : SharedNetwork addWeight base root states) {a : String}
    (ha : base.Joined root a) : MemberSpec base root a (states a) := by
  obtain ⟨s, fuel, now, changes, hs, rfl, hedges, hrec⟩ := h a ha
  obtain ⟨hspec, -⟩ := NetworkState.recomputeRoutesAt_spec hs hrec
  have hedges' : (states s.graph.myself).graph.edges = base.edges := hspec.edges_eq.trans hedges
  have hreach : ∀ k, (states s.graph.myself).graph.isReachable k = true ↔ base.Joined root k := by
    intro k
    rw [hspec.reachable k, hspec.myself_eq, Graph.joined_congr (congrArg OrdMap.keys hedges')]
    exact ⟨ha.trans, ha.symm.trans⟩
  refine ⟨hspec.wellFormed, hspec.myself_eq, hedges', hreach, ?_, ?_⟩
  · have htree := NetworkState.recomputeRoutesAt_isMinSpanningTree hs hrec
    simp only [hreach] at htree
    exact htree.of_edges_eq hedges'.symm
  · obtain ⟨g, hg, heq, -⟩ := NetworkState.recomputeRoutesAt_eq_some hrec
    obtain ⟨n, hn, -, -, hroute⟩ := (Graph.ssspBfs_spec hs hg).1.own
    rw [heq, nextHop_mstKruskal_reconcile, Graph.nextHop, hn, Option.bind_some, hroute]

/-- **All members compute the same tree.** -/
theorem SharedNetwork.mstEdges_eq (h : SharedNetwork addWeight base root states) {a b : String}
    (ha : base.Joined root a) (hb : base.Joined root b) :
    (states a).graph.mstEdges = (states b).graph.mstEdges := by
  have hra := (h.member ha).reachable
  have hrb := (h.member hb).reachable
  obtain ⟨s, fuel, now, changes, hs, rfl, hedges, hrec⟩ := h a ha
  obtain ⟨s', fuel', now', changes', hs', rfl, hedges', hrec'⟩ := h b hb
  obtain ⟨g, hg, -, hge, hgr⟩ := NetworkState.recomputeRoutesAt_graph hs hrec
  obtain ⟨g', hg', -, hge', hgr'⟩ := NetworkState.recomputeRoutesAt_graph hs' hrec'
  rw [hg, hg']
  refine Graph.mstKruskal_congr (by rw [hge, hge', hedges, hedges']) fun k => ?_
  rw [hgr, hgr', Bool.eq_iff_iff, hra, hrb]

/-- The tree that the members share. -/
abbrev treeOf (keys : OrdSet EdgeKey) : SimpleGraph String :=
  SpanningTree.linkGraph (Graph.treeLinks keys)

lemma Graph.mem_mstNeighbors {g : Graph} {a b : String} :
    b ∈ g.mstNeighbors a ↔ (⟨a, b⟩ : EdgeKey) ∈ g.mstEdges.keys := by
  simp only [Graph.mstNeighbors, List.mem_map, List.mem_filter, decide_eq_true_eq]
  constructor
  · rintro ⟨⟨x, y⟩, ⟨hk, rfl⟩, rfl⟩
    exact hk
  · exact fun h => ⟨⟨a, b⟩, ⟨h, rfl⟩, rfl⟩

lemma Graph.nodup_mstNeighbors (g : Graph) (a : String) : (g.mstNeighbors a).Nodup := by
  refine List.Nodup.map_on ?_ (g.mstEdges.nodup_keys.filter _)
  rintro ⟨x, y⟩ hx ⟨x', y'⟩ hx' rfl
  have h : x = a := by simpa using (List.mem_filter.mp hx).2
  have h' : x' = a := by simpa using (List.mem_filter.mp hx').2
  rw [h, h']

/-- The links of the tree are its keys, in both directions. -/
lemma Graph.IsMinSpanningTree.adj_iff {g : Graph} {C : Set String} {keys : OrdSet EdgeKey}
    (h : g.IsMinSpanningTree C keys) {a b : String} :
    (treeOf keys).Adj a b ↔ (⟨a, b⟩ : EdgeKey) ∈ keys.keys := by
  rw [SimpleGraph.fromEdgeSet_adj, Finset.mem_coe, Graph.mem_treeLinks]
  constructor
  · rintro ⟨⟨⟨x, y⟩, hk, heq⟩, -⟩
    rcases Sym2.eq_iff.mp heq with ⟨rfl, rfl⟩ | ⟨rfl, rfl⟩
    · exact hk
    · exact (h.reverse_mem _).mp hk
  · intro hk
    refine ⟨⟨⟨a, b⟩, hk, rfl⟩, ?_⟩
    exact (h.spans.links s(a, b) (Graph.mem_treeLinks.mpr ⟨⟨a, b⟩, hk, rfl⟩)).1

/-- The tree connects exactly the members. -/
lemma SharedNetwork.reachable_iff (h : SharedNetwork addWeight base root states) {o v : String}
    (ho : base.Joined root o) :
    (treeOf (states o).graph.mstEdges).Reachable o v ↔ base.Joined root v := by
  have htree := (h.member ho).tree
  have hwalk : ∀ x y, (treeOf (states o).graph.mstEdges).Walk x y → base.Joined root x →
      base.Joined root y := by
    intro x y p hx
    induction p with
    | nil => exact hx
    | cons hadj _ ih => exact ih (hx.tail (htree.linked _ (htree.adj_iff.mp hadj)))
  exact ⟨fun ⟨p⟩ => hwalk o v p ho, fun hv => htree.spans.connected o ho v hv⟩

/-- The targets of a member: its tree neighbours except the next hop towards the source. -/
lemma SharedNetwork.mem_broadcastTargets (h : SharedNetwork addWeight base root states)
    {b c source : String} (hb : base.Joined root b) :
    c ∈ broadcastTargets (states b) source .mst false ↔
      (treeOf (states b).graph.mstEdges).Adj b c ∧
        some c ≠ (states b).graph.nextHop source := by
  have hm := h.member hb
  rw [hm.tree.adj_iff, broadcastTargets, hm.myself_eq, List.mem_filter, Graph.mem_mstNeighbors,
    Bool.and_eq_true, decide_eq_true_eq]
  refine and_congr_right fun hk => and_iff_left ?_
  have hlink := hm.tree.linked _ hk
  have hreach : (states b).graph.isReachable c = true := (hm.reachable c).mpr (hb.tail hlink)
  rw [Graph.isReachable] at hreach
  simpa using hreach

lemma nodup_broadcastTargets (s : NetworkState) (source : String) :
    (broadcastTargets s source .mst false).Nodup :=
  (Graph.nodup_mstNeighbors _ _).filter _

/-! ### Broadcasts as floods over the tree -/

/-- What a node passes on, as a flood. -/
def floodForward (states : String → NetworkState) (b a : String) : List String :=
  broadcastTargets (states b) a .mst false

/-- The senders and receivers in flight, and how often each device was written. -/
def FloodState.abs (f : FloodState) : Flood.State String where
  inFlight := f.inFlight.map fun m => (m.sender, m.receiver)
  received v := (f.written v).length

/-- The condition makes every member pass the packet on to all its other tree neighbours. -/
lemma SharedNetwork.forwards (h : SharedNetwork addWeight base root states)
    (hdirect : TreeNeighboursDirect states (base.Joined root)) {o : String}
    (ho : base.Joined root o) :
    Flood.Forwards (treeOf (states o).graph.mstEdges) o (floodForward states o o)
      (floodForward states) where
  start_nodup := nodup_broadcastTargets _ _
  mem_start c := by
    rw [floodForward, h.mem_broadcastTargets ho, (h.member ho).nextHop_self]
    exact and_iff_left_of_imp fun hadj he => hadj.ne (Option.some_inj.mp he).symm
  fwd_nodup _ _ _ _ := nodup_broadcastTargets _ _
  mem_fwd a b c hb hab := by
    have hb' := (h.reachable_iff ho).mp hb
    rw [h.mstEdges_eq ho hb'] at hab ⊢
    have hnext : (states b).graph.nextHop a = some a := by
      refine hdirect b hb' a (Graph.mem_mstNeighbors.mpr ?_)
      exact (h.member hb').tree.adj_iff.mp hab.symm
    rw [floodForward, h.mem_broadcastTargets hb', hnext, ne_eq, Option.some_inj]

/-- What a member does with a packet of a valid size. -/
lemma handle_eq {f : FloodState} {node source : String} {data : List UInt8}
    (hdata : data.length ≤ mtu) (priority : ℤ) :
    FloodState.handle states f node source data priority =
      { inFlight := f.inFlight ++ (floodForward states node source).map fun c =>
          ⟨node, c, ⟨data, priority⟩⟩
        written := Function.update f.written node (f.written node ++
          if source ≠ (states node).graph.myself then [⟨data, priority⟩] else []) } := by
  rw [FloodState.handle, broadcastEvents, broadcastPacket_ideal _ _ hdata, floodForward]
  cases htargets : broadcastTargets (states node) source .mst false with
  | nil =>
      by_cases hs : source = (states node).graph.myself <;>
        simp [hs, EngineEvent.sends, EngineEvent.writes]
  | cons c cs =>
      by_cases hs : source = (states node).graph.myself <;>
        simp [hs, EngineEvent.sends, EngineEvent.writes]

/-- **A broadcast refines a flood**: with only the broadcast data on its way. -/
theorem floodRun_abs (h : SharedNetwork addWeight base root states)
    (hdirect : TreeNeighboursDirect states (base.Joined root)) {o : String}
    (ho : base.Joined root o) {data : List UInt8} (hdata : data.length ≤ mtu) {n : ℕ}
    {f : FloodState} (hrun : FloodRun states o data n f) :
    Flood.Run (floodForward states) (Flood.State.start o (floodForward states o o)) n f.abs ∧
      (∀ m ∈ f.inFlight, m.packet.data = data) ∧
      ∀ v, ∀ p ∈ f.written v, p.data = data := by
  have hforward := h.forwards hdirect ho
  have hacyclic := (h.member ho).tree.spans.acyclic
  induction hrun with
  | start priority =>
      rw [handle_eq hdata, if_neg (not_not.mpr (h.member ho).myself_eq.symm)]
      refine ⟨?_, by simp, by simp [Function.update_apply]⟩
      have habs : FloodState.abs ⟨[] ++ (floodForward states o o).map fun c =>
          ⟨o, c, ⟨data, priority⟩⟩, Function.update (fun _ => []) o ([] ++ [])⟩ =
            Flood.State.start o (floodForward states o o) := by
        simp [FloodState.abs, Flood.State.start]
      rw [habs]
      exact Flood.Run.start
  | @deliver n f before after m priority _ heq ih =>
      obtain ⟨hflood, hin, hwritten⟩ := ih
      have hm : m ∈ f.inFlight := by simp [heq]
      have hinv := hflood.inv hacyclic hforward
      have hmem : (m.sender, m.receiver) ∈ f.abs.inFlight := List.mem_map.mpr ⟨m, hm, rfl⟩
      obtain ⟨hadj, hreached, -⟩ := hinv.inFlight _ hmem
      have hrecv : base.Joined root m.receiver :=
        (h.reachable_iff ho).mp ((hinv.reachable hreached).trans hadj.reachable)
      have hne : m.sender ≠ (states m.receiver).graph.myself := by
        rw [(h.member hrecv).myself_eq]
        exact hadj.ne
      rw [hin m hm, handle_eq hdata, if_pos hne]
      refine ⟨?_, fun m' hm' => ?_, fun v p hp => ?_⟩
      · have habs : f.abs.inFlight = before.map (fun m => (m.sender, m.receiver)) ++
            (m.sender, m.receiver) :: after.map fun m => (m.sender, m.receiver) := by
          simp [FloodState.abs, heq]
        refine Eq.subst ?_ (hflood.step (Flood.Step.deliver habs))
        simp only [Flood.State.deliver, FloodState.abs, List.map_append, List.map_map,
          Function.comp_def, Flood.State.mk.injEq, true_and]
        funext v
        by_cases hv : v = m.receiver
        · simp [hv]
        · simp [hv]
      · rcases List.mem_append.mp hm' with hm' | hm'
        · refine hin m' ?_
          rw [heq]
          rcases List.mem_append.mp hm' with hm' | hm' <;> simp [hm']
        · obtain ⟨c, -, rfl⟩ := List.mem_map.mp hm'
          rfl
      · simp only [Function.update_apply] at hp
        split_ifs at hp
        · rcases List.mem_append.mp hp with hp | hp
          · exact hwritten _ p hp
          · rw [List.mem_singleton.mp hp]
        · exact hwritten v p hp

/-- The condition is enough. -/
lemma SharedNetwork.floodsExactlyOnce (h : SharedNetwork addWeight base root states)
    (hdirect : TreeNeighboursDirect states (base.Joined root)) {o : String}
    (ho : base.Joined root o) {data : List UInt8} (hdata : data.length ≤ mtu) :
    FloodsExactlyOnce states (base.Joined root) o data := by
  have hforward := h.forwards hdirect ho
  have hacyclic := (h.member ho).tree.spans.acyclic
  have hm := h.member ho
  refine ⟨⟨(states o).graph.nodes.keys.toFinset.card, fun n f hrun => ?_⟩, fun n f hrun => ?_,
    fun n f hrun v => ?_, fun n f hrun hdone v hv hne => ?_⟩
  · refine (floodRun_abs h hdirect ho hdata hrun).1.length_le hacyclic hforward fun v hv => ?_
    have hv' := (hm.reachable v).mpr ((h.reachable_iff ho).mp hv)
    rw [Graph.isReachable, Option.any_eq_true] at hv'
    obtain ⟨node, hnode, -⟩ := hv'
    exact List.mem_toFinset.mpr (OrdMap.mem_keys.mpr ⟨node, hnode⟩)
  · have hinv := (floodRun_abs h hdirect ho hdata hrun).1.inv hacyclic hforward
    exact List.length_eq_zero_iff.mp hinv.origin
  · exact ((floodRun_abs h hdirect ho hdata hrun).1.inv hacyclic hforward).received_le v
  · obtain ⟨hflood, -, hwritten⟩ := floodRun_abs h hdirect ho hdata hrun
    have hdone' : f.abs.inFlight = [] := by simp [FloodState.abs, hdone]
    have hone := (hflood.inv hacyclic hforward).received_eq_one hdone'
      ((h.reachable_iff ho).mpr hv) hne
    obtain ⟨p, hp⟩ := List.length_eq_one_iff.mp hone
    rw [hp, List.map_singleton, hwritten v p (by simp [hp])]

/-- Without the condition some packet comes back to its originator. -/
lemma SharedNetwork.treeNeighboursDirect (h : SharedNetwork addWeight base root states)
    (hfloods : ∀ o, base.Joined root o → ∀ data : List UInt8, data.length ≤ mtu →
      FloodsExactlyOnce states (base.Joined root) o data) :
    TreeNeighboursDirect states (base.Joined root) := by
  intro a ha b hb
  by_contra hnext
  have hadj := (h.member ha).tree.adj_iff.mpr (Graph.mem_mstNeighbors.mp hb)
  have hlink := (h.member ha).tree.linked _ (Graph.mem_mstNeighbors.mp hb)
  have hb' : base.Joined root b := ha.tail hlink
  have hadj' : (treeOf (states b).graph.mstEdges).Adj b a := by
    rw [← h.mstEdges_eq ha hb']
    exact hadj.symm
  -- The packet goes from `b` to `a`, which does not recognise `b` and sends it back.
  have hto : a ∈ floodForward states b b := by
    rw [floodForward, h.mem_broadcastTargets hb', (h.member hb').nextHop_self]
    exact ⟨hadj', fun he => hadj'.ne (Option.some_inj.mp he).symm⟩
  have hback : b ∈ floodForward states a b := by
    rw [floodForward, h.mem_broadcastTargets ha]
    exact ⟨hadj, fun he => hnext he.symm⟩
  have hdata : ([] : List UInt8).length ≤ mtu := Nat.zero_le _
  have hstart : FloodRun states b [] 0 _ := FloodRun.start 0
  rw [handle_eq hdata] at hstart
  have hfirst : (⟨b, a, ⟨[], 0⟩⟩ : Envelope) ∈
      [] ++ (floodForward states b b).map fun c => (⟨b, c, ⟨[], 0⟩⟩ : Envelope) := by
    simp [hto]
  obtain ⟨before, after, hsplit⟩ := List.append_of_mem hfirst
  have hsecond := FloodRun.deliver 0 hstart hsplit
  rw [handle_eq hdata] at hsecond
  have hecho : (⟨a, b, ⟨[], 0⟩⟩ : Envelope) ∈ (before ++ after) ++
      (floodForward states a b).map fun c => (⟨a, c, ⟨[], 0⟩⟩ : Envelope) := by
    simp [hback]
  obtain ⟨before', after', hsplit'⟩ := List.append_of_mem hecho
  have hthird := FloodRun.deliver 0 hsecond hsplit'
  rw [handle_eq hdata] at hthird
  have hne : a ≠ (states b).graph.myself := by
    rw [(h.member hb').myself_eq]
    exact hadj.ne
  rw [if_pos hne] at hthird
  have horigin := (hfloods b hb' [] hdata).origin _ _ hthird
  simp only [Function.update_self, List.append_eq_nil_iff] at horigin
  exact List.cons_ne_nil _ _ horigin.2

/-- **Exactly-once broadcasts**: the members compute the same tree, and all their broadcasts
end and reach every other member exactly once and never the originator, exactly when the next
hop towards every tree neighbour is that neighbour. -/
theorem broadcast_exactly_once_iff (h : SharedNetwork addWeight base root states) :
    (∀ a b, base.Joined root a → base.Joined root b →
      (states a).graph.mstEdges = (states b).graph.mstEdges) ∧
    ((∀ o, base.Joined root o → ∀ data : List UInt8, data.length ≤ mtu →
      FloodsExactlyOnce states (base.Joined root) o data) ↔
        TreeNeighboursDirect states (base.Joined root)) :=
  ⟨fun _ _ => h.mstEdges_eq, h.treeNeighboursDirect,
    fun hdirect _ ho _ => h.floodsExactlyOnce hdirect ho⟩

/-- Without indirect links the next hop towards a neighbour is always that neighbour. -/
theorem SharedNetwork.treeNeighboursDirect_of_allDirect
    (h : SharedNetwork addWeight base root states) (hall : base.AllDirect) :
    TreeNeighboursDirect states (base.Joined root) := by
  intro a ha b hb
  have hlink := (h.member ha).tree.linked _ (Graph.mem_mstNeighbors.mp hb)
  have hne : b ≠ a := ((h.member ha).tree.adj_iff.mpr (Graph.mem_mstNeighbors.mp hb)).ne.symm
  obtain ⟨s, fuel, now, changes, hs, rfl, hedges, hrec⟩ := h a ha
  have hkeys := congrArg OrdMap.keys hedges
  obtain ⟨g, hg, heq, -⟩ := NetworkState.recomputeRoutesAt_eq_some hrec
  obtain ⟨hdirect, hle⟩ :=
    Graph.ssspBfs_direct addWeight hs (Graph.allDirect_congr hedges hall) hg
  have hlink' : s.graph.Linked s.graph.myself b := by
    rw [Graph.linked_congr hkeys]
    exact hlink
  have hvis : g.Visited b :=
    ((Graph.ssspBfs_spec hs hg).2 b).mpr (Relation.ReflTransGen.single hlink')
  obtain ⟨x, m, hx, hm, hsteps⟩ := hdirect.steps b hvis hne
  have hone := hle 1 b ((Graph.Steps.refl _).tail hlink')
  obtain rfl : m = 0 := by
    push_cast at hone
    omega
  cases hsteps
  rw [heq, nextHop_mstKruskal_reconcile, hx]

end Shared

/-! ### Two networks -/

/-- The state of one node of a network after it has recomputed its routes. -/
def stateOf (base : Graph) (a : String) : NetworkState :=
  let s : NetworkState := ⟨{ base with myself := a }, SubnetTable.new, true⟩
  ((s.recomputeRoutesAt addI32 100 0).map Prod.fst).getD s

/-- A network in which every node has searched its graph. -/
lemma sharedNetwork_stateOf {base : Graph} {root : String} (hg : base.WellFormed)
    (hroot : root ∈ base.nodes.keys)
    (h : ∀ a ∈ base.nodes.keys, (NetworkState.recomputeRoutesAt addI32 100
      ⟨{ base with myself := a }, SubnetTable.new, true⟩ 0).isSome = true) :
    SharedNetwork addI32 base root (stateOf base) := by
  intro a ha
  have hmem : a ∈ base.nodes.keys := by
    rcases Relation.ReflTransGen.cases_tail ha with rfl | ⟨b, -, hlink⟩
    · exact hroot
    · exact hlink.mem_right hg
  obtain ⟨⟨s, changes⟩, hrec⟩ := Option.isSome_iff_exists.mp (h a hmem)
  refine ⟨⟨{ base with myself := a }, SubnetTable.new, true⟩, 100, 0, changes, ?_, rfl, rfl, ?_⟩
  · exact ⟨hg.name_eq, hg.key_eq, hg.ends_mem, hmem⟩
  · rw [hrec, stateOf, hrec]
    rfl

/-- Two nodes joined by an edge that is heavy and indirect in one direction and light in the
other, and by two detours. -/
def echoNetwork : Graph :=
  let g := Graph.ofLinks ["a", "b", "c", "d"]
    [("a", "c", 5, 0), ("c", "b", 10, 0), ("a", "d", 5, 0), ("d", "b", 10, 0)]
  let heavy : Edge :=
    { fromNode := "a", toNode := "b", weight := 20, options := optionIndirect }
  let light : Edge := { fromNode := "b", toNode := "a", weight := 1 }
  { g with edges := (g.edges.insert ⟨"a", "b"⟩ heavy).insert ⟨"b", "a"⟩ light }

/-- **An echo**: a broadcast of `b` reaches `a`, which takes `d` for the next hop towards `b`
and sends the packet back. -/
theorem broadcast_echo : ¬ ∀ (base : Graph) (root : String) (states : String → NetworkState),
    SharedNetwork addI32 base root states →
      (∀ a b, base.Joined root a → base.Joined root b →
        (states a).graph.mstEdges = (states b).graph.mstEdges) ∧
      ∀ o, base.Joined root o → ∀ data : List UInt8, data.length ≤ mtu →
        FloodsExactlyOnce states (base.Joined root) o data := by
  intro hclaim
  have hnet : SharedNetwork addI32 echoNetwork "a" (stateOf echoNetwork) :=
    sharedNetwork_stateOf (by decide +kernel) (by decide +kernel) (by decide +kernel)
  have hdirect := hnet.treeNeighboursDirect (hclaim _ _ _ hnet).2
  have hnext := hdirect "a" Relation.ReflTransGen.refl "b" (by decide +kernel)
  exact absurd hnext (by decide +kernel)

theorem broadcast_exactly_once_line :
    FloodsExactlyOnce (stateOf Graph.lineNetwork) (Graph.lineNetwork.Joined "a") "a" [1, 2] := by
  have hnet : SharedNetwork addI32 Graph.lineNetwork "a" (stateOf Graph.lineNetwork) :=
    sharedNetwork_stateOf (by decide +kernel) (by decide +kernel) (by decide +kernel)
  exact (broadcast_exactly_once_iff hnet).2.mpr
    (hnet.treeNeighboursDirect_of_allDirect (by decide +kernel)) "a" Relation.ReflTransGen.refl
    [1, 2] (by decide)

end RustyTinc

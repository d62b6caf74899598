import RustyTinc.Core.Component
import RustyTinc.Core.Consistency

/-!
What a purge removes, and that it removes nothing else.

* `UpToDate`: a recompute would change neither the routes nor the flags nor the tree;
* `recompute_agree`: changes away from the component of the owner keep a state up to date;
* `call_upToDate`: every call that recomputes the routes leaves such a state;
* `purgeClaims_foldl_spec`, `purgeNode_foldl_spec`: the two phases of a purge;
* `purgeUnreachableAt_exact`: the purge as a whole, and a second one.
-/

namespace RustyTinc

namespace Graph

/-- Graphs that agree on the component of the owner have the same component. -/
lemma AgreeOn.joined_iff {g g' : Graph} (h : AgreeOn g g') (k : String) :
    g'.Joined g'.myself k ↔ g.Joined g.myself k := by
  rw [h.myself_eq]
  constructor
  · intro hk
    induction hk with
    | refl => exact .refl
    | tail _ hlink ih =>
        obtain ⟨e, he⟩ := OrdMap.mem_keys.mp hlink.1
        obtain ⟨r, hr⟩ := OrdMap.mem_keys.mp hlink.2
        exact ih.tail ⟨OrdMap.mem_keys.mpr ⟨e, h.edge_of _ e he⟩,
          OrdMap.mem_keys.mpr ⟨r, h.edge_of _ r hr⟩⟩
  · intro hk
    induction hk with
    | refl => exact .refl
    | @tail b c hb hlink ih =>
        obtain ⟨e, he⟩ := OrdMap.mem_keys.mp hlink.1
        obtain ⟨r, hr⟩ := OrdMap.mem_keys.mp hlink.2
        exact ih.tail ⟨OrdMap.mem_keys.mpr ⟨e, (h.edge_eq ⟨b, c⟩ hb).trans he⟩,
          OrdMap.mem_keys.mpr ⟨r, (h.edge_eq ⟨c, b⟩ (hb.tail hlink)).trans hr⟩⟩

lemma mem_keys_of_joined {g : Graph} (hg : g.WellFormed) {k : String}
    (hk : g.Joined g.myself k) : k ∈ g.nodes.keys := by
  cases hk with
  | refl => exact hg.myself_mem
  | tail _ hlink => exact (hg.ends_mem _ hlink.1).2

end Graph

/-- There are no changes when the same nodes are reachable. -/
lemma ReachabilityChanges.Exact.eq_nil {changes : ReachabilityChanges} {before after : Graph}
    (h : changes.Exact before after) (heq : ∀ k, before.isReachable k = after.isReachable k) :
    changes = ⟨[], []⟩ := by
  obtain ⟨up, down⟩ := changes
  have hup : up = [] := List.eq_nil_iff_forall_not_mem.mpr fun k hk => by
    obtain ⟨hbefore, hafter⟩ := (h.mem_becameReachable k).mp hk
    rw [heq, hafter] at hbefore
    cases hbefore
  have hdown : down = [] := List.eq_nil_iff_forall_not_mem.mpr fun k hk => by
    obtain ⟨hbefore, hafter⟩ := (h.mem_becameUnreachable k).mp hk
    rw [heq, hafter] at hbefore
    cases hbefore
  rw [hup, hdown]

namespace NetworkState

/-- The route of a node, if it is known. -/
def routeOf (s : NetworkState) (name : String) : Option RouteState :=
  (s.graph.node name).map Node.route

/-- **The routes and the flags are up to date with the edges**: a recompute changes neither the
routes nor the tree, and reports no change of a flag. -/
def UpToDate (addWeight : ℤ → ℤ → ℤ) (fuel : ℕ) (s : NetworkState) : Prop :=
  ∃ now s₁, s.recomputeRoutesAt addWeight fuel now = some (s₁, ⟨[], []⟩) ∧
    (∀ k, s₁.routeOf k = s.routeOf k) ∧ s₁.graph.mstEdges = s.graph.mstEdges

/-- A known node that is not flagged reachable. -/
def Unreachable (s : NetworkState) (name : String) : Prop :=
  name ∈ s.graph.nodes.keys ∧ s.graph.isReachable name = false

instance (s : NetworkState) (name : String) : Decidable (s.Unreachable name) :=
  inferInstanceAs (Decidable (_ ∧ _))

section UpToDate

variable {addWeight : ℤ → ℤ → ℤ} {fuel : ℕ} {s s₁ s' s₂ : NetworkState}

/-- The route that a recompute gives to a node is that of the search. -/
lemma routeOf_recompute {now : ℤ} {changes : ReachabilityChanges}
    (h : s.recomputeRoutesAt addWeight fuel now = some (s', changes)) :
    ∃ g, s.graph.ssspBfs addWeight fuel = some g ∧
      ∀ k, s'.routeOf k = (g.node k).map Node.route := by
  obtain ⟨g, hg, rfl, -⟩ := recomputeRoutesAt_eq_some h
  refine ⟨g, hg, fun k => ?_⟩
  rw [routeOf, Graph.node, Graph.mstKruskal_nodes]
  show ((g.reconcileReachabilityAt s.experimental now).1.node k).map Node.route = _
  rw [Graph.node_reconcile, Option.map_map]
  exact congrArg (Option.map · (g.node k)) (funext fun n => Node.reconcile_route _ _ n)

/-- What a recompute of `s₂` leaves, next to a state whose component of the owner is the same. -/
structure Kept (s s₂ s' : NetworkState) : Prop where
  wellFormed : s'.graph.WellFormed
  myself_eq : s'.graph.myself = s₂.graph.myself
  edges_eq : s'.graph.edges = s₂.graph.edges
  mem_keys : ∀ k, k ∈ s'.graph.nodes.keys ↔ k ∈ s₂.graph.nodes.keys
  subnets_eq : s'.subnets = s₂.subnets
  isReachable_eq : ∀ k, s'.graph.isReachable k = s.graph.isReachable k
  route_eq : ∀ k, s.graph.isReachable k = true → s'.routeOf k = s.routeOf k
  route_none : ∀ k, s.graph.isReachable k = false → k ∈ s'.graph.nodes.keys →
    s'.routeOf k = some {}
  tree_eq : s'.graph.mstEdges = s.graph.mstEdges

lemma reachable_recompute (hs : s.graph.WellFormed) {now : ℤ} {changes : ReachabilityChanges}
    (hrec : s.recomputeRoutesAt addWeight fuel now = some (s₁, changes)) (k : String) :
    s₁.graph.isReachable k = true ↔ s.graph.Joined s.graph.myself k := by
  obtain ⟨hspec, -⟩ := recomputeRoutesAt_spec hs hrec
  rw [hspec.reachable k, hspec.myself_eq, Graph.joined_congr (congrArg OrdMap.keys hspec.edges_eq)]

/-- A graph from which a recompute takes its tree. -/
lemma treeGraph_recompute (hs : s.graph.WellFormed) {now : ℤ} {changes : ReachabilityChanges}
    (hrec : s.recomputeRoutesAt addWeight fuel now = some (s₁, changes)) :
    ∃ a : Graph, s₁.graph = a.mstKruskal ∧ a.WellFormed ∧ a.edges = s.graph.edges ∧
      a.myself = s.graph.myself ∧ ∀ k, a.isReachable k = true ↔ a.Joined a.myself k := by
  obtain ⟨a, ha, hwa, hea, hfa⟩ := recomputeRoutesAt_graph hs hrec
  obtain ⟨hspec, -⟩ := recomputeRoutesAt_spec hs hrec
  have hma : a.myself = s.graph.myself := by
    rw [← hspec.myself_eq, ha, Graph.mstKruskal_myself]
  refine ⟨a, ha, hwa, hea, hma, fun k => ?_⟩
  rw [hfa, reachable_recompute hs hrec, Graph.joined_congr (congrArg OrdMap.keys hea), hma]

/-- **A state whose component of the owner is that of another one** gets the same flags, tree and
routes there from a recompute. -/
lemma recompute_agree (hs : s.graph.WellFormed) {now₁ : ℤ} {changes₁ : ReachabilityChanges}
    (hrec₁ : s.recomputeRoutesAt addWeight fuel now₁ = some (s₁, changes₁))
    (hs₂ : s₂.graph.WellFormed) (hagree : Graph.AgreeOn s.graph s₂.graph) (now : ℤ) :
    ∃ s' changes, s₂.recomputeRoutesAt addWeight fuel now = some (s', changes) ∧
      changes.Exact s₂.graph s'.graph ∧ Kept s₁ s₂ s' := by
  obtain ⟨g₁, hg₁, hroutes₁⟩ := routeOf_recompute hrec₁
  obtain ⟨g₂, hg₂, hsame⟩ := Graph.ssspBfs_agree hagree hs hs₂ hg₁
  obtain ⟨s', changes, hrec⟩ :
      ∃ s' changes, s₂.recomputeRoutesAt addWeight fuel now = some (s', changes) := by
    rw [recomputeRoutesAt, hg₂]
    exact ⟨_, _, rfl⟩
  obtain ⟨hspec, hchanges⟩ := recomputeRoutesAt_spec hs₂ hrec
  have hreach₁ := reachable_recompute hs hrec₁
  have hflag : ∀ k, s'.graph.isReachable k = s₁.graph.isReachable k := fun k => by
    rw [Bool.eq_iff_iff, reachable_recompute hs₂ hrec, hagree.joined_iff, hreach₁]
  have hkeys := mem_keys_recomputeRoutesAt hs₂ hrec
  obtain ⟨g, hg, hroutes₂⟩ := routeOf_recompute hrec
  obtain rfl := Option.some.inj (hg₂.symm.trans hg)
  refine ⟨s', changes, hrec, hchanges, hspec.wellFormed, hspec.myself_eq, hspec.edges_eq, hkeys,
    ?_, hflag, fun k hk => ?_, fun k hk hmem => ?_, ?_⟩
  · obtain ⟨_, -, rfl, -⟩ := recomputeRoutesAt_eq_some hrec
    rfl
  · obtain ⟨n, n', hn, hn', hroute⟩ := hsame k ((hreach₁ k).mp hk)
    rw [hroutes₂, hroutes₁, hn, hn', Option.map_some, Option.map_some, hroute.route_eq]
  · -- a node that the search has not visited has no route
    obtain ⟨hinv, hvisited⟩ := Graph.ssspBfs_spec hs₂ hg₂
    obtain ⟨n, hn⟩ := OrdMap.mem_keys.mp (hinv.mem_keys.mpr ((hkeys k).mp hmem))
    have hnot : ¬ n.status.visited = true := fun hv => by
      have hjoined := (hagree.joined_iff k).mp ((hvisited k).mp ⟨n, hn, hv⟩)
      rw [← hreach₁ k, hk] at hjoined
      cases hjoined
    rw [hroutes₂, Graph.node, hn, Option.map_some,
      hinv.unrouted k n hn (Bool.eq_false_of_not_eq_true hnot)]
  · obtain ⟨a, ha, hwa, hea, hma, hfa⟩ := treeGraph_recompute hs hrec₁
    obtain ⟨b, hb, hwb, heb, hmb, hfb⟩ := treeGraph_recompute hs₂ hrec
    have hja : ∀ k, a.Joined a.myself k ↔ s.graph.Joined s.graph.myself k := fun k => by
      rw [Graph.joined_congr (congrArg OrdMap.keys hea), hma]
    have hab : Graph.AgreeOn a b := by
      refine ⟨by rw [hmb, hma, hagree.myself_eq], fun k hk => ?_, fun k hk => ?_,
        fun k e he => ?_⟩
      · have hmem := (hkeys k).mpr (hagree.node_mem k ((hja k).mp hk))
        rwa [hb, Graph.mstKruskal_nodes] at hmem
      · rw [hea, heb]
        exact hagree.edge_eq k ((hja k.fromNode).mp hk)
      · rw [heb] at he
        rw [hea]
        exact hagree.edge_of k e he
    rw [hb, ha]
    exact Graph.mstKruskal_agree hab hwa hwb hfa fun k => (hfb k).trans (hab.joined_iff k)

/-- The routes of a state next to which a second one has been recomputed are kept by a further
recompute. -/
lemma Kept.route_congr {s'' : NetworkState} (h : Kept s s₂ s') (h' : Kept s s' s'') (k : String) :
    s''.routeOf k = s'.routeOf k := by
  cases hk : s.graph.isReachable k with
  | true => rw [h'.route_eq k hk, h.route_eq k hk]
  | false =>
      by_cases hmem : k ∈ s'.graph.nodes.keys
      · rw [h'.route_none k hk ((h'.mem_keys k).mpr hmem), h.route_none k hk hmem]
      · have hnone : s'.graph.node k = none := OrdMap.get?_eq_none.mpr hmem
        have hnone' : s''.graph.node k = none :=
          OrdMap.get?_eq_none.mpr fun hmem' => hmem ((h'.mem_keys k).mp hmem')
        rw [routeOf, routeOf, hnone, hnone']

/-- Such a state is up to date. -/
lemma Kept.upToDate (h : Kept s₁ s₂ s') (hs : s.graph.WellFormed) {now₁ : ℤ}
    {changes₁ : ReachabilityChanges}
    (hrec₁ : s.recomputeRoutesAt addWeight fuel now₁ = some (s₁, changes₁))
    (hagree : Graph.AgreeOn s.graph s₂.graph) : s'.UpToDate addWeight fuel := by
  have hagree' : Graph.AgreeOn s.graph s'.graph := by
    refine ⟨h.myself_eq.trans hagree.myself_eq,
      fun k hk => (h.mem_keys k).mpr (hagree.node_mem k hk), fun k hk => ?_, fun k e he => ?_⟩
    · rw [h.edges_eq]
      exact hagree.edge_eq k hk
    · rw [h.edges_eq] at he
      exact hagree.edge_of k e he
  obtain ⟨s'', changes, hrec, hchanges, h'⟩ := recompute_agree hs hrec₁ h.wellFormed hagree' 0
  have hnil := hchanges.eq_nil fun k => by rw [h.isReachable_eq, h'.isReachable_eq]
  subst hnil
  exact ⟨0, s'', hrec, h.route_congr h', h'.tree_eq.trans h.tree_eq.symm⟩

/-- **A recompute leaves a state that is up to date.** -/
theorem recomputeRoutesAt_upToDate (hs : s.graph.WellFormed) {now : ℤ}
    {changes : ReachabilityChanges}
    (hrec : s.recomputeRoutesAt addWeight fuel now = some (s', changes)) :
    s'.UpToDate addWeight fuel := by
  have hagree : Graph.AgreeOn s.graph s.graph :=
    ⟨rfl, fun _ => Graph.mem_keys_of_joined hs, fun _ _ => rfl, fun _ _ => id⟩
  obtain ⟨s'', changes', hrec', -, h⟩ := recompute_agree hs hrec hs hagree now
  obtain ⟨rfl, -⟩ := Prod.mk.inj (Option.some.inj (hrec.symm.trans hrec'))
  exact h.upToDate hs hrec hagree

/-- The flags of a state that is up to date are those of its recompute. -/
lemma isReachable_of_unchanged {now : ℤ} (hs : s.graph.WellFormed)
    (hrec : s.recomputeRoutesAt addWeight fuel now = some (s₁, ⟨[], []⟩)) (k : String) :
    s₁.graph.isReachable k = s.graph.isReachable k := by
  obtain ⟨-, hexact⟩ := recomputeRoutesAt_spec hs hrec
  have hup := (hexact.mem_becameReachable k).not.mp List.not_mem_nil
  have hdown := (hexact.mem_becameUnreachable k).not.mp List.not_mem_nil
  cases hbefore : s.graph.isReachable k <;> cases hafter : s₁.graph.isReachable k
  · rfl
  · exact absurd ⟨hbefore, hafter⟩ hup
  · exact absurd ⟨hbefore, hafter⟩ hdown
  · rfl

lemma UpToDate.reachableExact (hs : s.graph.WellFormed) (h : s.UpToDate addWeight fuel) :
    s.graph.ReachableExact := by
  obtain ⟨now, s₁, hrec, -, -⟩ := h
  intro k
  rw [← isReachable_of_unchanged hs hrec, reachable_recompute hs hrec]

/-- **A recompute of a state that agrees with one that is up to date on the component of the
owner** keeps the flags, the tree and the routes there. -/
lemma UpToDate.recompute_agree (hs : s.graph.WellFormed) (hup : s.UpToDate addWeight fuel)
    (hs₂ : s₂.graph.WellFormed) (hagree : Graph.AgreeOn s.graph s₂.graph)
    (hflags : ∀ k, s₂.graph.isReachable k = s.graph.isReachable k) (now : ℤ) :
    ∃ s', s₂.recomputeRoutesAt addWeight fuel now = some (s', ⟨[], []⟩) ∧ Kept s s₂ s' ∧
      s'.UpToDate addWeight fuel := by
  obtain ⟨now₁, s₁, hrec₁, hroutes, htree⟩ := hup
  have hsame := isReachable_of_unchanged hs hrec₁
  obtain ⟨s', changes, hrec, hchanges, h⟩ := NetworkState.recompute_agree hs hrec₁ hs₂ hagree now
  have hnil := hchanges.eq_nil fun k => by rw [hflags, h.isReachable_eq, hsame]
  subst hnil
  refine ⟨s', hrec, ⟨h.wellFormed, h.myself_eq, h.edges_eq, h.mem_keys, h.subnets_eq,
    fun k => (h.isReachable_eq k).trans (hsame k), fun k hk => ?_, fun k hk => ?_,
    h.tree_eq.trans htree⟩, h.upToDate hs hrec₁ hagree⟩
  · rw [h.route_eq k ((hsame k).trans hk), hroutes]
  · exact h.route_none k ((hsame k).trans hk)

end UpToDate

section Calls

variable {addWeight : ℤ → ℤ → ℤ} {fuel : ℕ} {s s' : NetworkState}

/-- **A call that recomputes the routes leaves a state that is up to date.** -/
theorem call_upToDate (hs : s.graph.WellFormed) {c : Call} (hc : c.Recomputes)
    {changes : Option ReachabilityChanges}
    (h : call addWeight fuel s c = some (s', changes)) : s'.UpToDate addWeight fuel := by
  cases c with
  | purge options now =>
      obtain ⟨⟨s'', result⟩, hpurge, hcall⟩ := Option.map_eq_some_iff.mp h
      obtain ⟨rfl, -⟩ := Prod.mk.inj hcall
      simp only [purgeUnreachableAt] at hpurge
      obtain ⟨⟨s₁, report⟩, hrec, hpurge⟩ := Option.bind_eq_some_iff.mp hpurge
      obtain ⟨rfl, -⟩ := Prod.mk.inj (Option.some_inj.mp hpurge)
      refine recomputeRoutesAt_upToDate ?_ hrec
      have hclaims := @purgeClaims_foldl s options s.unreachableNodes (s, [], []) (.refl hs)
      exact (purgeNode_foldl options _ (fun _ => isReachable_of_mem_unreachableNodes hs)
        hclaims).wellFormed
  | apply m now =>
      obtain ⟨⟨s'', outcome⟩, happly, hcall⟩ := Option.map_eq_some_iff.mp h
      obtain ⟨rfl, -⟩ := Prod.mk.inj hcall
      cases m with
      | addEdge m =>
          obtain ⟨-, -, report, hrec, -⟩ := applyAddEdge_eq_some happly
          exact recomputeRoutesAt_upToDate (sameFlags_announcedGraph hs m).wellFormed hrec
      | deleteEdge m =>
          obtain ⟨⟨s₁, mutation⟩, hdelete, hcall⟩ := Option.map_eq_some_iff.mp happly
          obtain ⟨rfl, -⟩ := Prod.mk.inj hcall
          simp only [applyDeleteEdge] at hdelete
          obtain ⟨⟨s₂, report⟩, hrec, hdelete⟩ := Option.bind_eq_some_iff.mp hdelete
          obtain ⟨rfl, -⟩ := Prod.mk.inj (Option.some_inj.mp hdelete)
          exact recomputeRoutesAt_upToDate (hs.removeEdge _ _) hrec
      | _ => exact hc.elim

end Calls

/-! ### The phases of a purge -/

section Phases

variable {options : PurgeOptions} {s : NetworkState}

/-- What the first phase has done after the given names. -/
structure ClaimsPurged (options : PurgeOptions) (s : NetworkState) (names : List String)
    (subnets : List Subnet) (edges : List Edge) (s' : NetworkState) (subnets' : List Subnet)
    (edges' : List Edge) : Prop where
  nodes_eq : s'.graph.nodes = s.graph.nodes
  myself_eq : s'.graph.myself = s.graph.myself
  get?_edges : ∀ k, s'.graph.edges.get? k =
    if k.fromNode ∈ names then none else s.graph.edges.get? k
  subnets_eq : s'.subnets.subnets =
    if options.strictSubnets then s.subnets.subnets
    else s.subnets.subnets.filter fun x => ∀ name ∈ names, x.owner ≠ some name
  mem_subnets : ∀ x, x ∈ subnets' ↔ x ∈ subnets ∨ options.strictSubnets = false ∧
    x ∈ s.subnets.subnets ∧ ∃ name ∈ names, x.owner = some name
  mem_edges : ∀ e, e ∈ edges' ↔ e ∈ edges ∨
    ∃ k, s.graph.edges.get? k = some e ∧ k.fromNode ∈ names

lemma mem_removeEdgesFrom {g : Graph} {name : String} {e : Edge} :
    e ∈ (g.removeEdgesFrom name).2 ↔ ∃ k, g.edges.get? k = some e ∧ k.fromNode = name := by
  rw [Graph.removeEdgesFrom, List.mem_filterMap]
  simp only [List.mem_filter, decide_eq_true_iff]
  constructor
  · rintro ⟨k, ⟨-, hk⟩, he⟩
    exact ⟨k, he, hk⟩
  · rintro ⟨k, he, hk⟩
    exact ⟨k, ⟨OrdMap.mem_keys.mpr ⟨e, he⟩, hk⟩, he⟩

lemma get?_removeEdgesFrom (g : Graph) (name : String) (k : EdgeKey) :
    (g.removeEdgesFrom name).1.edges.get? k =
      if k.fromNode = name then none else g.edges.get? k := by
  rw [Graph.removeEdgesFrom, OrdMap.get?_retain]
  cases hget : g.edges.get? k with
  | none => simp
  | some e =>
      have hmem : k ∈ g.edges.keys := OrdMap.mem_keys.mpr ⟨e, hget⟩
      by_cases hk : k.fromNode = name <;> simp [Option.filter, hmem, hk]

/-- What is left of subnets and edges when some nodes have lost theirs. -/
lemma purgeClaims_foldl_spec (names : List String) (subnets : List Subnet) (edges : List Edge) :
    ClaimsPurged options s names subnets edges
      (names.foldl (purgeClaims options) (s, subnets, edges)).1
      (names.foldl (purgeClaims options) (s, subnets, edges)).2.1
      (names.foldl (purgeClaims options) (s, subnets, edges)).2.2 := by
  induction names generalizing s subnets edges with
  | nil => exact ⟨rfl, rfl, by simp, by simp, by simp, by simp⟩
  | cons name names ih =>
      set acc := purgeClaims options (s, subnets, edges) name with hacc
      have hrest := @ih acc.1 acc.2.1 acc.2.2
      have hgraph : acc.1.graph = (s.graph.removeEdgesFrom name).1 := rfl
      have hedges : acc.2.2 = edges ++ (s.graph.removeEdgesFrom name).2 := rfl
      have hsubnets : acc.1.subnets.subnets =
          if options.strictSubnets then s.subnets.subnets
          else s.subnets.subnets.filter fun x => x.owner ≠ some name := by
        rw [hacc, purgeClaims]
        cases options.strictSubnets <;> rfl
      have hremoved : ∀ x, x ∈ acc.2.1 ↔ x ∈ subnets ∨ options.strictSubnets = false ∧
          x ∈ s.subnets.subnets ∧ x.owner = some name := by
        intro x
        rw [hacc, purgeClaims]
        cases options.strictSubnets <;>
          simp [SubnetTable.removeOwner, SubnetTable.ownerSubnets]
      rw [List.foldl_cons]
      refine ⟨hrest.nodes_eq, hrest.myself_eq, fun k => ?_, ?_, fun x => ?_, fun e => ?_⟩
      · rw [hrest.get?_edges, hgraph, get?_removeEdgesFrom]
        by_cases hk : k.fromNode = name <;> by_cases hk' : k.fromNode ∈ names <;> simp [hk, hk']
      · rw [hrest.subnets_eq, hsubnets]
        cases options.strictSubnets with
        | true => rfl
        | false =>
            simp only [Bool.false_eq_true, if_false, List.filter_filter]
            refine List.filter_congr fun x _ => ?_
            rw [Bool.eq_iff_iff]
            simp [and_comm]
      · rw [hrest.mem_subnets, hremoved, hsubnets]
        cases options.strictSubnets with
        | true => simp
        | false =>
            simp only [Bool.false_eq_true, if_false, true_and, List.mem_filter,
              decide_eq_true_iff, List.mem_cons, exists_eq_or_imp]
            by_cases hx : x.owner = some name <;> simp [hx]
      · rw [hrest.mem_edges, hedges, List.mem_append, mem_removeEdgesFrom, or_assoc]
        refine or_congr_right ?_
        simp only [hgraph, get?_removeEdgesFrom, List.mem_cons]
        constructor
        · rintro (⟨k, hk, hname⟩ | ⟨k, hk, hname⟩)
          · exact ⟨k, hk, .inl hname⟩
          · split_ifs at hk with hfrom
            exact ⟨k, hk, .inr hname⟩
        · rintro ⟨k, hk, hname⟩
          by_cases hfrom : k.fromNode = name
          · exact .inl ⟨k, hk, hfrom⟩
          · exact .inr ⟨k, by rw [if_neg hfrom, hk], hname.resolve_left hfrom⟩

/-- An unreachable node that the second phase removes. -/
def Removable (options : PurgeOptions) (s : NetworkState) (name : String) : Prop :=
  options.autoconnect = false ∧
    (options.strictSubnets = true → s.subnets.ownerSubnets name = []) ∧
    ∀ k ∈ s.graph.edges.keys, k.toNode ≠ name

instance (options : PurgeOptions) (s : NetworkState) (name : String) :
    Decidable (Removable options s name) :=
  inferInstanceAs (Decidable (_ ∧ _ ∧ _))

/-- What the second phase has done after the given names. -/
structure NodesPurged (options : PurgeOptions) (s : NetworkState) (names removed : List String)
    (s' : NetworkState) (removed' : List String) : Prop where
  get?_nodes : ∀ k, s'.graph.nodes.get? k =
    if k ∈ names ∧ Removable options s k then none else s.graph.nodes.get? k
  myself_eq : s'.graph.myself = s.graph.myself
  edges_eq : s'.graph.edges = s.graph.edges
  subnets_eq : s'.subnets = s.subnets
  removed_eq : removed' = removed ++ names.filter fun name => Removable options s name

/-- A node is removed when it may be. -/
lemma purgeNode_eq {removed : List String} {name : String} :
    purgeNode options (s, removed) name =
      if Removable options s name then
        ({ s with graph := (s.graph.removeNode name).1 },
          removed ++ ((s.graph.removeNode name).2.map Node.name).toList)
      else (s, removed) := by
  have hcond : (!options.autoconnect &&
      (!options.strictSubnets || !!(s.subnets.ownerSubnets name).isEmpty) &&
      !s.graph.hasEdgeTo name) = decide (Removable options s name) := by
    rw [Bool.eq_iff_iff, decide_eq_true_iff, Removable, Graph.hasEdgeTo]
    cases options.autoconnect <;> cases options.strictSubnets <;> simp
  simp only [purgeNode, hcond, decide_eq_true_iff]
  split_ifs with h
  · split <;> rename_i heq <;> rw [heq] <;> simp
  · rfl

/-- A node at no edge is forgotten, and nothing else. -/
lemma removeNode_eq {g : Graph} (hg : g.WellFormed) {name : String} (hname : name ≠ g.myself)
    (hmem : name ∈ g.nodes.keys) (hfrom : ∀ k ∈ g.edges.keys, k.fromNode ≠ name)
    (hto : ∀ k ∈ g.edges.keys, k.toNode ≠ name) :
    (g.removeNode name).1.edges = g.edges ∧ (g.removeNode name).1.myself = g.myself ∧
      (∀ k, (g.removeNode name).1.nodes.get? k = if k = name then none else g.nodes.get? k) ∧
      ((g.removeNode name).2.map Node.name).toList = [name] := by
  rw [Graph.removeNode, if_neg hname]
  refine ⟨OrdMap.ext_get? fun k => ?_, rfl, g.nodes.get?_erase name, ?_⟩
  · rw [OrdMap.get?_retain]
    cases hget : g.edges.get? k with
    | none => rfl
    | some e =>
        have hk : k ∈ g.edges.keys := OrdMap.mem_keys.mpr ⟨e, hget⟩
        simp [Option.filter, hfrom k hk, hto k hk]
  · obtain ⟨n, hn⟩ := OrdMap.mem_keys.mp hmem
    show ((g.nodes.get? name).map Node.name).toList = [name]
    rw [hn, Option.map_some, Option.toList_some, hg.name_eq name n hn]

/-- Which of some nodes are removed. -/
lemma purgeNode_foldl_spec (hs : s.graph.WellFormed) (names removed : List String)
    (hnodup : names.Nodup) (hmem : ∀ name ∈ names, name ∈ s.graph.nodes.keys)
    (hmyself : s.graph.myself ∉ names) (hfrom : ∀ k ∈ s.graph.edges.keys, k.fromNode ∉ names) :
    NodesPurged options s names removed (names.foldl (purgeNode options) (s, removed)).1
      (names.foldl (purgeNode options) (s, removed)).2 := by
  induction names generalizing s removed with
  | nil => exact ⟨by simp, rfl, rfl, rfl, by simp⟩
  | cons name names ih =>
      obtain ⟨hnot, hnodup'⟩ := List.nodup_cons.mp hnodup
      rw [List.forall_mem_cons] at hmem
      rw [List.mem_cons, not_or] at hmyself
      simp only [List.mem_cons, not_or] at hfrom
      rw [List.foldl_cons, purgeNode_eq]
      by_cases hrem : Removable options s name
      · obtain ⟨hedges, hme, hnodes, hpushed⟩ := removeNode_eq hs (Ne.symm hmyself.1) hmem.1
          (fun k hk => (hfrom k hk).1) hrem.2.2
        rw [if_pos hrem, hpushed]
        set s₁ : NetworkState := { s with graph := (s.graph.removeNode name).1 } with hs₁
        have hsame : ∀ k, Removable options s₁ k ↔ Removable options s k := fun k => by
          rw [Removable, Removable, hs₁, hedges]
        have hrest := @ih s₁ (hs.removeNode name) (removed ++ [name]) hnodup'
          (fun k hk => ?_) (hme ▸ hmyself.2) fun k hk => (hfrom k (hedges ▸ hk)).2
        · refine ⟨fun k => ?_, hrest.myself_eq.trans hme, hrest.edges_eq.trans hedges,
            hrest.subnets_eq, ?_⟩
          · rw [hrest.get?_nodes, hnodes]
            by_cases hk : k = name
            · subst hk
              simp [hrem]
            · simp [hk, hsame]
          · rw [hrest.removed_eq, List.filter_cons_of_pos (by simpa using hrem)]
            simp [hsame]
        · have hne : k ≠ name := fun h => hnot (h ▸ hk)
          obtain ⟨n, hn⟩ := OrdMap.mem_keys.mp (hmem.2 k hk)
          exact OrdMap.mem_keys.mpr ⟨n, by rw [hnodes, if_neg hne, hn]⟩
      · rw [if_neg hrem]
        have hrest := @ih s hs removed hnodup' hmem.2 hmyself.2 fun k hk => (hfrom k hk).2
        refine ⟨fun k => ?_, hrest.myself_eq, hrest.edges_eq, hrest.subnets_eq, ?_⟩
        · rw [hrest.get?_nodes]
          by_cases hk : k = name
          · subst hk
            simp [hrem]
          · simp [hk]
        · rw [hrest.removed_eq, List.filter_cons_of_neg (by simpa using hrem)]

end Phases

/-! ### The purge as a whole -/

section Purge

variable {addWeight : ℤ → ℤ → ℤ} {fuel : ℕ} {options : PurgeOptions} {s s' : NetworkState}

/-- **What a purge has removed**, and what it has kept. -/
structure PurgeExact (options : PurgeOptions) (s s' : NetworkState) (result : PurgeResult) :
    Prop where
  get?_edges : ∀ k, s'.graph.edges.get? k =
    if s.Unreachable k.fromNode then none else s.graph.edges.get? k
  mem_removedEdges : ∀ e, e ∈ result.removedEdges ↔
    ∃ k, s.graph.edges.get? k = some e ∧ s.Unreachable k.fromNode
  subnets_eq : s'.subnets.subnets =
    if options.strictSubnets then s.subnets.subnets
    else s.subnets.subnets.filter fun x => !x.owner.any fun name => s.Unreachable name
  mem_removedSubnets : ∀ x, x ∈ result.removedSubnets ↔ options.strictSubnets = false ∧
    x ∈ s.subnets.subnets ∧ ∃ name, x.owner = some name ∧ s.Unreachable name
  mem_removedNodes : ∀ k, k ∈ result.removedNodes ↔ s.Unreachable k ∧
    options.autoconnect = false ∧ (∀ e ∈ s'.graph.edges.keys, e.toNode ≠ k) ∧
    (options.strictSubnets = true → s.subnets.ownerSubnets k = [])
  mem_nodes : ∀ k, k ∈ s'.graph.nodes.keys ↔ k ∈ s.graph.nodes.keys ∧ k ∉ result.removedNodes
  isReachable_eq : ∀ k, s'.graph.isReachable k = s.graph.isReachable k
  route_eq : ∀ k, s.graph.isReachable k = true → s'.routeOf k = s.routeOf k
  tree_eq : s'.graph.mstEdges = s.graph.mstEdges
  reachability_eq : result.reachability = ⟨[], []⟩

/-- The list taken before a purge holds the unreachable nodes. -/
lemma mem_unreachableNodes (hs : s.graph.WellFormed) (hexact : s.graph.ReachableExact)
    {k : String} : k ∈ s.unreachableNodes ↔ s.Unreachable k := by
  rw [unreachableNodes, Graph.mem_names_filter hs, Unreachable, Graph.isReachable]
  constructor
  · rintro ⟨n, hn, hp⟩
    rw [Bool.and_eq_true, Bool.not_eq_true'] at hp
    rw [hn]
    exact ⟨OrdMap.mem_keys.mpr ⟨n, hn⟩, hp.2⟩
  · rintro ⟨hmem, hflag⟩
    obtain ⟨n, hn⟩ := OrdMap.mem_keys.mp hmem
    have hn' : s.graph.node k = some n := hn
    rw [hn', Option.any_some] at hflag
    refine ⟨n, hn', ?_⟩
    have hne : n.name ≠ s.graph.myself := by
      rw [hs.name_eq k n hn]
      rintro rfl
      have hme := (hexact s.graph.myself).mpr .refl
      rw [Graph.isReachable, hn', Option.any_some, hflag] at hme
      cases hme
    simp [hne, hflag]

/-- A purge removes exactly what it should, and the flags stay up to date. -/
lemma purgeUnreachableAt_upToDate (hs : s.graph.WellFormed) (hup : s.UpToDate addWeight fuel)
    (options : PurgeOptions) (now : ℤ) :
    ∃ s' result, s.purgeUnreachableAt addWeight fuel options now = some (s', result) ∧
      PurgeExact options s s' result ∧ s'.graph.WellFormed ∧ s'.UpToDate addWeight fuel := by
  have hexact := hup.reachableExact hs
  have hmem : ∀ k, k ∈ s.unreachableNodes ↔ s.Unreachable k := fun k =>
    mem_unreachableNodes hs hexact
  have hclaims := @purgeClaims_foldl_spec options s s.unreachableNodes [] []
  have hsame₁ := @purgeClaims_foldl s options s.unreachableNodes (s, [], []) (.refl hs)
  set acc := s.unreachableNodes.foldl (purgeClaims options) (s, [], []) with hacc
  have hnodes := @purgeNode_foldl_spec options acc.1 hsame₁.wellFormed s.unreachableNodes []
    (Graph.nodup_names_filter hs _)
    (fun k hk => by rw [hclaims.nodes_eq]; exact ((hmem k).mp hk).1)
    (fun h => by
      have hme := (hexact s.graph.myself).mpr .refl
      rw [hclaims.myself_eq, hmem] at h
      rw [h.2] at hme
      cases hme)
    (fun k hk hfrom => by
      obtain ⟨e, he⟩ := OrdMap.mem_keys.mp hk
      rw [hclaims.get?_edges, if_pos hfrom] at he
      cases he)
  have hsame₂ := @purgeNode_foldl s options s.unreachableNodes
    (fun k hk => ((hmem k).mp hk).2) (acc.1, []) hsame₁
  set acc₂ := s.unreachableNodes.foldl (purgeNode options) (acc.1, []) with hacc₂
  have hedges : ∀ k, acc₂.1.graph.edges.get? k =
      if s.Unreachable k.fromNode then none else s.graph.edges.get? k := fun k => by
    rw [hnodes.edges_eq, hclaims.get?_edges]
    simp only [hmem]
  have hagree : Graph.AgreeOn s.graph acc₂.1.graph := by
    refine ⟨hsame₂.myself_eq, fun k hk => ?_, fun k hk => ?_, fun k e he => ?_⟩
    · have hnot : ¬ (k ∈ s.unreachableNodes ∧ Removable options acc.1 k) := fun h => by
        have hflag := (hexact k).mpr hk
        rw [((hmem k).mp h.1).2] at hflag
        cases hflag
      obtain ⟨n, hn⟩ := OrdMap.mem_keys.mp (Graph.mem_keys_of_joined hs hk)
      exact OrdMap.mem_keys.mpr ⟨n, by rw [hnodes.get?_nodes, if_neg hnot, hclaims.nodes_eq, hn]⟩
    · have hnot : ¬ s.Unreachable k.fromNode := fun h => by
        have hflag := (hexact k.fromNode).mpr hk
        rw [h.2] at hflag
        cases hflag
      rw [hedges, if_neg hnot]
    · rw [hedges] at he
      split_ifs at he
      exact he
  obtain ⟨s', hrec, hkept, hup'⟩ :=
    hup.recompute_agree hs hsame₂.wellFormed hagree hsame₂.isReachable_eq now
  refine ⟨s', ⟨acc₂.2, acc.2.2, acc.2.1, ⟨[], []⟩⟩, ?_, ?_, hkept.wellFormed, hup'⟩
  · rw [purgeUnreachableAt]
    show (recomputeRoutesAt addWeight fuel acc₂.1 now).bind _ = _
    rw [hrec]
    rfl
  · have hsubnets : s'.subnets.subnets = acc.1.subnets.subnets := by
      rw [hkept.subnets_eq, hnodes.subnets_eq]
    have hremoved : ∀ k, k ∈ acc₂.2 ↔ s.Unreachable k ∧ Removable options acc.1 k := fun k => by
      rw [hnodes.removed_eq, List.nil_append, List.mem_filter, hmem, decide_eq_true_iff]
    refine ⟨fun k => by rw [hkept.edges_eq, hedges], fun e => ?_, ?_, fun x => ?_, fun k => ?_,
      fun k => ?_, hkept.isReachable_eq, hkept.route_eq, hkept.tree_eq, rfl⟩
    · rw [hclaims.mem_edges]
      simp only [List.not_mem_nil, false_or, hmem]
    · rw [hsubnets, hclaims.subnets_eq]
      cases options.strictSubnets with
      | true => rfl
      | false =>
          refine List.filter_congr fun x _ => ?_
          rw [Bool.eq_iff_iff]
          cases x.owner with
          | none => simp
          | some name =>
              simp only [hmem, decide_eq_true_iff, Bool.not_eq_true', Option.any_some,
                decide_eq_false_iff_not, ne_eq, Option.some_inj]
              exact ⟨fun h hname => h name hname rfl, fun h _ hname heq => h (heq ▸ hname)⟩
    · rw [hclaims.mem_subnets]
      simp only [List.not_mem_nil, false_or, hmem]
      tauto
    · rw [hremoved, Removable, hkept.edges_eq, hnodes.edges_eq]
      refine and_congr_right fun _ => and_congr_right fun _ => ?_
      rw [and_comm]
      refine and_congr_right fun _ => forall_congr' fun hstrict => ?_
      rw [SubnetTable.ownerSubnets, SubnetTable.ownerSubnets, hclaims.subnets_eq, hstrict, if_pos rfl]
    · rw [hkept.mem_keys, hremoved, ← not_iff_not, ← OrdMap.get?_eq_none, hnodes.get?_nodes,
        hclaims.nodes_eq]
      simp only [hmem]
      split_ifs with h
      · simp [h]
      · simp [h, OrdMap.get?_eq_none]

/-- **A purge removes exactly what belongs to the unreachable nodes**, keeps what belongs to the
others, and a second one removes nothing more. The routes, the flags and the tree are up to date:
they are those of the last recompute (`recomputeRoutesAt_upToDate`). -/
theorem purgeUnreachableAt_exact (hs : s.graph.WellFormed) (hup : s.UpToDate addWeight fuel)
    (options : PurgeOptions) (now : ℤ) :
    ∃ s' result, s.purgeUnreachableAt addWeight fuel options now = some (s', result) ∧
      PurgeExact options s s' result ∧
      ∀ now', ∃ s'' result',
        s'.purgeUnreachableAt addWeight fuel options now' = some (s'', result') ∧
        result' = ⟨[], [], [], ⟨[], []⟩⟩ ∧ s''.graph.edges = s'.graph.edges ∧
        s''.subnets.subnets = s'.subnets.subnets ∧
        ∀ k, k ∈ s''.graph.nodes.keys ↔ k ∈ s'.graph.nodes.keys := by
  obtain ⟨s', result, hpurge, hexact, hs', hup'⟩ := purgeUnreachableAt_upToDate hs hup options now
  refine ⟨s', result, hpurge, hexact, fun now' => ?_⟩
  obtain ⟨s'', result', hpurge', hexact', -, -⟩ :=
    purgeUnreachableAt_upToDate hs' hup' options now'
  -- what is unreachable after the first purge was so before it
  have hbefore : ∀ k, s'.Unreachable k → s.Unreachable k := fun k hk =>
    ⟨((hexact.mem_nodes k).mp hk.1).1, hexact.isReachable_eq k ▸ hk.2⟩
  have hedges : result'.removedEdges = [] := List.eq_nil_iff_forall_not_mem.mpr fun e he => by
    obtain ⟨k, hk, hfrom⟩ := (hexact'.mem_removedEdges e).mp he
    rw [hexact.get?_edges, if_pos (hbefore _ hfrom)] at hk
    cases hk
  have hsubnets : result'.removedSubnets = [] := List.eq_nil_iff_forall_not_mem.mpr fun x hx => by
    obtain ⟨hstrict, hmem, name, howner, hname⟩ := (hexact'.mem_removedSubnets x).mp hx
    rw [hexact.subnets_eq, hstrict] at hmem
    simp [howner, hbefore name hname] at hmem
  have hkept : s''.graph.edges = s'.graph.edges := OrdMap.ext_get? fun k => by
    rw [hexact'.get?_edges]
    split_ifs with hfrom
    · rw [hexact.get?_edges, if_pos (hbefore _ hfrom)]
    · rfl
  have hnodes : result'.removedNodes = [] := List.eq_nil_iff_forall_not_mem.mpr fun k hk => by
    obtain ⟨hunreachable, hauto, hto, hstrict⟩ := (hexact'.mem_removedNodes k).mp hk
    refine ((hexact.mem_nodes k).mp hunreachable.1).2 ((hexact.mem_removedNodes k).mpr
      ⟨hbefore k hunreachable, hauto, hkept ▸ hto, fun h => ?_⟩)
    have howned := hstrict h
    rwa [SubnetTable.ownerSubnets, hexact.subnets_eq, if_pos h] at howned
  refine ⟨s'', result', hpurge', ?_, hkept, ?_, fun k => ?_⟩
  · obtain ⟨nodes, edges, subnets, reachability⟩ := result'
    exact congr (congr (congr (congrArg PurgeResult.mk hnodes) hedges) hsubnets)
      hexact'.reachability_eq
  · rw [hexact'.subnets_eq]
    split_ifs with hstrict
    · rfl
    · refine List.filter_eq_self.mpr fun x hx => ?_
      rw [hexact.subnets_eq, if_neg hstrict, List.mem_filter] at hx
      cases howner : x.owner with
      | none => rfl
      | some name =>
          have hname : ¬ s.Unreachable name := by simpa [howner] using hx.2
          simpa using fun h => hname (hbefore name h)
  · rw [hexact'.mem_nodes, hnodes]
    simp

/-- The owner and a neighbour, and a node that only announces an edge in one direction. -/
def announceOneWay : List Call :=
  announceLink "alpha" "beta" ++ [.apply (announce "gamma" "beta" 3) 0]

/-- A node that only one side knows an edge to is removed. -/
lemma run_announceOneWay : ∃ s, Run addI32 (new "alpha") announceOneWay s ∧
    s.UpToDate addI32 5 ∧
    (s.purgeUnreachableAt addI32 5 ⟨false, false⟩ 0).map (fun r => r.2.removedNodes) =
      some ["gamma"] := by
  obtain ⟨s₂, s₃, changes, hrun, hcall, hgamma⟩ : ∃ s₂ s₃ changes,
      Run addI32 (new "alpha") (announceLink "alpha" "beta") s₂ ∧
        call addI32 5 s₂ (.apply (announce "gamma" "beta" 3) 0) = some (s₃, changes) ∧
        (s₃.purgeUnreachableAt addI32 5 ⟨false, false⟩ 0).map (fun r => r.2.removedNodes) =
          some ["gamma"] :=
    ⟨_, _, _, .snoc (.snoc (.nil _) (show call addI32 5 _ _ = some (_, _) from rfl))
      (show call addI32 5 _ _ = some (_, _) from rfl), rfl, by decide +kernel⟩
  have hrec : (Call.apply (announce "gamma" "beta" 3) 0).Recomputes := trivial
  exact ⟨s₃, hrun.snoc hcall, call_upToDate (run_inv hrun).wellFormed hrec hcall, hgamma⟩

/-- The third node goes away with its edge. -/
theorem purgeUnreachableAt_exact_announceOneWay : ∃ s, Run addI32 (new "alpha") announceOneWay s ∧
    ∃ s' result, s.purgeUnreachableAt addI32 5 ⟨false, false⟩ 0 = some (s', result) ∧
      PurgeExact ⟨false, false⟩ s s' result ∧ result.removedNodes = ["gamma"] := by
  obtain ⟨s, hrun, hup, hgamma⟩ := run_announceOneWay
  obtain ⟨s', result, hpurge, hexact, -⟩ :=
    purgeUnreachableAt_exact (run_inv hrun).wellFormed hup ⟨false, false⟩ 0
  rw [hpurge, Option.map_some, Option.some_inj] at hgamma
  exact ⟨s, hrun, s', result, hpurge, hexact, hgamma⟩

end Purge

end NetworkState

end RustyTinc

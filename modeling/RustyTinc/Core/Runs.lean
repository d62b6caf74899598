import RustyTinc.Core.State

/-!
Runs of calls on the network state, and what the reachability flags and the spanning tree say
after them.

* `recomputeRoutesAt_spec`: a recompute brings the flags in line with the links, and its report
  lists what it changed (`ReachabilityChanges.Exact`);
* `CallSpec`: what one call does, with `call_spec` for every call;
* `run_reachability`: after a recompute, and whatever calls come after it, the nodes flagged
  reachable are those joined to the owner, and every report is exact;
* `recomputeRoutesAt_mst`: a recompute leaves a spanning tree of least weight.
-/

namespace RustyTinc

/-! ### Recomputing the routes -/

/-- The report lists the nodes whose reachability flag differs between two graphs, each once
and in the right list. An unknown node counts as not reachable. -/
structure ReachabilityChanges.Exact (changes : ReachabilityChanges) (before after : Graph) :
    Prop where
  nodup_becameReachable : changes.becameReachable.Nodup
  nodup_becameUnreachable : changes.becameUnreachable.Nodup
  mem_becameReachable : ∀ k, k ∈ changes.becameReachable ↔
    before.isReachable k = false ∧ after.isReachable k = true
  mem_becameUnreachable : ∀ k, k ∈ changes.becameUnreachable ↔
    before.isReachable k = true ∧ after.isReachable k = false

lemma ReachabilityChanges.Exact.congr {changes : ReachabilityChanges} {before before' after : Graph}
    (h : changes.Exact before after) (heq : ∀ k, before.isReachable k = before'.isReachable k) :
    changes.Exact before' after where
  nodup_becameReachable := h.nodup_becameReachable
  nodup_becameUnreachable := h.nodup_becameUnreachable
  mem_becameReachable k := heq k ▸ h.mem_becameReachable k
  mem_becameUnreachable k := heq k ▸ h.mem_becameUnreachable k

namespace Graph

/-- The flags say which nodes are joined to the owner. -/
def ReachableExact (g : Graph) : Prop := ∀ k, g.isReachable k = true ↔ g.Joined g.myself k

lemma SsspInv.isReachable_eq {g₀ g : Graph} (h : SsspInv g₀ g) (k : String) :
    g.isReachable k = g₀.isReachable k := by
  have hmap := h.node_eq k
  rw [isReachable, isReachable]
  cases hg : g.node k <;> cases hg₀ : g₀.node k <;> simp only [hg, hg₀] at hmap
  · rfl
  · simp at hmap
  · simp at hmap
  · exact Node.reachable_of_sansRoute (Option.some_inj.mp hmap)

end Graph

namespace NetworkState

variable {addWeight : ℤ → ℤ → ℤ} {fuel : ℕ}

/-- The stages of a recompute that returns. -/
lemma recomputeRoutesAt_eq_some {s s' : NetworkState} {now : ℤ} {changes : ReachabilityChanges}
    (h : s.recomputeRoutesAt addWeight fuel now = some (s', changes)) :
    ∃ g, s.graph.ssspBfs addWeight fuel = some g ∧
      s' = { s with graph := (g.reconcileReachabilityAt s.experimental now).1.mstKruskal } ∧
      changes = (g.reconcileReachabilityAt s.experimental now).2 := by
  rw [recomputeRoutesAt] at h
  obtain ⟨g, hg, h⟩ := Option.bind_eq_some_iff.mp h
  obtain ⟨rfl, rfl⟩ := Prod.mk.inj (Option.some_inj.mp h)
  exact ⟨g, hg, rfl, rfl⟩

/-- What a recompute leaves behind. -/
structure Recomputed (s s' : NetworkState) : Prop where
  wellFormed : s'.graph.WellFormed
  myself_eq : s'.graph.myself = s.graph.myself
  edges_eq : s'.graph.edges = s.graph.edges
  reachable : s'.graph.ReachableExact

/-- **A recompute brings the flags in line with the links**, and reports what it changed. -/
theorem recomputeRoutesAt_spec {s s' : NetworkState} {now : ℤ} {changes : ReachabilityChanges}
    (hs : s.graph.WellFormed)
    (h : s.recomputeRoutesAt addWeight fuel now = some (s', changes)) :
    Recomputed s s' ∧ changes.Exact s.graph s'.graph := by
  obtain ⟨g, hg, rfl, rfl⟩ := recomputeRoutesAt_eq_some h
  obtain ⟨hinv, hvis⟩ := Graph.ssspBfs_spec hs hg
  have hwf := hinv.wellFormed hs
  set g₁ := (g.reconcileReachabilityAt s.experimental now).1 with hg₁
  have hwf₁ : g₁.WellFormed := hwf.reconcile
  have hreach : ∀ k, g₁.mstKruskal.isReachable k = true ↔ g.Visited k := by
    intro k
    rw [Graph.isReachable, Graph.node, Graph.mstKruskal_nodes]
    exact Graph.isReachable_reconcile k
  have hwf' : g₁.mstKruskal.WellFormed :=
    hwf₁.of_nodes (by simp) (by simp) (fun k hk => by simpa using hk) fun k n hn => by
      rw [Graph.mstKruskal_nodes] at hn
      exact hwf₁.name_eq k n hn
  refine ⟨⟨hwf', ?_, ?_, fun k => ?_⟩, ?_, ?_, fun k => ?_, fun k => ?_⟩
  · simpa [hg₁] using hinv.myself_eq
  · simpa [hg₁] using hinv.edges_eq
  · have hedges : g₁.mstKruskal.edges.keys = s.graph.edges.keys := by
      simp [hg₁, hinv.edges_eq]
    have hme : g₁.mstKruskal.myself = s.graph.myself := by
      simp [hg₁, hinv.myself_eq]
    rw [hreach, hvis, Graph.joined_congr hedges, hme]
  · exact Graph.nodup_becameReachable hwf
  · exact Graph.nodup_becameUnreachable hwf
  · rw [Graph.mem_becameReachable hwf, hinv.isReachable_eq, hreach, and_comm]
  · rw [Graph.mem_becameUnreachable hwf, hinv.isReachable_eq, ← Bool.not_eq_true, hreach, and_comm]

end NetworkState

/-! ### Changes that keep the flags -/

namespace Graph

/-- Well-formed graphs of one owner with the same reachability flags. -/
structure SameFlags (g g' : Graph) : Prop where
  wellFormed : g'.WellFormed
  myself_eq : g'.myself = g.myself
  isReachable_eq : ∀ k, g'.isReachable k = g.isReachable k

variable {g g' g'' : Graph}

lemma SameFlags.refl (hg : g.WellFormed) : SameFlags g g := ⟨hg, rfl, fun _ => rfl⟩

lemma SameFlags.trans (h : SameFlags g g') (h' : SameFlags g' g'') : SameFlags g g'' where
  wellFormed := h'.wellFormed
  myself_eq := h'.myself_eq.trans h.myself_eq
  isReachable_eq k := (h'.isReachable_eq k).trans (h.isReachable_eq k)

lemma sameFlags_ensureNode (hg : g.WellFormed) (name : String) :
    SameFlags g (g.ensureNode name).1 where
  wellFormed := hg.ensureNode name
  myself_eq := ensureNode_myself g name
  isReachable_eq k := by
    rw [isReachable, node, get?_ensureNode]
    split_ifs with hk
    · rw [isReachable, node, OrdMap.get?_eq_none.mpr hk.2]
      rfl
    · rfl

lemma sameFlags_modifyNode (hg : g.WellFormed) (name : String) {f : Node → Node}
    (hname : ∀ n, (f n).name = n.name)
    (hreach : ∀ n, (f n).status.reachable = n.status.reachable) :
    SameFlags g (g.modifyNode name f) where
  wellFormed := hg.modifyNode name hname
  myself_eq := rfl
  isReachable_eq k := by
    rw [isReachable, node_modifyNode, isReachable]
    split_ifs
    · cases g.node k <;> simp [hreach]
    · rfl

/-- A node that cannot be reached may be removed. -/
lemma sameFlags_removeNode (hg : g.WellFormed) {name : String}
    (hname : g.isReachable name = false) : SameFlags g (g.removeNode name).1 where
  wellFormed := hg.removeNode name
  myself_eq := by
    rw [removeNode]
    split_ifs <;> rfl
  isReachable_eq k := by
    rw [removeNode]
    split_ifs with hme
    · rfl
    · rw [isReachable, node, OrdMap.get?_erase]
      split_ifs with hk
      · rw [hk, hname]
        rfl
      · rfl

end Graph

namespace NetworkState

variable {addWeight : ℤ → ℤ → ℤ} {fuel : ℕ}

/-! ### Calls and runs -/

/-- A call on the network state. -/
inductive Call where
  | apply (message : MetaMessage) (now : ℤ)
  | purge (options : PurgeOptions) (now : ℤ)

/-- The calls that recompute the routes. -/
def Call.Recomputes : Call → Prop
  | .apply (.addEdge _) _ | .apply (.deleteEdge _) _ | .purge _ _ => True
  | .apply _ _ => False

/-- The report of a mutation, if it recomputed the routes. -/
def reachabilityOf : Except GraphError StateMutation → Option ReachabilityChanges
  | .ok (.addEdge _ _ reachability) | .ok (.deleteEdge _ reachability) => some reachability
  | _ => none

/-- The state after a call that returns, and the report of its recompute if it made one. -/
def call (addWeight : ℤ → ℤ → ℤ) (fuel : ℕ) (s : NetworkState) :
    Call → Option (NetworkState × Option ReachabilityChanges)
  | .apply message now =>
      (applyMetaMessageAt addWeight fuel s message now).map (Prod.map id reachabilityOf)
  | .purge options now =>
      (purgeUnreachableAt addWeight fuel s options now).map
        (Prod.map id fun result => some result.reachability)

/-- The run of a list of calls, each of which returned. -/
inductive Run (addWeight : ℤ → ℤ → ℤ) : NetworkState → List Call → NetworkState → Prop
  | nil (s : NetworkState) : Run addWeight s [] s
  | snoc {s s' s'' : NetworkState} {calls : List Call} {c : Call} {fuel : ℕ}
      {changes : Option ReachabilityChanges} (hrun : Run addWeight s calls s')
      (hcall : call addWeight fuel s' c = some (s'', changes)) : Run addWeight s (calls ++ [c]) s''

/-- A run can be computed. -/
lemma Run.of_foldlM {s₀ s s' : NetworkState} {before calls : List Call} (fuel : ℕ)
    (hrun : Run addWeight s₀ before s)
    (h : calls.foldlM (fun s c => (call addWeight fuel s c).map Prod.fst) s = some s') :
    Run addWeight s₀ (before ++ calls) s' := by
  induction calls generalizing s before with
  | nil =>
      obtain rfl := Option.some_inj.mp h
      rwa [List.append_nil]
  | cons c calls ih =>
      rw [List.foldlM_cons] at h
      obtain ⟨s₁, hfirst, h⟩ := Option.bind_eq_some_iff.mp h
      obtain ⟨⟨s₂, changes⟩, hcall, rfl⟩ := Option.map_eq_some_iff.mp hfirst
      rw [List.append_cons]
      exact ih (hrun.snoc hcall) h

/-- What a call does: without a recompute it keeps the edges and the flags, and with one it
leaves exact flags and reports what changed. -/
structure CallSpec (s : NetworkState) (c : Call) (s' : NetworkState)
    (changes : Option ReachabilityChanges) : Prop where
  wellFormed : s'.graph.WellFormed
  myself_eq : s'.graph.myself = s.graph.myself
  kept : ¬ c.Recomputes →
    s'.graph.edges = s.graph.edges ∧ ∀ k, s'.graph.isReachable k = s.graph.isReachable k
  recomputed : c.Recomputes → s'.graph.ReachableExact ∧
    ∃ report, changes = some report ∧ report.Exact s.graph s'.graph

/-- The rule for calls that do not recompute. -/
lemma CallSpec.of_sameFlags {s s' : NetworkState} {c : Call}
    {changes : Option ReachabilityChanges} (hc : ¬ c.Recomputes)
    (h : Graph.SameFlags s.graph s'.graph) (hedges : s'.graph.edges = s.graph.edges) :
    CallSpec s c s' changes where
  wellFormed := h.wellFormed
  myself_eq := h.myself_eq
  kept _ := ⟨hedges, h.isReachable_eq⟩
  recomputed hr := absurd hr hc

/-- The rule for calls that recompute after changes that keep the flags. -/
lemma CallSpec.of_recompute {s s₁ s' : NetworkState} {c : Call} {now : ℤ}
    {report : ReachabilityChanges} (hc : c.Recomputes) (h : Graph.SameFlags s.graph s₁.graph)
    (hrec : s₁.recomputeRoutesAt addWeight fuel now = some (s', report)) :
    CallSpec s c s' (some report) := by
  obtain ⟨hspec, hexact⟩ := recomputeRoutesAt_spec h.wellFormed hrec
  refine ⟨hspec.wellFormed, hspec.myself_eq.trans h.myself_eq, fun hr => absurd hc hr,
    fun _ => ⟨hspec.reachable, report, rfl, hexact.congr h.isReachable_eq⟩⟩

section CallSpecs

variable {s s' : NetworkState}

/-- Without a call of the graph the state keeps its flags. -/
lemma CallSpec.of_graph_eq {c : Call} {changes : Option ReachabilityChanges}
    (hs : s.graph.WellFormed) (hc : ¬ c.Recomputes) (h : s'.graph = s.graph) :
    CallSpec s c s' changes :=
  .of_sameFlags hc (by rw [h]; exact Graph.SameFlags.refl hs) (by rw [h])

/-- Changing a node in place, if it is known, keeps the flags. -/
lemma CallSpec.of_modifyNode {c : Call} {changes : Option ReachabilityChanges}
    (hs : s.graph.WellFormed) (hc : ¬ c.Recomputes) {name : String} {f : Node → Node}
    (hname : ∀ n, (f n).name = n.name)
    (hreach : ∀ n, (f n).status.reachable = n.status.reachable)
    (h : s'.graph = s.graph.modifyNode name f) : CallSpec s c s' changes :=
  .of_sameFlags hc (by rw [h]; exact Graph.sameFlags_modifyNode hs name hname hreach)
    (by rw [h]; rfl)

/-- The graph with an announced edge and its ends. -/
def announcedGraph (g : Graph) (m : AddEdgeMessage) : Graph :=
  let g := ((g.ensureNode m.edge.fromNode).1.ensureNode m.edge.toNode).1
  { g with edges := g.edges.insert (edgeFromAddEdgeMessage m).key (edgeFromAddEdgeMessage m) }

lemma key_edgeFromAddEdgeMessage (m : AddEdgeMessage) :
    (edgeFromAddEdgeMessage m).key = ⟨m.edge.fromNode, m.edge.toNode⟩ := by
  rw [edgeFromAddEdgeMessage]
  split <;> rfl

lemma mem_nodes_announcedGraph (g : Graph) (m : AddEdgeMessage) (k : String) :
    k ∈ (announcedGraph g m).nodes.keys ↔
      k = m.edge.toNode ∨ k = m.edge.fromNode ∨ k ∈ g.nodes.keys := by
  show k ∈ ((g.ensureNode m.edge.fromNode).1.ensureNode m.edge.toNode).1.nodes.keys ↔ _
  rw [Graph.mem_keys_ensureNode, Graph.mem_keys_ensureNode]

/-- **An announced edge is stored**: both of its ends are created first if need be. -/
lemma applyAddEdge_eq_some {m : AddEdgeMessage} {now : ℤ}
    {outcome : Except GraphError StateMutation}
    (h : applyAddEdge addWeight fuel s m now = some (s', outcome)) :
    ∃ mutation created report,
      recomputeRoutesAt addWeight fuel { s with graph := announcedGraph s.graph m } now =
        some (s', report) ∧ outcome = .ok (.addEdge mutation created report) := by
  set g₁ := (s.graph.ensureNode m.edge.fromNode).1 with hg₁
  set g₂ := (g₁.ensureNode m.edge.toNode).1 with hg₂
  set e := edgeFromAddEdgeMessage m with he
  obtain ⟨hfrom, hto⟩ : e.fromNode = m.edge.fromNode ∧ e.toNode = m.edge.toNode := by
    simpa [Edge.key] using key_edgeFromAddEdgeMessage m
  obtain ⟨mutation, hup⟩ : ∃ mutation,
      g₂.upsertEdge e = .ok ({ g₂ with edges := g₂.edges.insert e.key e }, mutation) := by
    refine Graph.upsertEdge_ok ?_ ?_
    · rw [hfrom, hg₂, hg₁, Graph.mem_keys_ensureNode, Graph.mem_keys_ensureNode]
      exact Or.inr (Or.inl rfl)
    · rw [hto, hg₂, Graph.mem_keys_ensureNode]
      exact Or.inl rfl
  simp only [applyAddEdge, ← hg₁, ← hg₂, ← he, hup] at h
  obtain ⟨⟨s'', report⟩, hrec, h⟩ := Option.bind_eq_some_iff.mp h
  obtain ⟨rfl, rfl⟩ := Prod.mk.inj (Option.some_inj.mp h)
  exact ⟨mutation, _, report, hrec, rfl⟩

/-- An announced edge does not change who is known to be reachable. -/
lemma sameFlags_announcedGraph {g : Graph} (hg : g.WellFormed) (m : AddEdgeMessage) :
    Graph.SameFlags g (announcedGraph g m) := by
  have h₁ := Graph.sameFlags_ensureNode hg m.edge.fromNode
  have h₂ := Graph.sameFlags_ensureNode h₁.wellFormed m.edge.toNode
  obtain ⟨hfrom, hto⟩ : (edgeFromAddEdgeMessage m).fromNode = m.edge.fromNode ∧
      (edgeFromAddEdgeMessage m).toNode = m.edge.toNode := by
    simpa [Edge.key] using key_edgeFromAddEdgeMessage m
  refine (h₁.trans h₂).trans ⟨h₂.wellFormed.insertEdge ?_ ?_, rfl, fun _ => rfl⟩
  · rw [hfrom, Graph.mem_keys_ensureNode, Graph.mem_keys_ensureNode]
    exact Or.inr (Or.inl rfl)
  · rw [hto, Graph.mem_keys_ensureNode]
    exact Or.inl rfl

lemma applyAddEdge_spec (hs : s.graph.WellFormed) {m : AddEdgeMessage} {now : ℤ}
    {outcome : Except GraphError StateMutation}
    (h : applyAddEdge addWeight fuel s m now = some (s', outcome)) :
    CallSpec s (.apply (.addEdge m) now) s' (reachabilityOf outcome) := by
  obtain ⟨mutation, created, report, hrec, rfl⟩ := applyAddEdge_eq_some h
  exact .of_recompute trivial (sameFlags_announcedGraph hs m) hrec

lemma applyDeleteEdge_spec (hs : s.graph.WellFormed) {m : DeleteEdgeMessage} {now : ℤ}
    {mutation : StateMutation}
    (h : applyDeleteEdge addWeight fuel s m now = some (s', mutation)) :
    CallSpec s (.apply (.deleteEdge m) now) s' (reachabilityOf (.ok mutation)) := by
  simp only [applyDeleteEdge] at h
  obtain ⟨⟨s'', report⟩, hrec, h⟩ := Option.bind_eq_some_iff.mp h
  obtain ⟨rfl, rfl⟩ := Prod.mk.inj (Option.some_inj.mp h)
  refine .of_recompute trivial ?_ hrec
  exact ⟨hs.removeEdge _ _, rfl, fun _ => rfl⟩

lemma purgeClaims_foldl (options : PurgeOptions) (names : List String)
    {acc : NetworkState × List Subnet × List Edge} (h : Graph.SameFlags s.graph acc.1.graph) :
    Graph.SameFlags s.graph (names.foldl (purgeClaims options) acc).1.graph := by
  induction names generalizing acc with
  | nil => exact h
  | cons name names ih =>
      exact ih (h.trans ⟨h.wellFormed.removeEdgesFrom name, rfl, fun _ => rfl⟩)

/-- Nodes that cannot be reached may be removed. -/
lemma purgeNode_foldl (options : PurgeOptions) (names : List String)
    (hnames : ∀ name ∈ names, s.graph.isReachable name = false)
    {acc : NetworkState × List String} (h : Graph.SameFlags s.graph acc.1.graph) :
    Graph.SameFlags s.graph (names.foldl (purgeNode options) acc).1.graph := by
  induction names generalizing acc with
  | nil => exact h
  | cons name names ih =>
      refine ih (fun name' hname' => hnames name' (by simp [hname'])) ?_
      have hflag : acc.1.graph.isReachable name = false := by
        rw [h.isReachable_eq, hnames name (by simp)]
      have hremove := h.trans (Graph.sameFlags_removeNode h.wellFormed hflag)
      simp only [purgeNode]
      split_ifs
      · split
        · rename_i graph node heq
          rwa [heq] at hremove
        · rename_i graph heq
          rwa [heq] at hremove
      · exact h

lemma isReachable_of_mem_unreachableNodes (hs : s.graph.WellFormed) {name : String}
    (h : name ∈ s.unreachableNodes) : s.graph.isReachable name = false := by
  obtain ⟨n, hn, hp⟩ := (Graph.mem_names_filter hs _).mp h
  rw [Bool.and_eq_true, Bool.not_eq_true'] at hp
  rw [Graph.isReachable, hn]
  exact hp.2

lemma purgeUnreachableAt_spec (hs : s.graph.WellFormed) {options : PurgeOptions} {now : ℤ}
    {result : PurgeResult}
    (h : purgeUnreachableAt addWeight fuel s options now = some (s', result)) :
    CallSpec s (.purge options now) s' (some result.reachability) := by
  simp only [purgeUnreachableAt] at h
  obtain ⟨⟨s'', report⟩, hrec, h⟩ := Option.bind_eq_some_iff.mp h
  obtain ⟨rfl, rfl⟩ := Prod.mk.inj (Option.some_inj.mp h)
  refine .of_recompute trivial ?_ hrec
  exact purgeNode_foldl options _ (fun name => isReachable_of_mem_unreachableNodes hs)
    (purgeClaims_foldl options _ (Graph.SameFlags.refl hs))

lemma applyKeyChanged_spec (hs : s.graph.WellFormed) (m : KeyChangedMessage) (now : ℤ)
    (changes : Option ReachabilityChanges) :
    CallSpec s (.apply (.keyChanged m) now) (s.applyKeyChanged m).1 changes := by
  rw [applyKeyChanged]
  split
  · exact .of_graph_eq hs id rfl
  · refine .of_modifyNode hs id ?_ ?_ rfl
    · exact fun _ => rfl
    · exact fun _ => rfl

lemma applyUdpInfo_spec (hs : s.graph.WellFormed) (m : UdpInfoMessage) (now : ℤ)
    (changes : Option ReachabilityChanges) :
    CallSpec s (.apply (.udpInfo m) now) (s.applyUdpInfo m).1 changes := by
  rw [applyUdpInfo]
  split_ifs
  · exact .of_graph_eq hs id rfl
  · split
    · exact .of_graph_eq hs id rfl
    · refine .of_modifyNode hs id ?_ ?_ rfl
      · exact fun _ => rfl
      · exact fun _ => rfl

lemma applyMtuInfo_spec (hs : s.graph.WellFormed) (m : MtuInfoMessage) (now : ℤ)
    (changes : Option ReachabilityChanges) :
    CallSpec s (.apply (.mtuInfo m) now) (s.applyMtuInfo m).1 changes := by
  rw [applyMtuInfo]
  split
  · exact .of_graph_eq hs id rfl
  · refine .of_modifyNode hs id (fun n => ?_) (fun n => ?_) rfl
    · split_ifs <;> rfl
    · split_ifs <;> rfl

/-- **What one call does.** -/
theorem call_spec (hs : s.graph.WellFormed) {c : Call} {changes : Option ReachabilityChanges}
    (h : call addWeight fuel s c = some (s', changes)) : CallSpec s c s' changes := by
  cases c with
  | purge options now =>
      obtain ⟨⟨s₁, result⟩, hcall, h⟩ := Option.map_eq_some_iff.mp h
      obtain ⟨rfl, rfl⟩ := Prod.mk.inj h
      exact purgeUnreachableAt_spec hs hcall
  | apply message now =>
      obtain ⟨⟨s₁, outcome⟩, hcall, h⟩ := Option.map_eq_some_iff.mp h
      obtain ⟨rfl, rfl⟩ := Prod.mk.inj h
      cases message with
      | addEdge m => exact applyAddEdge_spec hs hcall
      | deleteEdge m =>
          rw [applyMetaMessageAt] at hcall
          obtain ⟨⟨s₂, mutation⟩, hdelete, h⟩ := Option.map_eq_some_iff.mp hcall
          obtain ⟨rfl, rfl⟩ := Prod.mk.inj h
          exact applyDeleteEdge_spec hs hdelete
      | addSubnet m =>
          obtain ⟨rfl, rfl⟩ := Prod.mk.inj (Option.some_inj.mp hcall)
          exact .of_sameFlags id (Graph.sameFlags_ensureNode hs m.owner)
            (Graph.ensureNode_edges _ _)
      | keyChanged m =>
          obtain ⟨rfl, rfl⟩ := Prod.mk.inj (Option.some_inj.mp hcall)
          exact applyKeyChanged_spec hs m now _
      | udpInfo m =>
          obtain ⟨rfl, rfl⟩ := Prod.mk.inj (Option.some_inj.mp hcall)
          exact applyUdpInfo_spec hs m now _
      | mtuInfo m =>
          obtain ⟨rfl, rfl⟩ := Prod.mk.inj (Option.some_inj.mp hcall)
          exact applyMtuInfo_spec hs m now _
      | _ =>
          obtain ⟨rfl, rfl⟩ := Prod.mk.inj (Option.some_inj.mp hcall)
          exact .of_graph_eq hs id rfl

end CallSpecs

/-- What a run keeps. -/
structure RunInv (myself : String) (calls : List Call) (s : NetworkState) : Prop where
  wellFormed : s.graph.WellFormed
  myself_eq : s.graph.myself = myself
  reachable : (∃ c ∈ calls, c.Recomputes) → s.graph.ReachableExact

/-- The invariant holds after every run. -/
lemma run_inv {myself : String} {calls : List Call} {s : NetworkState}
    (h : Run addWeight (new myself) calls s) : RunInv myself calls s := by
  generalize hnew : new myself = s₀ at h
  induction h with
  | nil =>
      subst hnew
      exact ⟨Graph.wellFormed_new myself, rfl, by simp⟩
  | @snoc s s' calls c _ _ _ hcall ih =>
      have hinv := ih
      have hspec := call_spec hinv.wellFormed hcall
      refine ⟨hspec.wellFormed, hspec.myself_eq.trans hinv.myself_eq, ?_⟩
      rintro ⟨c', hc', hrec'⟩
      by_cases hrec : c.Recomputes
      · exact (hspec.recomputed hrec).1
      · -- A call without a recompute keeps the edges and the flags.
        obtain ⟨hedges, hflags⟩ := hspec.kept hrec
        have hmem : c' ∈ calls := by
          rcases List.mem_append.mp hc' with hc' | hc'
          · exact hc'
          · exact absurd (List.mem_singleton.mp hc' ▸ hrec') hrec
        intro k
        rw [hflags, Graph.joined_congr (congrArg OrdMap.keys hedges), hspec.myself_eq]
        exact hinv.reachable ⟨c', hmem, hrec'⟩ k

/-- **Reachability is exact in every run**: once a call has recomputed the routes, the nodes
flagged reachable are the owner and the nodes joined to it by a chain of links, and every
further recompute reports exactly the nodes whose flag it changed. -/
theorem run_reachability {myself : String} {calls : List Call} {s : NetworkState}
    (h : Run addWeight (new myself) calls s) :
    ((∃ c ∈ calls, c.Recomputes) →
      ∀ k, s.graph.isReachable k = true ↔ s.graph.Joined myself k) ∧
    ∀ fuel c s' changes, call addWeight fuel s c = some (s', changes) → c.Recomputes →
      ∃ report, changes = some report ∧ report.Exact s.graph s'.graph := by
  have hinv := run_inv h
  refine ⟨fun hrec k => ?_, fun fuel c s' changes hcall hrec => ?_⟩
  · rw [hinv.reachable hrec k, hinv.myself_eq]
  · exact ((call_spec hinv.wellFormed hcall).recomputed hrec).2

/-- The announcement of an edge, in one direction. -/
def announce (a b : String) (weight : ℤ) : MetaMessage :=
  .addEdge ⟨0, { fromNode := a, toNode := b, weight := weight }, "192.0.2.1", "655", none⟩

/-- The announcements of an edge and its reverse. -/
def announceLink (a b : String) : List Call :=
  [.apply (announce a b 5) 0, .apply (announce b a 7) 0]

lemma run_announceLink : ∃ s s' changes, Run addI32 (new "alpha") (announceLink "alpha" "beta") s ∧
    s.graph.isReachable "beta" = true ∧ s.recomputeRoutesAt addI32 5 0 = some (s', changes) ∧
      s'.graph.mstEdges.keys = [⟨"alpha", "beta"⟩, ⟨"beta", "alpha"⟩] :=
  ⟨_, _, _, .snoc (.snoc (.nil _) (show call addI32 5 _ _ = some (_, _) from rfl))
    (show call addI32 5 _ _ = some (_, _) from rfl), by decide +kernel, rfl, by decide +kernel⟩

theorem run_reachability_announceLink : ∃ s,
    Run addI32 (new "alpha") (announceLink "alpha" "beta") s ∧ s.graph.Joined "alpha" "beta" := by
  obtain ⟨s, -, -, hrun, hbeta, -⟩ := run_announceLink
  have hrec : ∃ c ∈ announceLink "alpha" "beta", c.Recomputes :=
    ⟨.apply (announce "alpha" "beta" 5) 0, by simp [announceLink], trivial⟩
  exact ⟨s, hrun, ((run_reachability hrun).1 hrec "beta").mp hbeta⟩

/-! ### The spanning tree -/

/-- The graph that a recompute hands to the scan for the spanning tree. -/
lemma recomputeRoutesAt_graph {s s' : NetworkState} {now : ℤ} {changes : ReachabilityChanges}
    (hs : s.graph.WellFormed)
    (h : s.recomputeRoutesAt addWeight fuel now = some (s', changes)) :
    ∃ g : Graph, s'.graph = g.mstKruskal ∧ g.WellFormed ∧ g.edges = s.graph.edges ∧
      ∀ k, g.isReachable k = s'.graph.isReachable k := by
  obtain ⟨g, hg, rfl, rfl⟩ := recomputeRoutesAt_eq_some h
  obtain ⟨hinv, -⟩ := Graph.ssspBfs_spec hs hg
  refine ⟨_, rfl, (hinv.wellFormed hs).reconcile, hinv.edges_eq, fun k => ?_⟩
  rw [Graph.isReachable, Graph.isReachable, Graph.node, Graph.node, Graph.mstKruskal_nodes]

/-- After a search the tree is a minimal spanning tree of the nodes that can be reached. -/
lemma recomputeRoutesAt_isMinSpanningTree {s s' : NetworkState} {now : ℤ}
    {changes : ReachabilityChanges} (hs : s.graph.WellFormed)
    (h : s.recomputeRoutesAt addWeight fuel now = some (s', changes)) :
    s'.graph.IsMinSpanningTree {k | s'.graph.isReachable k = true} s'.graph.mstEdges := by
  obtain ⟨hspec, -⟩ := recomputeRoutesAt_spec hs h
  obtain ⟨g, hgraph, hg, -, hflags⟩ := recomputeRoutesAt_graph hs h
  have hedges : s'.graph.edges = g.edges := by rw [hgraph, Graph.mstKruskal_edges]
  have htree := Graph.mstKruskal_spec hg fun k => by
    rw [hflags k, ← Graph.joined_congr (congrArg OrdMap.keys hedges)]
    exact hspec.reachable k
  simp only [hflags, ← hgraph] at htree
  exact htree.of_edges_eq hedges

/-- **The spanning tree of a recompute**: the stored keys describe a spanning tree of the
nodes flagged reachable, which are the nodes joined to the owner, and no spanning tree of them
weighs less. -/
theorem recomputeRoutesAt_mst {s s' : NetworkState} {now : ℤ} {changes : ReachabilityChanges}
    (hs : s.graph.WellFormed)
    (h : s.recomputeRoutesAt addWeight fuel now = some (s', changes)) :
    s'.graph.IsMinSpanningTree {k | s'.graph.isReachable k = true} s'.graph.mstEdges ∧
      s'.graph.edges = s.graph.edges ∧
      ∀ k, s'.graph.isReachable k = true ↔ s'.graph.Joined s'.graph.myself k := by
  obtain ⟨hspec, -⟩ := recomputeRoutesAt_spec hs h
  exact ⟨recomputeRoutesAt_isMinSpanningTree hs h, hspec.edges_eq, hspec.reachable⟩

theorem recomputeRoutesAt_mst_announceLink : ∃ s s' changes,
    recomputeRoutesAt addI32 5 s 0 = some (s', changes) ∧
      s'.graph.mstEdges.keys = [⟨"alpha", "beta"⟩, ⟨"beta", "alpha"⟩] ∧
      s'.graph.IsMinSpanningTree {k | s'.graph.isReachable k = true} s'.graph.mstEdges := by
  obtain ⟨s, s', changes, hrun, -, hrec, hkeys⟩ := run_announceLink
  exact ⟨s, s', changes, hrec, hkeys, (recomputeRoutesAt_mst (run_inv hrun).wellFormed hrec).1⟩

end NetworkState

end RustyTinc

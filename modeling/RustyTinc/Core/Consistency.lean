import RustyTinc.Core.MetaText
import RustyTinc.Core.Runs

/-!
Cross references in the network state: between nodes, edges, the spanning tree and subnets.

* `Sound`: edges join two known nodes, subnets belong to known nodes and are told apart;
* `Consistent`: and the spanning tree consists of stored edges, which only a recompute restores
  after edges were removed;
* `run_consistent`: every run of parsed messages and purges keeps the state consistent, and no
  message is refused.
-/

namespace RustyTinc

namespace SubnetTable

variable {t : SubnetTable}

lemma Proper.filter (h : t.Proper) (p : Subnet → Bool) :
    (⟨t.subnets.filter p⟩ : SubnetTable).Proper where
  owned s hs := h.owned s (List.mem_filter.mp hs).1
  distinct := h.distinct.filter p

/-- No two entries of a proper table compare equal. -/
lemma Proper.compareTinc_ne (h : t.Proper) :
    t.subnets.Pairwise fun a b => a.compareTinc b ≠ .eq := by
  refine h.distinct.imp_of_mem fun {a b} ha hb hne heq => ?_
  obtain ⟨x, hx⟩ := Option.isSome_iff_exists.mp (h.owned a ha)
  obtain ⟨y, hy⟩ := Option.isSome_iff_exists.mp (h.owned b hb)
  obtain ⟨hkind, hweight, rfl⟩ := (Subnet.compareTinc_eq_iff hx hy).mp heq
  exact hne ⟨hx.trans hy.symm, hkind, hweight⟩

lemma mem_addUnique {subnet s : Subnet} (hs : s ∈ (t.addUnique subnet).1.subnets) :
    s ∈ t.subnets ∨ s = subnet := by
  rw [addUnique] at hs
  split_ifs at hs
  · exact Or.inl hs
  · exact mem_add.mp hs

lemma mem_removeOwnerSubnet {owner : String} {subnet s : Subnet}
    (hs : s ∈ (t.removeOwnerSubnet owner subnet).1.subnets) : s ∈ t.subnets := by
  rw [removeOwnerSubnet, remove] at hs
  split at hs
  · exact hs
  · exact List.mem_of_mem_eraseIdx hs

end SubnetTable

namespace NetworkState

/-- Edges are stored under the names of two different known nodes, and subnets belong to known
nodes, no two of them alike. -/
structure Sound (s : NetworkState) : Prop where
  wellFormed : s.graph.WellFormed
  loopless : ∀ k ∈ s.graph.edges.keys, k.fromNode ≠ k.toNode
  proper : s.subnets.Proper
  owners : ∀ subnet ∈ s.subnets.subnets, ∀ owner, subnet.owner = some owner →
    owner ∈ s.graph.nodes.keys

/-- A sound state whose spanning tree consists of stored edges. -/
structure Consistent (s : NetworkState) : Prop extends Sound s where
  tree : ∀ k ∈ s.graph.mstEdges.keys, k ∈ s.graph.edges.keys

section Sound

variable {addWeight : ℤ → ℤ → ℤ} {fuel : ℕ} {s s' : NetworkState}

lemma consistent_new (myself : String) : (new myself).Consistent where
  wellFormed := Graph.wellFormed_new myself
  loopless k hk := by simp [new, Graph.new] at hk
  proper := SubnetTable.proper_new
  owners subnet hsubnet := by simp [new, SubnetTable.new] at hsubnet
  tree k hk := by simp [new, Graph.new] at hk

/-- The rule for changes of the graph that forget no node and store no edge. -/
lemma Sound.of_graph (h : s.Sound) (hwf : s'.graph.WellFormed)
    (hedges : ∀ k ∈ s'.graph.edges.keys, k ∈ s.graph.edges.keys)
    (hnodes : ∀ k ∈ s.graph.nodes.keys, k ∈ s'.graph.nodes.keys)
    (hsubnets : s'.subnets = s.subnets) : s'.Sound where
  wellFormed := hwf
  loopless k hk := h.loopless k (hedges k hk)
  proper := hsubnets ▸ h.proper
  owners subnet hsubnet owner howner :=
    hnodes owner (h.owners subnet (hsubnets ▸ hsubnet) owner howner)

/-- A recompute keeps the nodes. -/
lemma mem_keys_recomputeRoutesAt (hs : s.graph.WellFormed) {now : ℤ}
    {changes : ReachabilityChanges}
    (h : s.recomputeRoutesAt addWeight fuel now = some (s', changes)) (k : String) :
    k ∈ s'.graph.nodes.keys ↔ k ∈ s.graph.nodes.keys := by
  obtain ⟨g, hg, rfl, -⟩ := recomputeRoutesAt_eq_some h
  obtain ⟨hinv, -⟩ := Graph.ssspBfs_spec hs hg
  rw [← hinv.mem_keys, OrdMap.mem_keys, OrdMap.mem_keys]
  show (∃ n, ((g.reconcileReachabilityAt s.experimental now).1.mstKruskal.nodes).get? k = some n) ↔ _
  rw [Graph.mstKruskal_nodes]
  show (∃ n, (g.reconcileReachabilityAt s.experimental now).1.node k = some n) ↔ _
  rw [Graph.node_reconcile]
  simp [Graph.node]

/-- **A recompute makes a sound state consistent.** -/
lemma Sound.recompute (h : s.Sound) {now : ℤ} {changes : ReachabilityChanges}
    (hrec : s.recomputeRoutesAt addWeight fuel now = some (s', changes)) : s'.Consistent := by
  obtain ⟨hspec, -⟩ := recomputeRoutesAt_spec h.wellFormed hrec
  have htree := recomputeRoutesAt_isMinSpanningTree h.wellFormed hrec
  have hsubnets : s'.subnets = s.subnets := by
    obtain ⟨g, -, rfl, -⟩ := recomputeRoutesAt_eq_some hrec
    rfl
  have hsound : s'.Sound := h.of_graph hspec.wellFormed (fun k hk => hspec.edges_eq ▸ hk)
    (fun k hk => (mem_keys_recomputeRoutesAt h.wellFormed hrec k).mpr hk) hsubnets
  exact ⟨hsound, fun k hk => (htree.linked k hk).1⟩

/-! ### Messages -/

/-- An announced subnet keeps the state consistent. -/
lemma Consistent.applyAddSubnet (h : s.Consistent) (m : SubnetMessage) :
    (s.applyAddSubnet m).1.Consistent := by
  have hproper :=
    (@SubnetTable.Proper.addUnique _ (m.subnet.withOwner m.owner) m.owner h.proper rfl).1
  refine ⟨⟨h.wellFormed.ensureNode m.owner, fun k hk => ?_, hproper, fun subnet hsubnet owner ho => ?_⟩,
    fun k hk => ?_⟩
  · exact h.loopless k (Graph.ensureNode_edges s.graph m.owner ▸ hk)
  · refine (Graph.mem_keys_ensureNode s.graph m.owner owner).mpr ?_
    rcases SubnetTable.mem_addUnique hsubnet with hold | rfl
    · exact Or.inr (h.owners subnet hold owner ho)
    · exact Or.inl (Option.some.inj ho).symm
  · have hmst : (s.graph.ensureNode m.owner).1.mstEdges = s.graph.mstEdges := by
      rw [Graph.ensureNode]
      split_ifs <;> rfl
    exact (Graph.ensureNode_edges s.graph m.owner).symm ▸ h.tree k (hmst ▸ hk)

lemma Consistent.applyDeleteSubnet (h : s.Consistent) (m : SubnetMessage) :
    (s.applyDeleteSubnet m).1.Consistent where
  wellFormed := h.wellFormed
  loopless := h.loopless
  proper := (h.proper.removeOwnerSubnet m.owner m.subnet).1
  owners subnet hsubnet := h.owners subnet (SubnetTable.mem_removeOwnerSubnet hsubnet)
  tree := h.tree

/-- Changing a node in place. -/
lemma Consistent.modifyNode (h : s.Consistent) (name : String) {f : Node → Node}
    (hname : ∀ n, (f n).name = n.name) :
    ({ s with graph := s.graph.modifyNode name f } : NetworkState).Consistent := by
  refine ⟨h.toSound.of_graph (h.wellFormed.modifyNode name hname) (fun _ => id)
    (fun k hk => ?_) rfl, h.tree⟩
  simpa [Graph.modifyNode] using hk

lemma Consistent.applyKeyChanged (h : s.Consistent) (m : KeyChangedMessage) :
    (s.applyKeyChanged m).1.Consistent := by
  rw [NetworkState.applyKeyChanged]
  split
  · exact h
  · exact h.modifyNode _ fun _ => rfl

lemma Consistent.applyUdpInfo (h : s.Consistent) (m : UdpInfoMessage) :
    (s.applyUdpInfo m).1.Consistent := by
  rw [NetworkState.applyUdpInfo]
  split_ifs
  · exact h
  · split
    · exact h
    · exact h.modifyNode _ fun _ => rfl

lemma Consistent.applyMtuInfo (h : s.Consistent) (m : MtuInfoMessage) :
    (s.applyMtuInfo m).1.Consistent := by
  rw [NetworkState.applyMtuInfo]
  split
  · exact h
  · refine h.modifyNode _ fun n => ?_
    split_ifs <;> rfl

/-- An announced edge is accepted and keeps the state consistent. -/
lemma Consistent.applyAddEdge (h : s.Consistent) {m : AddEdgeMessage}
    (hne : m.edge.fromNode ≠ m.edge.toNode) {now : ℤ} {outcome : Except GraphError StateMutation}
    (happly : NetworkState.applyAddEdge addWeight fuel s m now = some (s', outcome)) :
    s'.Consistent ∧ ∃ mutation, outcome = .ok mutation := by
  obtain ⟨mutation, created, report, hrec, rfl⟩ := applyAddEdge_eq_some happly
  have hsound : ({ s with graph := announcedGraph s.graph m } : NetworkState).Sound := by
    refine ⟨(sameFlags_announcedGraph h.wellFormed m).wellFormed, fun k hk => ?_, h.proper,
      fun subnet hsubnet owner ho => ?_⟩
    · rcases OrdMap.mem_keys_insert.mp hk with rfl | hk
      · rwa [key_edgeFromAddEdgeMessage]
      · rw [Graph.ensureNode_edges, Graph.ensureNode_edges] at hk
        exact h.loopless k hk
    · exact (mem_nodes_announcedGraph s.graph m owner).mpr
        (Or.inr (Or.inr (h.owners subnet hsubnet owner ho)))
  exact ⟨hsound.recompute hrec, _, rfl⟩

/-- A removed edge keeps the state consistent. -/
lemma Consistent.applyDeleteEdge (h : s.Consistent) {m : DeleteEdgeMessage} {now : ℤ}
    {mutation : StateMutation}
    (happly : NetworkState.applyDeleteEdge addWeight fuel s m now = some (s', mutation)) :
    s'.Consistent := by
  simp only [NetworkState.applyDeleteEdge] at happly
  obtain ⟨⟨s'', report⟩, hrec, happly⟩ := Option.bind_eq_some_iff.mp happly
  obtain ⟨rfl, rfl⟩ := Prod.mk.inj (Option.some_inj.mp happly)
  have hsound : ({ s with graph := (s.graph.removeEdge m.fromNode m.toNode).1 } :
      NetworkState).Sound := by
    refine h.toSound.of_graph (h.wellFormed.removeEdge _ _) (fun k hk => ?_) (fun _ => id) rfl
    exact (OrdMap.mem_keys_erase.mp hk).2
  exact hsound.recompute hrec

/-- **A parsed message** keeps the state consistent, and is not refused. -/
lemma Consistent.applyMetaMessageAt (h : s.Consistent) {message : MetaMessage}
    (hparsed : message.Parsed) {now : ℤ} {outcome : Except GraphError StateMutation}
    (happly : NetworkState.applyMetaMessageAt addWeight fuel s message now = some (s', outcome)) :
    s'.Consistent ∧ ∃ mutation, outcome = .ok mutation := by
  cases message with
  | addEdge m => exact h.applyAddEdge hparsed.ne happly
  | deleteEdge m =>
      obtain ⟨⟨s₂, mutation⟩, hdelete, happly⟩ := Option.map_eq_some_iff.mp happly
      obtain ⟨rfl, rfl⟩ := Prod.mk.inj happly
      exact ⟨h.applyDeleteEdge hdelete, _, rfl⟩
  | addSubnet m =>
      obtain ⟨rfl, rfl⟩ := Prod.mk.inj (Option.some_inj.mp happly)
      exact ⟨h.applyAddSubnet m, _, rfl⟩
  | deleteSubnet m =>
      obtain ⟨rfl, rfl⟩ := Prod.mk.inj (Option.some_inj.mp happly)
      exact ⟨h.applyDeleteSubnet m, _, rfl⟩
  | keyChanged m =>
      obtain ⟨rfl, rfl⟩ := Prod.mk.inj (Option.some_inj.mp happly)
      exact ⟨h.applyKeyChanged m, _, rfl⟩
  | udpInfo m =>
      obtain ⟨rfl, rfl⟩ := Prod.mk.inj (Option.some_inj.mp happly)
      exact ⟨h.applyUdpInfo m, _, rfl⟩
  | mtuInfo m =>
      obtain ⟨rfl, rfl⟩ := Prod.mk.inj (Option.some_inj.mp happly)
      exact ⟨h.applyMtuInfo m, _, rfl⟩
  | _ =>
      obtain ⟨rfl, rfl⟩ := Prod.mk.inj (Option.some_inj.mp happly)
      exact ⟨h, _, rfl⟩

/-! ### Purging -/

/-- What an unreachable node has announced is removed: the state stays sound, and without strict
subnets no subnet of the node is left. -/
lemma Sound.purgeClaims (options : PurgeOptions) (name : String)
    {acc : NetworkState × List Subnet × List Edge} (h : acc.1.Sound) :
    (NetworkState.purgeClaims options acc name).1.Sound ∧
      (∀ subnet ∈ (NetworkState.purgeClaims options acc name).1.subnets.subnets,
        subnet ∈ acc.1.subnets.subnets) ∧
      (options.strictSubnets = false →
        (NetworkState.purgeClaims options acc name).1.subnets.ownerSubnets name = []) := by
  obtain ⟨s, removedSubnets, removedEdges⟩ := acc
  have hgraph : ∀ subnets : SubnetTable, subnets.Proper →
      (∀ subnet ∈ subnets.subnets, subnet ∈ s.subnets.subnets) →
      ({ s with graph := (s.graph.removeEdgesFrom name).1, subnets := subnets } :
        NetworkState).Sound := by
    intro subnets hproper hsub
    refine ⟨h.wellFormed.removeEdgesFrom name, fun k hk => ?_, hproper,
      fun subnet hsubnet => h.owners subnet (hsub subnet hsubnet)⟩
    obtain ⟨e, he, -⟩ := OrdMap.mem_keys_retain.mp hk
    exact h.loopless k (OrdMap.mem_keys.mpr ⟨e, he⟩)
  rw [NetworkState.purgeClaims]
  split_ifs with hstrict
  · exact ⟨hgraph _ h.proper fun _ => id, fun _ => id, fun hfalse => by simp [hstrict] at hfalse⟩
  · have hmem : ∀ subnet ∈ (s.subnets.removeOwner name).1.subnets,
        subnet ∈ s.subnets.subnets := fun subnet hsubnet => (List.mem_filter.mp hsubnet).1
    refine ⟨hgraph _ (h.proper.filter _) hmem, hmem, fun _ => ?_⟩
    simp [SubnetTable.removeOwner, SubnetTable.ownerSubnets, List.filter_filter]

/-- Nodes lose their subnets and edges, and the rest stays sound. -/
lemma Sound.purgeClaims_foldl (options : PurgeOptions) (names : List String)
    {acc : NetworkState × List Subnet × List Edge} (h : acc.1.Sound) :
    (names.foldl (NetworkState.purgeClaims options) acc).1.Sound ∧
      (∀ subnet ∈ (names.foldl (NetworkState.purgeClaims options) acc).1.subnets.subnets,
        subnet ∈ acc.1.subnets.subnets) ∧
      (options.strictSubnets = false → ∀ name ∈ names,
        (names.foldl (NetworkState.purgeClaims options) acc).1.subnets.ownerSubnets name = []) := by
  induction names generalizing acc with
  | nil => exact ⟨h, fun _ => id, fun _ name hname => absurd hname List.not_mem_nil⟩
  | cons name names ih =>
      obtain ⟨hsound, hmem, hnone⟩ := h.purgeClaims options name
      obtain ⟨hsound', hmem', hnone'⟩ := ih hsound
      refine ⟨hsound', fun subnet hsubnet => hmem subnet (hmem' subnet hsubnet),
        fun hstrict name' hname' => ?_⟩
      rcases List.mem_cons.mp hname' with rfl | hname'
      · -- later removals bring nothing back
        refine List.eq_nil_iff_forall_not_mem.mpr fun subnet hsubnet => ?_
        obtain ⟨hin, howner⟩ := List.mem_filter.mp hsubnet
        have hold : subnet ∈
            (NetworkState.purgeClaims options acc name').1.subnets.ownerSubnets name' :=
          List.mem_filter.mpr ⟨hmem' subnet hin, howner⟩
        exact List.not_mem_nil (hnone hstrict ▸ hold)
      · exact hnone' hstrict name' hname'

/-- A node is only forgotten when no subnet of it is left. -/
lemma Sound.purgeNode {options : PurgeOptions} {name : String}
    {acc : NetworkState × List String} (h : acc.1.Sound)
    (hnone : options.strictSubnets = false → acc.1.subnets.ownerSubnets name = []) :
    (NetworkState.purgeNode options acc name).1.Sound ∧
      (NetworkState.purgeNode options acc name).1.subnets = acc.1.subnets := by
  obtain ⟨s, removedNodes⟩ := acc
  rw [NetworkState.purgeNode]
  split_ifs with hremove
  · have hunowned : s.subnets.ownerSubnets name = [] := by
      simp only [Bool.and_eq_true, Bool.or_eq_true, Bool.not_eq_true', Bool.not_eq_false',
        List.isEmpty_iff] at hremove
      exact hremove.1.2.elim hnone id
    have hsound : ({ s with graph := (s.graph.removeNode name).1 } : NetworkState).Sound := by
      refine ⟨h.wellFormed.removeNode name, fun k hk => ?_, h.proper,
        fun subnet hsubnet owner howner => ?_⟩
      · rw [Graph.removeNode] at hk
        split_ifs at hk
        · exact h.loopless k hk
        · obtain ⟨e, he, -⟩ := OrdMap.mem_keys_retain.mp hk
          exact h.loopless k (OrdMap.mem_keys.mpr ⟨e, he⟩)
      · have hmem := h.owners subnet hsubnet owner howner
        rw [Graph.removeNode]
        split_ifs with hme
        · exact hmem
        · refine OrdMap.mem_keys_erase.mpr ⟨?_, hmem⟩
          rintro rfl
          have howned : subnet ∈ s.subnets.ownerSubnets owner :=
            List.mem_filter.mpr ⟨hsubnet, by simp [howner]⟩
          exact List.not_mem_nil (hunowned ▸ howned)
    split
    · next graph node heq => exact ⟨by rwa [heq] at hsound, rfl⟩
    · next graph heq => exact ⟨by rwa [heq] at hsound, rfl⟩
  · exact ⟨h, rfl⟩

/-- Nodes without subnets may be removed. -/
lemma Sound.purgeNode_foldl {options : PurgeOptions} (names : List String)
    {acc : NetworkState × List String} (h : acc.1.Sound)
    (hnone : options.strictSubnets = false → ∀ name ∈ names,
      acc.1.subnets.ownerSubnets name = []) :
    (names.foldl (NetworkState.purgeNode options) acc).1.Sound := by
  induction names generalizing acc with
  | nil => exact h
  | cons name names ih =>
      obtain ⟨hsound, hsame⟩ := h.purgeNode fun hstrict => hnone hstrict name List.mem_cons_self
      refine ih hsound fun hstrict name' hname' => ?_
      rw [hsame]
      exact hnone hstrict name' (List.mem_cons_of_mem _ hname')

/-- **A purge** keeps the state consistent. -/
lemma Consistent.purgeUnreachableAt (h : s.Consistent) {options : PurgeOptions} {now : ℤ}
    {result : PurgeResult}
    (hpurge : NetworkState.purgeUnreachableAt addWeight fuel s options now = some (s', result)) :
    s'.Consistent := by
  simp only [NetworkState.purgeUnreachableAt] at hpurge
  obtain ⟨⟨s'', report⟩, hrec, hpurge⟩ := Option.bind_eq_some_iff.mp hpurge
  obtain ⟨rfl, rfl⟩ := Prod.mk.inj (Option.some_inj.mp hpurge)
  obtain ⟨hsound, -, hnone⟩ :=
    @Sound.purgeClaims_foldl options s.unreachableNodes (s, [], []) h.toSound
  exact (hsound.purgeNode_foldl s.unreachableNodes hnone).recompute hrec

end Sound

/-! ### Runs -/

/-- A call with a message that the parser can deliver. -/
def Call.Parsed : Call → Prop
  | .apply message _ => ∃ raw, parseMetaMessage raw = .ok message
  | .purge _ _ => True

/-- The calls with the messages of the lines that the parser accepts. -/
def callsOfLines (lines : List String) : List Call :=
  lines.filterMap fun line => (parseMetaMessage line.toList).toOption.map fun m => .apply m 0

/-- All messages of the calls were parsed. -/
lemma callsOfLines_parsed (lines : List String) : ∀ c ∈ callsOfLines lines, c.Parsed := by
  intro c hc
  obtain ⟨line, -, hline⟩ := List.mem_filterMap.mp hc
  obtain ⟨m, hm, rfl⟩ := Option.map_eq_some_iff.mp hline
  refine ⟨line.toList, ?_⟩
  cases hparse : parseMetaMessage line.toList with
  | error e =>
      rw [hparse] at hm
      cases hm
  | ok m' =>
      rw [hparse] at hm
      obtain rfl := Option.some_inj.mp hm
      rfl

variable {addWeight : ℤ → ℤ → ℤ}

/-- Every call keeps the state consistent. -/
lemma Consistent.call {fuel : ℕ} {s s' : NetworkState} (h : s.Consistent) {c : Call}
    (hparsed : c.Parsed) {changes : Option ReachabilityChanges}
    (hcall : NetworkState.call addWeight fuel s c = some (s', changes)) : s'.Consistent := by
  cases c with
  | apply message now =>
      obtain ⟨⟨s₁, outcome⟩, happly, hcall⟩ := Option.map_eq_some_iff.mp hcall
      obtain ⟨rfl, rfl⟩ := Prod.mk.inj hcall
      obtain ⟨raw, hraw⟩ := hparsed
      exact (h.applyMetaMessageAt (parseMetaMessage_parsed hraw) happly).1
  | purge options now =>
      obtain ⟨⟨s₁, result⟩, hpurge, hcall⟩ := Option.map_eq_some_iff.mp hcall
      obtain ⟨rfl, rfl⟩ := Prod.mk.inj hcall
      exact h.purgeUnreachableAt hpurge

lemma consistent_run {myself : String} {calls : List Call} {s : NetworkState}
    (h : Run addWeight (new myself) calls s) (hparsed : ∀ c ∈ calls, c.Parsed) : s.Consistent := by
  generalize hnew : new myself = s₀ at h
  induction h with
  | nil =>
      subst hnew
      exact consistent_new myself
  | snoc _ hcall ih =>
      have hbefore := ih fun c hc => hparsed c (List.mem_append_left _ hc)
      exact hbefore.call (hparsed _ (List.mem_append_right _ (List.mem_singleton_self _))) hcall

/-- **The network state refers to what it holds, in every run** of parsed messages and purges: the
ends of every edge are known and differ, and it is stored under them; the keys of the spanning tree
are stored edges; the owners of the subnets are known, and no two subnets compare equal; and no
parsed message is answered by an error. -/
theorem run_consistent {myself : String} {calls : List Call} {s : NetworkState}
    (h : Run addWeight (new myself) calls s) (hparsed : ∀ c ∈ calls, c.Parsed) :
    (∀ k e, s.graph.edges.get? k = some e → e.key = k ∧ k.fromNode ≠ k.toNode ∧
      k.fromNode ∈ s.graph.nodes.keys ∧ k.toNode ∈ s.graph.nodes.keys) ∧
    (∀ k ∈ s.graph.mstEdges.keys, k ∈ s.graph.edges.keys) ∧
    (∀ subnet ∈ s.subnets.subnets, ∃ owner, subnet.owner = some owner ∧
      owner ∈ s.graph.nodes.keys) ∧
    (s.subnets.subnets.Pairwise fun a b => a.compareTinc b ≠ .eq) ∧
    ∀ fuel raw message now s' outcome, parseMetaMessage raw = .ok message →
      applyMetaMessageAt addWeight fuel s message now = some (s', outcome) →
        ∃ mutation, outcome = .ok mutation := by
  have hcons := consistent_run h hparsed
  refine ⟨fun k e he => ?_, hcons.tree, fun subnet hsubnet => ?_, hcons.proper.compareTinc_ne,
    fun fuel raw message now s' outcome hraw happly => ?_⟩
  · have hk : k ∈ s.graph.edges.keys := OrdMap.mem_keys.mpr ⟨e, he⟩
    exact ⟨hcons.wellFormed.key_eq k e he, hcons.loopless k hk, hcons.wellFormed.ends_mem k hk⟩
  · obtain ⟨owner, howner⟩ := Option.isSome_iff_exists.mp (hcons.proper.owned subnet hsubnet)
    exact ⟨owner, howner, hcons.owners subnet hsubnet owner howner⟩
  · exact (hcons.applyMetaMessageAt (parseMetaMessage_parsed hraw) happly).2

/-- A link is announced by two lines of text. -/
theorem run_consistent_announceLink : ∃ s,
    Run addI32 (new "alpha") (announceLink "alpha" "beta") s ∧
      s.graph.mstEdges.keys = [⟨"alpha", "beta"⟩, ⟨"beta", "alpha"⟩] ∧
      ∀ k ∈ s.graph.mstEdges.keys, k ∈ s.graph.edges.keys := by
  obtain ⟨s, hrun, hkeys⟩ : ∃ s, Run addI32 (new "alpha") (announceLink "alpha" "beta") s ∧
      s.graph.mstEdges.keys = [⟨"alpha", "beta"⟩, ⟨"beta", "alpha"⟩] :=
    ⟨_, .snoc (.snoc (.nil _) (show call addI32 5 _ _ = some (_, _) from rfl))
      (show call addI32 5 _ _ = some (_, _) from rfl), by decide +kernel⟩
  refine ⟨s, hrun, hkeys, (run_consistent hrun fun c hc => ?_).2.1⟩
  rcases List.mem_cons.mp hc with rfl | hc
  · exact ⟨"12 0 alpha beta 192.0.2.1 655 0 5".toList, by decide +kernel⟩
  · obtain rfl := List.mem_singleton.mp hc
    exact ⟨"12 0 beta alpha 192.0.2.1 655 0 7".toList, by decide +kernel⟩

end NetworkState

end RustyTinc

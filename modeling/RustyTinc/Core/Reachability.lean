import RustyTinc.Core.Sssp

/-!
The pass that turns the result of a route search into the reachability flags of the nodes, and
reports which of them changed.

* `reconcileReachabilityAt`: the pass; a node that became unreachable loses its whole status;
* `node_reconcile`: afterwards a node is flagged reachable exactly when the search visited it;
* `mem_becameReachable`, `mem_becameUnreachable`, `nodup_becameReachable`,
  `nodup_becameUnreachable`: the report lists the nodes whose flag changed, each once.
-/

namespace RustyTinc

/-- The nodes whose reachability a search has changed. -/
structure ReachabilityChanges where
  becameReachable : List String
  becameUnreachable : List String
deriving DecidableEq

/-- The node after its reachability is brought in line with the search. -/
def Node.reconcile (experimental : Bool) (now : ℤ) (n : Node) : Node :=
  if n.status.visited = n.status.reachable then n
  else
    let sptps := n.status.sptps || (experimental && optionVersion n.options ≥ 2)
    if n.status.visited then
      { n with
        lastStateChange := now
        status := { n.status with
          reachable := true
          sptps := sptps
          validKey := false
          waitingForKey := n.status.waitingForKey && !sptps
          udpConfirmed := false } }
    else { n with lastStateChange := now, status := {}, options := 0, udpAddress := none }

lemma Node.reconcile_name (experimental : Bool) (now : ℤ) (n : Node) :
    (n.reconcile experimental now).name = n.name := by
  rw [reconcile]
  split_ifs <;> rfl

lemma Node.reconcile_reachable (experimental : Bool) (now : ℤ) (n : Node) :
    (n.reconcile experimental now).status.reachable = n.status.visited := by
  rw [reconcile]
  split_ifs with h hv
  · exact h.symm
  · exact hv.symm
  · exact (Bool.eq_false_iff.mpr hv).symm

lemma Node.reconcile_route (experimental : Bool) (now : ℤ) (n : Node) :
    (n.reconcile experimental now).route = n.route := by
  rw [reconcile]
  split_ifs <;> rfl

namespace Graph

/-- The nodes whose reachability flag disagrees with the search. -/
def stale (g : Graph) : List Node :=
  g.nodes.values.filter fun n => n.status.visited ≠ n.status.reachable

/-- The flags of all nodes after a search, and the nodes that have changed. -/
def reconcileReachabilityAt (g : Graph) (experimental : Bool) (now : ℤ) :
    Graph × ReachabilityChanges :=
  ({ g with nodes := g.nodes.mapValues fun _ n => n.reconcile experimental now },
    { becameReachable := (g.stale.filter fun n => n.status.visited).map Node.name
      becameUnreachable := (g.stale.filter fun n => !n.status.visited).map Node.name })

/-- The reachability flag of a node; an unknown node is not reachable. -/
def isReachable (g : Graph) (name : String) : Bool := (g.node name).any fun n => n.status.reachable

section Reconcile

variable {g : Graph} {experimental : Bool} {now : ℤ}

lemma node_reconcile (experimental : Bool) (now : ℤ) (k : String) :
    (g.reconcileReachabilityAt experimental now).1.node k =
      (g.node k).map (Node.reconcile experimental now) :=
  OrdMap.get?_mapValues _ _ _

@[simp] lemma reconcile_myself :
    (g.reconcileReachabilityAt experimental now).1.myself = g.myself := rfl

@[simp] lemma reconcile_edges :
    (g.reconcileReachabilityAt experimental now).1.edges = g.edges := rfl

/-- **Reachable is visited.** -/
lemma isReachable_reconcile (k : String) :
    (g.reconcileReachabilityAt experimental now).1.isReachable k = true ↔ g.Visited k := by
  rw [isReachable, node_reconcile, Visited]
  cases g.node k <;> simp [Node.reconcile_reachable]

lemma WellFormed.reconcile (hg : g.WellFormed) :
    (g.reconcileReachabilityAt experimental now).1.WellFormed := by
  refine hg.of_nodes rfl rfl (fun k hk => ?_) fun k n h => ?_
  · simpa [reconcileReachabilityAt] using hk
  · obtain ⟨n', hn', rfl⟩ := Option.map_eq_some_iff.mp ((node_reconcile experimental now k).symm.trans h)
    rw [Node.reconcile_name, hg.name_eq k n' hn']

/-- The names of the nodes of a well-formed graph that pass a test. -/
lemma mem_names_filter (hg : g.WellFormed) (p : Node → Bool) {k : String} :
    k ∈ (g.nodes.values.filter p).map Node.name ↔ ∃ n, g.node k = some n ∧ p n = true := by
  simp only [List.mem_map, List.mem_filter, OrdMap.mem_values]
  constructor
  · rintro ⟨n, ⟨⟨k', hk'⟩, hp⟩, rfl⟩
    rw [hg.name_eq k' n hk']
    exact ⟨n, hk', hp⟩
  · rintro ⟨n, hn, hp⟩
    exact ⟨n, ⟨⟨k, hn⟩, hp⟩, hg.name_eq k n hn⟩

lemma map_name_values (hg : g.WellFormed) : g.nodes.values.map Node.name = g.nodes.keys := by
  rw [OrdMap.values, OrdMap.keys, List.map_map]
  refine List.map_congr_left fun e he => ?_
  exact hg.name_eq e.1 e.2 (OrdMap.mem_entries.mp he)

lemma nodup_names_filter (hg : g.WellFormed) (p : Node → Bool) :
    ((g.nodes.values.filter p).map Node.name).Nodup := by
  refine List.Nodup.sublist (List.Sublist.map _ List.filter_sublist) ?_
  rw [map_name_values hg]
  exact g.nodes.nodup_keys

lemma becameReachable_eq :
    (g.reconcileReachabilityAt experimental now).2.becameReachable =
      (g.nodes.values.filter fun n => n.status.visited && !n.status.reachable).map Node.name := by
  simp only [reconcileReachabilityAt, stale, List.filter_filter]
  congr 2
  funext n
  cases n.status.visited <;> cases n.status.reachable <;> rfl

lemma becameUnreachable_eq :
    (g.reconcileReachabilityAt experimental now).2.becameUnreachable =
      (g.nodes.values.filter fun n => !n.status.visited && n.status.reachable).map Node.name := by
  simp only [reconcileReachabilityAt, stale, List.filter_filter]
  congr 2
  funext n
  cases n.status.visited <;> cases n.status.reachable <;> rfl

lemma mem_becameReachable (hg : g.WellFormed) {k : String} :
    k ∈ (g.reconcileReachabilityAt experimental now).2.becameReachable ↔
      g.Visited k ∧ g.isReachable k = false := by
  rw [becameReachable_eq, mem_names_filter hg, Visited, isReachable]
  cases g.node k <;> simp

lemma mem_becameUnreachable (hg : g.WellFormed) {k : String} :
    k ∈ (g.reconcileReachabilityAt experimental now).2.becameUnreachable ↔
      ¬ g.Visited k ∧ g.isReachable k = true := by
  rw [becameUnreachable_eq, mem_names_filter hg, Visited, isReachable]
  cases g.node k <;> simp

lemma nodup_becameReachable (hg : g.WellFormed) :
    (g.reconcileReachabilityAt experimental now).2.becameReachable.Nodup := by
  rw [becameReachable_eq]
  exact nodup_names_filter hg _

lemma nodup_becameUnreachable (hg : g.WellFormed) :
    (g.reconcileReachabilityAt experimental now).2.becameUnreachable.Nodup := by
  rw [becameUnreachable_eq]
  exact nodup_names_filter hg _

end Reconcile

end Graph

end RustyTinc

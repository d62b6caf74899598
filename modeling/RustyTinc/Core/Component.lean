import RustyTinc.Core.Runs

/-!
The route search and the scan for the spanning tree only look at the component of the owner of the
graph: the nodes joined to it, and their outgoing edges.

* `AgreeOn`: two graphs agree on the component of the owner of the first;
* `ssspBfs_agree`: a search of the second one gives the same routes there;
* `mstKruskal_agree`: and the scan the same tree.
-/

namespace RustyTinc

/-- Two nodes with the same route. -/
structure Node.SameRoute (n n' : Node) : Prop where
  visited_eq : n'.status.visited = n.status.visited
  indirect_eq : n'.status.indirect = n.status.indirect
  route_eq : n'.route = n.route

namespace Graph

/-- **Two graphs agree on the component of the owner of the first**: the second one knows its nodes
and has their outgoing edges, and elsewhere no edges that the first one does not have. -/
structure AgreeOn (g g' : Graph) : Prop where
  myself_eq : g'.myself = g.myself
  node_mem : ∀ k, g.Joined g.myself k → k ∈ g'.nodes.keys
  edge_eq : ∀ k : EdgeKey, g.Joined g.myself k.fromNode → g'.edges.get? k = g.edges.get? k
  edge_of : ∀ k e, g'.edges.get? k = some e → g.edges.get? k = some e

section Agree

variable {addWeight : ℤ → ℤ → ℤ} {g g' a b : Graph}

/-- The outgoing edges of a node are those stored under its name. -/
lemma outgoingEdges_eq (hg : g.WellFormed) (name : String) :
    g.outgoingEdges name = (g.edges.retain fun k _ => k.fromNode = name).values := by
  rw [outgoingEdges, OrdMap.values, OrdMap.values, OrdMap.retain, List.filter_map]
  refine congrArg (List.map Prod.snd) (List.filter_congr fun e he => ?_)
  have hkey := hg.key_eq e.1 e.2 (OrdMap.mem_entries.mp he)
  rw [Function.comp_apply, ← hkey]
  rfl

/-- A node of the component has the same edges in both graphs, in the same order. -/
lemma AgreeOn.outgoingEdges_eq (h : AgreeOn g g') (hg : g.WellFormed) (hg' : g'.WellFormed)
    {name : String} (hname : g.Joined g.myself name) :
    g'.outgoingEdges name = g.outgoingEdges name := by
  rw [Graph.outgoingEdges_eq hg, Graph.outgoingEdges_eq hg']
  refine congrArg OrdMap.values (OrdMap.ext_get? fun k => ?_)
  rw [OrdMap.get?_retain, OrdMap.get?_retain]
  by_cases hk : k.fromNode = name
  · rw [h.edge_eq k (hk ▸ hname)]
  · have hnone : ∀ o : Option Edge, o.filter (fun _ => decide (k.fromNode = name)) = none := by
      intro o
      cases o <;> simp [Option.filter, hk]
    rw [hnone, hnone]

/-- An edge out of the component has its reverse in both graphs or in neither. -/
lemma AgreeOn.hasReverseEdge_eq (h : AgreeOn g g') {e : Edge}
    (hfrom : g.Joined g.myself e.fromNode) (he : g.edges.get? e.key = some e) :
    g'.hasReverseEdge e = g.hasReverseEdge e := by
  rw [Bool.eq_iff_iff, hasReverseEdge, hasReverseEdge, OrdMap.contains_eq_true,
    OrdMap.contains_eq_true, OrdMap.mem_keys, OrdMap.mem_keys]
  constructor
  · rintro ⟨r, hr⟩
    exact ⟨r, h.edge_of _ r hr⟩
  · rintro ⟨r, hr⟩
    have hlink : g.Linked e.fromNode e.toNode :=
      ⟨OrdMap.mem_keys.mpr ⟨e, he⟩, OrdMap.mem_keys.mpr ⟨r, hr⟩⟩
    exact ⟨r, (h.edge_eq e.key.reverse (hfrom.tail hlink)).trans hr⟩

/-! ### The search -/

/-- Two stages of searches that agree on the component of the owner of `g`. -/
structure Stages (g g' a b : Graph) : Prop where
  left_myself : a.myself = g.myself
  right_myself : b.myself = g.myself
  left_edges : a.edges = g.edges
  right_edges : b.edges = g'.edges
  node : ∀ k, g.Joined g.myself k → ∃ n n', a.node k = some n ∧ b.node k = some n' ∧ n.SameRoute n'

lemma sameRoute_reroute {n n' : Node} (h : n.SameRoute n') (myself : String)
    (src : RouteSourceState) (e : Edge) :
    (n.reroute addWeight myself src e).SameRoute (n'.reroute addWeight myself src e) := by
  have hupdate : ∀ d w, n'.updateNextHop d w = n.updateNextHop d w := fun d w => by
    rw [Node.updateNextHop, Node.updateNextHop, h.visited_eq, h.route_eq]
  refine ⟨rfl, rfl, ?_⟩
  simp only [Node.reroute, hupdate, h.route_eq]

/-- A relaxation keeps the two searches in the same stage. -/
lemma Stages.relaxEdge (hagree : AgreeOn g g') (h : Stages g g' a b) {src : RouteSourceState}
    {e : Edge} (hfrom : g.Joined g.myself e.fromNode) (he : g.edges.get? e.key = some e)
    (pushed : List String) :
    Stages g g' (Graph.relaxEdge addWeight src (a, pushed) e).1
        (Graph.relaxEdge addWeight src (b, pushed) e).1 ∧
      (Graph.relaxEdge addWeight src (b, pushed) e).2 =
        (Graph.relaxEdge addWeight src (a, pushed) e).2 ∧
      ((∀ k ∈ pushed, g.Joined g.myself k) →
        ∀ k ∈ (Graph.relaxEdge addWeight src (a, pushed) e).2, g.Joined g.myself k) := by
  have hreverse : b.hasReverseEdge e = a.hasReverseEdge e := by
    rw [hasReverseEdge, hasReverseEdge, h.left_edges, h.right_edges]
    exact hagree.hasReverseEdge_eq hfrom he
  simp only [Graph.relaxEdge, h.left_myself, h.right_myself, hreverse]
  by_cases hskip : e.toNode = g.myself ∨ a.hasReverseEdge e = false
  · rw [if_pos hskip, if_pos hskip]
    exact ⟨h, rfl, id⟩
  · rw [if_neg hskip, if_neg hskip]
    have hjoined : g.Joined g.myself e.toNode := by
      refine hfrom.tail (linked_of_hasReverseEdge he ?_)
      rw [hasReverseEdge, ← h.left_edges]
      exact Bool.eq_true_of_not_eq_false (not_or.mp hskip).2
    obtain ⟨n, n', hn, hn', hsame⟩ := h.node e.toNode hjoined
    have hkeep : ∀ i d w, shouldKeepExistingRoute n' i d w = shouldKeepExistingRoute n i d w :=
      fun i d w => by
        rw [shouldKeepExistingRoute, shouldKeepExistingRoute, hsame.visited_eq, hsame.indirect_eq,
          hsame.route_eq]
    rw [hn, hn']
    simp only [hkeep]
    split_ifs
    · exact ⟨h, rfl, id⟩
    · refine ⟨⟨h.left_myself, h.right_myself, h.left_edges, h.right_edges, fun k hk => ?_⟩, rfl,
        fun hpushed => List.forall_mem_append.mpr
          ⟨hpushed, List.forall_mem_singleton.mpr hjoined⟩⟩
      obtain ⟨m, m', hm, hm', hsame'⟩ := h.node k hk
      rw [node_modifyNode, node_modifyNode, hm, hm']
      split_ifs
      · exact ⟨_, _, rfl, rfl, sameRoute_reroute hsame' _ src e⟩
      · exact ⟨m, m', rfl, rfl, hsame'⟩

/-- Relaxations keep the two searches in the same stage. -/
lemma Stages.foldl (hagree : AgreeOn g g') {src : RouteSourceState} (es : List Edge)
    (hes : ∀ e ∈ es, g.Joined g.myself e.fromNode ∧ g.edges.get? e.key = some e)
    (h : Stages g g' a b) (pushed : List String) (hpushed : ∀ k ∈ pushed, g.Joined g.myself k) :
    Stages g g' (es.foldl (Graph.relaxEdge addWeight src) (a, pushed)).1
        (es.foldl (Graph.relaxEdge addWeight src) (b, pushed)).1 ∧
      (es.foldl (Graph.relaxEdge addWeight src) (b, pushed)).2 =
        (es.foldl (Graph.relaxEdge addWeight src) (a, pushed)).2 ∧
      ∀ k ∈ (es.foldl (Graph.relaxEdge addWeight src) (a, pushed)).2, g.Joined g.myself k := by
  induction es generalizing a b pushed with
  | nil => exact ⟨h, rfl, hpushed⟩
  | cons e es ih =>
      obtain ⟨hfrom, he⟩ := hes e List.mem_cons_self
      obtain ⟨hstages, hqueued, hjoined⟩ :=
        @Stages.relaxEdge addWeight g g' a b hagree h src e hfrom he pushed
      have hrest := ih (fun e' he' => hes e' (List.mem_cons_of_mem _ he')) hstages _
        (hjoined hpushed)
      rw [List.foldl_cons, List.foldl_cons]
      have hpair : Graph.relaxEdge addWeight src (b, pushed) e =
          ((Graph.relaxEdge addWeight src (b, pushed) e).1,
            (Graph.relaxEdge addWeight src (a, pushed) e).2) := Prod.ext rfl hqueued
      rw [hpair]
      exact hrest

/-- A visit keeps the two searches in the same stage. -/
lemma Stages.ssspVisit (hagree : AgreeOn g g') (hg : g.WellFormed) (hg' : g'.WellFormed)
    (h : Stages g g' a b) {name : String} (hname : g.Joined g.myself name) :
    Stages g g' (a.ssspVisit addWeight name).1 (b.ssspVisit addWeight name).1 ∧
      (b.ssspVisit addWeight name).2 = (a.ssspVisit addWeight name).2 ∧
      ∀ k ∈ (a.ssspVisit addWeight name).2, g.Joined g.myself k := by
  obtain ⟨n, n', hn, hn', hsame⟩ := h.node name hname
  have hsource : b.routeSourceState name = a.routeSourceState name := by
    simp [routeSourceState, hn, hn', hsame.route_eq, hsame.indirect_eq]
  have hout : ∀ c : Graph, c.outgoingEdges name =
      (c.edges.values.filter fun e => e.fromNode = name) := fun _ => rfl
  have hedges : b.outgoingEdges name = a.outgoingEdges name := by
    rw [hout, hout, h.left_edges, h.right_edges, ← hout, ← hout]
    exact hagree.outgoingEdges_eq hg hg' hname
  rw [Graph.ssspVisit, Graph.ssspVisit, hsource, hedges]
  cases a.routeSourceState name with
  | none => exact ⟨h, rfl, fun k hk => absurd hk List.not_mem_nil⟩
  | some src =>
      refine Stages.foldl hagree _ (fun e he => ?_) h [] fun k hk => absurd hk List.not_mem_nil
      rw [hout, h.left_edges, ← hout] at he
      obtain ⟨hfrom, hget⟩ := (mem_outgoingEdges hg).mp he
      exact ⟨hfrom ▸ hname, hget⟩

/-- **A search of a graph that agrees on the component of the owner** takes as many steps, and gives
the same routes there. -/
lemma ssspBfs_agree (hagree : AgreeOn g g') (hg : g.WellFormed) (hg' : g'.WellFormed) {fuel : ℕ}
    {g₁ : Graph} (hrun : g.ssspBfs addWeight fuel = some g₁) :
    ∃ g₁', g'.ssspBfs addWeight fuel = some g₁' ∧
      ∀ k, g.Joined g.myself k → ∃ n n', g₁.node k = some n ∧ g₁'.node k = some n' ∧
        n.SameRoute n' := by
  rw [ssspBfs_eq_run hg] at hrun
  have hstart : Stages g g' g.ssspReset.ssspStart g'.ssspReset.ssspStart := by
    refine ⟨rfl, hagree.myself_eq, rfl, rfl, fun k hk => ?_⟩
    obtain ⟨n', hn'⟩ := OrdMap.mem_keys.mp (hagree.node_mem k hk)
    have hmem : k ∈ g.nodes.keys := by
      rcases Relation.ReflTransGen.cases_tail hk with rfl | ⟨j, -, hj⟩
      · exact hg.myself_mem
      · exact hj.mem_right hg
    obtain ⟨n, hn⟩ := OrdMap.mem_keys.mp hmem
    rw [ssspStart, ssspStart, node_modifyNode, node_modifyNode, node_ssspReset, node_ssspReset,
      node, node, hn, hn']
    have hme : g'.ssspReset.myself = g.ssspReset.myself := hagree.myself_eq
    rw [hme]
    split_ifs
    · exact ⟨_, _, rfl, rfl, rfl, rfl, rfl⟩
    · exact ⟨_, _, rfl, rfl, rfl, rfl, rfl⟩
  have hvisit : ∀ a b name, Stages g g' a b → g.Joined g.myself name →
      Stages g g' (a.ssspVisit addWeight name).1 (b.ssspVisit addWeight name).1 ∧
        (b.ssspVisit addWeight name).2 = (a.ssspVisit addWeight name).2 ∧
        ∀ k ∈ (a.ssspVisit addWeight name).2, g.Joined g.myself k :=
    fun _ _ _ h hname => h.ssspVisit hagree hg hg' hname
  obtain ⟨g₁', hrun', hstages⟩ := Worklist.run_simulates hvisit hrun hstart
    (List.forall_mem_singleton.mpr Relation.ReflTransGen.refl)
  refine ⟨g₁', ?_, hstages.node⟩
  rw [ssspBfs_eq_run hg', hagree.myself_eq]
  exact hrun'

/-! ### The spanning tree -/

/-- An edge leads out of a set of nodes, or into it, and its reverse is stored. -/
def Crosses (g : Graph) (visited : OrdSet String) (e : Edge) : Prop :=
  g.hasReverseEdge e = true ∧ (e.fromNode ∈ visited.keys ↔ e.toNode ∉ visited.keys)

instance (g : Graph) (visited : OrdSet String) (e : Edge) : Decidable (g.Crosses visited e) :=
  inferInstanceAs (Decidable (_ ∧ _))

/-- The edge that the scan adds next. -/
def nextEdge (g : Graph) (visited : OrdSet String) : Option Edge :=
  g.weightSortedEdges.find? fun e => g.Crosses visited e

/-- The tree that adding one edge after the other leads to. -/
inductive Grows (g : Graph) : OrdSet String → OrdSet EdgeKey → OrdSet EdgeKey → Prop
  | done {visited : OrdSet String} {tree : OrdSet EdgeKey} (h : g.nextEdge visited = none) :
      Grows g visited tree tree
  | add {visited : OrdSet String} {tree tree' : OrdSet EdgeKey} {e : Edge}
      (h : g.nextEdge visited = some e)
      (hrest : Grows g ((visited.insert e.fromNode ()).insert e.toNode ())
        ((tree.insert e.key ()).insert e.key.reverse ()) tree') : Grows g visited tree tree'

/-- A tree grows in one way only. -/
lemma Grows.unique {visited : OrdSet String} {tree tree₁ tree₂ : OrdSet EdgeKey}
    (h₁ : g.Grows visited tree tree₁) (h₂ : g.Grows visited tree tree₂) : tree₁ = tree₂ := by
  induction h₁ with
  | done hnone =>
      cases h₂ with
      | done => rfl
      | add hsome => rw [hnone] at hsome; cases hsome
  | add hsome _ ih =>
      cases h₂ with
      | done hnone => rw [hnone] at hsome; cases hsome
      | add hsome' hrest =>
          obtain rfl := Option.some.inj (hsome.symm.trans hsome')
          exact ih hrest

/-- **The scan adds one edge after the other.** -/
lemma grows_mstScan {fuel : ℕ} {st : MstState} (h : g.Passed g.weightSortedEdges st)
    (hfuel : remaining g.weightSortedEdges st ≤ fuel) :
    g.Grows st.visited st.mstEdges (g.mstScan g.weightSortedEdges fuel st).mstEdges := by
  have hdone : ∀ st : MstState, g.Passed g.weightSortedEdges st →
      g.weightSortedEdges[st.index]? = none → g.Grows st.visited st.mstEdges st.mstEdges := by
    refine fun st h hend => .done (List.find?_eq_none.mpr fun e he => ?_)
    obtain ⟨i, hi⟩ := List.mem_iff_getElem?.mp he
    have hlt : i < st.index :=
      lt_of_lt_of_le (List.getElem?_eq_some_iff.mp hi).1 (List.getElem?_eq_none_iff.mp hend)
    have hpassed : ¬ g.Crosses st.visited e := h.passed i e hi hlt
    simpa using hpassed
  induction fuel generalizing st with
  | zero =>
      refine hdone st h (List.getElem?_eq_none_iff.mpr ?_)
      simp only [remaining] at hfuel
      omega
  | succ fuel ih =>
      rw [mstScan]
      cases he : g.weightSortedEdges[st.index]? with
      | none => exact hdone st h he
      | some e =>
          have hrest := ih (h.step he) (by have := remaining_mstStep (g := g) he; omega)
          show g.Grows st.visited st.mstEdges
            (g.mstScan g.weightSortedEdges fuel (g.mstStep st e)).mstEdges
          rcases mstStep_cases g st e with ⟨-, hstep⟩ | ⟨hc, hstep⟩
          · rw [hstep] at hrest ⊢
            exact hrest
          · rw [hstep] at hrest ⊢
            refine .add ?_ hrest
            obtain ⟨hlt, heq⟩ := List.getElem?_eq_some_iff.mp he
            refine List.find?_eq_some_iff_getElem.mpr
              ⟨decide_eq_true hc, st.index, hlt, heq, fun j hj => ?_⟩
            have hpassed : ¬ g.Crosses st.visited _ :=
              h.passed j _ (List.getElem?_eq_getElem (hj.trans hlt)) hj
            simpa using hpassed

/-- The first edge of the sorted list that passes a test is the one of least rank. -/
lemma find?_weightSortedEdges (hg : g.WellFormed) {p : Edge → Bool} {e : Edge} :
    g.weightSortedEdges.find? p = some e ↔ (g.edges.get? e.key = some e ∧ p e = true) ∧
      ∀ e', g.edges.get? e'.key = some e' ∧ p e' = true → e.RankLe e' := by
  have hleast : ∀ e, g.weightSortedEdges.find? p = some e →
      (g.edges.get? e.key = some e ∧ p e = true) ∧
        ∀ e', g.edges.get? e'.key = some e' ∧ p e' = true → e.RankLe e' := by
    intro e he
    obtain ⟨hp, before, after, hsplit, hbefore⟩ := List.find?_eq_some_iff_append.mp he
    refine ⟨⟨(mem_weightSortedEdges hg).mp (List.mem_of_find?_eq_some he), hp⟩, ?_⟩
    rintro e' ⟨he', hp'⟩
    have hmem := (mem_weightSortedEdges hg).mpr he'
    have hsorted : g.weightSortedEdges.Pairwise Edge.RankLe :=
      List.pairwise_insertionSort Edge.RankLe _
    rw [hsplit] at hmem hsorted
    rcases List.mem_append.mp hmem with hmem | hmem
    · have := hbefore e' hmem
      rw [hp'] at this
      cases this
    · rcases List.mem_cons.mp hmem with rfl | hmem
      · exact le_refl e'.rank
      · exact (List.pairwise_cons.mp (List.pairwise_append.mp hsorted).2.1).1 e' hmem
  refine ⟨hleast e, ?_⟩
  rintro ⟨⟨he, hp⟩, hmin⟩
  cases hfind : g.weightSortedEdges.find? p with
  | none =>
      have := List.find?_eq_none.mp hfind e ((mem_weightSortedEdges hg).mpr he)
      exact absurd hp this
  | some e₀ =>
      -- two edges of least rank have the same key
      obtain ⟨⟨he₀, hp₀⟩, hmin₀⟩ := hleast e₀ hfind
      have hrank : e₀.rank = e.rank := le_antisymm (hmin₀ e ⟨he, hp⟩) (hmin e₀ ⟨he₀, hp₀⟩)
      have hkey : e₀.key = e.key := by
        have hends := congrArg (fun r => (ofLex (ofLex r).2)) hrank
        exact EdgeKey.toProd_injective (congrArg toLex hends)
      rw [hkey, he] at he₀
      exact congrArg some (Option.some.inj he₀).symm

lemma find?_congr (hg : g.WellFormed) (hg' : g'.WellFormed) {p p' : Edge → Bool}
    (h : ∀ e, g'.edges.get? e.key = some e ∧ p' e = true ↔
      g.edges.get? e.key = some e ∧ p e = true) :
    g'.weightSortedEdges.find? p' = g.weightSortedEdges.find? p := by
  refine Option.ext fun e => ?_
  rw [find?_weightSortedEdges hg, find?_weightSortedEdges hg', h]
  simp only [h]

/-- The edges across the boundary of a set of nodes of the component are those of both graphs. -/
lemma AgreeOn.nextEdge_eq (h : AgreeOn g g') (hg : g.WellFormed) (hg' : g'.WellFormed)
    {visited : OrdSet String} (hvisited : ∀ v ∈ visited.keys, g.Joined g.myself v) :
    g'.nextEdge visited = g.nextEdge visited := by
  refine find?_congr hg hg' fun e => ?_
  rw [decide_eq_true_iff, decide_eq_true_iff]
  -- one of the ends is visited, so both ends belong to the component
  have hends : g.Linked e.fromNode e.toNode →
      (e.fromNode ∈ visited.keys ↔ e.toNode ∉ visited.keys) → g.Joined g.myself e.fromNode := by
    intro hlink hcross
    by_cases hfrom : e.fromNode ∈ visited.keys
    · exact hvisited _ hfrom
    · exact (hvisited _ (not_not.mp (mt hcross.mpr hfrom))).tail hlink.symm
  constructor
  · rintro ⟨he, hrev, hcross⟩
    have he₀ := h.edge_of _ e he
    obtain ⟨r, hr⟩ := OrdMap.mem_keys.mp (OrdMap.contains_eq_true.mp hrev)
    have hlink : g.Linked e.fromNode e.toNode :=
      ⟨OrdMap.mem_keys.mpr ⟨e, he₀⟩, OrdMap.mem_keys.mpr ⟨r, h.edge_of _ r hr⟩⟩
    exact ⟨he₀, h.hasReverseEdge_eq (hends hlink hcross) he₀ ▸ hrev, hcross⟩
  · rintro ⟨he, hrev, hcross⟩
    have hfrom := hends (linked_of_hasReverseEdge he hrev) hcross
    exact ⟨(h.edge_eq e.key hfrom).trans he, (h.hasReverseEdge_eq hfrom he).trans hrev, hcross⟩

/-- A tree of the component grows in the same way in both graphs. -/
lemma AgreeOn.grows (h : AgreeOn g g') (hg : g.WellFormed) (hg' : g'.WellFormed)
    {visited : OrdSet String} {tree tree' : OrdSet EdgeKey}
    (hvisited : ∀ v ∈ visited.keys, g.Joined g.myself v) (hgrows : g.Grows visited tree tree') :
    g'.Grows visited tree tree' := by
  induction hgrows with
  | done hnone => exact .done ((h.nextEdge_eq hg hg' hvisited).trans hnone)
  | @add visited tree tree' e hsome _ ih =>
      refine .add ((h.nextEdge_eq hg hg' hvisited).trans hsome) (ih fun v hv => ?_)
      obtain ⟨⟨he, hp⟩, -⟩ := (find?_weightSortedEdges hg).mp hsome
      obtain ⟨hrev, hcross⟩ := of_decide_eq_true hp
      have hlink := linked_of_hasReverseEdge he hrev
      have hfrom : g.Joined g.myself e.fromNode := by
        by_cases hfrom : e.fromNode ∈ visited.keys
        · exact hvisited _ hfrom
        · exact (hvisited _ (not_not.mp (mt hcross.mpr hfrom))).tail hlink.symm
      rw [OrdMap.mem_keys_insert, OrdMap.mem_keys_insert] at hv
      rcases hv with rfl | rfl | hv
      · exact hfrom.tail hlink
      · exact hfrom
      · exact hvisited v hv

/-- **The scan of a graph that agrees on the component of the owner** gives the same tree, when the
nodes flagged reachable are those of the component. -/
lemma mstKruskal_agree (h : AgreeOn g g') (hg : g.WellFormed) (hg' : g'.WellFormed)
    (hreach : ∀ k, g.isReachable k = true ↔ g.Joined g.myself k)
    (hreach' : ∀ k, g'.isReachable k = true ↔ g.Joined g.myself k) :
    g'.mstKruskal.mstEdges = g.mstKruskal.mstEdges := by
  have hstart : (g'.weightSortedEdges.find? fun e => g'.isReachable e.fromNode) =
      g.weightSortedEdges.find? fun e => g.isReachable e.fromNode := by
    refine find?_congr hg hg' fun e => ?_
    rw [hreach, hreach']
    exact and_congr_left fun hjoined => by rw [h.edge_eq e.key hjoined]
  have hgrows : ∀ (c : Graph) (start : Edge),
      c.Grows (OrdMap.empty.insert start.fromNode ()) OrdMap.empty
        (c.mstScan c.weightSortedEdges (c.weightSortedEdges.length *
          (c.weightSortedEdges.length + 1) + c.weightSortedEdges.length)
          ⟨OrdMap.empty.insert start.fromNode (), OrdMap.empty, false, 0⟩).mstEdges :=
    fun c start => @grows_mstScan c _
      ⟨OrdMap.empty.insert start.fromNode (), OrdMap.empty, false, 0⟩
      ⟨fun i _ _ hlt => absurd hlt (Nat.not_lt_zero i),
        fun _ i _ _ hlt => absurd hlt (Nat.not_lt_zero i)⟩ (remaining_le _ _)
  rw [mstKruskal, mstKruskal, hstart]
  cases hfind : g.weightSortedEdges.find? fun e => g.isReachable e.fromNode with
  | none => rfl
  | some start =>
      have hjoined : g.Joined g.myself start.fromNode :=
        (hreach _).mp (by simpa using List.find?_some hfind)
      refine (hgrows g' start).unique (h.grows hg hg' (fun v hv => ?_) (hgrows g start))
      rw [OrdMap.mem_keys_insert, OrdMap.keys_empty] at hv
      obtain rfl := hv.resolve_right List.not_mem_nil
      exact hjoined

end Agree

end Graph

end RustyTinc

import RustyTinc.Core.Sssp

/-!
Relaying a message hop by hop: every node hands it to the next hop of its own route to the
target, as key requests and key answers travel.

* `RoutedNetwork`: nodes that hold the same edges and have each run the route search;
* `nextHop_linked`: every hand-over goes to a neighbour joined by edges stored in both
  directions;
* `LevelOrder`: a search that goes level by level;
* `ShortInv`: without indirect links the search does, so that it finds the least number of hops,
  and the next hop of a node lies on a chain of links of that length;
* `relay_of_direct`: then relaying decreases the distance at every hand-over, so it visits no
  node twice and ends at the target;
* `relay_loops`: with indirect links two nodes can hand a message to each other for ever.
-/

namespace RustyTinc

namespace Graph

/-- The next hop of the route to a node. -/
def nextHop (g : Graph) (target : String) : Option String :=
  (g.node target).bind fun n => n.route.nextHop

/-- The number of hops of the route to a node. -/
def hops (g : Graph) (target : String) : ℤ :=
  ((g.node target).bind fun n => n.route.distance).getD 0

/-- No edge that is stored in both directions is marked indirect. -/
def AllDirect (g : Graph) : Prop :=
  ∀ e, g.edges.get? e.key = some e → g.hasReverseEdge e = true → e.isIndirect = false

instance (g : Graph) : Decidable g.AllDirect :=
  decidable_of_iff (∀ x ∈ g.edges.entries, g.edges.get? x.2.key = some x.2 →
    g.hasReverseEdge x.2 = true → x.2.isIndirect = false)
    ⟨fun h e he => h (e.key, e) (OrdMap.mem_entries.mpr he) he, fun h x _ => h x.2⟩

/-- A chain of links of a given length. -/
inductive Steps (g : Graph) : ℕ → String → String → Prop
  | refl (a : String) : Steps g 0 a a
  | tail {n : ℕ} {a b c : String} (hab : Steps g n a b) (hbc : g.Linked b c) : Steps g (n + 1) a c

/-! ### The search without indirect links -/

/-- What every stage of the search keeps when all links are direct: no route is indirect, and
the next hop of another node starts a chain to it that is one hop shorter than its route. -/
structure DirectInv (g₀ g : Graph) : Prop where
  sssp : SsspInv g₀ g
  direct : ∀ k n, g.node k = some n → n.status.visited = true → n.status.indirect = false
  steps : ∀ k, g.Visited k → k ≠ g₀.myself →
    ∃ h, ∃ m : ℕ, g.nextHop k = some h ∧ g.hops k = (m : ℤ) + 1 ∧ g₀.Steps m h k

section Direct

variable {g₀ g : Graph} {name : String} {d : ℤ}

/-- The stage reached by following edges out of a node at distance `d`: known distances are
kept, and new ones are `d + 1`. -/
structure Levels (d : ℤ) (st r : Graph × List String) : Prop where
  same : ∀ k, st.1.Visited k → r.1.hops k = st.1.hops k
  fresh : ∀ k, r.1.Visited k → st.1.Visited k ∨ r.1.hops k = d + 1
  pushed : ∃ new, r.2 = st.2 ++ new ∧ ∀ k ∈ new, r.1.Visited k ∧ r.1.hops k = d + 1

lemma Levels.refl (st : Graph × List String) : Levels d st st :=
  ⟨fun _ _ => rfl, fun _ => Or.inl, [], by simp, by simp⟩

/-- Two runs over a level, one after the other. -/
lemma Levels.trans {st r r' : Graph × List String}
    (hmono : ∀ k, st.1.Visited k → r.1.Visited k) (hmono' : ∀ k, r.1.Visited k → r'.1.Visited k)
    (h : Levels d st r) (h' : Levels d r r') : Levels d st r' where
  same k hk := (h'.same k (hmono k hk)).trans (h.same k hk)
  fresh k hk := by
    rcases h'.fresh k hk with hr | hr
    · rcases h.fresh k hr with hs | hs
      · exact Or.inl hs
      · exact Or.inr ((h'.same k hr).trans hs)
    · exact Or.inr hr
  pushed := by
    obtain ⟨new, hnew, hnew'⟩ := h.pushed
    obtain ⟨more, hmore, hmore'⟩ := h'.pushed
    refine ⟨new ++ more, by rw [hmore, hnew, List.append_assoc], fun k hk => ?_⟩
    rcases List.mem_append.mp hk with hk | hk
    · obtain ⟨hv, hd⟩ := hnew' k hk
      exact ⟨hmono' k hv, (h'.same k hv).trans hd⟩
    · exact hmore' k hk

/-- The state of a source at distance `d` in a graph without indirect links. -/
structure DirectSource (g₀ : Graph) (name : String) (d : ℤ) (src : RouteSourceState) : Prop where
  direct : src.indirect = false
  distance_eq : src.distance = d
  start : (name = g₀.myself ∧ src.nextHop = g₀.myself ∧ d = 0) ∨
    (src.nextHop ≠ g₀.myself ∧ g₀.Linked g₀.myself src.nextHop ∧
      ∃ m : ℕ, d = (m : ℤ) + 1 ∧ g₀.Steps m src.nextHop name)

/-- A visited node is a source for relaxations. -/
lemma DirectInv.source (h : DirectInv g₀ g) (hvis : g.Visited name) :
    ∃ src, g.routeSourceState name = some src ∧ DirectSource g₀ name (g.hops name) src := by
  obtain ⟨n, src, hn, hsrc, hind, hdist, -, hnext, -, hstart⟩ := h.sssp.source hvis
  obtain ⟨n', hn', hv'⟩ := hvis
  rw [hn, Option.some_inj] at hn'
  subst hn'
  have hhops : g.hops name = src.distance := by
    rw [hops, hn, Option.bind_some, hdist, Option.getD_some]
  refine ⟨src, hsrc, ⟨hind.trans (h.direct name n hn hv'), hhops.symm, ?_⟩⟩
  rcases hstart with ⟨hname, hnh, hzero⟩ | ⟨hname, hnh, hlink⟩
  · exact Or.inl ⟨hname, hnh, hhops.trans hzero⟩
  · obtain ⟨x, m, hx, hm, hsteps⟩ := h.steps name ⟨n, hn, hv'⟩ hname
    rw [nextHop, hn, Option.bind_some, hnext, Option.some_inj] at hx
    subst hx
    exact Or.inr ⟨hnh, hlink, m, hm, hsteps⟩

lemma nextHop_modifyNode {k b : String} {f : Node → Node} {n : Node} (hn : g.node k = some n) :
    (g.modifyNode k f).nextHop b = if b = k then (f n).route.nextHop else g.nextHop b := by
  rw [nextHop, node_modifyNode, nextHop]
  split_ifs with hb
  · rw [hb, hn]
    rfl
  · rfl

lemma hops_modifyNode {k b : String} {f : Node → Node} {n : Node} (hn : g.node k = some n) :
    (g.modifyNode k f).hops b = if b = k then (f n).route.distance.getD 0 else g.hops b := by
  rw [hops, node_modifyNode, hops]
  split_ifs with hb
  · rw [hb, hn]
    rfl
  · rfl

/-- A route that is not kept belongs to a node that is new, or has the same distance and more
weight: in both cases the next hop is replaced. -/
lemma updateNextHop_of_not_keep {n : Node} {w : ℤ}
    (hdirect : n.status.visited = true → n.status.indirect = false)
    (hweight : n.status.visited = true → ∃ current, n.route.weightedDistance = some current)
    (hkeep : shouldKeepExistingRoute n false (d + 1) w = false) :
    n.updateNextHop (d + 1) w = true ∧
      (n.status.visited = true → n.route.distance = some (d + 1)) := by
  cases hv : n.status.visited with
  | false => simp [Node.updateNextHop, hv]
  | true =>
      obtain ⟨current, hcurrent⟩ := hweight hv
      simp only [shouldKeepExistingRoute, hv, hdirect hv, hcurrent, Bool.not_false, Bool.true_or,
        Bool.true_and, Bool.or_eq_false_iff, bne_eq_false_iff_eq, Option.any_some,
        decide_eq_false_iff_not, not_le] at hkeep
      obtain ⟨hdist, hlt⟩ := hkeep
      exact ⟨by simp [Node.updateNextHop, hdist, hcurrent, hlt], fun _ => hdist⟩

lemma SsspInv.weightedDistance_isSome (h : SsspInv g₀ g) {k : String} {n : Node}
    (hn : g.node k = some n) (hv : n.status.visited = true) :
    ∃ w, n.route.weightedDistance = some w := by
  obtain ⟨n', src, hn', -, -, -, hw, -⟩ := h.source ⟨n, hn, hv⟩
  rw [hn, Option.some_inj] at hn'
  exact ⟨_, hn' ▸ hw⟩

variable (addWeight : ℤ → ℤ → ℤ)

/-- Following one edge when all links are direct. -/
lemma directInv_relaxEdge (hg : g₀.WellFormed) (hall : g₀.AllDirect) {src : RouteSourceState}
    (hsrc : DirectSource g₀ name d src) {st : Graph × List String} (h : DirectInv g₀ st.1)
    {e : Edge} (hfrom : e.fromNode = name) (he : g₀.edges.get? e.key = some e) :
    DirectInv g₀ (relaxEdge addWeight src st e).1 ∧ Levels d st (relaxEdge addWeight src st e) := by
  have hstart : name = g₀.myself ∧ src.nextHop = g₀.myself ∨
      src.nextHop ≠ g₀.myself ∧ g₀.Linked g₀.myself src.nextHop :=
    hsrc.start.imp (fun h => ⟨h.1, h.2.1⟩) fun h => ⟨h.1, h.2.1⟩
  have hext := (extends_relaxEdge addWeight hg hstart h.sssp hfrom he).1
  obtain ⟨g, pushed⟩ := st
  rcases relaxEdge_cases src g pushed e with ⟨hrel, -⟩ | ⟨n, hn, hme, hrev, hkeep, hrel⟩
  · rw [hrel]
    exact ⟨h, Levels.refl _⟩
  · rw [hrel] at hext ⊢
    have hrev₀ : g₀.hasReverseEdge e = true := h.sssp.hasReverseEdge_eq e ▸ hrev
    have hind : e.isIndirect = false := hall e he hrev₀
    have hlink : g₀.Linked name e.toNode := hfrom ▸ linked_of_hasReverseEdge he hrev₀
    rw [hsrc.direct, hind, hsrc.distance_eq, Bool.or_false] at hkeep
    obtain ⟨hup, hdist⟩ := updateNextHop_of_not_keep (h.direct _ n hn)
      (h.sssp.weightedDistance_isSome hn) hkeep
    have hvis : ∀ k, (g.modifyNode e.toNode (Node.reroute addWeight g.myself src e)).Visited k ↔
        k = e.toNode ∨ g.Visited k := fun k => visited_modifyNode (fun _ => rfl) hn
    have hhops : ∀ k, (g.modifyNode e.toNode (Node.reroute addWeight g.myself src e)).hops k =
        if k = e.toNode then d + 1 else g.hops k := by
      intro k
      rw [hops_modifyNode hn, Node.reroute_distance, hsrc.distance_eq, Option.getD_some]
    refine ⟨⟨hext.inv, fun k n' hn' hv' => ?_, fun k hk hne => ?_⟩, fun k hk => ?_, fun k hk => ?_,
      [e.toNode], rfl, fun k hk => ?_⟩
    · rw [node_modifyNode] at hn'
      split_ifs at hn' with hke
      · obtain ⟨n'', -, rfl⟩ := Option.map_eq_some_iff.mp hn'
        rw [Node.reroute_indirect, hsrc.direct, hind]
        rfl
      · exact h.direct k n' hn' hv'
    · rw [hhops k, nextHop_modifyNode hn]
      by_cases hke : k = e.toNode
      · rw [if_pos hke, if_pos hke]
        have hnext : (n.reroute addWeight g.myself src e).route.nextHop =
            some (if src.nextHop = g.myself then e.toNode else src.nextHop) := by
          simp only [Node.reroute, hsrc.distance_eq, hup, if_true]
        rw [hnext, h.sssp.myself_eq, hke]
        rcases hsrc.start with ⟨-, hnh, rfl⟩ | ⟨hnh, -, m, rfl, hsteps⟩
        · exact ⟨e.toNode, 0, by rw [if_pos hnh], rfl, Steps.refl _⟩
        · exact ⟨src.nextHop, m + 1, by rw [if_neg hnh], by push_cast; ring, hsteps.tail hlink⟩
      · rw [if_neg hke, if_neg hke]
        exact h.steps k (((hvis k).mp hk).resolve_left hke) hne
    · rw [hhops k]
      split_ifs with hke
      · obtain ⟨n', hn', hv'⟩ := hk
        rw [hke, hn, Option.some_inj] at hn'
        rw [hops, hke, hn, Option.bind_some, hdist (hn' ▸ hv'), Option.getD_some]
      · rfl
    · rcases (hvis k).mp hk with hke | hk
      · exact Or.inr (by rw [hhops k, if_pos hke])
      · exact Or.inl hk
    · rw [List.mem_singleton.mp hk]
      exact ⟨(hvis _).mpr (Or.inl rfl), by rw [hhops, if_pos rfl]⟩

/-- The relaxations of a visit keep the routes direct and stay on the next level. -/
lemma directInv_foldl (hg : g₀.WellFormed) (hall : g₀.AllDirect) {src : RouteSourceState}
    (hsrc : DirectSource g₀ name d src) (es : List Edge)
    (hes : ∀ e ∈ es, e.fromNode = name ∧ g₀.edges.get? e.key = some e)
    {st : Graph × List String} (h : DirectInv g₀ st.1) :
    DirectInv g₀ (es.foldl (relaxEdge addWeight src) st).1 ∧
      Levels d st (es.foldl (relaxEdge addWeight src) st) := by
  have hstart : name = g₀.myself ∧ src.nextHop = g₀.myself ∨
      src.nextHop ≠ g₀.myself ∧ g₀.Linked g₀.myself src.nextHop :=
    hsrc.start.imp (fun h => ⟨h.1, h.2.1⟩) fun h => ⟨h.1, h.2.1⟩
  induction es generalizing st with
  | nil => exact ⟨h, Levels.refl st⟩
  | cons e es ih =>
      obtain ⟨hfrom, he⟩ := hes e (by simp)
      have hes' := fun e' (he' : e' ∈ es) => hes e' (by simp [he'])
      obtain ⟨hinv, hlev⟩ := directInv_relaxEdge addWeight hg hall hsrc h hfrom he
      obtain ⟨hinv', hlev'⟩ := ih hes' hinv
      have hmono := (extends_relaxEdge addWeight hg hstart h.sssp hfrom he).1.mono
      have hmono' := (extends_foldl addWeight hg hstart es hes' hinv.sssp).1.mono
      exact ⟨hinv', hlev.trans hmono hmono' hlev'⟩

lemma directInv_ssspVisit (hg : g₀.WellFormed) (hall : g₀.AllDirect) (h : DirectInv g₀ g)
    (hvis : g.Visited name) :
    DirectInv g₀ (g.ssspVisit addWeight name).1 ∧
      Levels (g.hops name) (g, []) (g.ssspVisit addWeight name) := by
  obtain ⟨src, hsrc, hdsrc⟩ := h.source hvis
  have hes : ∀ e ∈ g.outgoingEdges name, e.fromNode = name ∧ g₀.edges.get? e.key = some e :=
    fun e he => h.sssp.edges_eq ▸ (mem_outgoingEdges (h.sssp.wellFormed hg)).mp he
  have h' : DirectInv g₀ (g, ([] : List String)).1 := h
  rw [ssspVisit, hsrc]
  exact directInv_foldl addWeight hg hall hdsrc _ hes h'

/-- The queue is in order of distance, spans at most one hop, and a node that left it has
its neighbours within one hop of its own distance. -/
structure LevelOrder (g₀ g : Graph) (queue : List String) : Prop where
  queue_visited : ∀ k ∈ queue, g.Visited k
  sorted : queue.Pairwise fun a b => g.hops a ≤ g.hops b
  bound : ∀ a ∈ queue.head?, ∀ k, g.Visited k → g.hops k ≤ g.hops a + 1
  settled : ∀ k, g.Visited k → k ∉ queue →
    ∀ b, g₀.Linked k b → g.Visited b ∧ g.hops b ≤ g.hops k + 1

/-- A visit that keeps the known distances, and queues nodes one hop further, keeps the order. -/
lemma LevelOrder.step {queue : List String} {r : Graph × List String}
    (h : LevelOrder g₀ g (name :: queue)) (hext : Extends g₀ name (g, []) r)
    (hnb : ∀ b, g₀.Linked name b → r.1.Visited b) (hlev : Levels (g.hops name) (g, []) r) :
    LevelOrder g₀ r.1 (queue ++ r.2) := by
  obtain ⟨new, hnew, hnew'⟩ := hlev.pushed
  rw [List.nil_append] at hnew
  obtain ⟨hfirst, hsorted⟩ := List.pairwise_cons.mp h.sorted
  have hqueue : ∀ k ∈ queue, g.Visited k := fun k hk => h.queue_visited k (by simp [hk])
  have hle : ∀ k, g.Visited k → g.hops k ≤ g.hops name + 1 := h.bound name (by simp)
  have hle' : ∀ k, r.1.Visited k → r.1.hops k ≤ g.hops name + 1 := by
    intro k hk
    rcases hlev.fresh k hk with hk | hk
    · rw [hlev.same k hk]
      exact hle k hk
    · exact le_of_eq hk
  refine ⟨fun k hk => ?_, ?_, fun a ha k hk => ?_, fun k hk hkq b hb => ?_⟩
  · rcases List.mem_append.mp hk with hk | hk
    · exact hext.mono k (hqueue k hk)
    · exact (hnew' k (hnew ▸ hk)).1
  · rw [List.pairwise_append]
    refine ⟨hsorted.imp_of_mem fun ha hb hab => ?_, ?_, fun a ha b hb => ?_⟩
    · rw [hlev.same _ (hqueue _ ha), hlev.same _ (hqueue _ hb)]
      exact hab
    · refine List.pairwise_of_forall_mem_list fun a ha b hb => ?_
      rw [(hnew' a (hnew ▸ ha)).2, (hnew' b (hnew ▸ hb)).2]
    · rw [(hnew' b (hnew ▸ hb)).2, hlev.same a (hqueue a ha)]
      exact hle a (hqueue a ha)
  · -- The new head is no closer than the node just processed.
    have hhead : g.hops name ≤ r.1.hops a := by
      rcases List.mem_append.mp (List.mem_of_mem_head? ha) with ha | ha
      · rw [hlev.same a (hqueue a ha)]
        exact hfirst a ha
      · rw [(hnew' a (hnew ▸ ha)).2]
        omega
    have hk' := hle' k hk
    omega
  · obtain ⟨hkq, hkn⟩ := not_or.mp (mt List.mem_append.mpr hkq)
    rcases hext.fresh k hk with hk | ⟨-, hk⟩
    · rw [hlev.same k hk]
      by_cases hkname : k = name
      · rw [hkname] at hb ⊢
        exact ⟨hnb b hb, hle' b (hnb b hb)⟩
      · obtain ⟨hbvis, hset⟩ := h.settled k hk (by simp [hkname, hkq]) b hb
        rw [hlev.same b hbvis]
        exact ⟨hext.mono b hbvis, hset⟩
    · exact absurd hk hkn

/-- At the start only the owner is queued, at distance zero. -/
lemma levelOrder_start (hg : g.WellFormed) :
    LevelOrder g g.ssspReset.ssspStart [g.myself] := by
  obtain ⟨-, hvis⟩ := ssspStart_spec hg
  have howner : ∀ k, g.ssspReset.ssspStart.Visited k → k = g.myself := fun k => (hvis k).mp
  refine ⟨fun k hk => (hvis k).mpr (List.mem_singleton.mp hk), by simp, fun a ha k hk => ?_,
    fun k hk hkq => absurd (List.mem_singleton.mpr (howner k hk)) hkq⟩
  obtain rfl : g.myself = a := by simpa using ha
  rw [howner k hk]
  omega

/-- What the search keeps when all links are direct: the routes of `DirectInv`, found in order of
distance. -/
structure ShortInv (g₀ g : Graph) (queue : List String) : Prop
    extends LevelOrder g₀ g queue where
  inv : DirectInv g₀ g

lemma ShortInv.step (hg : g₀.WellFormed) (hall : g₀.AllDirect) {queue : List String}
    (h : ShortInv g₀ g (name :: queue)) :
    ShortInv g₀ (g.ssspVisit addWeight name).1
      (queue ++ (g.ssspVisit addWeight name).2) := by
  have hname : g.Visited name := h.queue_visited name (by simp)
  obtain ⟨hinv, hlev⟩ := directInv_ssspVisit addWeight hg hall h.inv hname
  obtain ⟨hext, hnb⟩ := extends_ssspVisit addWeight hg h.inv.sssp hname
  exact ⟨h.toLevelOrder.step hext hnb hlev, hinv⟩

lemma shortInv_start (hg : g.WellFormed) :
    ShortInv g g.ssspReset.ssspStart [g.myself] := by
  obtain ⟨hinv, hvis⟩ := ssspStart_spec hg
  have howner : ∀ k, g.ssspReset.ssspStart.Visited k → k = g.myself := fun k => (hvis k).mp
  refine ⟨levelOrder_start hg, hinv, fun k n hn hv => ?_,
    fun k hk hne => absurd (howner k hk) hne⟩
  obtain ⟨n', hn', -, hind, -⟩ := hinv.own
  rw [howner k ⟨n, hn, hv⟩, hn', Option.some_inj] at hn
  exact hn ▸ hind

/-- **Least hops**: when all links are direct, a search that returns gives every node a next
hop from which it is one hop closer, and no chain of links is shorter than the route. -/
theorem ssspBfs_direct {g' : Graph} (hg : g.WellFormed) (hall : g.AllDirect) {fuel : ℕ}
    (hrun : g.ssspBfs addWeight fuel = some g') :
    DirectInv g g' ∧ ∀ m b, g.Steps m g.myself b → g'.hops b ≤ m := by
  have hvis := (ssspBfs_spec hg hrun).2
  rw [ssspBfs_eq_run hg] at hrun
  have hshort := Worklist.run_inv (P := ShortInv g)
    (fun _ _ _ h => h.step addWeight hg hall) hrun (shortInv_start hg)
  refine ⟨hshort.inv, fun m b hsteps => ?_⟩
  have hown : g'.hops g.myself = 0 := by
    obtain ⟨n, hn, -, -, hroute⟩ := hshort.inv.sssp.own
    rw [hops, hn, Option.bind_some, hroute]
    rfl
  have key : ∀ m a b, g.Steps m a b → a = g.myself → g'.Visited b ∧ g'.hops b ≤ m := by
    intro m a b hsteps ha
    induction hsteps with
    | refl a =>
        rw [ha, hown]
        exact ⟨(hvis _).mpr Relation.ReflTransGen.refl, le_rfl⟩
    | tail _ hbc ih =>
        obtain ⟨hb, hle⟩ := ih ha
        obtain ⟨hc, hle'⟩ := hshort.settled _ hb (by simp) _ hbc
        refine ⟨hc, ?_⟩
        push_cast
        omega
  exact (key m _ b hsteps rfl).2

end Direct

/-! ### Relaying -/

/-- Every node of a network holds the nodes and edges of `base` in its own graph, with itself
as the owner, and has run the route search with the result `tables`. -/
structure RoutedNetwork (addWeight : ℤ → ℤ → ℤ) (base : Graph) (tables : String → Graph) :
    Prop where
  wellFormed : base.WellFormed
  routed : ∀ a ∈ base.nodes.keys, ∃ (g : Graph) (fuel : ℕ), g.WellFormed ∧
    g.myself = a ∧ g.nodes.keys = base.nodes.keys ∧ g.edges = base.edges ∧
      g.ssspBfs addWeight fuel = some (tables a)

/-- The nodes through which a message for `target` passes when every node hands it to its own
next hop, up to its arrival. -/
inductive Relayed (tables : String → Graph) (target : String) : String → List String → Prop
  | arrived : Relayed tables target target [target]
  | hand {a b : String} {path : List String} (hne : a ≠ target)
      (hnext : (tables a).nextHop target = some b) (hrest : Relayed tables target b path) :
      Relayed tables target a (a :: path)

section Relay

variable {addWeight : ℤ → ℤ → ℤ} {base : Graph} {tables : String → Graph}

/-- A reachable target has a next hop, and it is linked to the node. -/
lemma RoutedNetwork.nextHop_linked (h : RoutedNetwork addWeight base tables) {a t : String}
    (ha : a ∈ base.nodes.keys) (hne : t ≠ a) :
    (base.Joined a t → ∃ b, (tables a).nextHop t = some b) ∧
      ∀ b, (tables a).nextHop t = some b → base.Linked a b := by
  obtain ⟨g, fuel, hg, rfl, -, hedges, hrun⟩ := h.routed a ha
  obtain ⟨hinv, hvis⟩ := ssspBfs_spec hg hrun
  have hkeys := congrArg OrdMap.keys hedges
  have hnext : ∀ n, (tables g.myself).node t = some n → n.status.visited = true →
      ∃ b, (tables g.myself).nextHop t = some b ∧ base.Linked g.myself b := by
    intro n hn hv
    obtain ⟨d, w, b, v, p, hroute, -, hlink⟩ := hinv.routed t n hn hv hne
    rw [linked_congr hkeys.symm]
    exact ⟨b, by rw [nextHop, hn, Option.bind_some, hroute], hlink⟩
  refine ⟨fun hjoin => ?_, fun b hb => ?_⟩
  · rw [joined_congr hkeys.symm] at hjoin
    obtain ⟨n, hn, hv⟩ := (hvis t).mpr hjoin
    obtain ⟨b, hb, -⟩ := hnext n hn hv
    exact ⟨b, hb⟩
  · rw [nextHop] at hb
    obtain ⟨n, hn, hb⟩ := Option.bind_eq_some_iff.mp hb
    cases hv : n.status.visited with
    | true =>
        obtain ⟨b', hb', hlink⟩ := hnext n hn hv
        rw [nextHop, hn, Option.bind_some, hb, Option.some_inj] at hb'
        exact hb' ▸ hlink
    | false =>
        rw [hinv.unrouted t n hn hv] at hb
        exact absurd hb (by simp)

lemma Steps.trans_joined {g : Graph} {m : ℕ} {a b : String} (h : g.Steps m a b) : g.Joined a b := by
  induction h with
  | refl a => exact Relation.ReflTransGen.refl
  | tail _ hbc ih => exact ih.tail hbc

lemma steps_congr {g g' : Graph} (h : g'.edges.keys = g.edges.keys) {m : ℕ} {a b : String}
    (hsteps : g.Steps m a b) : g'.Steps m a b := by
  induction hsteps with
  | refl a => exact Steps.refl a
  | tail _ hbc ih =>
      refine ih.tail ?_
      rw [linked_congr h]
      exact hbc

lemma allDirect_congr {g g' : Graph} (h : g'.edges = g.edges) (hall : g.AllDirect) :
    g'.AllDirect := by
  intro e he hrev
  rw [h] at he
  rw [hasReverseEdge, h] at hrev
  exact hall e he hrev

/-- With direct links only, the next hop is closer to the target than the node. -/
lemma RoutedNetwork.hops_lt (h : RoutedNetwork addWeight base tables) (hall : base.AllDirect)
    {a t : String} (ha : a ∈ base.nodes.keys) (hne : t ≠ a) (hjoin : base.Joined a t) :
    ∃ b, (tables a).nextHop t = some b ∧ base.Linked a b ∧ base.Joined b t ∧
      0 ≤ (tables b).hops t ∧ (tables b).hops t < (tables a).hops t := by
  obtain ⟨b, hb⟩ := (h.nextHop_linked ha hne).1 hjoin
  have hlink := (h.nextHop_linked ha hne).2 b hb
  have hbmem := hlink.mem_right h.wellFormed
  obtain ⟨g, fuel, hg, rfl, -, hedges, hrun⟩ := h.routed a ha
  have hkeys := congrArg OrdMap.keys hedges
  obtain ⟨hdirect, -⟩ := ssspBfs_direct addWeight hg (allDirect_congr hedges hall) hrun
  have hvis : (tables g.myself).Visited t := by
    rw [(ssspBfs_spec hg hrun).2, joined_congr hkeys]
    exact hjoin
  obtain ⟨b', m, hb', hm, hsteps⟩ := hdirect.steps t hvis hne
  obtain rfl : b = b' := Option.some_inj.mp (hb.symm.trans hb')
  have hsteps' : base.Steps m b t := steps_congr hkeys.symm hsteps
  -- The search of the next hop sees the same chain, so its route is no longer than it.
  obtain ⟨g', fuel', hg', rfl, -, hedges', hrun'⟩ := h.routed b hbmem
  have hkeys' := congrArg OrdMap.keys hedges'
  obtain ⟨hdirect', hle⟩ := ssspBfs_direct addWeight hg' (allDirect_congr hedges' hall) hrun'
  have hle' := hle m t (steps_congr hkeys' hsteps')
  refine ⟨_, hb, hlink, hsteps'.trans_joined, ?_, by omega⟩
  by_cases htb : t = g'.myself
  · obtain ⟨n, hn, -, -, hroute⟩ := hdirect'.sssp.own
    rw [htb, hops, hn, Option.bind_some, hroute]
    exact le_rfl
  · have hvis' : (tables g'.myself).Visited t := by
      rw [(ssspBfs_spec hg' hrun').2, joined_congr hkeys']
      exact hsteps'.trans_joined
    obtain ⟨-, m', -, hm', -⟩ := hdirect'.steps t hvis' htb
    omega

/-- The relay path from a node, along which the distance to the target decreases. -/
lemma RoutedNetwork.exists_relayed (h : RoutedNetwork addWeight base tables)
    (hall : base.AllDirect) {t : String} (n : ℕ) {a : String} (ha : a ∈ base.nodes.keys)
    (hjoin : base.Joined a t) (hn : (tables a).hops t ≤ n) :
    ∃ path, Relayed tables t a (a :: path) ∧ (a :: path).IsChain base.Linked ∧
      (a :: path).Pairwise fun x y => (tables y).hops t < (tables x).hops t := by
  induction n generalizing a with
  | zero =>
      by_cases hne : t = a
      · exact ⟨[], hne ▸ Relayed.arrived, by simp, by simp⟩
      · obtain ⟨b, -, -, -, hpos, hlt⟩ := h.hops_lt hall ha hne hjoin
        push_cast at hn
        omega
  | succ n ih =>
      by_cases hne : t = a
      · exact ⟨[], hne ▸ Relayed.arrived, by simp, by simp⟩
      · obtain ⟨b, hb, hlink, hbt, -, hlt⟩ := h.hops_lt hall ha hne hjoin
        obtain ⟨path, hrel, hchain, hdec⟩ :=
          ih (hlink.mem_right h.wellFormed) hbt (by push_cast at hn; omega)
        refine ⟨b :: path, Relayed.hand (Ne.symm hne) hb hrel, ?_, ?_⟩
        · exact List.isChain_cons_cons.mpr ⟨hlink, hchain⟩
        · refine List.pairwise_cons.mpr ⟨fun y hy => ?_, hdec⟩
          rcases List.mem_cons.mp hy with rfl | hy
          · exact hlt
          · exact lt_trans ((List.pairwise_cons.mp hdec).1 y hy) hlt

/-- **Hop-by-hop progress**: a hand-over always goes to a neighbour joined by edges stored in
both directions, and reachable targets have one; and when no such edge is marked indirect,
relaying from any node to a target that it can reach visits no node twice and ends there. -/
theorem relay_of_direct (h : RoutedNetwork addWeight base tables) :
    (∀ a ∈ base.nodes.keys, ∀ t, t ≠ a →
      (base.Joined a t → ∃ b, (tables a).nextHop t = some b) ∧
        ∀ b, (tables a).nextHop t = some b → base.Linked a b) ∧
    (base.AllDirect → ∀ s ∈ base.nodes.keys, ∀ t, t ≠ s → base.Joined s t →
      ∃ path, Relayed tables t s path ∧ path.IsChain base.Linked ∧ path.Nodup) := by
  refine ⟨fun a ha t hne => h.nextHop_linked ha hne, fun hall s hs t hne hjoin => ?_⟩
  obtain ⟨path, hrel, hchain, hdec⟩ :=
    h.exists_relayed hall ((tables s).hops t).toNat hs hjoin (Int.self_le_toNat _)
  exact ⟨_, hrel, hchain, hdec.imp fun hlt heq => by simp [heq] at hlt⟩

end Relay

/-! ### Two networks -/

/-- Nodes that hold these edges, each stored in both directions with the same weight and
options. -/
def ofLinks (names : List String) (links : List (String × String × ℤ × UInt32)) : Graph where
  myself := names.headD ""
  nodes := names.foldl (fun nodes name => nodes.insert name { name := name }) OrdMap.empty
  edges := links.foldl (fun edges l =>
    (edges.insert ⟨l.1, l.2.1⟩
      { fromNode := l.1, toNode := l.2.1, weight := l.2.2.1, options := l.2.2.2 }).insert
      ⟨l.2.1, l.1⟩
      { fromNode := l.2.1, toNode := l.1, weight := l.2.2.1, options := l.2.2.2 }) OrdMap.empty
  mstEdges := OrdMap.empty

/-- The result of the route search of one node of a network. -/
def tableOf (base : Graph) (a : String) : Graph :=
  (({ base with myself := a } : Graph).ssspBfs addI32 100).getD base

lemma routedNetwork_tableOf {base : Graph} (hg : base.WellFormed)
    (h : ∀ a ∈ base.nodes.keys,
      (({ base with myself := a } : Graph).ssspBfs addI32 100).isSome = true) :
    RoutedNetwork addI32 base base.tableOf := by
  refine ⟨hg, fun a ha => ⟨{ base with myself := a }, 100, ?_, rfl, rfl, rfl, ?_⟩⟩
  · exact ⟨hg.name_eq, hg.key_eq, hg.ends_mem, ha⟩
  · obtain ⟨g, hrun⟩ := Option.isSome_iff_exists.mp (h a ha)
    rw [tableOf, hrun, Option.getD_some]

/-- A square with a diagonal: the links at `c` and the diagonal `a`-`d` are indirect. -/
def loopNetwork : Graph :=
  ofLinks ["a", "b", "c", "d"]
    [("a", "b", 5, 0), ("a", "c", 14, optionIndirect), ("a", "d", 20, optionIndirect),
      ("b", "d", 2, 0), ("c", "d", 3, 0)]

/-- **A relay loop**: in the square, `c` and `d` hand a message for `a` to each other, so not
every relay ends. -/
theorem relay_loops : ¬ ∀ (base : Graph) (tables : String → Graph),
    RoutedNetwork addI32 base tables → ∀ s ∈ base.nodes.keys, ∀ t, t ≠ s → base.Joined s t →
      ∃ path, Relayed tables t s path ∧ path.IsChain base.Linked ∧ path.Nodup := by
  intro hclaim
  have hnet : RoutedNetwork addI32 loopNetwork loopNetwork.tableOf :=
    routedNetwork_tableOf (by decide +kernel) (by decide +kernel)
  have hjoin : loopNetwork.Joined "c" "a" := Relation.ReflTransGen.single (by decide +kernel)
  have hc : (loopNetwork.tableOf "c").nextHop "a" = some "d" := by decide +kernel
  have hd : (loopNetwork.tableOf "d").nextHop "a" = some "c" := by decide +kernel
  have hloop : ∀ s path, Relayed loopNetwork.tableOf "a" s path → s ≠ "c" ∧ s ≠ "d" := by
    intro s path hrel
    induction hrel with
    | arrived => exact ⟨by decide, by decide⟩
    | hand _ hnext _ ih =>
        refine ⟨?_, ?_⟩
        · rintro rfl
          exact ih.2 (Option.some_inj.mp (hnext.symm.trans hc))
        · rintro rfl
          exact ih.1 (Option.some_inj.mp (hnext.symm.trans hd))
  obtain ⟨path, hrel, -⟩ := hclaim loopNetwork _ hnet "c" (by decide +kernel) "a" (by decide) hjoin
  exact (hloop "c" path hrel).1 rfl

/-- Three nodes in a row. -/
def lineNetwork : Graph := ofLinks ["a", "b", "c"] [("a", "b", 5, 0), ("b", "c", 7, 0)]

theorem relay_of_direct_line :
    ∃ path, Relayed lineNetwork.tableOf "c" "a" path ∧ path.Nodup := by
  have hnet : RoutedNetwork addI32 lineNetwork lineNetwork.tableOf :=
    routedNetwork_tableOf (by decide +kernel) (by decide +kernel)
  have hjoin : lineNetwork.Joined "a" "c" :=
    (Relation.ReflTransGen.single (by decide +kernel : lineNetwork.Linked "a" "b")).tail
      (by decide +kernel)
  obtain ⟨path, hrel, -, hnodup⟩ := (relay_of_direct hnet).2 (by decide +kernel) "a"
    (by decide +kernel) "c" (by decide) hjoin
  exact ⟨path, hrel, hnodup⟩

end Graph

end RustyTinc

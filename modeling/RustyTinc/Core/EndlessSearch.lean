import RustyTinc.Core.SearchReturns

/-!
A search that goes on for ever.

* `shift`: the graph with other distances and weights at some of its nodes;
* `ssspVisit_shift`: a visit does the same in both, as long as the other nodes keep their routes;
* `endless_never_returns`: six visits of `endlessNetwork` lead to a shift of the same graph, with
  the same queue.
-/

namespace RustyTinc

/-- A route that is longer by `d` hops and heavier by `w`. -/
def RouteState.shift (d w : ℤ) (r : RouteState) : RouteState :=
  { r with
    distance := r.distance.map (· + d)
    weightedDistance := r.weightedDistance.map (· + w) }

/-- The route of a node, longer by `d` steps and heavier by `w`. -/
def Node.shift (d w : ℤ) (n : Node) : Node := { n with route := n.route.shift d w }

/-- The same for the source of a relaxation. -/
def RouteSourceState.shift (d w : ℤ) (src : RouteSourceState) : RouteSourceState :=
  { src with distance := src.distance + d, weightedDistance := src.weightedDistance + w }

namespace Graph

/-- The graph in which the routes of the listed nodes are shifted. -/
def shift (S : List String) (d w : ℤ) (g : Graph) : Graph :=
  { g with nodes := g.nodes.mapValues fun k n => if k ∈ S then n.shift d w else n }

/-- The nodes that are not listed have a direct route of at most `D` hops. -/
def SettledOff (S : List String) (D : ℤ) (g : Graph) : Prop :=
  ∀ k n, g.node k = some n → k ∉ S →
    n.status.visited = true ∧ n.status.indirect = false ∧
      n.route.distance.any (fun d => d ≤ D) = true

instance (S : List String) (D : ℤ) (g : Graph) : Decidable (g.SettledOff S D) :=
  decidable_of_iff (∀ x ∈ g.nodes.entries, x.1 ∉ S →
    x.2.status.visited = true ∧ x.2.status.indirect = false ∧
      x.2.route.distance.any (fun d => d ≤ D) = true)
    ⟨fun h k n hn => h (k, n) (OrdMap.mem_entries.mpr hn),
      fun h x hx => h x.1 x.2 (OrdMap.mem_entries.mp hx)⟩

section Shift

variable {S : List String} {D d w : ℤ} {g : Graph} {src : RouteSourceState}

lemma node_shift (S : List String) (d w : ℤ) (g : Graph) (k : String) :
    (g.shift S d w).node k = (g.node k).map fun n => if k ∈ S then n.shift d w else n :=
  OrdMap.get?_mapValues _ _ _

lemma ext_node {g g' : Graph} (hme : g.myself = g'.myself) (hedges : g.edges = g'.edges)
    (hmst : g.mstEdges = g'.mstEdges) (hnode : ∀ k, g.node k = g'.node k) : g = g' := by
  obtain ⟨_, nodes, _, _⟩ := g
  obtain ⟨_, nodes', _, _⟩ := g'
  obtain rfl : nodes = nodes' := OrdMap.ext_get? hnode
  subst hme hedges hmst
  rfl

lemma shift_zero (S : List String) (g : Graph) : g.shift S 0 0 = g := by
  refine ext_node rfl rfl rfl fun k => ?_
  rw [node_shift]
  cases g.node k with
  | none => rfl
  | some n => simp [Node.shift, RouteState.shift]

lemma shift_shift (S : List String) (d w d' w' : ℤ) (g : Graph) :
    (g.shift S d w).shift S d' w' = g.shift S (d + d') (w + w') := by
  refine ext_node rfl rfl rfl fun k => ?_
  rw [node_shift, node_shift, node_shift, Option.map_map]
  refine congrArg (Option.map · (g.node k)) (funext fun n => ?_)
  by_cases hk : k ∈ S
  · have hadd : ∀ a b : ℤ, ((fun x => x + b) ∘ fun x => x + a) = fun x => x + (a + b) :=
      fun a b => funext fun x => add_assoc x a b
    simp [hk, Node.shift, RouteState.shift, Option.map_map, hadd]
  · simp [hk]

/-- A shifted node is a shifted source. -/
lemma routeSourceState_shift {name : String} (hname : name ∈ S)
    (hsrc : g.routeSourceState name = some src) :
    (g.shift S d w).routeSourceState name = some (src.shift d w) := by
  rw [routeSourceState] at hsrc ⊢
  rw [node_shift]
  cases hn : g.node name with
  | none => simp [hn] at hsrc
  | some n =>
      obtain ⟨⟨_ | dist, _ | weight, _ | hop, p, _ | via⟩, hroute⟩ : ∃ r, n.route = r := ⟨_, rfl⟩
      all_goals simp [hn, hroute] at hsrc
      subst hsrc
      simp [hname, Node.shift, RouteState.shift, hroute, RouteSourceState.shift]

lemma map_add_beq (o : Option ℤ) (x a : ℤ) : (o.map (· + a) == some (x + a)) = (o == some x) := by
  rw [Bool.eq_iff_iff, beq_iff_eq, beq_iff_eq]
  cases o <;> simp

lemma any_map_add_le (o : Option ℤ) (x a : ℤ) :
    ((o.map (· + a)).any fun current => current ≤ x + a) = o.any fun current => current ≤ x := by
  cases o <;> simp

lemma any_map_add_gt (o : Option ℤ) (x a : ℤ) :
    ((o.map (· + a)).any fun current => current > x + a) = o.any fun current => current > x := by
  cases o <;> simp

lemma shouldKeepExistingRoute_shift (n : Node) (indirect : Bool) (dist weight d w : ℤ) :
    shouldKeepExistingRoute (n.shift d w) indirect (dist + d) (weight + w) =
      shouldKeepExistingRoute n indirect dist weight := by
  simp only [shouldKeepExistingRoute, Node.shift, RouteState.shift, bne, map_add_beq,
    any_map_add_le]

lemma updateNextHop_shift (n : Node) (dist weight d w : ℤ) :
    (n.shift d w).updateNextHop (dist + d) (weight + w) = n.updateNextHop dist weight := by
  simp only [Node.updateNextHop, Node.shift, RouteState.shift, map_add_beq, any_map_add_gt]

lemma reroute_shift (myself : String) (src : RouteSourceState) (e : Edge) (n : Node) (d w : ℤ) :
    (n.shift d w).reroute (· + ·) myself (src.shift d w) e =
      (n.reroute (· + ·) myself src e).shift d w := by
  have hdist : src.distance + d + 1 = src.distance + 1 + d := add_right_comm _ _ _
  have hweight : src.weightedDistance + w + e.weight = src.weightedDistance + e.weight + w :=
    add_right_comm _ _ _
  have hupdate := updateNextHop_shift n (src.distance + 1) (src.weightedDistance + e.weight) d w
  simp only [Node.reroute, RouteSourceState.shift, hdist, hweight, hupdate]
  cases n.updateNextHop (src.distance + 1) (src.weightedDistance + e.weight) <;> rfl

/-- A settled node that is not listed keeps its route. -/
lemma keep_of_settledOff (hoff : g.SettledOff S D) {k : String} {n : Node} (hn : g.node k = some n)
    (hk : k ∉ S) {indirect : Bool} {dist weight : ℤ} (hdist : D < dist) :
    shouldKeepExistingRoute n indirect dist weight = true := by
  obtain ⟨hv, hdir, hd⟩ := hoff k n hn hk
  have hne : n.route.distance ≠ some dist := by
    intro heq
    rw [heq] at hd
    simp only [Option.any_some, decide_eq_true_eq] at hd
    omega
  simp [shouldKeepExistingRoute, hv, hdir, hne]

lemma modifyNode_shift {myself : String} {e : Edge} (hk : e.toNode ∈ S) :
    (g.shift S d w).modifyNode e.toNode (Node.reroute (· + ·) myself (src.shift d w) e) =
      (g.modifyNode e.toNode (Node.reroute (· + ·) myself src e)).shift S d w := by
  refine ext_node rfl rfl rfl fun k => ?_
  rw [node_modifyNode, node_shift, node_shift, node_modifyNode]
  split_ifs with hke hkS
  · rw [Option.map_map, Option.map_map]
    exact congrArg (Option.map · (g.node k)) (funext fun n => reroute_shift myself src e n d w)
  · exact absurd (hke ▸ hk) hkS
  all_goals rfl

lemma SettledOff.modifyNode (hoff : g.SettledOff S D) {k : String} (hk : k ∈ S)
    {f : Node → Node} : (g.modifyNode k f).SettledOff S D := by
  intro k' n hn hk'
  have hne : k' ≠ k := fun heq => hk' (heq ▸ hk)
  rw [node_modifyNode, if_neg hne] at hn
  exact hoff k' n hn hk'

/-- Following an edge out of a listed node does the same before and after the shift, and leaves
the other nodes settled. -/
lemma relaxEdge_shift (hd : 0 ≤ d) (hsrc : D ≤ src.distance) (hoff : g.SettledOff S D)
    (pushed : List String) (e : Edge) :
    relaxEdge (· + ·) (src.shift d w) (g.shift S d w, pushed) e =
      ((relaxEdge (· + ·) src (g, pushed) e).1.shift S d w,
        (relaxEdge (· + ·) src (g, pushed) e).2) ∧
    (relaxEdge (· + ·) src (g, pushed) e).1.SettledOff S D := by
  have hdist : (src.shift d w).distance + 1 = src.distance + 1 + d := add_right_comm _ _ _
  have hweight : (src.shift d w).weightedDistance + e.weight =
      src.weightedDistance + e.weight + w := add_right_comm _ _ _
  have hind : (src.shift d w).indirect = src.indirect := rfl
  have hmyself : (g.shift S d w).myself = g.myself := rfl
  have hreverse : (g.shift S d w).hasReverseEdge e = g.hasReverseEdge e := rfl
  simp only [relaxEdge, hmyself, hreverse, hind, hdist, hweight, node_shift]
  by_cases hskip : e.toNode = g.myself ∨ g.hasReverseEdge e = false
  · rw [if_pos hskip, if_pos hskip]
    exact ⟨rfl, hoff⟩
  · rw [if_neg hskip, if_neg hskip]
    cases hn : g.node e.toNode with
    | none => exact ⟨rfl, hoff⟩
    | some n =>
        simp only [Option.map_some]
        by_cases hk : e.toNode ∈ S
        · rw [if_pos hk, shouldKeepExistingRoute_shift]
          cases shouldKeepExistingRoute n (src.indirect || e.isIndirect) (src.distance + 1)
              (src.weightedDistance + e.weight) with
          | true => exact ⟨rfl, hoff⟩
          | false => exact ⟨congrArg (·, pushed ++ [e.toNode]) (modifyNode_shift hk),
              hoff.modifyNode hk⟩
        · rw [if_neg hk, keep_of_settledOff hoff hn hk (by omega),
            keep_of_settledOff hoff hn hk (by omega)]
          exact ⟨rfl, hoff⟩

lemma foldl_relaxEdge_shift (hd : 0 ≤ d) (hsrc : D ≤ src.distance) (es : List Edge)
    {st : Graph × List String} (hoff : st.1.SettledOff S D) :
    es.foldl (relaxEdge (· + ·) (src.shift d w)) (st.1.shift S d w, st.2) =
      ((es.foldl (relaxEdge (· + ·) src) st).1.shift S d w,
        (es.foldl (relaxEdge (· + ·) src) st).2) := by
  induction es generalizing st with
  | nil => rfl
  | cons e es ih =>
      obtain ⟨hone, hoff'⟩ := relaxEdge_shift hd hsrc hoff st.2 e
      rw [List.foldl_cons, List.foldl_cons, hone]
      exact ih hoff'

/-- **A visit commutes with the shift.** -/
lemma ssspVisit_shift {name : String} (hd : 0 ≤ d) (hname : name ∈ S)
    (hsrc : g.routeSourceState name = some src) (hdist : D ≤ src.distance)
    (hoff : g.SettledOff S D) :
    (g.shift S d w).ssspVisit (· + ·) name =
      ((g.ssspVisit (· + ·) name).1.shift S d w, (g.ssspVisit (· + ·) name).2) := by
  have hoff' : (g, ([] : List String)).1.SettledOff S D := hoff
  rw [ssspVisit, ssspVisit, hsrc, routeSourceState_shift hname hsrc]
  exact foldl_relaxEdge_shift hd hdist _ hoff'

end Shift

/-! ### The endless search -/

/-- The circle from `c` over `d` and `f` has weight minus one, and the edges of the opposite circle
are indirect. -/
def endlessNetwork : Graph :=
  ofEdges ["a", "b", "c", "d", "e", "f"]
    [("a", "b", 0, 0), ("b", "a", 0, 0), ("a", "d", 0, optionIndirect), ("d", "a", 0, 0),
      ("a", "e", 0, 0), ("e", "a", 0, 0), ("a", "f", 0, optionIndirect), ("f", "a", 0, 0),
      ("b", "d", 0, 0), ("d", "b", 0, 0), ("c", "d", 0, 0), ("d", "c", 0, optionIndirect),
      ("c", "f", 0, optionIndirect), ("f", "c", -1, 0), ("d", "e", 0, 0),
      ("e", "d", -1, optionIndirect), ("d", "f", 0, 0), ("f", "d", 0, optionIndirect)]

/-- The nodes around which the search goes without end. -/
def endlessNodes : List String := ["c", "d", "f"]

/-- The search of the network after some iterations. -/
def endlessStage (i : ℕ) : Graph × List String :=
  (Worklist.pop (ssspVisit (· + ·)))^[i] (endlessNetwork.ssspReset.ssspStart, ["a"])

/-- The next node is one of the three, and has a route that is long enough. -/
def nextIsEndless (st : Graph × List String) : Bool :=
  st.2.head?.any fun name => name ∈ endlessNodes &&
    (st.1.routeSourceState name).any fun src => 1 ≤ src.distance

lemma endlessStage_ready : ∀ j : Fin 6, (endlessStage (9 + j)).1.SettledOff endlessNodes 1 ∧
    nextIsEndless (endlessStage (9 + j)) = true := by
  decide +kernel

/-- After six iterations the three nodes have routes that are three hops longer and lighter by
one, and the queue is the same. -/
lemma endlessStage_period : endlessStage 15 =
    ((endlessStage 9).1.shift endlessNodes 3 (-1), (endlessStage 9).2) := by
  decide +kernel

/-- The stages of the search from the ninth iteration on. -/
def Endless (g : Graph) (queue : List String) : Prop :=
  ∃ (j : Fin 6) (d w : ℤ), 0 ≤ d ∧ g = (endlessStage (9 + j)).1.shift endlessNodes d w ∧
    queue = (endlessStage (9 + j)).2

/-- A visit leads from one turn of the search into the next. -/
lemma endless_step {g : Graph} {name : String} {queue : List String}
    (h : Endless g (name :: queue)) :
    Endless (g.ssspVisit (· + ·) name).1 (queue ++ (g.ssspVisit (· + ·) name).2) := by
  obtain ⟨j, d, w, hd, rfl, hqueue⟩ := h
  obtain ⟨hoff, hnext⟩ := endlessStage_ready j
  obtain ⟨⟨s, q⟩, hs⟩ : ∃ st, endlessStage (9 + j) = st := ⟨_, rfl⟩
  rw [hs] at hoff hnext hqueue
  obtain rfl : name :: queue = q := hqueue
  simp only [nextIsEndless, List.head?_cons, Option.any_some, Bool.and_eq_true,
    decide_eq_true_eq, Option.any_eq_true] at hnext
  obtain ⟨hname, src, hsrc, hdist⟩ := hnext
  have hvisit := @ssspVisit_shift _ _ _ w _ _ _ hd hname hsrc hdist hoff
  have hsucc : endlessStage (9 + j + 1) = ((s.ssspVisit (· + ·) name).1,
      queue ++ (s.ssspVisit (· + ·) name).2) := by
    rw [endlessStage, Function.iterate_succ_apply']
    show Worklist.pop _ (endlessStage (9 + j)) = _
    rw [hs]
    rfl
  rw [hs, hvisit]
  by_cases hj : (j : ℕ) < 5
  · exact ⟨⟨j + 1, by omega⟩, d, w, hd, by rw [← add_assoc, hsucc], by rw [← add_assoc, hsucc]⟩
  · have hj5 : (j : ℕ) = 5 := by omega
    rw [hj5, endlessStage_period] at hsucc
    have hgraph := congrArg Prod.fst hsucc
    have hrest := congrArg Prod.snd hsucc
    refine ⟨0, 3 + d, -1 + w, by omega, ?_, hrest.symm⟩
    rw [← shift_shift]
    exact congrArg (shift endlessNodes d w) hgraph.symm

/-- **An endless search**: the loop does not empty its queue for every graph. -/
theorem endless_never_returns : ¬ ∀ g : Graph, g.WellFormed →
    ∃ fuel g', g.ssspBfs (· + ·) fuel = some g' := by
  intro hclaim
  have hg : endlessNetwork.WellFormed := by decide +kernel
  obtain ⟨fuel, g', hrun⟩ := hclaim endlessNetwork hg
  rw [ssspBfs_eq_run hg] at hrun
  have hrun₀ : Worklist.run (ssspVisit (· + ·)) fuel (endlessStage 0).1 (endlessStage 0).2 =
      some g' := hrun
  obtain ⟨fuel', hrun'⟩ := Worklist.run_iterate_pop hrun₀ 9
  have hstart : Endless (endlessStage 9).1 (endlessStage 9).2 :=
    ⟨0, 0, 0, le_rfl, (shift_zero _ _).symm, rfl⟩
  have hnone := Worklist.not_run_of_invariant (P := Endless) (fun s h => ?_)
    (fun s a queue h => endless_step h) hstart fuel'
  · have hsome : Worklist.run (ssspVisit (· + ·)) fuel' (endlessStage 9).1 (endlessStage 9).2 =
        some g' := hrun'
    rw [hnone] at hsome
    cases hsome
  · obtain ⟨j, -, -, -, -, hqueue⟩ := h
    have hnext := (endlessStage_ready j).2
    rw [nextIsEndless, ← hqueue] at hnext
    cases hnext

end Graph

end RustyTinc

import RustyTinc.Core.Purge
import RustyTinc.Core.WeightRange

/-!
The two pointers of a route, to the next hop and to the static relay, and where one gets by
following them.

* `Descends`: some rank falls along every pointer, so that following pointers comes to an end;
* `points_next`: where the new route of a step points;
* `keeps_closer`: in a search that does not stretch pointers lead to nodes at a smaller distance;
* `keeps_falls`: without circles of negative weight they lead to nodes whose weight is no farther
  above that of the lightest chain;
* `ssspBfs_descends`: so after either search the pointers descend;
* `run_descends`: and they do in every state of the network whose search is of one of these kinds.
-/

namespace RustyTinc

namespace Graph

/-- The next hop and the static relay of a route. -/
def Points (g : Graph) (a b : String) : Prop :=
  (g.routeOf a).nextHop = some b ∨ (g.routeOf a).via = some b

/-- A rank falls along every pointer to another node. -/
def Descends (g : Graph) : Prop :=
  ∃ rank : String → ℕ ×ₗ ℕ, ∀ a b, g.Points a b → b ≠ a → rank b < rank a

/-- The search of the graph does not stretch, or its weights make no circle of negative weight and
no sum along a path that overflows. -/
def Orderly (g : Graph) : Prop :=
  g.NeverStretches addI32 ∨ g.NoNegativeCircle ∧ g.PathSumsFit

section Search

variable {addWeight : ℤ → ℤ → ℤ} {g₀ g : Graph} {r : Relaxation} {n : Node} {a b : String}

lemma points_of_node (hn : g.node a = some n) :
    g.Points a b ↔ n.route.nextHop = some b ∨ n.route.via = some b := by
  rw [Points, routeOf, hn]
  rfl

/-- A node without a route points nowhere. -/
lemma Points.visited (h : SsspInv g₀ g) (hab : g.Points a b) : g.Visited a := by
  cases hn : g.node a with
  | none =>
      rw [Points, routeOf, hn] at hab
      simp at hab
  | some n =>
      refine ⟨n, hn, ?_⟩
      by_contra hv
      rw [points_of_node hn, h.unrouted a n hn (by simpa using hv)] at hab
      simp at hab

/-- At the start no node points to another one. -/
lemma points_start (hg : g.WellFormed) (hab : g.ssspReset.ssspStart.Points a b) : b = a := by
  obtain ⟨hinv, -⟩ := ssspStart_spec hg
  obtain ⟨n, hn, hv⟩ := hab.visited hinv
  obtain ⟨rfl, -, hroute⟩ := node_ssspStart hg hn hv
  rw [points_of_node hn, hroute] at hab
  exact (hab.elim Option.some_inj.mp Option.some_inj.mp).symm

/-- **Where a route points after a step**: that of another node where it did before; the new route,
if it replaces the weight, where the route of its source does; and otherwise where the old one
did. -/
lemma points_next (hof : r.Of g₀) (hn : r.graph.node r.edge.toNode = some n)
    (himp : r.improves addWeight n = true) (hab : (r.next addWeight).Points a b) (hne : b ≠ a) :
    a ≠ r.edge.toNode ∧ r.graph.Points a b ∨
      a = r.edge.toNode ∧
        (n.updateNextHop r.newDistance (r.newWeightedDistance addWeight) = true ∧
            r.graph.Points r.edge.fromNode b ∨
          n.updateNextHop r.newDistance (r.newWeightedDistance addWeight) = false ∧
            r.graph.Points a b) := by
  by_cases hat : a = r.edge.toNode
  · refine Or.inr ⟨hat, ?_⟩
    subst hat
    have hnode : (r.next addWeight).node r.edge.toNode =
        some (n.reroute addWeight r.graph.myself r.source r.edge) := by
      rw [r.node_next hn, if_pos rfl]
    rw [points_of_node hnode, nextHop_reroute, via_reroute] at hab
    obtain ⟨u, hu, -, -, -, -, hvia, hnext⟩ := hof.exists_source
    cases hup : n.updateNextHop r.newDistance (r.newWeightedDistance addWeight) with
    | true =>
        refine Or.inl ⟨rfl, (points_of_node hu).mpr ?_⟩
        rw [hvia, hnext]
        rw [if_pos hup] at hab
        refine hab.imp (fun h => ?_) fun h => ?_
        · split_ifs at h with hself
          · exact absurd (Option.some_inj.mp h).symm hne
          · exact h
        · split_ifs at h with hind
          · exact h
          · exact absurd (Option.some_inj.mp h).symm hne
    | false =>
        -- the old route was indirect, and the new one is direct
        have hup' : ¬ n.updateNextHop r.newDistance (r.newWeightedDistance addWeight) = true := by
          simp [hup]
        refine Or.inr ⟨rfl, (points_of_node hn).mpr (Or.inl ?_)⟩
        have hv := visited_of_not_updateNextHop hup'
        obtain ⟨w, hw⟩ := hof.inv.weightedDistance_isSome hn hv
        have hdir : r.indirect = false := by
          obtain ⟨w', hw', hlt⟩ := reroute_lighter hof hn hv himp hw
          rw [weightedDistance_reroute, if_neg hup', hw, Option.some_inj] at hw'
          exact hlt.elim (fun h => absurd h.1 (by omega)) fun h => h.2.2
        rw [if_neg hup', hdir] at hab
        exact hab.resolve_right fun h => hne (Option.some_inj.mp h).symm
  · refine Or.inl ⟨hat, ?_⟩
    rw [Points, Relaxation.next, routeOf_modifyNode hn, if_neg hat] at hab
    exact hab

/-! ### Searches that do not stretch -/

/-- Pointers lead to nodes at a smaller distance. -/
structure Closer (g : Graph) : Prop where
  nonneg : ∀ a, g.Visited a → 0 ≤ g.hops a
  closer : ∀ a b, g.Points a b → b ≠ a → g.Visited b ∧ g.hops b < g.hops a

lemma closer_start (hg : g.WellFormed) : Closer g.ssspReset.ssspStart := by
  refine ⟨fun a ha => ?_, fun a b hab hne => absurd (points_start hg hab) hne⟩
  obtain ⟨n, hn, hv⟩ := ha
  obtain ⟨rfl, -, hroute⟩ := node_ssspStart hg hn hv
  rw [hops_of_distance hn (by rw [hroute])]

lemma Closer.source (h : Closer r.graph) (hof : r.Of g₀) (hb : r.graph.Points r.edge.fromNode b) :
    r.graph.Visited b ∧ r.graph.hops b < r.newDistance := by
  rw [Relaxation.newDistance, ← hof.hops_source]
  by_cases hbu : b = r.edge.fromNode
  · rw [hbu]
    exact ⟨hof.source_visited, by omega⟩
  · obtain ⟨hvis, hlt⟩ := h.closer _ b hb hbu
    exact ⟨hvis, by omega⟩

/-- A search that does not stretch a path keeps the pointers closer to their ends. -/
lemma keeps_closer : Keeps addWeight g₀ (fun r => r.stretches = false) Closer := by
  intro r hof hstretch h n hn himp
  have hsame : ∀ {k}, r.graph.Visited k → (r.next addWeight).hops k = r.graph.hops k :=
    hops_next_of_visited hof hstretch hn himp
  have hvis : ∀ k, (r.next addWeight).Visited k ↔ k = r.edge.toNode ∨ r.graph.Visited k :=
    r.visited_next hn
  have hold : ∀ a b, r.graph.Points a b → b ≠ a →
      (r.next addWeight).Visited b ∧ (r.next addWeight).hops b < (r.next addWeight).hops a := by
    intro a b hab hne
    obtain ⟨hb, hlt⟩ := h.closer a b hab hne
    rw [hsame hb, hsame (hab.visited hof.inv)]
    exact ⟨(hvis b).mpr (Or.inr hb), hlt⟩
  refine ⟨fun a ha => ?_, fun a b hab hne => ?_⟩
  · rcases (hvis a).mp ha with rfl | ha
    · have hsource := h.nonneg _ hof.source_visited
      rw [hof.hops_source] at hsource
      rw [hops_next hn, if_pos rfl, Relaxation.newDistance]
      omega
    · rw [hsame ha]
      exact h.nonneg a ha
  · rcases points_next hof hn himp hab hne with ⟨-, hab⟩ | ⟨rfl, ⟨-, hb⟩ | ⟨-, hab⟩⟩
    · exact hold a b hab hne
    · obtain ⟨hb, hlt⟩ := h.source hof hb
      rw [hsame hb, hops_next hn, if_pos rfl]
      exact ⟨(hvis b).mpr (Or.inr hb), hlt⟩
    · exact hold _ b hab hne

/-! ### Graphs without circles of negative weight -/

/-- How far the weight of a node is above its potential. -/
def above (φ : String → ℤ) (g : Graph) (k : String) : ℤ := g.weighted k - φ k

/-- Pointers lead to nodes whose weight is no farther above the potential, and where it is as far,
to nodes that were given their weight before: `rank` tells when. -/
structure Falls (φ : String → ℤ) (g : Graph) (rank : String → ℕ) (bound : ℕ) : Prop where
  rank_lt : ∀ k, rank k < bound
  falls : ∀ a b, g.Points a b → b ≠ a → g.Visited b ∧
    (above φ g b < above φ g a ∨ above φ g b = above φ g a ∧ rank b < rank a)

lemma falls_start (hg : g.WellFormed) (φ : String → ℤ) :
    Falls φ g.ssspReset.ssspStart (fun _ => 0) 1 :=
  ⟨fun _ => Nat.one_pos, fun _ _ hab hne => absurd (points_start hg hab) hne⟩

/-- A potential: it is at most the weight of every walk from the owner, and a link raises it by at
most its weight. -/
structure Potential (g₀ : Graph) (φ : String → ℤ) : Prop where
  le_walk : ∀ k w, WeightedWalk.Walk g₀.Linked g₀.weightOf g₀.myself k w → φ k ≤ w
  le_link : ∀ a b, g₀.Joined g₀.myself a → g₀.Linked a b → φ b ≤ φ a + g₀.weightOf a b

/-- Without circles of negative weight there is a potential. -/
lemma NoNegativeCircle.exists_potential (hg : g.WellFormed) (h : g.NoNegativeCircle) :
    ∃ φ, g.Potential φ := by
  obtain ⟨L, hL⟩ := h.exists_bound hg
  have hchain : ∀ {k w}, WeightedWalk.Walk g.Linked g.weightOf g.myself k w →
      ∃ m first, g.Chain m w first k := by
    intro k w hwalk
    induction hwalk with
    | nil => exact ⟨0, none, Chain.start⟩
    | step _ hbc ih =>
        obtain ⟨m, first, hchain⟩ := ih
        exact ⟨_, _, hchain.tail hbc⟩
  have hbound : ∀ k w, WeightedWalk.Walk g.Linked g.weightOf g.myself k w → L ≤ w := by
    intro k w hwalk
    obtain ⟨m, first, hm⟩ := hchain hwalk
    exact hL m w first k hm
  obtain ⟨φ, hwalk, hlink⟩ := WeightedWalk.exists_potential hbound
  refine ⟨φ, hwalk, fun a b ha hab => ?_⟩
  obtain ⟨m, w, first, hm⟩ := Chain.of_joined ha
  exact hlink a b w ((hm.walk hg).mono fun _ _ h => h.1) hab

/-- A node after a step that gives it a new weight: it is farther above the potential than the
source, and less far than before. -/
lemma above_next {φ : String → ℤ} (hφ : g₀.Potential φ) (hpath : WeighsPath g₀ r.graph)
    (hof : r.Of g₀) (hn : r.graph.node r.edge.toNode = some n)
    (hup : n.updateNextHop r.newDistance (r.newWeightedDistance (· + ·)) = true) :
    above φ r.graph r.edge.fromNode ≤ above φ (r.next (· + ·)) r.edge.toNode ∧
      (r.graph.Visited r.edge.toNode →
        above φ (r.next (· + ·)) r.edge.toNode < above φ r.graph r.edge.toNode) := by
  have hnew : (r.next (· + ·)).weighted r.edge.toNode =
      r.graph.weighted r.edge.fromNode + r.edge.weight := by
    rw [weighted_next_of_updateNextHop hn hup, hof.weighted_source]
    rfl
  obtain ⟨rest, hp, -⟩ := hpath _ hof.source_visited
  have hjoined : g₀.Joined g₀.myself r.edge.fromNode := hp.reaches _ List.mem_cons_self
  have hlink := hφ.le_link _ _ hjoined hof.linked
  rw [weightOf_edge hof.stored] at hlink
  refine ⟨by rw [above, above, hnew]; omega, fun hvis => ?_⟩
  obtain ⟨n', hn', hv⟩ := hvis
  obtain rfl := Option.some_inj.mp (hn.symm.trans hn')
  have hlt := newWeightedDistance_lt hof hn hv hup
  rw [above, above, weighted_next_of_updateNextHop hn hup]
  exact sub_lt_sub_right hlt _

section Falling

variable {φ : String → ℤ} {rank : String → ℕ} {bound : ℕ}

/-- What a visited node points to is visited, and no farther above the potential. -/
lemma Falls.above_le (h : Falls φ g rank bound) (ha : g.Visited a) (hab : g.Points a b) :
    g.Visited b ∧ above φ g b ≤ above φ g a := by
  by_cases hba : b = a
  · rw [hba]
    exact ⟨ha, le_rfl⟩
  · obtain ⟨hb, hfall⟩ := h.falls a b hab hba
    exact ⟨hb, hfall.elim le_of_lt fun h => h.1.le⟩

/-- A step that gives no new weight leaves all weights and pointers as they are. -/
lemma Falls.kept (h : Falls φ r.graph rank bound) (hof : r.Of g₀)
    (hn : r.graph.node r.edge.toNode = some n) (himp : r.improves (· + ·) n = true)
    (hup : ¬ n.updateNextHop r.newDistance (r.newWeightedDistance (· + ·)) = true) :
    Falls φ (r.next (· + ·)) rank bound := by
  have hsame : ∀ k, above φ (r.next (· + ·)) k = above φ r.graph k := fun k => by
    rw [above, above, weighted_next_of_not_updateNextHop hn hup]
  refine ⟨h.rank_lt, fun a b hab hne => ?_⟩
  have hold : r.graph.Points a b := by
    rcases points_next hof hn himp hab hne with ⟨-, hold⟩ | ⟨-, ⟨hup', -⟩ | ⟨-, hold⟩⟩
    · exact hold
    · exact absurd hup' hup
    · exact hold
  obtain ⟨hb, hfall⟩ := h.falls a b hold hne
  rw [hsame, hsame]
  exact ⟨(r.visited_next hn b).mpr (Or.inr hb), hfall⟩

/-- A step ranks the node to which it gives a new weight last. -/
lemma Falls.ranked (h : Falls φ r.graph rank bound) (hφ : g₀.Potential φ)
    (hpath : WeighsPath g₀ r.graph) (hof : r.Of g₀) (hn : r.graph.node r.edge.toNode = some n)
    (himp : r.improves (· + ·) n = true)
    (hup : n.updateNextHop r.newDistance (r.newWeightedDistance (· + ·)) = true) :
    Falls φ (r.next (· + ·)) (Function.update rank r.edge.toNode bound) (bound + 1) := by
  obtain ⟨hsource, hless⟩ := above_next hφ hpath hof hn hup
  have hsame : ∀ {k}, k ≠ r.edge.toNode → above φ (r.next (· + ·)) k = above φ r.graph k := by
    intro k hk
    rw [above, above, weighted_next_of_ne hn hk]
  constructor
  case rank_lt =>
    intro k
    by_cases hk : k = r.edge.toNode
    · rw [hk, Function.update_self]
      exact Nat.lt_succ_self _
    · rw [Function.update_of_ne hk]
      exact (h.rank_lt k).trans (Nat.lt_succ_self _)
  case falls =>
    intro a b hab hne
    rcases points_next hof hn himp hab hne with ⟨ha, hold⟩ | ⟨rfl, ⟨-, hb⟩ | ⟨hup', -⟩⟩
    · obtain ⟨hb, hfall⟩ := h.falls a b hold hne
      refine ⟨(r.visited_next hn b).mpr (Or.inr hb), ?_⟩
      rw [hsame ha, Function.update_of_ne ha]
      by_cases hbt : b = r.edge.toNode
      · have hlt := hless (hbt ▸ hb)
        rw [hbt] at hfall ⊢
        exact Or.inl (hfall.elim (fun h => hlt.trans h) fun h => h.1 ▸ hlt)
      · rw [hsame hbt, Function.update_of_ne hbt]
        exact hfall
    · -- the node was given its weight last
      obtain ⟨hvisited, hle⟩ := h.above_le hof.source_visited hb
      refine ⟨(r.visited_next hn b).mpr (Or.inr hvisited), ?_⟩
      rw [Function.update_self, Function.update_of_ne hne]
      have habove : above φ (r.next (· + ·)) b ≤ above φ (r.next (· + ·)) r.edge.toNode :=
        calc above φ (r.next (· + ·)) b
            = above φ r.graph b := hsame hne
          _ ≤ above φ r.graph r.edge.fromNode := hle
          _ ≤ above φ (r.next (· + ·)) r.edge.toNode := hsource
      exact habove.lt_or_eq.imp_right fun heq => ⟨heq, h.rank_lt b⟩
    · rw [hup] at hup'
      cases hup'

end Falling

/-- What the search keeps: weights are those of paths, and pointers fall. -/
def FallsAlong (g₀ : Graph) (φ : String → ℤ) (g : Graph) : Prop :=
  WeighsPath g₀ g ∧ ∃ rank bound, Falls φ g rank bound

/-- Without circles of negative weight every step keeps the pointers falling. -/
lemma keeps_falls (hcircle : g₀.NoNegativeCircle) {φ : String → ℤ} (hφ : g₀.Potential φ) :
    Keeps (· + ·) g₀ (fun _ => True) (FallsAlong g₀ φ) := by
  intro r hof _ ⟨hpath, rank, bound, h⟩ n hn himp
  refine ⟨keeps_weighsPath hcircle r hof trivial hpath n hn himp, ?_⟩
  by_cases hup : n.updateNextHop r.newDistance (r.newWeightedDistance (· + ·)) = true
  · exact ⟨_, _, h.ranked hφ hpath hof hn himp hup⟩
  · exact ⟨_, _, h.kept hof hn himp hup⟩

/-! ### The result of a search -/

/-- **The pointers of a search descend** when it does not stretch, and also when no circle of links
has a negative weight and no sum along a path overflows. -/
theorem ssspBfs_descends {g' : Graph} (hg : g.WellFormed) (h : g.Orderly) {fuel : ℕ}
    (hrun : g.ssspBfs addI32 fuel = some g') : g'.Descends := by
  have hinv := (ssspBfs_spec hg hrun).1
  rcases h with hstretch | ⟨hcircle, hfit⟩
  · have hcloser := ssspBfs_keeps hg keeps_closer (closer_start hg) (hstretch fuel) hrun
    refine ⟨fun k => toLex ((g'.hops k).toNat, 0), fun a b hab hne => ?_⟩
    obtain ⟨hb, hlt⟩ := hcloser.closer a b hab hne
    have hpos := hcloser.nonneg b hb
    rw [Prod.Lex.toLex_lt_toLex]
    exact Or.inl (by show (g'.hops b).toNat < (g'.hops a).toNat; omega)
  · obtain ⟨φ, hφ⟩ := hcircle.exists_potential hg
    obtain ⟨hpath, rank, bound, hfalls⟩ := ssspBfs_keeps hg
      (keeps_of_exact (keeps_falls hcircle hφ) fun r hof h => hfit.sum_step hof h.1)
      ⟨weighsPath_start hg, _, _, falls_start hg φ⟩ (fun _ _ => trivial) hrun
    have hpos : ∀ k, g'.Visited k → 0 ≤ above φ g' k := by
      intro k hk
      obtain ⟨rest, hp, -⟩ := hpath k hk
      have hle := hφ.le_walk k _ hp.walk_root
      rw [above]
      omega
    refine ⟨fun k => toLex ((above φ g' k).toNat, rank k), fun a b hab hne => ?_⟩
    obtain ⟨hb, hfall⟩ := hfalls.falls a b hab hne
    have hposb := hpos b hb
    rw [Prod.Lex.toLex_lt_toLex]
    show (above φ g' b).toNat < (above φ g' a).toNat ∨
      (above φ g' b).toNat = (above φ g' a).toNat ∧ rank b < rank a
    omega

end Search

/-! ### Changes that keep the routes -/

/-- The routes are those of a search of the graph, as far as there are any. -/
def Searched (g : Graph) : Prop :=
  (∀ k, g.routeOf k = {}) ∨ ∃ fuel g', g.ssspBfs addI32 fuel = some g' ∧
    ∀ k, g.routeOf k = {} ∨ g.routeOf k = g'.routeOf k

/-- A graph with the same edges and routes, and perhaps with more nodes that have no route yet. -/
structure SameRoutes (g g' : Graph) : Prop where
  myself_eq : g'.myself = g.myself
  edges_eq : g'.edges = g.edges
  mem_nodes : ∀ k ∈ g.nodes.keys, k ∈ g'.nodes.keys
  routeOf : ∀ k, g'.routeOf k = {} ∨ g'.routeOf k = g.routeOf k

section SameRoutes

variable {g g' : Graph}

lemma not_points_of_routeOf_eq {a b : String} (h : g.routeOf a = {}) : ¬ g.Points a b := by
  rw [Points, h]
  simp

lemma Searched.descends (hg : g.WellFormed) (h : g.Searched) (horderly : g.Orderly) :
    g.Descends := by
  rcases h with hnone | ⟨fuel, g', hrun, hroutes⟩
  · exact ⟨fun _ => toLex (0, 0), fun a b hab => absurd hab (not_points_of_routeOf_eq (hnone a))⟩
  · obtain ⟨rank, hrank⟩ := ssspBfs_descends hg horderly hrun
    refine ⟨rank, fun a b hab hne => hrank a b ?_ hne⟩
    rcases hroutes a with hnone | hsame
    · exact absurd hab (not_points_of_routeOf_eq hnone)
    · rwa [Points, hsame] at hab

lemma SameRoutes.refl (g : Graph) : SameRoutes g g :=
  ⟨rfl, rfl, fun _ => id, fun _ => Or.inr rfl⟩

lemma SameRoutes.agreeOn (h : SameRoutes g g') (hg : g.WellFormed) : AgreeOn g g' where
  myself_eq := h.myself_eq
  node_mem k hk := h.mem_nodes k (mem_keys_of_joined hg hk)
  edge_eq k _ := by rw [h.edges_eq]
  edge_of k e he := h.edges_eq ▸ he

lemma SsspInv.routeOf_eq (h : SsspInv g g') {k : String} (hk : ¬ g'.Visited k) :
    g'.routeOf k = {} := by
  rw [routeOf]
  cases hn : g'.node k with
  | none => rfl
  | some n => exact h.unrouted k n hn (by simpa using fun hv => hk ⟨n, hn, hv⟩)

/-- A search of the new graph finds the same routes. -/
lemma SameRoutes.searched (h : SameRoutes g g') (hg : g.WellFormed) (hg' : g'.WellFormed)
    (hsearched : g.Searched) : g'.Searched := by
  rcases hsearched with hnone | ⟨fuel, g₁, hrun, hroutes⟩
  · exact Or.inl fun k => (h.routeOf k).elim id fun hsame => hsame.trans (hnone k)
  · obtain ⟨hinv, hvis⟩ := ssspBfs_spec hg hrun
    obtain ⟨g₁', hrun', hagree⟩ := ssspBfs_agree (h.agreeOn hg) hg hg' hrun
    refine Or.inr ⟨fuel, g₁', hrun', fun k => ?_⟩
    rcases h.routeOf k with hnone | hsame
    · exact Or.inl hnone
    rw [hsame]
    rcases hroutes k with hnone | heq
    · exact Or.inl hnone
    by_cases hk : g.Joined g.myself k
    · obtain ⟨n, n', hn, hn', hroute⟩ := hagree k hk
      right
      rw [heq, Graph.routeOf, Graph.routeOf, hn, hn', Option.map_some, Option.map_some, hroute.route_eq]
    · exact Or.inl (heq.trans (hinv.routeOf_eq (mt (hvis k).mp hk)))

lemma sameRoutes_ensureNode (g : Graph) (name : String) :
    SameRoutes g (g.ensureNode name).1 where
  myself_eq := ensureNode_myself g name
  edges_eq := ensureNode_edges g name
  mem_nodes k hk := (mem_keys_ensureNode g name k).mpr (Or.inr hk)
  routeOf k := by
    rw [Graph.routeOf, node, get?_ensureNode]
    split_ifs
    · exact Or.inl rfl
    · exact Or.inr rfl

lemma sameRoutes_modifyNode (g : Graph) (name : String) {f : Node → Node}
    (hf : ∀ n, (f n).route = n.route) : SameRoutes g (g.modifyNode name f) where
  myself_eq := rfl
  edges_eq := rfl
  mem_nodes k hk := by simpa [modifyNode] using hk
  routeOf k := by
    rw [Graph.routeOf, node_modifyNode, Graph.routeOf]
    refine Or.inr ?_
    split_ifs
    · cases g.node k <;> simp [hf]
    · rfl

end SameRoutes

end Graph

/-! ### Runs -/

namespace NetworkState

variable {fuel : ℕ} {s s' : NetworkState}

lemma UpToDate.searched (h : s.UpToDate addI32 fuel) : s.graph.Searched := by
  obtain ⟨now, s₁, hrec, hroutes, -⟩ := h
  obtain ⟨g, hrun, hg⟩ := routeOf_recompute hrec
  refine Or.inr ⟨fuel, g, hrun, fun k => Or.inr ?_⟩
  have hsame : (s.graph.node k).map Node.route = (g.node k).map Node.route :=
    (hroutes k).symm.trans (hg k)
  rw [Graph.routeOf, hsame, Graph.routeOf]

lemma applyKeyChanged_sameRoutes (s : NetworkState) (m : KeyChangedMessage) :
    Graph.SameRoutes s.graph (s.applyKeyChanged m).1.graph := by
  rw [applyKeyChanged]
  split
  · exact Graph.SameRoutes.refl _
  · exact Graph.sameRoutes_modifyNode _ _ fun _ => rfl

lemma applyUdpInfo_sameRoutes (s : NetworkState) (m : UdpInfoMessage) :
    Graph.SameRoutes s.graph (s.applyUdpInfo m).1.graph := by
  rw [applyUdpInfo]
  split_ifs
  · exact Graph.SameRoutes.refl _
  · split
    · exact Graph.SameRoutes.refl _
    · exact Graph.sameRoutes_modifyNode _ _ fun _ => rfl

lemma applyMtuInfo_sameRoutes (s : NetworkState) (m : MtuInfoMessage) :
    Graph.SameRoutes s.graph (s.applyMtuInfo m).1.graph := by
  rw [applyMtuInfo]
  split
  · exact Graph.SameRoutes.refl _
  · refine Graph.sameRoutes_modifyNode _ _ fun n => ?_
    split_ifs <;> rfl

/-- A call keeps the routes, or computes them again. -/
lemma call_searched (hs : s.graph.WellFormed) (hs' : s'.graph.WellFormed) {c : Call}
    {changes : Option ReachabilityChanges} (h : call addI32 fuel s c = some (s', changes))
    (hsearched : s.graph.Searched) : s'.graph.Searched := by
  by_cases hc : c.Recomputes
  · exact (call_upToDate hs hc h).searched
  cases c with
  | purge options now => exact absurd trivial hc
  | apply message now =>
      obtain ⟨⟨s₁, outcome⟩, hcall, h⟩ := Option.map_eq_some_iff.mp h
      obtain ⟨rfl, rfl⟩ := Prod.mk.inj h
      cases message with
      | addEdge m => exact absurd trivial hc
      | deleteEdge m => exact absurd trivial hc
      | addSubnet m =>
          obtain ⟨rfl, rfl⟩ := Prod.mk.inj (Option.some_inj.mp hcall)
          exact (Graph.sameRoutes_ensureNode s.graph m.owner).searched hs hs' hsearched
      | keyChanged m =>
          obtain ⟨rfl, rfl⟩ := Prod.mk.inj (Option.some_inj.mp hcall)
          exact (applyKeyChanged_sameRoutes s m).searched hs hs' hsearched
      | udpInfo m =>
          obtain ⟨rfl, rfl⟩ := Prod.mk.inj (Option.some_inj.mp hcall)
          exact (applyUdpInfo_sameRoutes s m).searched hs hs' hsearched
      | mtuInfo m =>
          obtain ⟨rfl, rfl⟩ := Prod.mk.inj (Option.some_inj.mp hcall)
          exact (applyMtuInfo_sameRoutes s m).searched hs hs' hsearched
      | _ =>
          obtain ⟨rfl, rfl⟩ := Prod.mk.inj (Option.some_inj.mp hcall)
          exact hsearched

/-- **The routes of every state of the network** are those of a search of its graph. -/
lemma run_searched {myself : String} {calls : List Call}
    (h : Run addI32 (new myself) calls s) : s.graph.Searched := by
  generalize hnew : new myself = s₀ at h
  induction h with
  | nil =>
      subst hnew
      refine Or.inl fun k => ?_
      rw [Graph.routeOf, Graph.node, new, Graph.new, OrdMap.get?_insert]
      split_ifs <;> rfl
  | snoc hrun hcall ih =>
      subst hnew
      exact call_searched (run_inv hrun).wellFormed (run_inv (hrun.snoc hcall)).wellFormed hcall
        ih

/-- **The pointers descend** in every state of the network whose graph is orderly. -/
lemma run_descends {myself : String} {calls : List Call}
    (h : Run addI32 (new myself) calls s) (horderly : s.graph.Orderly) : s.graph.Descends :=
  (run_searched h).descends (run_inv h).wellFormed horderly

end NetworkState

end RustyTinc

import RustyTinc.Core.SearchSteps
import RustyTinc.Library.Climb

/-!
The previous edges of a search: the last edge of the route of each visited node.

* `PreviousInv`: a previous edge is stored in both directions and leaves a visited node;
* `PreviousFalls`: along previous edges a direct route is followed by direct ones only, and the
  distance falls by one between two routes that are both direct or both indirect; kept as long as
  no direct route becomes indirect;
* `previous_edges_tree`: then the previous edges of every visited node lead to the owner;
* `previous_edges_cycle`: in general they can form a cycle.
-/

namespace RustyTinc

namespace Graph

/-- The node that the previous edge of a node leaves. -/
def previous (g : Graph) (name : String) : Option String :=
  (g.node name).bind fun n => n.route.previousEdge.map EdgeKey.fromNode

/-- The previous edges are links from visited nodes. -/
structure PreviousInv (g₀ g : Graph) : Prop where
  nonneg : ∀ k, 0 ≤ g.hops k
  edge : ∀ k n, g.node k = some n → n.status.visited = true → k ≠ g₀.myself →
    ∃ u, n.route.previousEdge = some ⟨u, k⟩ ∧ g₀.Linked u k ∧ g.Visited u

/-- What the route of a node has to do with that of the node its previous edge leaves. -/
def PreviousFalls (g₀ g : Graph) : Prop :=
  ∀ k n u m, g.node k = some n → n.status.visited = true → k ≠ g₀.myself →
    n.route.previousEdge = some ⟨u, k⟩ → g.node u = some m →
    (n.status.indirect = false → m.status.indirect = false) ∧
      (m.status.indirect = n.status.indirect → g.hops k = g.hops u + 1)

section Keeps

variable {addWeight : ℤ → ℤ → ℤ} {g₀ g : Graph}

lemma previousInv_start (hg : g.WellFormed) : PreviousInv g g.ssspReset.ssspStart := by
  obtain ⟨hinv, -⟩ := ssspStart_spec hg
  refine ⟨fun k => ?_, fun k n hn hv hne => absurd (node_ssspStart hg hn hv).1 hne⟩
  cases hn : g.ssspReset.ssspStart.node k with
  | none => simp [hops, hn]
  | some n =>
      by_cases hv : n.status.visited = true
      · obtain ⟨-, -, hroute⟩ := node_ssspStart hg hn hv
        simp [hops, hn, hroute]
      · simp [hops, hn, hinv.unrouted k n hn (by simpa using hv)]

/-- The search keeps the invariant of previous edges. -/
lemma keeps_previousInv : Keeps addWeight g₀ (fun _ => True) (PreviousInv g₀) := by
  intro r hof _ h n hn himp
  have hvis : ∀ k, (r.next addWeight).Visited k ↔ k = r.edge.toNode ∨ r.graph.Visited k :=
    r.visited_next hn
  refine ⟨fun k => ?_, fun k n' hn' hv' hne => ?_⟩
  · rw [hops_next hn]
    split_ifs
    · have hsource := h.nonneg r.edge.fromNode
      rw [hof.hops_source] at hsource
      show 0 ≤ r.source.distance + 1
      omega
    · exact h.nonneg k
  · rw [r.node_next hn] at hn'
    split_ifs at hn' with hk
    · rw [Option.some_inj] at hn'
      subst hk
      exact ⟨r.edge.fromNode, by rw [← hn']; rfl, linked_of_hasReverseEdge hof.stored hof.reverse,
        (hvis _).mpr (Or.inr hof.source_visited)⟩
    · obtain ⟨u, hu, hlink, huv⟩ := h.edge k n' hn' hv' hne
      exact ⟨u, hu, hlink, (hvis u).mpr (Or.inr huv)⟩

lemma previousFalls_start (hg : g.WellFormed) : PreviousFalls g g.ssspReset.ssspStart :=
  fun _ _ _ _ hn hv hne => absurd (node_ssspStart hg hn hv).1 hne

/-- A step that does not make a direct route indirect keeps the relation between the routes. -/
lemma keeps_previousFalls : Keeps addWeight g₀ (fun r => r.demotes addWeight = false)
    fun g => PreviousInv g₀ g ∧ PreviousFalls g₀ g := by
  intro r hof hdemotes ⟨hprev, hfalls⟩ n hn himp
  refine ⟨keeps_previousInv r hof trivial hprev n hn himp, fun k n' u m hn' hv' hne hu hm => ?_⟩
  rw [hops_next hn, hops_next hn]
  rw [r.node_next hn] at hn' hm
  by_cases hk : k = r.edge.toNode
  · -- the new route, and the source of the step
    rw [if_pos hk, Option.some_inj] at hn'
    subst hn'
    obtain rfl : r.edge.fromNode = u := congrArg EdgeKey.fromNode (Option.some_inj.mp hu)
    have hne' : r.edge.fromNode ≠ r.edge.toNode := (hof.ne_source hn himp).symm
    obtain ⟨w, hw, -, hind, -⟩ := hof.exists_source
    rw [if_neg hne', hw, Option.some_inj] at hm
    subst hm
    rw [if_pos hk, if_neg hne', hof.hops_source, hind]
    refine ⟨fun hdir => ?_, fun _ => rfl⟩
    rw [Node.reroute_indirect, Bool.or_eq_false_iff] at hdir
    exact hdir.1
  · rw [if_neg hk] at hn' ⊢
    by_cases huk : u = r.edge.toNode
    · -- the new route is that of the node before `k`
      subst huk
      rw [if_pos rfl, Option.some_inj] at hm
      subst hm
      rw [if_pos rfl, Node.reroute_indirect]
      obtain ⟨u', hu', -, nold, hnold, hnv⟩ := hprev.edge k n' hn' hv' hne
      obtain rfl : r.edge.toNode = u' :=
        congrArg EdgeKey.fromNode (Option.some_inj.mp (hu.symm.trans hu'))
      obtain rfl : n = nold := Option.some_inj.mp (hn.symm.trans hnold)
      obtain ⟨hdir, hdist⟩ := hfalls k n' _ n hn' hv' hne hu hn
      have hkept := fun hndir => r.indirect_of_not_demotes hdemotes hn hnv hndir himp
      refine ⟨fun hkdir => hkept (hdir hkdir), fun hsame => ?_⟩
      rcases improves_cases hof.inv hn himp with hnv' | ⟨-, hnind, hrdir⟩ | ⟨-, hsamedist, -⟩
      · rw [hnv] at hnv'
        cases hnv'
      · -- from indirect to direct: `k` was direct and the node before it was not
        have hkdir : n'.status.indirect = false := hsame.symm.trans hrdir
        rw [hdir hkdir] at hnind
        cases hnind
      · rw [hops_of_distance hn hsamedist] at hdist
        cases hndir : n.status.indirect with
        | false => exact hdist (hndir.trans ((hkept hndir).symm.trans hsame))
        | true =>
            cases hkind : n'.status.indirect with
            | true => exact hdist (hndir.trans hkind.symm)
            | false =>
                rw [hdir hkind] at hndir
                cases hndir
    · rw [if_neg huk] at hm ⊢
      exact hfalls k n' u m hn' hv' hne hu hm

end Keeps

/-! ### The tree -/

section Tree

variable {addWeight : ℤ → ℤ → ℤ} {g g' : Graph}

/-- The node before a visited one, and what its route is. -/
lemma PreviousInv.exists_previous (h : PreviousInv g g') {k : String} (hk : g'.Visited k)
    (hne : k ≠ g.myself) : ∃ n u m, g'.node k = some n ∧ n.status.visited = true ∧
      n.route.previousEdge = some ⟨u, k⟩ ∧ g'.node u = some m ∧ m.status.visited = true ∧
      g'.previous k = some u := by
  obtain ⟨n, hn, hv⟩ := hk
  obtain ⟨u, hu, -, m, hm, hmv⟩ := h.edge k n hn hv hne
  exact ⟨n, u, m, hn, hv, hu, hm, hmv, by rw [previous, hn, Option.bind_some, hu]; rfl⟩

/-- Whether the route is indirect, and its number of hops. -/
def routeRank (g : Graph) (k : String) : ℕ ×ₗ ℕ :=
  toLex (if (g.node k).any (fun n => n.status.indirect) then 1 else 0, (g.hops k).toNat)

/-- The rank of the routes falls along previous edges. -/
lemma PreviousFalls.routeRank_lt (hprev : PreviousInv g g') (h : PreviousFalls g g') {k : String}
    (hk : g'.Visited k) (hne : k ≠ g.myself) :
    ∃ u, g'.previous k = some u ∧ g'.Visited u ∧ g'.routeRank u < g'.routeRank k := by
  obtain ⟨n, u, m, hn, hv, hu, hm, hmv, hpre⟩ := hprev.exists_previous hk hne
  refine ⟨u, hpre, ⟨m, hm, hmv⟩, ?_⟩
  obtain ⟨hdir, hdist⟩ := h k n u m hn hv hne hu hm
  have hpos := hprev.nonneg u
  rw [routeRank, routeRank, Prod.Lex.toLex_lt_toLex, hn, hm, Option.any_some, Option.any_some]
  cases hnind : n.status.indirect with
  | false =>
      rw [hdir hnind, hnind] at hdist
      rw [hdir hnind, hdist rfl]
      exact Or.inr ⟨rfl, by show (_ : ℤ).toNat < (_ : ℤ).toNat; omega⟩
  | true =>
      cases hmind : m.status.indirect with
      | false => exact Or.inl Nat.zero_lt_one
      | true =>
          rw [hnind, hmind] at hdist
          rw [hdist rfl]
          exact Or.inr ⟨rfl, by show (_ : ℤ).toNat < (_ : ℤ).toNat; omega⟩

/-- **The tree of previous edges**: a search visits what is joined to the owner, and the previous
edge of another visited node is stored in both directions and leaves a visited node. If no step
of the search replaced a direct route by an indirect one, then following previous edges from a
visited node ends at the owner and meets no node twice. -/
theorem previous_edges_tree (hg : g.WellFormed) {fuel : ℕ}
    (hrun : g.ssspBfs addWeight fuel = some g') :
    (∀ k, g'.Visited k ↔ g.Joined g.myself k) ∧
    (∀ k n, g'.node k = some n → n.status.visited = true → k ≠ g.myself →
      ∃ u, n.route.previousEdge = some ⟨u, k⟩ ∧ g.Linked u k ∧ g'.Visited u) ∧
    ((∀ r ∈ g.ssspTrace addWeight fuel, r.demotes addWeight = false) →
      ∀ k, g'.Visited k → ∃ path, ParentMap.Climb g'.previous g.myself k path ∧ path.Nodup) := by
  have hprev := ssspBfs_keeps hg keeps_previousInv (previousInv_start hg) (fun _ _ => trivial) hrun
  refine ⟨(ssspBfs_spec hg hrun).2, hprev.edge, fun hdemotes k hk => ?_⟩
  obtain ⟨-, hfalls⟩ := ssspBfs_keeps hg keeps_previousFalls
    ⟨previousInv_start hg, previousFalls_start hg⟩ hdemotes hrun
  exact ParentMap.exists_climb g'.routeRank
    (fun a ha hne => hfalls.routeRank_lt hprev ha hne) hk

end Tree

/-- The way back in the line of three nodes. -/
theorem previous_edges_tree_line : ∃ g', lineNetwork.ssspBfs (· + ·) 10 = some g' ∧
    ∃ path, ParentMap.Climb g'.previous "a" "c" path ∧ path.Nodup := by
  obtain ⟨g', hrun⟩ : ∃ g', lineNetwork.ssspBfs (· + ·) 10 = some g' :=
    Option.isSome_iff_exists.mp (by decide +kernel)
  obtain ⟨hvisited, -, htree⟩ := previous_edges_tree (by decide +kernel) hrun
  have hjoined : lineNetwork.Joined "a" "c" :=
    (Relation.ReflTransGen.single (by decide +kernel : lineNetwork.Linked "a" "b")).tail
      (by decide +kernel)
  exact ⟨g', hrun, htree (by decide +kernel) "c" ((hvisited "c").mpr hjoined)⟩

/-- `a` with direct links to `b` and `e` and an indirect one, of weight one, to `d`. -/
def previousLoop : Graph :=
  ofEdges ["a", "b", "c", "d", "e"]
    [("a", "b", 0, 0), ("b", "a", 0, 0), ("a", "d", 1, optionIndirect), ("d", "a", 0, 0),
      ("a", "e", 0, 0), ("e", "a", 0, 0), ("b", "c", 0, optionIndirect), ("c", "b", 0, 0),
      ("b", "d", 0, 0), ("d", "b", 0, 0), ("c", "d", 0, 0), ("d", "c", 0, 0), ("d", "e", 0, 0),
      ("e", "d", 0, optionIndirect)]

/-- **A cycle of previous edges**, with weights that are not negative: the route of `d` becomes
direct through `b`, and that of `c` through `d`; then `d` is given a lighter indirect route, and
then a direct one through `c`. -/
theorem previous_edges_cycle : ¬ ∀ (g g' : Graph) (fuel : ℕ), g.WellFormed →
    (∀ e ∈ g.edges.values, 0 ≤ e.weight) → g.ssspBfs (· + ·) fuel = some g' →
    ∀ k, g'.Visited k → ∃ path, ParentMap.Climb g'.previous g.myself k path ∧ path.Nodup := by
  intro hclaim
  obtain ⟨g', hrun⟩ : ∃ g', previousLoop.ssspBfs (· + ·) 20 = some g' :=
    Option.isSome_iff_exists.mp (by decide +kernel)
  have hnodes : ((previousLoop.ssspBfs (· + ·) 20).map fun g =>
      (g.previous "c", g.previous "d", (g.node "c").any fun n => n.status.visited)) =
        some (some "d", some "c", true) := by decide +kernel
  rw [hrun, Option.map_some, Option.some_inj, Prod.mk.injEq, Prod.mk.injEq] at hnodes
  obtain ⟨hc, hd, hvisited⟩ := hnodes
  rw [Option.any_eq_true] at hvisited
  obtain ⟨n, hn, hv⟩ := hvisited
  obtain ⟨path, hclimb, -⟩ :=
    hclaim previousLoop g' 20 (by decide +kernel) (by decide +kernel) hrun "c" ⟨n, hn, hv⟩
  have hroot := hclimb.of_closed (S := fun k => k = "c" ∨ k = "d") (fun a b ha hb => ?_)
    (Or.inl rfl)
  · exact absurd hroot (by decide +kernel)
  · rcases ha with rfl | rfl
    · exact Or.inr (Option.some_inj.mp (hb.symm.trans hc))
    · exact Or.inl (Option.some_inj.mp (hb.symm.trans hd))

end Graph

end RustyTinc

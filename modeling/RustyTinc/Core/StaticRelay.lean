import RustyTinc.Core.SearchSteps

/-!
The static relay of a node, `via`: the node that packets to it are sent to over UDP.

* `chooseSptpsTransportTargets`: the choice between the static relay and the next hop;
* `ViaVisited`: a static relay is a visited node, and a direct node is its own;
* `RelayedOnce`: a static relay is direct, kept as long as no direct route becomes indirect;
* `static_relay_direct`: then relays do not form chains;
* `static_relay_not_direct`: in general they do.
-/

namespace RustyTinc

/-! ### The choice of the transport -/

/-- What the choice of a relay needs to know about the path to a node. -/
structure RuntimeSptpsRouteSnapshot where
  nextHop : Option String
  via : Option String
  minMtu : ℕ
deriving DecidableEq

/-- The node to which a packet goes by UDP, and the one to which it goes by TCP. -/
structure SptpsTransportTargets where
  udpRelay : String
  tcpTarget : String
deriving DecidableEq

/-- The routes to the other nodes. -/
def Graph.sptpsRouteSnapshot (g : Graph) (localName name : String) :
    Option RuntimeSptpsRouteSnapshot :=
  if name = localName then none
  else (g.node name).map fun node => ⟨node.route.nextHop, node.route.via, node.minMtu⟩

/-- The nodes to which a packet for `owner` goes: by UDP to a relay when the packet fits its MTU. -/
def chooseSptpsTransportTargets (localName : String)
    (snapshots : String → Option RuntimeSptpsRouteSnapshot) (owner relayHint : String)
    (payloadLen : ℕ) (staticViaProbe : Bool) : SptpsTransportTargets :=
  let tcpTarget := ((snapshots owner).bind fun snapshot => snapshot.nextHop).getD relayHint
  let via := ((snapshots owner).bind fun snapshot => snapshot.via).filter (· ≠ localName)
  let udpRelay := via.bind fun via =>
    ((snapshots via).filter fun viaSnapshot =>
      staticViaProbe || payloadLen ≤ viaSnapshot.minMtu).map fun _ => via
  ⟨udpRelay.getD tcpTarget, tcpTarget⟩

/-- The relay is the static relay of the owner, or the target for TCP. -/
lemma chooseSptpsTransportTargets_udpRelay (localName : String)
    (snapshots : String → Option RuntimeSptpsRouteSnapshot) (owner relayHint : String)
    (payloadLen : ℕ) (staticViaProbe : Bool) :
    let targets := chooseSptpsTransportTargets localName snapshots owner relayHint payloadLen
      staticViaProbe
    targets.udpRelay = targets.tcpTarget ∨
      ∃ snapshot, snapshots owner = some snapshot ∧ snapshot.via = some targets.udpRelay := by
  intro targets
  cases hrelay : (((snapshots owner).bind fun snapshot => snapshot.via).filter
      (· ≠ localName)).bind fun via => ((snapshots via).filter fun viaSnapshot =>
        staticViaProbe || payloadLen ≤ viaSnapshot.minMtu).map fun _ => via with
  | none =>
      left
      show Option.getD _ _ = _
      rw [hrelay]
      rfl
  | some relay =>
      right
      have htarget : targets.udpRelay = relay := by
        show Option.getD _ _ = _
        rw [hrelay]
        rfl
      rw [htarget]
      obtain ⟨via, hvia, hsnap⟩ := Option.bind_eq_some_iff.mp hrelay
      obtain ⟨-, -, rfl⟩ := Option.map_eq_some_iff.mp hsnap
      exact Option.bind_eq_some_iff.mp (Option.filter_eq_some_iff.mp hvia).1

namespace Graph

/-! ### What the search keeps -/

/-- The static relay of a visited node is visited, and that of a direct node is the node. -/
def ViaVisited (g : Graph) : Prop :=
  ∀ k n, g.node k = some n → n.status.visited = true →
    ∃ v, n.route.via = some v ∧ g.Visited v ∧ (n.status.indirect = false → v = k)

/-- The static relay of a visited node is direct, and that of a direct node is the node. -/
def RelayedOnce (g : Graph) : Prop :=
  ∀ k n, g.node k = some n → n.status.visited = true →
    ∃ v m, n.route.via = some v ∧ g.node v = some m ∧ m.status.visited = true ∧
      m.status.indirect = false ∧ (n.status.indirect = false → v = k)

section Keeps

variable {addWeight : ℤ → ℤ → ℤ} {g₀ g : Graph}

lemma viaVisited_start (hg : g.WellFormed) : ViaVisited g.ssspReset.ssspStart := by
  intro k n hn hv
  obtain ⟨rfl, -, hroute⟩ := node_ssspStart hg hn hv
  exact ⟨g.myself, by rw [hroute], ⟨n, hn, hv⟩, fun _ => rfl⟩

/-- The relay of a visited node is a visited node. -/
lemma keeps_viaVisited : Keeps addWeight g₀ (fun _ => True) ViaVisited := by
  intro r hof _ hvia n hn himp k n' hn' hv'
  have hvis : ∀ k, (r.next addWeight).Visited k ↔ k = r.edge.toNode ∨ r.graph.Visited k :=
    r.visited_next hn
  rw [r.node_next hn] at hn'
  split_ifs at hn' with hk
  · rw [Option.some_inj] at hn'
    rw [← hn', via_reroute]
    cases hind : r.indirect with
    | false => exact ⟨_, rfl, (hvis _).mpr (Or.inl rfl), fun _ => hk.symm⟩
    | true =>
        obtain ⟨u, hu, huv, -, -, -, huvia, -⟩ := hof.exists_source
        obtain ⟨v, hv, hvvis, -⟩ := hvia _ u hu huv
        obtain rfl : r.source.via = v := Option.some_inj.mp (huvia.symm.trans hv)
        refine ⟨_, rfl, (hvis _).mpr (Or.inr hvvis), fun hdir => ?_⟩
        exact absurd (hind.symm.trans hdir) (by simp)
  · obtain ⟨v, hv, hvvis, hdir⟩ := hvia k n' hn' hv'
    exact ⟨v, hv, (hvis v).mpr (Or.inr hvvis), hdir⟩

lemma relayedOnce_start (hg : g.WellFormed) : RelayedOnce g.ssspReset.ssspStart := by
  intro k n hn hv
  obtain ⟨rfl, hdir, hroute⟩ := node_ssspStart hg hn hv
  exact ⟨g.myself, n, by rw [hroute], hn, hv, hdir, fun _ => rfl⟩

/-- A step that does not make a direct route indirect keeps static relays direct. -/
lemma keeps_relayedOnce :
    Keeps addWeight g₀ (fun r => r.demotes addWeight = false) RelayedOnce := by
  intro r hof hdemotes hrelay n hn himp
  set n₁ := n.reroute addWeight r.graph.myself r.source r.edge
  have hnode : ∀ k, (r.next addWeight).node k =
      if k = r.edge.toNode then some n₁ else r.graph.node k := r.node_next hn
  have hind : n₁.status.indirect = r.indirect := rfl
  -- a direct node is still direct after the step
  have hkept : ∀ v m, r.graph.node v = some m → m.status.visited = true →
      m.status.indirect = false → ∃ m', (r.next addWeight).node v = some m' ∧
        m'.status.visited = true ∧ m'.status.indirect = false := by
    intro v m hm hmv hmdir
    rw [hnode]
    split_ifs with hv
    · obtain rfl : n = m := by rw [← hv, hm, Option.some_inj] at hn; exact hn.symm
      exact ⟨n₁, rfl, rfl, hind.trans (r.indirect_of_not_demotes hdemotes hn hmv hmdir himp)⟩
    · exact ⟨m, hm, hmv, hmdir⟩
  intro k n' hn' hv'
  rw [hnode] at hn'
  split_ifs at hn' with hk
  · rw [Option.some_inj] at hn'
    rw [← hn', show n₁.route.via = _ from via_reroute r n]
    cases hr : r.indirect with
    | false =>
        refine ⟨_, n₁, rfl, ?_, rfl, hind.trans hr, fun _ => hk.symm⟩
        rw [hnode, if_pos rfl]
    | true =>
        obtain ⟨u, hu, huv, -, -, -, huvia, -⟩ := hof.exists_source
        obtain ⟨v, m, hv, hm, hmv, hmdir, -⟩ := hrelay _ u hu huv
        obtain rfl : r.source.via = v := Option.some_inj.mp (huvia.symm.trans hv)
        obtain ⟨m', hm', hmv', hmdir'⟩ := hkept _ m hm hmv hmdir
        refine ⟨_, m', rfl, hm', hmv', hmdir', fun hdir => ?_⟩
        rw [hind, hr] at hdir
        cases hdir
  · obtain ⟨v, m, hv, hm, hmv, hmdir, hself⟩ := hrelay k n' hn' hv'
    obtain ⟨m', hm', hmv', hmdir'⟩ := hkept v m hm hmv hmdir
    exact ⟨v, m', hv, hm', hmv', hmdir', hself⟩

end Keeps

/-! ### The static relays that a search finds -/

/-- **Static relays**: after a search a static relay is a visited node, and the static relay of a
direct node is the node itself. If no step of the search replaced a direct route by an indirect
one, a static relay is direct, so it is its own static relay; exactly the direct nodes are their
own; and a packet goes to the target for TCP or to such a relay. -/
theorem static_relay_direct {addWeight : ℤ → ℤ → ℤ} {g g' : Graph} (hg : g.WellFormed) {fuel : ℕ}
    (hrun : g.ssspBfs addWeight fuel = some g') :
    (∀ t n, g'.node t = some n → n.status.visited = true →
      ∃ v, n.route.via = some v ∧ g'.Visited v ∧ (n.status.indirect = false → v = t)) ∧
    ((∀ r ∈ g.ssspTrace addWeight fuel, r.demotes addWeight = false) →
      (∀ t n, g'.node t = some n → n.status.visited = true →
        ∃ v m, n.route.via = some v ∧ g'.node v = some m ∧ m.status.visited = true ∧
          m.status.indirect = false ∧ m.route.via = some v ∧
          (v = t ↔ n.status.indirect = false)) ∧
      ∀ (owner relayHint : String) (payloadLen : ℕ) (staticViaProbe : Bool),
        let targets := chooseSptpsTransportTargets g'.myself (g'.sptpsRouteSnapshot g'.myself)
          owner relayHint payloadLen staticViaProbe
        targets.udpRelay = targets.tcpTarget ∨
          ∃ m, g'.node targets.udpRelay = some m ∧ m.status.visited = true ∧
            m.status.indirect = false ∧ m.route.via = some targets.udpRelay) := by
  refine ⟨ssspBfs_keeps hg keeps_viaVisited (viaVisited_start hg) (fun _ _ => trivial) hrun,
    fun hdemotes => ?_⟩
  have honce := ssspBfs_keeps hg keeps_relayedOnce (relayedOnce_start hg) hdemotes hrun
  have hrelay : ∀ t n, g'.node t = some n → n.status.visited = true →
      ∃ v m, n.route.via = some v ∧ g'.node v = some m ∧ m.status.visited = true ∧
        m.status.indirect = false ∧ m.route.via = some v ∧
        (v = t ↔ n.status.indirect = false) := by
    intro t n hn hv
    obtain ⟨v, m, hvia, hm, hmv, hmdir, hself⟩ := honce t n hn hv
    obtain ⟨v', -, hvia', -, -, -, hself'⟩ := honce v m hm hmv
    refine ⟨v, m, hvia, hm, hmv, hmdir, hself' hmdir ▸ hvia', fun hvt => ?_, hself⟩
    rw [hvt, hn, Option.some_inj] at hm
    rw [hm, hmdir]
  refine ⟨hrelay, fun owner relayHint payloadLen staticViaProbe => ?_⟩
  refine (chooseSptpsTransportTargets_udpRelay g'.myself _ owner relayHint payloadLen
    staticViaProbe).imp_right fun ⟨snapshot, hsnap, hvia⟩ => ?_
  rw [sptpsRouteSnapshot] at hsnap
  split_ifs at hsnap
  obtain ⟨n, hn, rfl⟩ := Option.map_eq_some_iff.mp hsnap
  have hv : n.status.visited = true := by
    by_contra hv
    have hroute := (ssspBfs_spec hg hrun).1.unrouted owner n hn (by simpa using hv)
    rw [hroute] at hvia
    cases hvia
  obtain ⟨v, m, hv', hm, hmv, hmdir, hself, -⟩ := hrelay owner n hn hv
  obtain rfl := Option.some_inj.mp (hv'.symm.trans hvia)
  exact ⟨m, hm, hmv, hmdir, hself⟩

/-- A link of `a` with `b`, and an indirect one of `b` with `c`. -/
def relayHop : Graph :=
  ofEdges ["a", "b", "c"]
    [("a", "b", 5, 0), ("b", "a", 5, 0), ("b", "c", 7, optionIndirect),
      ("c", "b", 7, optionIndirect)]

/-- The static relay of `c`. -/
theorem static_relay_direct_hop : ∃ g', relayHop.ssspBfs (· + ·) 10 = some g' ∧
    ∃ n v m, g'.node "c" = some n ∧ n.route.via = some v ∧ g'.node v = some m ∧
      m.status.indirect = false ∧ v ≠ "c" := by
  obtain ⟨g', hrun⟩ : ∃ g', relayHop.ssspBfs (· + ·) 10 = some g' :=
    Option.isSome_iff_exists.mp (by decide +kernel)
  obtain ⟨n, hn, hv, hind⟩ : ∃ n, g'.node "c" = some n ∧ n.status.visited = true ∧
      n.status.indirect = true := by
    have hnode : ((relayHop.ssspBfs (· + ·) 10).bind fun g => g.node "c").any
        (fun n => n.status.visited && n.status.indirect) = true := by decide +kernel
    rw [hrun, Option.bind_some, Option.any_eq_true] at hnode
    simpa using hnode
  have hrelay := ((static_relay_direct (by decide +kernel) hrun).2 (by decide +kernel)).1
  obtain ⟨v, m, hvia, hm, -, hdir, -, hself⟩ := hrelay "c" n hn hv
  exact ⟨g', hrun, n, v, m, hn, hvia, hm, hdir, fun hvc => by simp [hind] at hself; exact hself hvc⟩

/-- `a` with direct links to `b` and `d` and indirect ones to `c` and `e`. The edges from `d` and
`f` to `c` have a negative weight, and the former is indirect. -/
def relayChain : Graph :=
  ofEdges ["a", "b", "c", "d", "e", "f"]
    [("a", "b", 0, 0), ("a", "c", 0, optionIndirect), ("a", "d", 0, 0),
      ("a", "e", 0, optionIndirect), ("b", "a", 0, 0), ("b", "c", 0, 0), ("c", "a", 0, 0),
      ("c", "b", 0, 0), ("c", "d", 0, 0), ("c", "e", 0, 0), ("c", "f", -1, optionIndirect),
      ("d", "a", 0, 0), ("d", "c", -1, optionIndirect), ("e", "a", 0, 0), ("e", "c", 0, 0),
      ("f", "c", -1, 0)]

/-- **Indirect relays**: `c` is given a direct route, `f` an indirect one with `c` as its relay,
and then `c` one through `f`, lighter and of the same length, with itself as the relay. -/
theorem static_relay_not_direct : ¬ ∀ (g g' : Graph) (fuel : ℕ), g.WellFormed →
    g.ssspBfs (· + ·) fuel = some g' → ∀ t n, g'.node t = some n → n.status.visited = true →
      ∃ v m, n.route.via = some v ∧ g'.node v = some m ∧ m.status.visited = true ∧
        m.status.indirect = false ∧ m.route.via = some v ∧
        (v = t ↔ n.status.indirect = false) := by
  intro hclaim
  obtain ⟨g', hrun⟩ : ∃ g', relayChain.ssspBfs (· + ·) 20 = some g' :=
    Option.isSome_iff_exists.mp (by decide +kernel)
  obtain ⟨n, hn, ⟨hv, hind⟩, hvia⟩ : ∃ n, g'.node "c" = some n ∧
      (n.status.visited = true ∧ n.status.indirect = true) ∧ n.route.via = some "c" := by
    have hnode : ((relayChain.ssspBfs (· + ·) 20).bind fun g => g.node "c").any
        (fun n => n.status.visited && n.status.indirect && n.route.via == some "c") = true := by
      decide +kernel
    rw [hrun, Option.bind_some, Option.any_eq_true] at hnode
    simpa using hnode
  obtain ⟨v, m, hv', hm, -, hdir, -⟩ := hclaim relayChain g' 20 (by decide +kernel) hrun "c" n hn hv
  obtain rfl : "c" = v := Option.some_inj.mp (hvia.symm.trans hv')
  rw [hn, Option.some_inj] at hm
  rw [← hm, hind] at hdir
  cases hdir

end Graph

end RustyTinc

import RustyTinc.Core.MetaText
import RustyTinc.Core.SearchReturns

/-!
The sums of weights that the route search computes, and when they overflow.

* `LightestSumsFit`, `PathSumsFit`: conditions on the weights of the links, for the lightest of the
  shortest chains and for all paths;
* `sums_inRange_iff`: a search that does not stretch overflows exactly if the first fails;
* `PathSumsFit.sum_inRange`: without circles of negative weight the second is enough;
* `LinksFit.pathSumsFit`: both hold when the weights are small.
-/

namespace RustyTinc

/-- A sum does not wrap exactly if it is a number of 32 bits. -/
lemma addI32_eq_iff (a b : ℤ) : addI32 a b = a + b ↔ I32 (a + b) := by
  rw [addI32, I32, Text.InRange]
  refine ⟨fun h => ?_, fun h => Int.bmod_eq_of_le (by omega) (by omega)⟩
  have hle : -((2 ^ 32 : ℕ) / 2 : ℤ) ≤ (a + b).bmod (2 ^ 32) := Int.le_bmod (by omega)
  have hlt : (a + b).bmod (2 ^ 32) < ((2 ^ 32 : ℕ) + 1) / 2 := Int.bmod_lt (by omega)
  rw [h] at hle hlt
  push_cast at hle hlt ⊢
  omega

namespace Graph

/-- The weight of the lightest of the shortest chains to a node, and that of a link that leaves it,
add up to a number of 32 bits. -/
def LightestSumsFit (g : Graph) : Prop :=
  ∀ m w first e, g.Lightest m w first e.fromNode → g.edges.get? e.key = some e →
    g.hasReverseEdge e = true → e.toNode ≠ g.myself → I32 (w + e.weight)

/-- The weight of a path that meets no node twice, and that of a link that leaves its end, add up
to a number of 32 bits. -/
def PathSumsFit (g : Graph) : Prop :=
  ∀ w rest e, WeightedWalk.Path g.Linked g.weightOf g.myself ((e.fromNode, w) :: rest) →
    g.edges.get? e.key = some e → g.hasReverseEdge e = true → e.toNode ≠ g.myself →
    I32 (w + e.weight)

/-- The weights of the links times the number of nodes are numbers of 32 bits. -/
def LinksFit (g : Graph) : Prop :=
  ∀ e ∈ g.edges.values, g.hasReverseEdge e = true → I32 (e.weight * g.nodes.keys.length)

instance (g : Graph) : Decidable g.LinksFit :=
  inferInstanceAs (Decidable (∀ e ∈ g.edges.values, _ → _))

section Sums

variable {g₀ g : Graph} {r : Relaxation} {n : Node} {name : String} {queue : List String}

/-! ### Steps with exact sums -/

lemma next_of_exact
    (hexact : r.newWeightedDistance addI32 = r.newWeightedDistance (· + ·)) :
    r.next addI32 = r.next (· + ·) := by
  have hsum : addI32 r.source.weightedDistance r.edge.weight =
      r.source.weightedDistance + r.edge.weight := hexact
  rw [Relaxation.next, Relaxation.next]
  refine congrArg (r.graph.modifyNode r.edge.toNode) (funext fun n => ?_)
  simp only [Node.reroute, hsum]

/-- What steps with exact sums keep, the search keeps as long as no sum overflows. -/
lemma keeps_of_exact {I : Graph → Prop} (hkeep : Keeps (· + ·) g₀ (fun _ => True) I)
    (hrange : ∀ r : Relaxation, r.Of g₀ → I r.graph → I32 (r.newWeightedDistance (· + ·))) :
    Keeps addI32 g₀ (fun _ => True) I := by
  intro r hof _ hI n hn himp
  have hexact : r.newWeightedDistance addI32 = r.newWeightedDistance (· + ·) :=
    (addI32_eq_iff _ _).mpr (hrange r hof hI)
  rw [next_of_exact hexact]
  rw [Relaxation.improves, hexact] at himp
  exact hkeep r hof trivial hI n hn himp

/-! ### Paths -/

/-- The weight of every visited node is that of a path through visited nodes, none of which is
heavier than the path is there. -/
def WeighsPath (g₀ g : Graph) : Prop :=
  ∀ k, g.Visited k → ∃ rest,
    WeightedWalk.Path g₀.Linked g₀.weightOf g₀.myself ((k, g.weighted k) :: rest) ∧
      ∀ p ∈ rest, g.Visited p.1 ∧ g.weighted p.1 ≤ p.2

lemma weighsPath_start (hg : g.WellFormed) : WeighsPath g g.ssspReset.ssspStart := by
  rintro k ⟨n, hn, hv⟩
  obtain ⟨rfl, -, hroute⟩ := node_ssspStart hg hn hv
  refine ⟨[], ?_, by simp⟩
  rw [weighted_of_weightedDistance hn (by rw [hroute])]
  exact .start

/-- A step that lowers the weight of a node goes along a path that has not met it: otherwise the
node would be no heavier than the path is there, and the circle back to it has no negative
weight. -/
lemma keeps_weighsPath (hcircle : g₀.NoNegativeCircle) :
    Keeps (· + ·) g₀ (fun _ => True) (WeighsPath g₀) := by
  intro r hof _ hpath n hn himp k hk
  have hlighter : ∀ p : String × ℤ, r.graph.Visited p.1 ∧ r.graph.weighted p.1 ≤ p.2 →
      (r.next (· + ·)).Visited p.1 ∧ (r.next (· + ·)).weighted p.1 ≤ p.2 := fun p hp =>
    ⟨(r.visited_next hn _).mpr (Or.inr hp.1), (weighted_next_le hof hn himp hp.1).trans hp.2⟩
  by_cases hup : k = r.edge.toNode ∧
      n.updateNextHop r.newDistance (r.newWeightedDistance (· + ·)) = true
  · obtain ⟨rfl, hup⟩ := hup
    obtain ⟨rest, hp, hrest⟩ := hpath _ hof.source_visited
    have hall : ∀ p ∈ (r.edge.fromNode, r.graph.weighted r.edge.fromNode) :: rest,
        r.graph.Visited p.1 ∧ r.graph.weighted p.1 ≤ p.2 :=
      List.forall_mem_cons.mpr ⟨⟨hof.source_visited, le_rfl⟩, hrest⟩
    have hnew : r.edge.toNode ∉
        ((r.edge.fromNode, r.graph.weighted r.edge.fromNode) :: rest).map Prod.fst := by
      intro hmem
      obtain ⟨p, hpmem, hpk⟩ := List.mem_map.mp hmem
      obtain ⟨hpv, hpw⟩ := hall p hpmem
      have hwalk := (hp.walk hpmem).step hof.linked
      have hjoined := hp.reaches p hpmem
      rw [hpk] at hwalk hjoined hpv hpw
      have hpos := hcircle _ _ hjoined hwalk
      rw [weightOf_edge hof.stored, hof.weighted_source] at hpos
      obtain ⟨n', hn', hv⟩ := hpv
      obtain rfl := Option.some_inj.mp (hn.symm.trans hn')
      have hlt := newWeightedDistance_lt hof hn hv hup
      have hsum : r.newWeightedDistance (· + ·) = r.source.weightedDistance + r.edge.weight := rfl
      omega
    refine ⟨_, ?_, fun p hp => hlighter p (hall p hp)⟩
    have hstep := hp.step hof.linked hnew
    rw [weightOf_edge hof.stored] at hstep
    rw [weighted_next_of_updateNextHop hn hup, Relaxation.newWeightedDistance,
      ← hof.weighted_source]
    exact hstep
  · -- the weight stays as it is
    have hsame : r.graph.Visited k ∧ (r.next (· + ·)).weighted k = r.graph.weighted k := by
      by_cases hkt : k = r.edge.toNode
      · have hup' := fun h => hup ⟨hkt, h⟩
        exact ⟨hkt ▸ ⟨n, hn, visited_of_not_updateNextHop hup'⟩,
          weighted_next_of_not_updateNextHop hn hup' k⟩
      · exact ⟨((r.visited_next hn k).mp hk).resolve_left hkt, weighted_next_of_ne hn hkt⟩
    obtain ⟨rest, hp, hrest⟩ := hpath k hsame.1
    rw [hsame.2]
    exact ⟨rest, hp, fun p hp => hlighter p (hrest p hp)⟩

lemma PathSumsFit.sum_step (hfit : g₀.PathSumsFit) (hof : r.Of g₀) (h : WeighsPath g₀ r.graph) :
    I32 (r.newWeightedDistance (· + ·)) := by
  obtain ⟨rest, hp, -⟩ := h _ hof.source_visited
  rw [hof.weighted_source] at hp
  exact hfit _ rest r.edge hp hof.stored hof.reverse hof.ne_myself

/-- **The sums of a search without circles of negative weight** do not overflow when those of paths
do not. -/
theorem PathSumsFit.sum_inRange (hg : g.WellFormed) (hcircle : g.NoNegativeCircle)
    (hfit : g.PathSumsFit) {fuel : ℕ} :
    ∀ r ∈ g.ssspTrace addI32 fuel, I32 (r.source.weightedDistance + r.edge.weight) := by
  intro r hr
  obtain ⟨hof, h⟩ := ssspTrace_keeps hg
    (keeps_of_exact (keeps_weighsPath hcircle) fun r hof h => hfit.sum_step hof h)
    (weighsPath_start hg) (fun _ _ => trivial) r hr
  exact hfit.sum_step hof h

/-! ### Level by level -/

/-- The weight with which a node leaves the queue. -/
lemma LevelInv.lightest_source {addWeight : ℤ → ℤ → ℤ} (hg : g₀.WellFormed)
    (h : LevelInv g₀ g (name :: queue)) (hr : r ∈ g.visitTrace addWeight name) :
    r.Of g₀ ∧ ∃ m first, g₀.Lightest m r.source.weightedDistance first r.edge.fromNode := by
  have hvis := h.queue_visited name (by simp)
  obtain ⟨hof, hfrom, hsource⟩ := mem_visitTrace hg h.sssp hvis hr
  obtain ⟨n, src, hn, hsrc, -, -, hw, -⟩ := h.sssp.source hvis
  obtain rfl : src = r.source := Option.some_inj.mp (hsrc.symm.trans hsource)
  obtain ⟨m, w, first, hlightest, -, hweight⟩ := h.least_head
  rw [weighted_of_weightedDistance hn hw] at hweight
  exact ⟨hof, m, first, hfrom ▸ hweight ▸ hlightest⟩

/-- While no sum overflows, a visit is one with exact sums. -/
lemma LevelInv.step_of_exact (hg : g₀.WellFormed) (h : LevelInv g₀ g (name :: queue))
    (hstretch : ∀ r ∈ g.visitTrace addI32 name, r.stretches = false)
    (hexact : ∀ r ∈ g.visitTrace addI32 name, I32 (r.source.weightedDistance + r.edge.weight)) :
    (Advances (g.hops name) (g, []) (g.ssspVisit addI32 name) ∧
      LevelInv g₀ (g.ssspVisit addI32 name).1 (queue ++ (g.ssspVisit addI32 name).2)) ∧
      queueWorth g₀ (g.ssspVisit addI32 name).1 (queue ++ (g.ssspVisit addI32 name).2) <
        queueWorth g₀ g (name :: queue) := by
  have hsame : ∀ r ∈ g.visitTrace addI32 name,
      r.newWeightedDistance addI32 = r.newWeightedDistance (· + ·) :=
    fun r hr => (addI32_eq_iff _ _).mpr (hexact r hr)
  obtain ⟨htrace, hvisit⟩ := ssspVisit_congr hsame
  rw [← htrace] at hstretch
  rw [← hvisit]
  exact ⟨⟨(advances_ssspVisit hg h.sssp (h.queue_visited name (by simp)) hstretch).1,
    h.step hg hstretch⟩, h.queueWorth_lt hg hstretch⟩

/-- The links that leave a node that is no longer queued have been followed with its weight. -/
def SumsDone (g₀ g : Graph) (queue : List String) : Prop :=
  ∀ e, g.Visited e.fromNode → e.fromNode ∉ queue → g₀.edges.get? e.key = some e →
    g₀.hasReverseEdge e = true → e.toNode ≠ g₀.myself → I32 (g.weighted e.fromNode + e.weight)

/-- A visit whose sums do not overflow gives the exact sums of one more node. -/
lemma SumsDone.step (hg : g₀.WellFormed) (h : LevelInv g₀ g (name :: queue))
    (hdone : SumsDone g₀ g (name :: queue))
    (hadv : Advances (g.hops name) (g, []) (g.ssspVisit addI32 name))
    (hexact : ∀ r ∈ g.visitTrace addI32 name, I32 (r.source.weightedDistance + r.edge.weight)) :
    SumsDone g₀ (g.ssspVisit addI32 name).1 (queue ++ (g.ssspVisit addI32 name).2) := by
  intro e hvis hmem he hrev hne
  obtain ⟨hqueue, hpushed⟩ := not_or.mp (mt List.mem_append.mpr hmem)
  obtain ⟨hvis, hweight⟩ := hadv.same _ hvis hpushed
  rw [hweight]
  by_cases hname : e.fromNode = name
  · -- the node that was just visited
    obtain ⟨r, hr, rfl⟩ := exists_mem_visitTrace hg h.sssp hvis he hrev hne
    rw [hname] at hr
    obtain ⟨-, -, hsource⟩ := mem_visitTrace hg h.sssp (h.queue_visited name (by simp)) hr
    obtain ⟨n, src, hn, hsrc, -, -, hw, -⟩ := h.sssp.source (h.queue_visited name (by simp))
    obtain rfl : src = r.source := Option.some_inj.mp (hsrc.symm.trans hsource)
    rw [hname]
    show I32 (g.weighted name + r.edge.weight)
    rw [weighted_of_weightedDistance hn hw]
    exact hexact r hr
  · exact hdone e hvis (by simp [hname, hqueue]) he hrev hne

/-- **The sums of a search that goes level by level** do not overflow exactly if those of the
lightest of the shortest chains do not. -/
theorem sums_inRange_iff (hg : g.WellFormed) (hstretch : g.NeverStretches addI32) :
    (∀ fuel, ∀ r ∈ g.ssspTrace addI32 fuel, I32 (r.source.weightedDistance + r.edge.weight)) ↔
      g.LightestSumsFit := by
  have htrace : ∀ fuel, g.ssspTrace addI32 fuel =
      Worklist.trace (ssspVisit addI32) (visitTrace addI32) fuel g.ssspReset.ssspStart [g.myself] :=
    ssspTrace_eq hg
  simp only [NeverStretches, htrace] at hstretch ⊢
  constructor
  · intro hexact
    have hboth : ∀ fuel, ∀ r ∈ Worklist.trace (ssspVisit addI32) (visitTrace addI32) fuel
        g.ssspReset.ssspStart [g.myself], r.stretches = false ∧
          I32 (r.source.weightedDistance + r.edge.weight) :=
      fun fuel r hr => ⟨hstretch fuel r hr, hexact fuel r hr⟩
    have hstep := fun s a queue (h : LevelInv g s (a :: queue))
        (hQ : ∀ r ∈ visitTrace addI32 s a, r.stretches = false ∧
          I32 (r.source.weightedDistance + r.edge.weight)) =>
      h.step_of_exact hg (fun r hr => (hQ r hr).1) fun r hr => (hQ r hr).2
    obtain ⟨fuel, g', hrun⟩ := Worklist.run_returns_of_trace (queueWorth g)
      (fun s a queue h hQ => ⟨(hstep s a queue h hQ).1.2, (hstep s a queue h hQ).2⟩) hboth
      (levelInv_start hg)
    have hstart : SumsDone g g.ssspReset.ssspStart [g.myself] := fun e hvis hmem =>
      absurd (List.mem_singleton.mpr (((ssspStart_spec hg).2 _).mp hvis)) hmem
    obtain ⟨hend, hdone⟩ := Worklist.run_inv_of_trace
      (P := fun s queue => LevelInv g s queue ∧ SumsDone g s queue)
      (fun s a queue h hQ => ⟨(hstep s a queue h.1 hQ).1.2,
        h.2.step hg h.1 (hstep s a queue h.1 hQ).1.1 fun r hr => (hQ r hr).2⟩)
      (hboth fuel) hrun ⟨levelInv_start hg, hstart⟩
    intro m w first e hlightest he hrev hne
    -- at the end the weight of the node is that of the chain
    obtain ⟨hvis, hle, hweight⟩ := hend.least (D := m) (fun a ha => absurd ha List.not_mem_nil)
      hlightest.1 le_rfl
    obtain ⟨m', w', first', hchain', hm', hw'⟩ := hend.onChain _ hvis
    obtain ⟨hmm', hww'⟩ := hlightest.2 m' w' first' hchain'
    have hsum := hdone e hvis List.not_mem_nil he hrev hne
    have heq : g'.weighted e.fromNode = w := by
      have hless := hweight (by omega)
      have hmore := hww' (by omega)
      omega
    rwa [heq] at hsum
  · intro hfit fuel
    refine Worklist.trace_inv (P := LevelInv g) (fun s a queue h hQ => ?_) (hstretch fuel)
      (levelInv_start hg)
    have hexact : ∀ r ∈ visitTrace addI32 s a,
        I32 (r.source.weightedDistance + r.edge.weight) := by
      intro r hr
      obtain ⟨hof, m, first, hlightest⟩ := h.lightest_source hg hr
      exact hfit m _ first r.edge hlightest hof.stored hof.reverse hof.ne_myself
    exact ⟨hexact, (h.step_of_exact hg hQ hexact).1.2⟩

/-! ### Small weights -/

/-- The nodes of a path are known, so that it is shorter than their list. -/
lemma length_path_lt (hg : g.WellFormed) {k : String} {w : ℤ} {rest : List (String × ℤ)}
    (h : WeightedWalk.Path g.Linked g.weightOf g.myself ((k, w) :: rest)) :
    rest.length < g.nodes.keys.length := by
  have hsub : (((k, w) :: rest).map Prod.fst) ⊆ g.nodes.keys := by
    intro x hx
    obtain ⟨p, hp, rfl⟩ := List.mem_map.mp hx
    rcases Relation.ReflTransGen.cases_tail (h.reaches p hp) with heq | ⟨b, -, hlink⟩
    · exact heq ▸ hg.myself_mem
    · exact hlink.mem_right hg
  have hle := (h.nodup.subperm hsub).length_le
  rwa [List.length_map, List.length_cons] at hle

/-- **Small weights**: paths have fewer links than there are nodes. -/
lemma LinksFit.pathSumsFit (hg : g.WellFormed) (h : g.LinksFit) : g.PathSumsFit := by
  have hpos : (0 : ℤ) < g.nodes.keys.length := by
    exact_mod_cast List.length_pos_of_mem hg.myself_mem
  set low : ℤ := 2 ^ 31 / (g.nodes.keys.length : ℤ)
  set high : ℤ := (2 ^ 31 - 1) / (g.nodes.keys.length : ℤ)
  have hweight : ∀ e, g.edges.get? e.key = some e → g.hasReverseEdge e = true →
      -low ≤ e.weight ∧ e.weight ≤ high := by
    intro e he hrev
    obtain ⟨hlow, hhigh⟩ := h e (OrdMap.mem_values.mpr ⟨_, he⟩) hrev
    push_cast at hlow hhigh
    have hneg : -e.weight ≤ low := (Int.le_ediv_iff_mul_le hpos).mpr (by rw [neg_mul]; omega)
    exact ⟨by omega, (Int.le_ediv_iff_mul_le hpos).mpr (by omega)⟩
  have hlink : ∀ a b, g.Linked a b → -low ≤ g.weightOf a b ∧ g.weightOf a b ≤ high := by
    intro a b hab
    obtain ⟨e, he, rfl, rfl, hrev⟩ := hab.exists_edge hg
    rw [weightOf_edge he]
    exact hweight e he hrev
  intro w rest e hpath he hrev hne
  obtain ⟨hlow, hhigh⟩ := hpath.bounds hlink
  obtain ⟨helow, hehigh⟩ := hweight e he hrev
  have hlen : (rest.length : ℤ) + 1 ≤ g.nodes.keys.length := by
    exact_mod_cast length_path_lt hg hpath
  have hl : low * (rest.length + 1) ≤ 2 ^ 31 :=
    (mul_le_mul_of_nonneg_left hlen (Int.ediv_nonneg (by omega) hpos.le)).trans
      (Int.ediv_mul_le _ hpos.ne')
  have hh : high * (rest.length + 1) ≤ 2 ^ 31 - 1 :=
    (mul_le_mul_of_nonneg_left hlen (Int.ediv_nonneg (by omega) hpos.le)).trans
      (Int.ediv_mul_le _ hpos.ne')
  rw [mul_add, mul_one] at hl hh
  refine ⟨?_, ?_⟩
  · push_cast
    omega
  · push_cast
    omega

/-- A chain with the fewest hops is a path. -/
lemma Chain.exists_path {m : ℕ} {w : ℤ} {first : Option String} {k : String}
    (h : g.Chain m w first k) (hfewest : ∀ m' w' first', g.Chain m' w' first' k → m ≤ m') :
    ∃ rest, WeightedWalk.Path g.Linked g.weightOf g.myself ((k, w) :: rest) ∧
      ∀ p ∈ (k, w) :: rest, ∃ m' w' first', g.Chain m' w' first' p.1 ∧ m' ≤ m := by
  induction h with
  | start => exact ⟨[], .start, by
      simpa using ⟨0, none, .start⟩⟩
  | @tail m w first b c hchain hbc ih =>
      obtain ⟨rest, hpath, hreach⟩ := ih fun m' w' first' hb =>
        Nat.le_of_succ_le_succ (hfewest _ _ _ (hb.tail hbc))
      refine ⟨_, hpath.step hbc fun hmem => ?_, ?_⟩
      · -- the end of the chain is farther from the owner than the nodes on the way
        obtain ⟨p, hp, rfl⟩ := List.mem_map.mp hmem
        obtain ⟨m', w', first', hchain', hle⟩ := hreach p hp
        have hmore := hfewest m' w' first' hchain'
        omega
      · rw [List.forall_mem_cons]
        refine ⟨⟨_, _, _, hchain.tail hbc, le_rfl⟩, fun p hp => ?_⟩
        obtain ⟨m', w', first', hchain', hle⟩ := hreach p hp
        exact ⟨m', w', first', hchain', hle.trans (Nat.le_succ m)⟩

lemma PathSumsFit.lightestSumsFit (h : g.PathSumsFit) : g.LightestSumsFit := by
  intro m w first e hlightest he hrev hne
  obtain ⟨rest, hpath, -⟩ :=
    hlightest.1.exists_path fun m' w' first' hchain' => (hlightest.2 m' w' first' hchain').1
  exact h w rest e hpath he hrev hne

end Sums

end Graph

end RustyTinc

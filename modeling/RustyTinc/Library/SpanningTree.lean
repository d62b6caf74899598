import Mathlib.Tactic
import Mathlib.Combinatorics.SimpleGraph.Acyclic

/-!
Minimum spanning trees of a vertex set of a graph, and the correctness of growing one from
a single vertex by lightest crossing links.

* `IsSpanningTree`: a finite set of links inside a vertex set `C` that is acyclic and
  connects `C`;
* `exists_crossing`: a path that leaves a set uses a link across its boundary, with the rest
  of the path on either side of that link;
* `IsSpanningTree.exchange`: a link across a boundary can replace a crossing link of any
  spanning tree;
* `Grown`: the invariant of growing a tree, namely that every spanning tree is matched by one
  of no larger weight that contains the links chosen so far; `Grown.single` and
  `Grown.extend` are its two rules;
* `Grown.isSpanningTree` and `Grown.sum_le`: a grown tree with no crossing link left is a
  spanning tree, of the least total weight.
-/

namespace SpanningTree

open SimpleGraph

variable {V : Type*}

/-- The graph of a finite set of links. -/
abbrev linkGraph (T : Finset (Sym2 V)) : SimpleGraph V := fromEdgeSet (T : Set (Sym2 V))

/-- A set of links of `G` inside `C` that is acyclic and connects the vertices of `C`. -/
structure IsSpanningTree (G : SimpleGraph V) (C : Set V) (T : Finset (Sym2 V)) : Prop where
  links : ∀ e ∈ T, e ∈ G.edgeSet
  inside : ∀ e ∈ T, ∀ v ∈ e, v ∈ C
  acyclic : (linkGraph T).IsAcyclic
  connected : ∀ u ∈ C, ∀ v ∈ C, (linkGraph T).Reachable u v

lemma linkGraph_mono {T T' : Finset (Sym2 V)} (h : T ⊆ T') : linkGraph T ≤ linkGraph T' :=
  fromEdgeSet_mono (Finset.coe_subset.mpr h)

/-! ### Crossing links and exchange -/

/-- A path from a set to its complement uses a link across the boundary, and the path before
and after this link avoids it. -/
lemma exists_crossing {G : SimpleGraph V} {S : Set V} {u v : V} (p : G.Walk u v)
    (hp : p.IsPath) (hu : u ∈ S) (hv : v ∉ S) :
    ∃ x ∈ S, ∃ y ∉ S, s(x, y) ∈ p.edges ∧ (G.deleteEdges {s(x, y)}).Reachable u x ∧
      (G.deleteEdges {s(x, y)}).Reachable y v := by
  induction p with
  | nil => exact absurd hu hv
  | @cons u w v h q ih =>
      obtain ⟨hq, hu'⟩ := (Walk.cons_isPath_iff h q).mp hp
      have hnot : ∀ z, s(u, z) ∉ q.edges := fun z hz => hu' (q.fst_mem_support_of_mem_edges hz)
      by_cases hw : w ∈ S
      · obtain ⟨x, hx, y, hy, hmem, hux, hyv⟩ := ih hq hw hv
        refine ⟨x, hx, y, hy, by simp [hmem], ?_, hyv⟩
        have hne : s(u, w) ≠ s(x, y) := fun e => hnot w (e ▸ hmem)
        exact (Adj.reachable (by simp [h, hne])).trans hux
      · refine ⟨u, hu, w, hw, by simp, Reachable.refl u, ?_⟩
        exact ⟨q.toDeleteEdge s(u, w) (hnot w)⟩

section Exchange

variable [DecidableEq V] {G : SimpleGraph V} {C S : Set V} {T : Finset (Sym2 V)} {u v : V}

lemma linkGraph_erase (T : Finset (Sym2 V)) (e : Sym2 V) :
    linkGraph (T.erase e) = (linkGraph T).deleteEdges {e} := by
  ext a b
  simp only [fromEdgeSet_adj, Finset.coe_erase, Set.mem_sdiff, Finset.mem_coe,
    Set.mem_singleton_iff, deleteEdges_adj]
  tauto

lemma linkGraph_insert (T : Finset (Sym2 V)) (u v : V) :
    linkGraph (insert s(u, v) T) = linkGraph T ⊔ edge u v := by
  ext a b
  simp only [fromEdgeSet_adj, Finset.coe_insert, Set.mem_insert_iff, Finset.mem_coe, sup_adj,
    edge_adj, Sym2.eq_iff]
  tauto

/-- **Exchange**: a link across the boundary of `S` replaces some crossing link of a spanning
tree, and the result is a spanning tree. -/
theorem IsSpanningTree.exchange (hT : IsSpanningTree G C T) (hadj : G.Adj u v) (hu : u ∈ S)
    (hv : v ∉ S) (huC : u ∈ C) (hvC : v ∈ C) (hmem : s(u, v) ∉ T) :
    ∃ x ∈ S, ∃ y ∉ S, s(x, y) ∈ T ∧
      IsSpanningTree G C (insert s(u, v) (T.erase s(x, y))) := by
  obtain ⟨p, hp⟩ := (hT.connected u huC v hvC).exists_isPath
  obtain ⟨x, hx, y, hy, hmemp, hux, hyv⟩ := exists_crossing p hp hu hv
  have hxy : (linkGraph T).Adj x y := p.adj_of_mem_edges hmemp
  have hxyT : s(x, y) ∈ T := by simpa using (fromEdgeSet_adj _).mp hxy |>.1
  have hbridge : ¬ ((linkGraph T).deleteEdges {s(x, y)}).Reachable x y :=
    isBridge_iff.mp (isAcyclic_iff_forall_adj_isBridge.mp hT.acyclic hxy)
  have huv : ¬ ((linkGraph T).deleteEdges {s(x, y)}).Reachable u v := fun h =>
    hbridge ((hux.symm.trans h).trans hyv.symm)
  refine ⟨x, hx, y, hy, hxyT, ?_, ?_, ?_, ?_⟩
  · intro e he
    rcases Finset.mem_insert.mp he with rfl | he
    · exact hadj
    · exact hT.links e (Finset.mem_of_mem_erase he)
  · intro e he w hw
    rcases Finset.mem_insert.mp he with rfl | he
    · rcases Sym2.mem_iff.mp hw with rfl | rfl <;> assumption
    · exact hT.inside e (Finset.mem_of_mem_erase he) w hw
  · rw [linkGraph_insert, linkGraph_erase]
    exact (hT.acyclic.anti (deleteEdges_le _)).sup_edge_of_not_reachable huv
  · -- The two ends of the removed link stay connected through the new one.
    set T' := insert s(u, v) (T.erase s(x, y)) with hT'
    have hle : (linkGraph T).deleteEdges {s(x, y)} ≤ linkGraph T' := by
      rw [← linkGraph_erase]
      exact linkGraph_mono (Finset.subset_insert _ _)
    have huv' : (linkGraph T').Adj u v := by
      rw [hT', linkGraph_insert]
      simp [edge_adj, hadj.ne]
    have hxy' : (linkGraph T').Reachable x y :=
      ((hux.symm.mono hle).trans huv'.reachable).trans (hyv.symm.mono hle)
    have hstep : ∀ a b, (linkGraph T).Adj a b → (linkGraph T').Reachable a b := by
      intro a b hab
      by_cases heq : s(a, b) = s(x, y)
      · rcases Sym2.eq_iff.mp heq with ⟨rfl, rfl⟩ | ⟨rfl, rfl⟩
        · exact hxy'
        · exact hxy'.symm
      · exact (Adj.reachable (by simpa [heq] using hab)).mono hle
    intro a ha b hb
    obtain ⟨q⟩ := hT.connected a ha b hb
    induction q with
    | nil => exact Reachable.refl _
    | cons h q ih => 
        have hC := hT.inside s(_, _) ((fromEdgeSet_adj _).mp h).1
        exact (hstep _ _ h).trans (ih (hC _ (by simp)) hb)

end Exchange

/-- A spanning tree inside another one is equal to it. -/
lemma IsSpanningTree.eq_of_subset {G : SimpleGraph V} {C : Set V} {T T' : Finset (Sym2 V)}
    (hT : IsSpanningTree G C T) (hT' : IsSpanningTree G C T') (h : T ⊆ T') : T = T' := by
  refine Finset.Subset.antisymm h fun e he => ?_
  induction e with | _ a b
  by_contra hmem
  have hadj : (linkGraph T').Adj a b := by
    simpa [he] using G.ne_of_adj (hT'.links _ he)
  refine isBridge_iff.mp (isAcyclic_iff_forall_adj_isBridge.mp hT'.acyclic hadj) ?_
  have hab := hT.connected a (hT'.inside _ he a (by simp)) b (hT'.inside _ he b (by simp))
  refine hab.mono fun c d hcd => ?_
  obtain ⟨hcdT, hne⟩ := (fromEdgeSet_adj _).mp hcd
  have hcd' : s(c, d) ≠ s(a, b) := fun e => hmem (by rwa [← e])
  simpa [hne, hcd'] using h hcdT

/-! ### Growing a tree by lightest crossing links -/

section Grow

variable {W : Type*} [AddCommMonoid W] [LinearOrder W]

/-- The invariant of growing a tree: `T` is a tree on the vertices `S` of the component `C`,
and every spanning tree of `C` is matched by one of no larger weight that contains `T`. -/
structure Grown (G : SimpleGraph V) (w : Sym2 V → W) (C S : Set V) (T : Finset (Sym2 V)) :
    Prop where
  subset : S ⊆ C
  links : ∀ e ∈ T, e ∈ G.edgeSet
  inside : ∀ e ∈ T, ∀ v ∈ e, v ∈ S
  acyclic : (linkGraph T).IsAcyclic
  connected : ∀ u ∈ S, ∀ v ∈ S, (linkGraph T).Reachable u v
  extends_le : ∀ T₁, IsSpanningTree G C T₁ →
    ∃ T₂, IsSpanningTree G C T₂ ∧ T ⊆ T₂ ∧ ∑ e ∈ T₂, w e ≤ ∑ e ∈ T₁, w e

variable {G : SimpleGraph V} {w : Sym2 V → W} {C S : Set V} {T : Finset (Sym2 V)}

/-- A single vertex is a grown tree. -/
lemma Grown.single {s : V} (hs : s ∈ C) : Grown G w C {s} ∅ where
  subset := Set.singleton_subset_iff.mpr hs
  links := by simp
  inside := by simp
  acyclic := by simp [linkGraph]
  connected := by
    rintro u rfl v rfl
    exact Reachable.refl _
  extends_le T₁ hT₁ := ⟨T₁, hT₁, by simp, le_rfl⟩

/-- A lightest link across the boundary extends a grown tree. -/
theorem Grown.extend [DecidableEq V] [IsOrderedCancelAddMonoid W] (hS : Grown G w C S T) {u v : V} (hadj : G.Adj u v) (hu : u ∈ S)
    (hv : v ∉ S) (hvC : v ∈ C)
    (hmin : ∀ x ∈ S, ∀ y ∉ S, G.Adj x y → w s(u, v) ≤ w s(x, y)) :
    Grown G w C (insert v S) (insert s(u, v) T) := by
  have hmem : s(u, v) ∉ T := fun h => hv (hS.inside _ h v (by simp))
  have hle : linkGraph T ≤ linkGraph (insert s(u, v) T) :=
    linkGraph_mono (Finset.subset_insert _ _)
  have huv : (linkGraph (insert s(u, v) T)).Reachable u v :=
    Adj.reachable (by simp [hadj.ne])
  have hfrom : ∀ a ∈ insert v S, (linkGraph (insert s(u, v) T)).Reachable u a := by
    rintro a (rfl | ha)
    · exact huv
    · exact (hS.connected u hu a ha).mono hle
  refine ⟨Set.insert_subset hvC hS.subset, ?_, ?_, ?_, ?_, ?_⟩
  · intro e he
    rcases Finset.mem_insert.mp he with rfl | he
    · exact hadj
    · exact hS.links e he
  · intro e he a ha
    rcases Finset.mem_insert.mp he with rfl | he
    · rcases Sym2.mem_iff.mp ha with rfl | rfl
      · exact Or.inr hu
      · exact Or.inl rfl
    · exact Or.inr (hS.inside e he a ha)
  · -- The new vertex is isolated in the tree, so no cycle is closed.
    rw [linkGraph_insert]
    refine hS.acyclic.sup_edge_of_not_reachable fun h => ?_
    obtain ⟨p⟩ := h.symm
    cases p with
    | nil => exact hv hu
    | cons h' _ => exact hv (hS.inside _ ((fromEdgeSet_adj _).mp h').1 v (by simp))
  · exact fun a ha b hb => (hfrom a ha).symm.trans (hfrom b hb)
  · intro T₁ hT₁
    obtain ⟨T₂, hT₂, hsub, hsum⟩ := hS.extends_le T₁ hT₁
    by_cases hmem₂ : s(u, v) ∈ T₂
    · exact ⟨T₂, hT₂, Finset.insert_subset hmem₂ hsub, hsum⟩
    · obtain ⟨x, hx, y, hy, hxy, hT₃⟩ :=
        hT₂.exchange hadj hu hv (hS.subset hu) hvC hmem₂
      have hxyT : s(x, y) ∉ T := fun h => hy (hS.inside _ h y (by simp))
      refine ⟨_, hT₃, Finset.insert_subset_insert _ (Finset.subset_erase.mpr ⟨hsub, hxyT⟩), ?_⟩
      have herase : s(u, v) ∉ T₂.erase s(x, y) := fun h => hmem₂ (Finset.mem_of_mem_erase h)
      calc ∑ e ∈ insert s(u, v) (T₂.erase s(x, y)), w e
          = w s(u, v) + ∑ e ∈ T₂.erase s(x, y), w e := Finset.sum_insert herase
        _ ≤ w s(x, y) + ∑ e ∈ T₂.erase s(x, y), w e :=
            add_le_add_left (hmin x hx y hy (hT₂.links _ hxy)) _
        _ = ∑ e ∈ T₂, w e := Finset.add_sum_erase _ _ hxy
        _ ≤ ∑ e ∈ T₁, w e := hsum

/-- Once no link of the component crosses the boundary, the grown tree spans it. -/
theorem Grown.isSpanningTree (hS : Grown G w C S T) (hfull : C ⊆ S) : IsSpanningTree G C T where
  links := hS.links
  inside e he v hv := hS.subset (hS.inside e he v hv)
  acyclic := hS.acyclic
  connected u hu v hv := hS.connected u (hfull hu) v (hfull hv)

/-- **Minimality**: a grown spanning tree weighs no more than any spanning tree. -/
theorem Grown.sum_le (hS : Grown G w C S T) (hfull : C ⊆ S) {T₁ : Finset (Sym2 V)}
    (hT₁ : IsSpanningTree G C T₁) : ∑ e ∈ T, w e ≤ ∑ e ∈ T₁, w e := by
  obtain ⟨T₂, hT₂, hsub, hsum⟩ := hS.extends_le T₁ hT₁
  rw [(hS.isSpanningTree hfull).eq_of_subset hT₂ hsub]
  exact hsum

end Grow

end SpanningTree

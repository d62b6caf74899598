import Mathlib.Data.List.Sort
import RustyTinc.Core.Reachability
import RustyTinc.Library.SpanningTree

/-!
The spanning tree on which broadcasts travel: a scan over the edges in order of weight that
starts from one reachable node, adds an edge when exactly one of its ends is in the tree, and
starts over after an addition if an edge was skipped before it.

* `mstKruskal`: the scan, with enough fuel to reach the end of the list (`mstScan_done`);
* `MstInv`: its invariant: the links chosen so far form a grown tree, and no edge before the
  current position crosses the boundary of the tree;
* `mstKruskal_spec`: the chosen links form a spanning tree of least weight of the reachable
  nodes, when these are a component of the graph;
* `mstKruskal_congr`: the tree depends only on the edges and the reachability flags.
-/

namespace RustyTinc

namespace Edge

/-- The key by which edges are sorted: the weight, and then the names of the ends. -/
def rank (e : Edge) : ℤ ×ₗ (String ×ₗ String) := toLex (e.weight, toLex (e.fromNode, e.toNode))

/-- The order in which the edges are scanned. -/
def RankLe (a b : Edge) : Prop := a.rank ≤ b.rank

instance : DecidableRel RankLe := fun a b => inferInstanceAs (Decidable (a.rank ≤ b.rank))

instance : Std.Total RankLe := ⟨fun a b => le_total a.rank b.rank⟩

instance : IsTrans Edge RankLe := ⟨fun _ _ _ => le_trans⟩

lemma RankLe.weight_le {a b : Edge} (h : RankLe a b) : a.weight ≤ b.weight := by
  rcases (Prod.Lex.le_iff).mp h with h | h
  · exact le_of_lt h
  · exact le_of_eq h.1

end Edge

namespace Graph

/-! ### The scan -/

/-- The edges by weight, and those of one weight by their names. -/
def weightSortedEdges (g : Graph) : List Edge := g.edges.values.insertionSort Edge.RankLe

/-- The variables of the scan. -/
structure MstState where
  visited : OrdSet String
  mstEdges : OrdSet EdgeKey
  skipped : Bool
  index : ℕ

/-- Look at the edge at the current position. -/
def mstStep (g : Graph) (st : MstState) (e : Edge) : MstState :=
  let fromVisited := st.visited.contains e.fromNode
  let toVisited := st.visited.contains e.toNode
  if !g.hasReverseEdge e || fromVisited == toVisited then
    { st with skipped := true, index := st.index + 1 }
  else
    { visited := (st.visited.insert e.fromNode ()).insert e.toNode ()
      mstEdges := (st.mstEdges.insert e.key ()).insert e.key.reverse ()
      skipped := false
      index := if st.skipped then 0 else st.index + 1 }

/-- The scan over the edges, which goes back to the first one when an edge was taken after others
had been skipped. -/
def mstScan (g : Graph) (edges : List Edge) : ℕ → MstState → MstState
  | 0, st => st
  | fuel + 1, st =>
      match edges[st.index]? with
      | none => st
      | some e => mstScan g edges fuel (g.mstStep st e)

/-- The spanning tree of the nodes that can be reached, from the lightest edge on. -/
def mstKruskal (g : Graph) : Graph :=
  let edges := g.weightSortedEdges
  match edges.find? fun e => g.isReachable e.fromNode with
  | none => { g with mstEdges := OrdMap.empty }
  | some start =>
      let st : MstState :=
        { visited := OrdMap.empty.insert start.fromNode ()
          mstEdges := OrdMap.empty
          skipped := false
          index := 0 }
      let fuel := edges.length * (edges.length + 1) + edges.length
      { g with mstEdges := (g.mstScan edges fuel st).mstEdges }

@[simp] lemma mstKruskal_nodes (g : Graph) : g.mstKruskal.nodes = g.nodes := by
  rw [mstKruskal]
  split <;> rfl

@[simp] lemma mstKruskal_edges (g : Graph) : g.mstKruskal.edges = g.edges := by
  rw [mstKruskal]
  split <;> rfl

@[simp] lemma mstKruskal_myself (g : Graph) : g.mstKruskal.myself = g.myself := by
  rw [mstKruskal]
  split <;> rfl

lemma mstScan_congr {g g' : Graph} (h : g.edges = g'.edges) (edges : List Edge) (fuel : ℕ)
    (st : MstState) : g.mstScan edges fuel st = g'.mstScan edges fuel st := by
  have hrev : g.hasReverseEdge = g'.hasReverseEdge := by
    funext e
    rw [hasReverseEdge, hasReverseEdge, h]
  have hstep : g.mstStep = g'.mstStep := by
    funext st e
    rw [mstStep, mstStep, hrev]
  induction fuel generalizing st with
  | zero => rfl
  | succ fuel ih => simp only [mstScan, hstep, ih]

/-- **The tree depends only on the edges and the reachability flags.** -/
theorem mstKruskal_congr {g g' : Graph} (hedges : g.edges = g'.edges)
    (hreach : ∀ k, g.isReachable k = g'.isReachable k) :
    g.mstKruskal.mstEdges = g'.mstKruskal.mstEdges := by
  have hsorted : g.weightSortedEdges = g'.weightSortedEdges := by
    rw [weightSortedEdges, weightSortedEdges, hedges]
  simp only [mstKruskal, hsorted, hreach]
  cases g'.weightSortedEdges.find? fun e => g'.isReachable e.fromNode with
  | none => rfl
  | some start => exact congrArg MstState.mstEdges (mstScan_congr hedges _ _ _)

/-! ### The scan reaches the end of the list -/

/-- The edges that do not have both ends in the tree yet. -/
def openEdges (edges : List Edge) (st : MstState) : ℕ :=
  edges.countP fun e => !(st.visited.contains e.fromNode && st.visited.contains e.toNode)

/-- What is left to do: rounds of the list for the open edges, and the rest of this round. -/
def remaining (edges : List Edge) (st : MstState) : ℕ :=
  openEdges edges st * (edges.length + 1) + (edges.length - st.index)

/-- Whether an edge can be added: its reverse is stored and exactly one end is in the tree. -/
def Candidate (g : Graph) (st : MstState) (e : Edge) : Prop :=
  g.hasReverseEdge e = true ∧ (e.fromNode ∈ st.visited.keys ↔ e.toNode ∉ st.visited.keys)

/-- An edge that cannot be added is skipped; a candidate is added with its reverse. -/
lemma mstStep_cases (g : Graph) (st : MstState) (e : Edge) :
    ¬ g.Candidate st e ∧ g.mstStep st e = { st with skipped := true, index := st.index + 1 } ∨
      g.Candidate st e ∧ g.mstStep st e =
        { visited := (st.visited.insert e.fromNode ()).insert e.toNode ()
          mstEdges := (st.mstEdges.insert e.key ()).insert e.key.reverse ()
          skipped := false
          index := if st.skipped then 0 else st.index + 1 } := by
  have hiff : (!g.hasReverseEdge e ||
      st.visited.contains e.fromNode == st.visited.contains e.toNode) = true ↔
      ¬ g.Candidate st e := by
    rw [Candidate, ← OrdMap.contains_eq_true, ← OrdMap.contains_eq_true]
    cases g.hasReverseEdge e <;> cases st.visited.contains e.fromNode <;>
      cases st.visited.contains e.toNode <;> simp
  by_cases hc : g.Candidate st e
  · refine Or.inr ⟨hc, ?_⟩
    rw [mstStep, if_neg fun h => hiff.mp h hc]
  · refine Or.inl ⟨hc, ?_⟩
    rw [mstStep, if_pos (hiff.mpr hc)]

/-- Counting fewer elements, one of them strictly. -/
lemma countP_lt_countP {α : Type*} {l : List α} {p q : α → Bool}
    (h : ∀ x ∈ l, p x = true → q x = true) {a : α} (ha : a ∈ l) (hp : p a = false)
    (hq : q a = true) : l.countP p < l.countP q := by
  obtain ⟨l₁, l₂, rfl⟩ := List.append_of_mem ha
  have h₁ : l₁.countP p ≤ l₁.countP q := List.countP_mono_left fun x hx => h x (by simp [hx])
  have h₂ : l₂.countP p ≤ l₂.countP q := List.countP_mono_left fun x hx => h x (by simp [hx])
  simp only [List.countP_append, List.countP_cons, hp, hq, if_true]
  simp only [Bool.false_eq_true, if_false]
  omega

/-- Every step of the scan leaves less to do. -/
lemma remaining_mstStep {g : Graph} {edges : List Edge} {st : MstState} {e : Edge}
    (he : edges[st.index]? = some e) : remaining edges (g.mstStep st e) < remaining edges st := by
  obtain ⟨hlt, heq⟩ := List.getElem?_eq_some_iff.mp he
  have hmem : e ∈ edges := heq ▸ List.getElem_mem hlt
  rcases mstStep_cases g st e with ⟨-, hstep⟩ | ⟨hc, hstep⟩
  · rw [hstep]
    simp only [remaining, openEdges]
    omega
  · -- The added edge was open and is not any more.
    have hvis : ∀ a, a ∈ st.visited.keys → a ∈ (g.mstStep st e).visited.keys := by
      intro a ha
      simp [hstep, ha]
    have hopen : openEdges edges (g.mstStep st e) < openEdges edges st := by
      refine countP_lt_countP (fun a _ => ?_) hmem ?_ ?_
      · have hf := hvis a.fromNode
        have ht := hvis a.toNode
        rw [← OrdMap.contains_eq_true, ← OrdMap.contains_eq_true] at hf ht
        cases h1 : st.visited.contains a.fromNode <;> cases h2 : st.visited.contains a.toNode <;>
          simp_all
      · simp [hstep]
      · have hc' := hc.2
        rw [← OrdMap.contains_eq_true, ← OrdMap.contains_eq_true] at hc'
        cases h1 : st.visited.contains e.fromNode <;> cases h2 : st.visited.contains e.toNode <;>
          simp_all
    have hmul := Nat.mul_le_mul_right (edges.length + 1) (Nat.succ_le_of_lt hopen)
    rw [Nat.succ_mul] at hmul
    simp only [remaining]
    omega

/-- With fuel for what remains, the scan ends past the last edge. -/
lemma mstScan_done {g : Graph} {edges : List Edge} {fuel : ℕ} {st : MstState}
    (hfuel : remaining edges st ≤ fuel) : edges[(g.mstScan edges fuel st).index]? = none := by
  induction fuel generalizing st with
  | zero =>
      rw [mstScan, List.getElem?_eq_none_iff]
      simp only [remaining] at hfuel
      omega
  | succ fuel ih =>
      rw [mstScan]
      cases he : edges[st.index]? with
      | none => exact he
      | some e => exact ih (by have := remaining_mstStep (g := g) he; omega)

lemma remaining_le (edges : List Edge) (st : MstState) :
    remaining edges st ≤ edges.length * (edges.length + 1) + edges.length := by
  have hle : openEdges edges st ≤ edges.length := List.countP_le_length
  have hmul := Nat.mul_le_mul_right (edges.length + 1) hle
  simp only [remaining]
  omega

/-! ### Links and their weights -/

/-- The links of the graph as an undirected graph. -/
def links (g : Graph) : SimpleGraph String where
  Adj a b := a ≠ b ∧ g.Linked a b
  symm := ⟨fun _ _ h => ⟨h.1.symm, h.2.symm⟩⟩
  loopless := ⟨fun _ h => h.1 rfl⟩

lemma links_adj {g : Graph} {a b : String} : g.links.Adj a b ↔ a ≠ b ∧ g.Linked a b := Iff.rfl

/-- The weight of a directed edge. -/
def weight (g : Graph) (a b : String) : ℤ := ((g.edge a b).map Edge.weight).getD 0

/-- The weight of a link is the smaller of its two directed weights. -/
def linkWeight (g : Graph) : Sym2 String → ℤ :=
  Sym2.lift ⟨fun a b => min (g.weight a b) (g.weight b a), fun _ _ => min_comm _ _⟩

@[simp] lemma linkWeight_mk (g : Graph) (a b : String) :
    g.linkWeight s(a, b) = min (g.weight a b) (g.weight b a) := rfl

/-- The undirected links described by a set of edge keys. -/
def treeLinks (keys : OrdSet EdgeKey) : Finset (Sym2 String) :=
  (keys.keys.map fun k => s(k.fromNode, k.toNode)).toFinset

lemma mem_treeLinks {keys : OrdSet EdgeKey} {l : Sym2 String} :
    l ∈ treeLinks keys ↔ ∃ k ∈ keys.keys, s(k.fromNode, k.toNode) = l := by
  simp [treeLinks]

@[simp] lemma treeLinks_empty : treeLinks OrdMap.empty = ∅ := rfl

/-- Both directions of an edge are one link. -/
lemma treeLinks_insert (keys : OrdSet EdgeKey) (k : EdgeKey) :
    treeLinks ((keys.insert k ()).insert k.reverse ()) =
      insert s(k.fromNode, k.toNode) (treeLinks keys) := by
  ext l
  simp only [mem_treeLinks, OrdMap.mem_keys_insert, Finset.mem_insert]
  constructor
  · rintro ⟨k', rfl | rfl | hk', rfl⟩
    · exact Or.inl Sym2.eq_swap
    · exact Or.inl rfl
    · exact Or.inr ⟨k', hk', rfl⟩
  · rintro (rfl | ⟨k', hk', rfl⟩)
    · exact ⟨k, Or.inr (Or.inl rfl), rfl⟩
    · exact ⟨k', Or.inr (Or.inr hk'), rfl⟩

/-! ### The invariant of the scan -/

/-- What the scan keeps, for the component `C` of its start. -/
structure MstInv (g : Graph) (C : Set String) (st : MstState) : Prop where
  grown : SpanningTree.Grown g.links g.linkWeight C {v | v ∈ st.visited.keys}
    (treeLinks st.mstEdges)
  reverse_mem : ∀ k ∈ st.mstEdges.keys, k.reverse ∈ st.mstEdges.keys
  linked : ∀ k ∈ st.mstEdges.keys, g.Linked k.fromNode k.toNode
  passed : ∀ i e, g.weightSortedEdges[i]? = some e → i < st.index → ¬ g.Candidate st e
  unskipped : st.skipped = false → ∀ i e, g.weightSortedEdges[i]? = some e → i < st.index →
    e.fromNode ∈ st.visited.keys ∧ e.toNode ∈ st.visited.keys

/-- What the scan keeps about the edges before the current position of a list. -/
structure Passed (g : Graph) (edges : List Edge) (st : MstState) : Prop where
  passed : ∀ i e, edges[i]? = some e → i < st.index → ¬ g.Candidate st e
  unskipped : st.skipped = false → ∀ i e, edges[i]? = some e → i < st.index →
    e.fromNode ∈ st.visited.keys ∧ e.toNode ∈ st.visited.keys

/-- An edge that is added after no skip leaves only edges with both ends in the tree behind. -/
lemma Passed.step {g : Graph} {edges : List Edge} {st : MstState} (h : g.Passed edges st)
    {e : Edge} (he : edges[st.index]? = some e) : g.Passed edges (g.mstStep st e) := by
  have heq : ∀ e', edges[st.index]? = some e' → e' = e := fun e' he' =>
    Option.some_inj.mp (he'.symm.trans he)
  rcases mstStep_cases g st e with ⟨hc, hstep⟩ | ⟨hc, hstep⟩
  · rw [hstep]
    refine ⟨fun i e' hi hlt => ?_, by simp⟩
    rcases Nat.eq_or_lt_of_le (Nat.le_of_lt_succ hlt) with rfl | hlt
    · exact heq e' hi ▸ hc
    · exact h.passed i e' hi hlt
  · have hpassed : ∀ i e', edges[i]? = some e' → i < (g.mstStep st e).index →
        e'.fromNode ∈ (g.mstStep st e).visited.keys ∧
          e'.toNode ∈ (g.mstStep st e).visited.keys := by
      intro i e' hi hlt
      rw [hstep] at hlt ⊢
      simp only [OrdMap.mem_keys_insert]
      cases hsk : st.skipped with
      | true => simp [hsk] at hlt
      | false =>
          simp only [hsk, Bool.false_eq_true, if_false] at hlt
          rcases Nat.eq_or_lt_of_le (Nat.le_of_lt_succ hlt) with rfl | hlt
          · rw [heq e' hi]
            exact ⟨Or.inr (Or.inl rfl), Or.inl rfl⟩
          · obtain ⟨hf, ht⟩ := h.unskipped hsk i e' hi hlt
            exact ⟨Or.inr (Or.inr hf), Or.inr (Or.inr ht)⟩
    refine ⟨fun i e' hi hlt hcand => ?_, fun _ => hpassed⟩
    obtain ⟨hf, ht⟩ := hpassed i e' hi hlt
    exact hcand.2.mp hf ht

section Scan

variable {g : Graph} {C : Set String} {st : MstState}

lemma mem_weightSortedEdges (hg : g.WellFormed) {e : Edge} :
    e ∈ g.weightSortedEdges ↔ g.edges.get? e.key = some e := by
  rw [weightSortedEdges, List.mem_insertionSort, OrdMap.mem_values]
  exact ⟨fun ⟨k, hk⟩ => hg.key_eq k e hk ▸ hk, fun h => ⟨_, h⟩⟩

lemma weight_of_mem (hg : g.WellFormed) {e : Edge} (he : e ∈ g.weightSortedEdges) :
    g.weight e.fromNode e.toNode = e.weight := by
  have hget : g.edge e.fromNode e.toNode = some e := (mem_weightSortedEdges hg).mp he
  rw [weight, hget]
  rfl

/-- Edges later in the list do not weigh less. -/
lemma weight_le_of_index_le {i j : ℕ} {e e' : Edge} (hi : g.weightSortedEdges[i]? = some e)
    (hj : g.weightSortedEdges[j]? = some e') (hij : i ≤ j) : e.weight ≤ e'.weight := by
  obtain ⟨hi', rfl⟩ := List.getElem?_eq_some_iff.mp hi
  obtain ⟨hj', rfl⟩ := List.getElem?_eq_some_iff.mp hj
  rcases Nat.eq_or_lt_of_le hij with rfl | hlt
  · exact le_rfl
  · have hsorted : g.weightSortedEdges.Pairwise Edge.RankLe :=
      List.pairwise_insertionSort Edge.RankLe _
    exact (List.pairwise_iff_getElem.mp hsorted i j hi' hj' hlt).weight_le

/-- A link across the boundary of the tree is a candidate, wherever it stands in the list. -/
lemma MstInv.weight_le (hg : g.WellFormed) (h : g.MstInv C st) {e : Edge}
    (he : g.weightSortedEdges[st.index]? = some e) {x y : String} (hxy : g.Linked x y)
    (hcross : x ∈ st.visited.keys ↔ y ∉ st.visited.keys) : e.weight ≤ g.weight x y := by
  obtain ⟨e', he', rfl, rfl, hrev⟩ := hxy.exists_edge hg
  have hmem' := (mem_weightSortedEdges hg).mpr he'
  obtain ⟨j, hj⟩ := List.mem_iff_getElem?.mp hmem'
  have hle : st.index ≤ j := not_lt.mp fun hlt => h.passed j e' hj hlt ⟨hrev, hcross⟩
  rw [weight_of_mem hg hmem']
  exact weight_le_of_index_le he hj hle

/-- The first candidate is a lightest link across the boundary, so adding it grows the tree. -/
lemma MstInv.grown_step (hg : g.WellFormed) (hC : ∀ a b, a ∈ C → g.Linked a b → b ∈ C)
    (h : g.MstInv C st) {e : Edge} (he : g.weightSortedEdges[st.index]? = some e)
    {u v : String} (huv : s(u, v) = s(e.fromNode, e.toNode)) (hrev : g.hasReverseEdge e = true)
    (hu : u ∈ st.visited.keys) (hv : v ∉ st.visited.keys) :
    SpanningTree.Grown g.links g.linkWeight C (insert v {v | v ∈ st.visited.keys})
      (insert s(u, v) (treeLinks st.mstEdges)) := by
  have hmem : e ∈ g.weightSortedEdges := List.mem_of_getElem? he
  have hlink : g.Linked u v := by
    have hlink := linked_of_hasReverseEdge ((mem_weightSortedEdges hg).mp hmem) hrev
    rcases Sym2.eq_iff.mp huv with ⟨rfl, rfl⟩ | ⟨rfl, rfl⟩
    · exact hlink
    · exact hlink.symm
  have hne : u ≠ v := fun heq => hv (heq ▸ hu)
  refine h.grown.extend ⟨hne, hlink⟩ hu hv (hC u v (h.grown.subset hu) hlink) ?_
  intro x hx y hy hadj
  have hle : e.weight ≤ min (g.weight x y) (g.weight y x) :=
    le_min (h.weight_le hg he hadj.2 (iff_of_true hx hy))
      (h.weight_le hg he hadj.2.symm (iff_of_false hy (not_not.mpr hx)))
  calc g.linkWeight s(u, v) = g.linkWeight s(e.fromNode, e.toNode) := by rw [huv]
    _ ≤ g.weight e.fromNode e.toNode := min_le_left _ _
    _ = e.weight := weight_of_mem hg hmem
    _ ≤ g.linkWeight s(x, y) := hle

/-- One step of the scan keeps the invariant. -/
lemma MstInv.step (hg : g.WellFormed) (hC : ∀ a b, a ∈ C → g.Linked a b → b ∈ C)
    (h : g.MstInv C st) {e : Edge} (he : g.weightSortedEdges[st.index]? = some e) :
    g.MstInv C (g.mstStep st e) := by
  have hpassed : g.Passed g.weightSortedEdges st := ⟨h.passed, h.unskipped⟩
  obtain ⟨hpassed', hunskipped'⟩ := hpassed.step he
  rcases mstStep_cases g st e with ⟨hc, hstep⟩ | ⟨hc, hstep⟩
  · rw [hstep] at hpassed' hunskipped' ⊢
    exact ⟨h.grown, h.reverse_mem, h.linked, hpassed', hunskipped'⟩
  · have hmem : e ∈ g.weightSortedEdges := List.mem_of_getElem? he
    have hlink : g.Linked e.fromNode e.toNode :=
      linked_of_hasReverseEdge ((mem_weightSortedEdges hg).mp hmem) hc.1
    refine ⟨?_, ?_, ?_, hpassed', hunskipped'⟩
    · rw [hstep]
      have hset : {v | v ∈ ((st.visited.insert e.fromNode ()).insert e.toNode ()).keys} =
          insert e.toNode (insert e.fromNode {v | v ∈ st.visited.keys}) := by
        ext v
        simp
      rw [treeLinks_insert, hset]
      by_cases hf : e.fromNode ∈ st.visited.keys
      · rw [Set.insert_eq_of_mem (show e.fromNode ∈ {v | v ∈ st.visited.keys} from hf)]
        exact h.grown_step hg hC he rfl hc.1 hf (hc.2.mp hf)
      · have ht : e.toNode ∈ st.visited.keys := not_not.mp (mt hc.2.mpr hf)
        have ht' : e.toNode ∈ insert e.fromNode {v | v ∈ st.visited.keys} := Or.inr ht
        have hswap : s(e.key.fromNode, e.key.toNode) = s(e.toNode, e.fromNode) := Sym2.eq_swap
        rw [Set.insert_eq_of_mem ht', hswap]
        exact h.grown_step hg hC he Sym2.eq_swap hc.1 ht hf
    · intro k hk
      rw [hstep] at hk ⊢
      simp only [OrdMap.mem_keys_insert] at hk ⊢
      rcases hk with rfl | rfl | hk
      · exact Or.inr (Or.inl rfl)
      · exact Or.inl rfl
      · exact Or.inr (Or.inr (h.reverse_mem k hk))
    · intro k hk
      rw [hstep] at hk
      simp only [OrdMap.mem_keys_insert] at hk
      rcases hk with rfl | rfl | hk
      · exact hlink.symm
      · exact hlink
      · exact h.linked k hk

lemma MstInv.scan (hg : g.WellFormed) (hC : ∀ a b, a ∈ C → g.Linked a b → b ∈ C)
    (h : g.MstInv C st) (fuel : ℕ) : g.MstInv C (g.mstScan g.weightSortedEdges fuel st) := by
  induction fuel generalizing st with
  | zero => exact h
  | succ fuel ih =>
      rw [mstScan]
      cases he : g.weightSortedEdges[st.index]? with
      | none => exact h
      | some e => exact ih (h.step hg hC he)

/-- The tree only grows. -/
lemma mem_visited_mstScan (edges : List Edge) (fuel : ℕ) {v : String}
    (hv : v ∈ st.visited.keys) : v ∈ (g.mstScan edges fuel st).visited.keys := by
  induction fuel generalizing st with
  | zero => exact hv
  | succ fuel ih =>
      rw [mstScan]
      cases he : edges[st.index]? with
      | none => exact hv
      | some e =>
          refine ih ?_
          rcases mstStep_cases g st e with ⟨-, hstep⟩ | ⟨-, hstep⟩
          · rw [hstep]
            exact hv
          · rw [hstep]
            simp [hv]

/-- When the scan has passed all edges, no link crosses the boundary, so the tree spans. -/
lemma MstInv.full (hg : g.WellFormed) (h : g.MstInv C st)
    (hdone : g.weightSortedEdges[st.index]? = none) {s : String} (hs : s ∈ st.visited.keys)
    (hjoined : ∀ v ∈ C, g.Joined s v) : C ⊆ {v | v ∈ st.visited.keys} := by
  intro v hv
  have hv' := hjoined v hv
  clear hv
  induction hv' with
  | refl => exact hs
  | tail _ hbc ih =>
      by_contra hnot
      obtain ⟨e, he, rfl, rfl, hrev⟩ := hbc.exists_edge hg
      obtain ⟨j, hj⟩ := List.mem_iff_getElem?.mp ((mem_weightSortedEdges hg).mpr he)
      have hlt : j < st.index :=
        lt_of_lt_of_le (List.getElem?_eq_some_iff.mp hj).1 (List.getElem?_eq_none_iff.mp hdone)
      exact h.passed j e hj hlt ⟨hrev, iff_of_true ih hnot⟩

end Scan

/-! ### The spanning tree -/

/-- A set of edge keys that describes a spanning tree of least weight of the nodes in `C`. -/
structure IsMinSpanningTree (g : Graph) (C : Set String) (keys : OrdSet EdgeKey) : Prop where
  reverse_mem : ∀ k, k ∈ keys.keys ↔ k.reverse ∈ keys.keys
  linked : ∀ k ∈ keys.keys, g.Linked k.fromNode k.toNode
  spans : SpanningTree.IsSpanningTree g.links C (treeLinks keys)
  minimal : ∀ T, SpanningTree.IsSpanningTree g.links C T →
    ∑ l ∈ treeLinks keys, g.linkWeight l ≤ ∑ l ∈ T, g.linkWeight l

/-- The weights and the links are those of the edges. -/
lemma IsMinSpanningTree.of_edges_eq {g g' : Graph} {C : Set String} {keys : OrdSet EdgeKey}
    (h : g.IsMinSpanningTree C keys) (hedges : g'.edges = g.edges) :
    g'.IsMinSpanningTree C keys := by
  have hlinked : g'.Linked = g.Linked := linked_congr (congrArg OrdMap.keys hedges)
  have hlinks : g'.links = g.links := by
    ext a b
    rw [links_adj, links_adj, hlinked]
  have hweight : g'.linkWeight = g.linkWeight := by
    funext l
    induction l with | _ a b
    simp only [linkWeight_mk, weight, edge, hedges]
  refine ⟨h.reverse_mem, fun k hk => hlinked ▸ h.linked k hk, hlinks ▸ h.spans, ?_⟩
  rw [hlinks, hweight]
  exact h.minimal

/-- **The scan builds a spanning tree of least weight**, when the nodes flagged reachable are
those joined to some node. -/
theorem mstKruskal_spec {g : Graph} (hg : g.WellFormed) {root : String}
    (hreach : ∀ k, g.isReachable k = true ↔ g.Joined root k) :
    g.IsMinSpanningTree {k | g.isReachable k = true} g.mstKruskal.mstEdges := by
  have hC : ∀ a b, a ∈ {k | g.isReachable k = true} → g.Linked a b →
      b ∈ {k | g.isReachable k = true} := fun a b ha hab =>
    (hreach b).mpr (((hreach a).mp ha).tail hab)
  have hroot : g.isReachable root = true := (hreach root).mpr Relation.ReflTransGen.refl
  cases hfind : g.weightSortedEdges.find? fun e => g.isReachable e.fromNode with
  | none =>
      -- No edge starts at a reachable node, so the root is alone.
      have halone : ∀ k, g.isReachable k = true → k = root := by
        intro k hk
        rcases Relation.ReflTransGen.cases_head ((hreach k).mp hk) with h | ⟨b, hb, -⟩
        · exact h.symm
        · obtain ⟨e, he, hfrom, -, -⟩ := hb.exists_edge hg
          have hnot := List.find?_eq_none.mp hfind e ((mem_weightSortedEdges hg).mpr he)
          rw [hfrom] at hnot
          exact absurd hroot hnot
      have hkeys : g.mstKruskal.mstEdges = OrdMap.empty := by
        simp only [mstKruskal, hfind]
      have hgrown := SpanningTree.Grown.single (G := g.links) (w := g.linkWeight)
        (C := {k | g.isReachable k = true}) hroot
      rw [hkeys]
      exact ⟨by simp, by simp, hgrown.isSpanningTree halone, fun T hT => hgrown.sum_le halone hT⟩
  | some start =>
      have hstart : g.isReachable start.fromNode = true := by
        simpa using List.find?_some hfind
      set st : MstState := ⟨OrdMap.empty.insert start.fromNode (), OrdMap.empty, false, 0⟩ with hst
      set fuel := g.weightSortedEdges.length * (g.weightSortedEdges.length + 1) +
        g.weightSortedEdges.length with hfuel
      have hkeys : g.mstKruskal.mstEdges =
          (g.mstScan g.weightSortedEdges fuel st).mstEdges := by
        simp only [mstKruskal, hfind]
        rfl
      have hset : {v | v ∈ st.visited.keys} = {start.fromNode} := by
        ext v
        simp [hst]
      have hinit : g.MstInv {k | g.isReachable k = true} st := by
        refine ⟨?_, by simp [hst], by simp [hst], by simp [hst], by simp [hst]⟩
        rw [hset]
        exact SpanningTree.Grown.single hstart
      have hinv := hinit.scan hg hC fuel
      have hdone : g.weightSortedEdges[(g.mstScan g.weightSortedEdges fuel st).index]? = none :=
        mstScan_done (remaining_le _ _)
      have hmem₀ : start.fromNode ∈ st.visited.keys := by simp [hst]
      have hmem : start.fromNode ∈ (g.mstScan g.weightSortedEdges fuel st).visited.keys :=
        mem_visited_mstScan _ _ hmem₀
      have hfull := hinv.full hg hdone hmem fun v hv =>
        ((hreach _).mp hstart).symm.trans ((hreach v).mp hv)
      rw [hkeys]
      exact ⟨fun k => ⟨hinv.reverse_mem k, fun hk => hinv.reverse_mem _ hk⟩, hinv.linked,
        hinv.grown.isSpanningTree hfull, fun T hT => hinv.grown.sum_le hfull hT⟩

end Graph

end RustyTinc

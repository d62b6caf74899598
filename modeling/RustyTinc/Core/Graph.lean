import Mathlib.Data.Prod.Lex
import Mathlib.Data.String.Basic
import RustyTinc.Library.OrdMap

/-!
The network graph held by a node: the known nodes with their status and route, the directed
edges with their weights, and the edges of the spanning tree.

* `Graph.WellFormed`: nodes and edges are stored under their own names, the ends of every edge
  are known nodes, and so is the owner of the graph; every operation keeps it;
* `Graph.Linked`: the graph stores the edge between two nodes in both directions, the notion of
  a usable connection on which routes, reachability and the spanning tree rest.
-/

namespace RustyTinc

/-- The edge may only be used through the node before it. -/
def optionIndirect : UInt32 := 0x0001

/-- The bit of the options of an edge that asks for smaller TCP segments. -/
def optionClampMss : UInt32 := 0x0008

/-- The MTU of a node of which nothing is known. -/
def defaultMtu : ℕ := 1518

/-- The minor protocol version packed into the top byte of the options. -/
def optionVersion (options : UInt32) : UInt8 := (options >>> 24).toUInt8

/-! ### Nodes and edges -/

/-- An address with its port, as the text that was received. -/
structure EdgeEndpoint where
  address : String
  port : String
deriving DecidableEq

/-- A directed edge is stored under the names of its ends. -/
structure EdgeKey where
  fromNode : String
  toNode : String
deriving DecidableEq

namespace EdgeKey

/-- The key of the edge the other way. -/
def reverse (k : EdgeKey) : EdgeKey := ⟨k.toNode, k.fromNode⟩

@[simp] lemma reverse_reverse (k : EdgeKey) : k.reverse.reverse = k := rfl

@[simp] lemma reverse_mk (a b : String) : reverse ⟨a, b⟩ = ⟨b, a⟩ := rfl

/-- The pair of ends, in the order by which keys are compared. -/
def toProd (k : EdgeKey) : String ×ₗ String := toLex (k.fromNode, k.toNode)

lemma toProd_injective : Function.Injective toProd := fun a b h => by
  cases a
  cases b
  simpa [toProd] using h

/-- Keys are ordered by the first end and then by the second. -/
instance : LinearOrder EdgeKey := LinearOrder.lift' toProd toProd_injective

end EdgeKey

/-- A connection of two nodes, as the first of them has announced it. -/
structure Edge where
  fromNode : String
  toNode : String
  address : Option EdgeEndpoint := none
  localAddress : Option EdgeEndpoint := none
  options : UInt32 := 0
  weight : ℤ
deriving DecidableEq

namespace Edge

/-- The key under which an edge is kept. -/
def key (e : Edge) : EdgeKey := ⟨e.fromNode, e.toNode⟩

/-- The edge with the address at which its second node is reached. -/
def withAddress (e : Edge) (address : EdgeEndpoint) : Edge := { e with address := some address }

/-- The edge with the local address of the connection. -/
def withLocalAddress (e : Edge) (address : EdgeEndpoint) : Edge :=
  { e with localAddress := some address }

/-- Whether the edge only gives an indirect path to its end. -/
def isIndirect (e : Edge) : Bool := e.options &&& optionIndirect != 0

end Edge

/-- The flags of a node. -/
structure NodeStatus where
  validKey : Bool := false
  waitingForKey : Bool := false
  visited : Bool := false
  reachable : Bool := false
  indirect : Bool := false
  sptps : Bool := false
  udpConfirmed : Bool := false
  sendLocally : Bool := false
  udpPacket : Bool := false
  validKeyIn : Bool := false
  hasAddress : Bool := false
  pingSent : Bool := false
deriving DecidableEq

/-- What the searches over the graph have found out about a node. -/
structure RouteState where
  distance : Option ℤ := none
  weightedDistance : Option ℤ := none
  nextHop : Option String := none
  previousEdge : Option EdgeKey := none
  via : Option String := none
deriving DecidableEq

/-- A node of the network, with what is known about the path to it. -/
structure Node where
  name : String
  status : NodeStatus := {}
  lastStateChange : ℤ := 0
  route : RouteState := {}
  options : UInt32 := 0
  mtu : ℕ := defaultMtu
  minMtu : ℕ := 0
  maxMtu : ℕ := defaultMtu
  mtuProbes : ℤ := 0
  udpAddress : Option EdgeEndpoint := none
deriving DecidableEq

/-! ### The graph -/

/-- The nodes and the edges, seen from the node `myself`. -/
structure Graph where
  myself : String
  nodes : OrdMap String Node
  edges : OrdMap EdgeKey Edge
  mstEdges : OrdSet EdgeKey
deriving DecidableEq

/-- Why the graph refuses a change. -/
inductive GraphError where
  | duplicateNode (name : String)
  | missingNode (name : String)
  | duplicateEdge (key : EdgeKey)
deriving DecidableEq

/-- What an announced edge has changed. -/
inductive EdgeMutation where
  | inserted
  | updated
  | unchanged
deriving DecidableEq

namespace Graph

/-- The graph of a node that knows only itself. -/
def new (myself : String) : Graph where
  myself := myself
  nodes := OrdMap.empty.insert myself { name := myself }
  edges := OrdMap.empty
  mstEdges := OrdMap.empty

/-- The node of a name. -/
def node (g : Graph) (name : String) : Option Node := g.nodes.get? name

/-- The edge from `a` to `b`. -/
def edge (g : Graph) (a b : String) : Option Edge := g.edges.get? ⟨a, b⟩

/-- The neighbours of a node in the spanning tree. -/
def mstNeighbors (g : Graph) (name : String) : List String :=
  (g.mstEdges.keys.filter fun k => k.fromNode = name).map EdgeKey.toNode

/-- Create the node unless it is known, and tell whether it was created. -/
def ensureNode (g : Graph) (name : String) : Graph × Bool :=
  if g.nodes.contains name then (g, false)
  else ({ g with nodes := g.nodes.insert name { name := name } }, true)

/-- An edge is added when its nodes are known and it is not there yet. -/
def addEdge (g : Graph) (e : Edge) : Except GraphError Graph :=
  if !g.nodes.contains e.fromNode then .error (.missingNode e.fromNode)
  else if !g.nodes.contains e.toNode then .error (.missingNode e.toNode)
  else if g.edges.contains e.key then .error (.duplicateEdge e.key)
  else .ok { g with edges := g.edges.insert e.key e }

/-- An edge is added, or takes the place of the one between the same nodes. -/
def upsertEdge (g : Graph) (e : Edge) : Except GraphError (Graph × EdgeMutation) :=
  if !g.nodes.contains e.fromNode then .error (.missingNode e.fromNode)
  else if !g.nodes.contains e.toNode then .error (.missingNode e.toNode)
  else match g.edges.get? e.key with
    | some existing =>
        if existing = e then .ok (g, .unchanged)
        else .ok ({ g with edges := g.edges.insert e.key e }, .updated)
    | none => .ok ({ g with edges := g.edges.insert e.key e }, .inserted)

/-- An edge leaves the graph and the spanning tree. -/
def removeEdge (g : Graph) (a b : String) : Graph × Option Edge :=
  ({ g with mstEdges := g.mstEdges.erase ⟨a, b⟩, edges := g.edges.erase ⟨a, b⟩ }, g.edge a b)

/-- All edges of a node leave the graph and the spanning tree. -/
def removeEdgesFrom (g : Graph) (name : String) : Graph × List Edge :=
  let keys := g.edges.keys.filter fun k => k.fromNode = name
  ({ g with
      mstEdges := g.mstEdges.retain fun k _ => k ∉ keys
      edges := g.edges.retain fun k _ => k ∉ keys },
    keys.filterMap g.edges.get?)

/-- Some edge ends at the node. -/
def hasEdgeTo (g : Graph) (name : String) : Bool := g.edges.keys.any fun k => k.toNode = name

/-- Forget a node and the edges at it; the owner of the graph stays. -/
def removeNode (g : Graph) (name : String) : Graph × Option Node :=
  if name = g.myself then (g, none)
  else
    ({ g with
        edges := g.edges.retain fun k _ => k.fromNode ≠ name && k.toNode ≠ name
        mstEdges := g.mstEdges.retain fun k _ => k.fromNode ≠ name && k.toNode ≠ name
        nodes := g.nodes.erase name },
      g.node name)

/-- Change a stored node in place. -/
def modifyNode (g : Graph) (name : String) (f : Node → Node) : Graph :=
  { g with nodes := g.nodes.modify name f }

/-- The edges that a node has announced. -/
def outgoingEdges (g : Graph) (name : String) : List Edge :=
  g.edges.values.filter fun e => e.fromNode = name

/-- The other node has announced the edge as well. -/
def hasReverseEdge (g : Graph) (e : Edge) : Bool := g.edges.contains e.key.reverse

/-! ### Links -/

/-- The graph stores the edge between two nodes in both directions. -/
def Linked (g : Graph) (a b : String) : Prop :=
  (⟨a, b⟩ : EdgeKey) ∈ g.edges.keys ∧ (⟨b, a⟩ : EdgeKey) ∈ g.edges.keys

instance (g : Graph) (a b : String) : Decidable (g.Linked a b) :=
  inferInstanceAs (Decidable (_ ∧ _))

lemma Linked.symm {g : Graph} {a b : String} (h : g.Linked a b) : g.Linked b a := ⟨h.2, h.1⟩

/-- Two nodes are joined by a chain of linked pairs. -/
def Joined (g : Graph) : String → String → Prop := Relation.ReflTransGen g.Linked

lemma Joined.symm {g : Graph} {a b : String} (h : g.Joined a b) : g.Joined b a :=
  have : Std.Symm g.Linked := ⟨fun _ _ => Linked.symm⟩
  Relation.ReflTransGen.stdSymm.symm _ _ h

/-- Links only depend on the stored edges. -/
lemma linked_congr {g g' : Graph} (h : g'.edges.keys = g.edges.keys) : g'.Linked = g.Linked := by
  funext a b
  simp only [Linked, h]

lemma joined_congr {g g' : Graph} (h : g'.edges.keys = g.edges.keys) : g'.Joined = g.Joined := by
  rw [Joined, Joined, linked_congr h]

/-! ### Well-formed graphs -/

/-- Nodes and edges are stored under their own names, the ends of the edges are known, and so
is the owner of the graph. -/
structure WellFormed (g : Graph) : Prop where
  name_eq : ∀ k n, g.nodes.get? k = some n → n.name = k
  key_eq : ∀ k e, g.edges.get? k = some e → e.key = k
  ends_mem : ∀ k, k ∈ g.edges.keys → k.fromNode ∈ g.nodes.keys ∧ k.toNode ∈ g.nodes.keys
  myself_mem : g.myself ∈ g.nodes.keys

/-- Well-formedness only looks at what is stored. -/
lemma wellFormed_iff {g : Graph} : g.WellFormed ↔
    (∀ x ∈ g.nodes.entries, x.2.name = x.1) ∧ (∀ x ∈ g.edges.entries, x.2.key = x.1) ∧
      (∀ k ∈ g.edges.keys, k.fromNode ∈ g.nodes.keys ∧ k.toNode ∈ g.nodes.keys) ∧
      g.myself ∈ g.nodes.keys := by
  constructor
  · rintro ⟨hname, hkey, hends, hme⟩
    exact ⟨fun x hx => hname x.1 x.2 (OrdMap.mem_entries.mp hx),
      fun x hx => hkey x.1 x.2 (OrdMap.mem_entries.mp hx), hends, hme⟩
  · rintro ⟨hname, hkey, hends, hme⟩
    exact ⟨fun k n h => hname (k, n) (OrdMap.mem_entries.mpr h),
      fun k e h => hkey (k, e) (OrdMap.mem_entries.mpr h), hends, hme⟩

instance (g : Graph) : Decidable g.WellFormed := decidable_of_iff' _ wellFormed_iff

lemma wellFormed_new (myself : String) : (new myself).WellFormed where
  name_eq k n h := by
    rw [new, OrdMap.get?_insert] at h
    split_ifs at h with hk
    · rw [Option.some_inj] at h
      rw [← h, hk]
    · simp at h
  key_eq k e h := by simp [new] at h
  ends_mem k h := by simp [new] at h
  myself_mem := by simp [new]

section Operations

variable {g : Graph}

lemma mem_outgoingEdges (hg : g.WellFormed) {name : String} {e : Edge} :
    e ∈ g.outgoingEdges name ↔ e.fromNode = name ∧ g.edges.get? e.key = some e := by
  simp only [outgoingEdges, List.mem_filter, OrdMap.mem_values, decide_eq_true_eq]
  constructor
  · rintro ⟨⟨k, hk⟩, hname⟩
    exact ⟨hname, hg.key_eq k e hk ▸ hk⟩
  · rintro ⟨hname, hk⟩
    exact ⟨⟨e.key, hk⟩, hname⟩

/-- An edge that is stored with its reverse links its ends. -/
lemma linked_of_hasReverseEdge {e : Edge} (he : g.edges.get? e.key = some e)
    (hrev : g.hasReverseEdge e = true) : g.Linked e.fromNode e.toNode :=
  ⟨OrdMap.mem_keys.mpr ⟨e, he⟩, OrdMap.contains_eq_true.mp hrev⟩

/-- A link is carried by a stored edge whose reverse is stored. -/
lemma Linked.exists_edge (hg : g.WellFormed) {a b : String} (h : g.Linked a b) :
    ∃ e, g.edges.get? e.key = some e ∧ e.fromNode = a ∧ e.toNode = b ∧
      g.hasReverseEdge e = true := by
  obtain ⟨e, he⟩ := OrdMap.mem_keys.mp h.1
  have hkey := hg.key_eq _ e he
  have hends : e.fromNode = a ∧ e.toNode = b := by simpa [Edge.key] using hkey
  refine ⟨e, hkey ▸ he, hends.1, hends.2, ?_⟩
  rw [hasReverseEdge, hkey]
  exact OrdMap.contains_eq_true.mpr h.2

lemma Linked.mem_right (hg : g.WellFormed) {a b : String} (h : g.Linked a b) : b ∈ g.nodes.keys :=
  (hg.ends_mem _ h.1).2

/-- Changing nodes without renaming them keeps a graph well formed. -/
lemma WellFormed.of_nodes {g' : Graph} (hg : g.WellFormed) (hme : g'.myself = g.myself)
    (hedges : g'.edges = g.edges) (hkeys : ∀ k ∈ g.nodes.keys, k ∈ g'.nodes.keys)
    (hname : ∀ k n, g'.nodes.get? k = some n → n.name = k) : g'.WellFormed where
  name_eq := hname
  key_eq := hedges ▸ hg.key_eq
  ends_mem k hk := (hg.ends_mem k (hedges ▸ hk)).imp (hkeys _) (hkeys _)
  myself_mem := hme ▸ hkeys _ hg.myself_mem

/-- Removing edges keeps a graph well formed. -/
lemma WellFormed.of_edges {g' : Graph} (hg : g.WellFormed) (hme : g'.myself = g.myself)
    (hnodes : g'.nodes = g.nodes)
    (hedges : ∀ k e, g'.edges.get? k = some e → g.edges.get? k = some e) : g'.WellFormed where
  name_eq := hnodes ▸ hg.name_eq
  key_eq k e h := hg.key_eq k e (hedges k e h)
  ends_mem k hk := by
    obtain ⟨e, he⟩ := OrdMap.mem_keys.mp hk
    rw [hnodes]
    exact hg.ends_mem k (OrdMap.mem_keys.mpr ⟨e, hedges k e he⟩)
  myself_mem := by rw [hme, hnodes]; exact hg.myself_mem

lemma WellFormed.modifyNode (hg : g.WellFormed) (name : String) {f : Node → Node}
    (hf : ∀ n, (f n).name = n.name) : (g.modifyNode name f).WellFormed := by
  refine hg.of_nodes rfl rfl (fun k hk => by simpa [Graph.modifyNode] using hk) fun k n h => ?_
  rw [Graph.modifyNode, OrdMap.get?_modify] at h
  split_ifs at h with hk
  · obtain ⟨n', hn', rfl⟩ := Option.map_eq_some_iff.mp h
    rw [hf, hg.name_eq k n' hn']
  · exact hg.name_eq k n h

lemma WellFormed.ensureNode (hg : g.WellFormed) (name : String) :
    (g.ensureNode name).1.WellFormed := by
  rw [Graph.ensureNode]
  split_ifs with hmem
  · exact hg
  · refine hg.of_nodes rfl rfl (fun k hk => by simp [hk]) fun k n h => ?_
    rw [OrdMap.get?_insert] at h
    split_ifs at h with hk
    · rw [Option.some_inj] at h
      rw [← h, hk]
    · exact hg.name_eq k n h

@[simp] lemma ensureNode_myself (g : Graph) (name : String) :
    (g.ensureNode name).1.myself = g.myself := by
  rw [ensureNode]
  split_ifs <;> rfl

@[simp] lemma ensureNode_edges (g : Graph) (name : String) :
    (g.ensureNode name).1.edges = g.edges := by
  rw [ensureNode]
  split_ifs <;> rfl

lemma mem_keys_ensureNode (g : Graph) (name k : String) :
    k ∈ (g.ensureNode name).1.nodes.keys ↔ k = name ∨ k ∈ g.nodes.keys := by
  rw [ensureNode]
  split_ifs with hmem
  · have hmem' : name ∈ g.nodes.keys := by simpa using hmem
    exact ⟨Or.inr, fun h => h.elim (fun e => e ▸ hmem') id⟩
  · simp

/-- The nodes known before are kept as they are, and a created node is a fresh one. -/
lemma get?_ensureNode (g : Graph) (name k : String) :
    (g.ensureNode name).1.nodes.get? k =
      if k = name ∧ k ∉ g.nodes.keys then some { name := name } else g.nodes.get? k := by
  rw [ensureNode]
  by_cases hmem : name ∈ g.nodes.keys
  · have hk : ¬ (k = name ∧ k ∉ g.nodes.keys) := fun h => h.2 (h.1 ▸ hmem)
    simp [hmem, hk]
  · by_cases hk : k = name
    · simp [hk, hmem, OrdMap.get?_insert]
    · simp [hk, hmem, OrdMap.get?_insert]

/-- Storing an edge between known nodes succeeds. -/
lemma upsertEdge_ok {e : Edge} (hfrom : e.fromNode ∈ g.nodes.keys)
    (hto : e.toNode ∈ g.nodes.keys) :
    ∃ m, g.upsertEdge e = .ok ({ g with edges := g.edges.insert e.key e }, m) := by
  have h1 : g.nodes.contains e.fromNode = true := OrdMap.contains_eq_true.mpr hfrom
  have h2 : g.nodes.contains e.toNode = true := OrdMap.contains_eq_true.mpr hto
  simp only [upsertEdge, h1, h2, Bool.not_true, Bool.false_eq_true, if_false]
  cases hget : g.edges.get? e.key with
  | none => exact ⟨.inserted, rfl⟩
  | some existing =>
      by_cases heq : existing = e
      · refine ⟨.unchanged, ?_⟩
        have hsame : g.edges.insert e.key e = g.edges := OrdMap.ext_get? fun k => by
          rw [OrdMap.get?_insert]
          split_ifs with hk
          · rw [hk, hget, heq]
          · rfl
        simp [heq, hsame]
      · exact ⟨.updated, by simp [heq]⟩

/-- An edge between known nodes may be added. -/
lemma WellFormed.insertEdge (hg : g.WellFormed) {e : Edge} (hfrom : e.fromNode ∈ g.nodes.keys)
    (hto : e.toNode ∈ g.nodes.keys) :
    ({ g with edges := g.edges.insert e.key e } : Graph).WellFormed where
  name_eq := hg.name_eq
  key_eq k e' h := by
    rw [OrdMap.get?_insert] at h
    split_ifs at h with hk
    · rw [Option.some_inj] at h
      rw [← h, hk]
    · exact hg.key_eq k e' h
  ends_mem k hk := by
    rcases OrdMap.mem_keys_insert.mp hk with rfl | hk
    · exact ⟨hfrom, hto⟩
    · exact hg.ends_mem k hk
  myself_mem := hg.myself_mem

lemma WellFormed.removeEdge (hg : g.WellFormed) (a b : String) :
    (g.removeEdge a b).1.WellFormed := by
  refine hg.of_edges rfl rfl fun k e h => ?_
  rw [Graph.removeEdge, OrdMap.get?_erase] at h
  split_ifs at h
  exact h

lemma WellFormed.removeEdgesFrom (hg : g.WellFormed) (name : String) :
    (g.removeEdgesFrom name).1.WellFormed := by
  refine hg.of_edges rfl rfl fun k e h => ?_
  rw [Graph.removeEdgesFrom, OrdMap.get?_retain] at h
  exact (Option.filter_eq_some_iff.mp h).1

/-- A node may be removed with its edges. -/
lemma WellFormed.removeNode (hg : g.WellFormed) (name : String) :
    (g.removeNode name).1.WellFormed := by
  rw [Graph.removeNode]
  split_ifs with hname
  · exact hg
  · refine ⟨fun k n h => ?_, fun k e h => ?_, fun k hk => ?_, ?_⟩
    · rw [OrdMap.get?_erase] at h
      split_ifs at h
      exact hg.name_eq k n h
    · rw [OrdMap.get?_retain] at h
      exact hg.key_eq k e (Option.filter_eq_some_iff.mp h).1
    · obtain ⟨e, he, hends⟩ := OrdMap.mem_keys_retain.mp hk
      have hk' := hg.ends_mem k (OrdMap.mem_keys.mpr ⟨e, he⟩)
      have hne : k.fromNode ≠ name ∧ k.toNode ≠ name := by simpa using hends
      simp [hne, hk']
    · simp [Ne.symm hname, hg.myself_mem]

end Operations

end Graph

end RustyTinc

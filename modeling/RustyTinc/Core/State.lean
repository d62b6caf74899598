import RustyTinc.Core.Mst
import RustyTinc.Core.Protocol

/-!
The network state of a node: its graph and its subnet table, changed by the messages of its
peers and by purging what is unreachable.

* `recomputeRoutesAt`: the route search, the reachability pass and the spanning tree;
* `applyMetaMessageAt`, `purgeUnreachableAt`: the two calls that change the state; both take
  fuel for the route search.
-/

namespace RustyTinc

/-- What a message has changed in the network. -/
inductive StateMutation where
  | terminateRequest
  | ping
  | pong
  | addSubnet (subnet : Subnet) (owner : String) (inserted ownerCreated : Bool)
  | deleteSubnet (removed : Option Subnet)
  | addEdge (edge : EdgeMutation) (createdNodes : List String)
      (reachability : ReachabilityChanges)
  | deleteEdge (removed : Option Edge) (reachability : ReachabilityChanges)
  | keyChanged (origin : String)
  | udpInfo (fromNode toNode : String) (endpoint : EdgeEndpoint) (changed : Bool)
  | mtuInfo (fromNode toNode : String) (mtu previous : ℕ) (updated : Bool)
  | noChange
deriving DecidableEq

/-- The settings under which nodes that are not reachable are kept. -/
structure PurgeOptions where
  strictSubnets : Bool
  autoconnect : Bool

/-- What a purge has removed. -/
structure PurgeResult where
  removedNodes : List String
  removedEdges : List Edge
  removedSubnets : List Subnet
  reachability : ReachabilityChanges
deriving DecidableEq

/-- The graph and the subnets of the network, as one daemon knows them. -/
structure NetworkState where
  graph : Graph
  subnets : SubnetTable
  experimental : Bool
deriving DecidableEq

/-- The edge of a message, with both its addresses. -/
def edgeFromAddEdgeMessage (m : AddEdgeMessage) : Edge :=
  let e := m.edge.withAddress ⟨m.address, m.port⟩
  match m.localAddress with
  | none => e
  | some l => e.withLocalAddress ⟨l.address, l.port⟩

namespace NetworkState

/-- Only the daemon itself is known. -/
def new (myself : String) : NetworkState := ⟨Graph.new myself, SubnetTable.new, true⟩

/-! ### Messages -/

section Calls

variable (addWeight : ℤ → ℤ → ℤ) (fuel : ℕ)

/-- The searches over the graph, after which the nodes that can be reached are known. -/
def recomputeRoutesAt (s : NetworkState) (now : ℤ) :
    Option (NetworkState × ReachabilityChanges) := do
  let g ← s.graph.ssspBfs addWeight fuel
  let (g, changes) := g.reconcileReachabilityAt s.experimental now
  return ({ s with graph := g.mstKruskal }, changes)

/-- An announced subnet is added, and its owner when it is not known. -/
def applyAddSubnet (s : NetworkState) (m : SubnetMessage) : NetworkState × StateMutation :=
  let (graph, ownerCreated) := s.graph.ensureNode m.owner
  let subnet := m.subnet.withOwner m.owner
  let (subnets, inserted) := s.subnets.addUnique subnet
  ({ s with graph, subnets }, .addSubnet subnet m.owner inserted ownerCreated)

/-- A subnet of its owner is removed. -/
def applyDeleteSubnet (s : NetworkState) (m : SubnetMessage) : NetworkState × StateMutation :=
  let (subnets, removed) := s.subnets.removeOwnerSubnet m.owner m.subnet
  ({ s with subnets }, .deleteSubnet removed)

/-- Create the ends of the announced edge, store the edge and recompute. An error of the graph
leaves the created nodes in place. -/
def applyAddEdge (s : NetworkState) (m : AddEdgeMessage) (now : ℤ) :
    Option (NetworkState × Except GraphError StateMutation) :=
  let (graph, fromCreated) := s.graph.ensureNode m.edge.fromNode
  let (graph, toCreated) := graph.ensureNode m.edge.toNode
  let createdNodes := (if fromCreated then [m.edge.fromNode] else []) ++
    (if toCreated then [m.edge.toNode] else [])
  match graph.upsertEdge (edgeFromAddEdgeMessage m) with
  | .error e => some ({ s with graph }, .error e)
  | .ok (graph, edge) => do
      let (s, reachability) ← recomputeRoutesAt addWeight fuel { s with graph } now
      return (s, .ok (.addEdge edge createdNodes reachability))

/-- An edge is removed, and the paths are searched again. -/
def applyDeleteEdge (s : NetworkState) (m : DeleteEdgeMessage) (now : ℤ) :
    Option (NetworkState × StateMutation) := do
  let (graph, removed) := s.graph.removeEdge m.fromNode m.toNode
  let (s, reachability) ← recomputeRoutesAt addWeight fuel { s with graph } now
  return (s, .deleteEdge removed reachability)

/-- The legacy key of a known node is not valid any more. -/
def applyKeyChanged (s : NetworkState) (m : KeyChangedMessage) : NetworkState × StateMutation :=
  match s.graph.node m.origin with
  | none => (s, .noChange)
  | some _ =>
      let graph := s.graph.modifyNode m.origin fun n =>
        { n with status := { n.status with validKey := n.status.validKey && n.status.sptps } }
      ({ s with graph }, .keyChanged m.origin)

/-- The address of a known node, after which its path is probed anew. -/
def applyUdpInfo (s : NetworkState) (m : UdpInfoMessage) : NetworkState × StateMutation :=
  if m.fromNode = s.graph.myself then (s, .noChange)
  else match s.graph.node m.fromNode with
    | none => (s, .noChange)
    | some node =>
        let endpoint : EdgeEndpoint := ⟨m.endpoint.address, m.endpoint.port⟩
        let graph := s.graph.modifyNode m.fromNode fun n =>
          { n with
            status := { n.status with udpConfirmed := false }
            mtuProbes := 0
            minMtu := 0
            maxMtu := defaultMtu
            udpAddress := some endpoint }
        ({ s with graph },
          .udpInfo m.fromNode m.toNode endpoint (node.udpAddress ≠ some endpoint))

/-- The MTU of a known node, as long as its own bounds still differ. -/
def applyMtuInfo (s : NetworkState) (m : MtuInfoMessage) : NetworkState × StateMutation :=
  match s.graph.node m.fromNode with
  | none => (s, .noChange)
  | some node =>
      let updated := node.mtu ≠ m.mtu && node.minMtu ≠ node.maxMtu
      let graph := s.graph.modifyNode m.fromNode fun n =>
        if n.mtu ≠ m.mtu && n.minMtu ≠ n.maxMtu then { n with mtu := m.mtu } else n
      ({ s with graph }, .mtuInfo m.fromNode m.toNode m.mtu node.mtu updated)

/-- What a message changes in the network; most messages change nothing here. -/
def applyMetaMessageAt (s : NetworkState) (message : MetaMessage) (now : ℤ) :
    Option (NetworkState × Except GraphError StateMutation) :=
  match message with
  | .terminateRequest => some (s, .ok .terminateRequest)
  | .ping => some (s, .ok .ping)
  | .pong => some (s, .ok .pong)
  | .addSubnet m => some ((s.applyAddSubnet m).map id .ok)
  | .deleteSubnet m => some ((s.applyDeleteSubnet m).map id .ok)
  | .addEdge m => applyAddEdge addWeight fuel s m now
  | .deleteEdge m => (applyDeleteEdge addWeight fuel s m now).map (Prod.map id .ok)
  | .keyChanged m => some ((s.applyKeyChanged m).map id .ok)
  | .udpInfo m => some ((s.applyUdpInfo m).map id .ok)
  | .mtuInfo m => some ((s.applyMtuInfo m).map id .ok)
  | .id _ | .metaKey _ | .challenge _ | .challengeReply _ | .ack _ | .requestKey _
  | .answerKey _ | .tcpPacket _ | .sptpsTcpPacket _ => some (s, .ok .noChange)

/-! ### Purging -/

/-- Remove what an unreachable node has announced. -/
def purgeClaims (options : PurgeOptions) (acc : NetworkState × List Subnet × List Edge)
    (name : String) : NetworkState × List Subnet × List Edge :=
  let (s, removedSubnets, removedEdges) := acc
  let (subnets, removed) :=
    if options.strictSubnets then (s.subnets, []) else s.subnets.removeOwner name
  let (graph, edges) := s.graph.removeEdgesFrom name
  ({ s with graph, subnets }, removedSubnets ++ removed, removedEdges ++ edges)

/-- Remove an unreachable node that nothing refers to any more. -/
def purgeNode (options : PurgeOptions) (acc : NetworkState × List String) (name : String) :
    NetworkState × List String :=
  let (s, removedNodes) := acc
  let hasClaimedSubnets := !(s.subnets.ownerSubnets name).isEmpty
  if !options.autoconnect && (!options.strictSubnets || !hasClaimedSubnets) &&
      !s.graph.hasEdgeTo name then
    match s.graph.removeNode name with
    | (graph, some node) => ({ s with graph }, removedNodes ++ [node.name])
    | (graph, none) => ({ s with graph }, removedNodes)
  else (s, removedNodes)

/-- The other nodes that cannot be reached. -/
def unreachableNodes (s : NetworkState) : List String :=
  (s.graph.nodes.values.filter fun n => n.name ≠ s.graph.myself && !n.status.reachable).map
    Node.name

/-- Nodes that cannot be reached lose their subnets and edges, and those that nothing names any more
are removed. -/
def purgeUnreachableAt (s : NetworkState) (options : PurgeOptions) (now : ℤ) :
    Option (NetworkState × PurgeResult) := do
  let unreachable := s.unreachableNodes
  let (s, removedSubnets, removedEdges) := unreachable.foldl (purgeClaims options) (s, [], [])
  let (s, removedNodes) := unreachable.foldl (purgeNode options) (s, [])
  let (s, reachability) ← recomputeRoutesAt addWeight fuel s now
  return (s, { removedNodes, removedEdges, removedSubnets, reachability })

end Calls

end NetworkState

end RustyTinc

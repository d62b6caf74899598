import RustyTinc.Core.Frame
import RustyTinc.Core.PastRequests
import RustyTinc.Core.Route
import RustyTinc.Runtime.Broadcast

/-!
What a node decides about a packet: it is sent on, broadcast, delivered or dropped.

* `routePacket`: the decision, from the destination of the packet and the table of subnets; in
  switch mode the hardware addresses behind the device are learned on the way;
* `routePacketMut`: the TTL of a packet that is forwarded is lowered first;
* `routePacket_send`: a packet is only sent to a node it did not come from.
-/

namespace RustyTinc

open Bytes

/-- Whether packets are routed by their addresses, or as a hub or a switch does it. -/
inductive RoutingMode where
  | hub
  | switch
  | router
deriving DecidableEq

/-- Whether a node passes on packets of others. -/
inductive ForwardingMode where
  | off
  | internal
  | kernel
deriving DecidableEq

/-- The route configuration with the fields that only the routing of a packet reads. -/
structure RouteSettings extends RouteConfig where
  routingMode : RoutingMode := .router
  forwardingMode : ForwardingMode := .internal
  decrementTtl : Bool := false
  priorityInheritance : Bool := false
  macExpire : ℤ := 600
  nowSecs : ℤ := 0
deriving DecidableEq

/-- Why a packet is dropped. -/
inductive RouteDropReason where
  | tooShort (expectedAtLeast actual : ℕ)
  | unknownEtherType (etherType : ℕ)
  | unknownIpv4Destination (destination : Ipv4Addr)
  | unknownIpv6Destination (destination : Ipv6Addr)
  | loopbackToSource (source : String)
  | unreachableOwner (owner : String)
  | forwardingDisabled
  | directOnly
  | routingLoop (source : String)
  | ttlExpired
  | addressResolutionFromRemote
  | invalidArpRequest
  | unknownArpTarget (target : Ipv4Addr)
  | localArpTarget (target : Ipv4Addr)
  | invalidNeighborSolicitation
  | invalidNeighborSolicitationChecksum
  | unknownNeighborTarget (target : Ipv6Addr)
  | localNeighborTarget (target : Ipv6Addr)
deriving DecidableEq

/-- What is done with a packet. -/
inductive RouteDecision where
  | send (owner : String) (via : Option String)
  | reply (target : String)
  | broadcast
  | deliverLocal
  | drop (reason : RouteDropReason)
deriving DecidableEq

/-- The decision about a packet, and the addresses that were learned from it. -/
structure RouteOutcome where
  decision : RouteDecision
  learned : List Subnet := []
deriving DecidableEq

/-- The header of a frame, and what it holds. -/
structure EthernetFrame where
  destination : MacAddr
  source : MacAddr
  etherType : ℕ
  payload : List UInt8
deriving DecidableEq

/-- The header of a frame. -/
def EthernetFrame.parse (packet : List UInt8) : Except RouteDropReason EthernetFrame :=
  if packet.length < ethHlen then .error (.tooShort ethHlen packet.length)
  else .ok ⟨array 6 packet, array 6 (packet.drop 6), u16At packet 12, packet.drop ethHlen⟩

/-! ### The decision -/

namespace NetworkState

variable (s : NetworkState)

/-- The node to which a packet for `owner` is sent. -/
def routeVia (owner : String) : Option String := do
  let node ← s.graph.node owner
  if node.route.via = some s.graph.myself then node.route.nextHop else node.route.via

/-- The owner is a neighbour to which packets go directly. -/
def directOnlyAllows (owner : String) (via : Option String) : Bool :=
  (s.graph.node owner).any fun node => via = some owner && node.route.nextHop = some owner

/-- The decision about a packet whose owner is known, from the tests that all modes share. -/
def routeToOwner (source owner : String) (settings : RouteSettings) : RouteDecision :=
  if settings.forwardingMode = .off ∧ source ≠ s.graph.myself ∧ owner ≠ s.graph.myself then
    .drop .forwardingDisabled
  else
    let via := s.routeVia owner
    if via = some source then .drop (.routingLoop source)
    else if settings.directOnly ∧ ¬ s.directOnlyAllows owner via then .drop .directOnly
    else .send owner via

/-- The decision about a packet whose destination lies in the subnet. -/
def routeToSubnetOwner (source : String) (subnet : Subnet) (settings : RouteSettings) :
    RouteDecision :=
  match subnet.owner with
  | none => .broadcast
  | some owner =>
      if owner = source then .drop (.loopbackToSource owner)
      else
        match s.graph.node owner with
        | none => .drop (.unreachableOwner owner)
        | some node =>
            if ¬ node.status.reachable then .drop (.unreachableOwner owner)
            else s.routeToOwner source owner settings

/-- The decision about an IPv4 packet. -/
def routeIpv4 (source : String) (packet : List UInt8) (settings : RouteSettings) :
    RouteDecision :=
  if packet.length < ethHlen + 20 then .drop (.tooShort (ethHlen + 20) packet.length)
  else
    let destination : Ipv4Addr := array 4 (packet.drop 30)
    match s.lookupReachableIpv4SubnetLikeTinc destination with
    | none => .drop (.unknownIpv4Destination destination)
    | some subnet => s.routeToSubnetOwner source subnet settings

/-- The decision about an IPv6 packet. -/
def routeIpv6 (source : String) (packet : List UInt8) (settings : RouteSettings) :
    RouteDecision :=
  if packet.length < ethHlen + 40 then .drop (.tooShort (ethHlen + 40) packet.length)
  else
    let destination : Ipv6Addr := array 16 (packet.drop 38)
    match s.lookupReachableIpv6SubnetLikeTinc destination with
    | none => .drop (.unknownIpv6Destination destination)
    | some subnet => s.routeToSubnetOwner source subnet settings

end NetworkState

/-- The first entry of an owner that equals a subnet is changed. -/
def SubnetTable.modifyOwnerSubnet (t : SubnetTable) (owner : String) (subnet : Subnet)
    (f : Subnet → Subnet) : SubnetTable :=
  match t.subnets.findIdx? fun candidate =>
      candidate.compareTinc { subnet with owner := some owner } = .eq with
  | none => t
  | some index => ⟨t.subnets.modify index f⟩

namespace NetworkState

/-- The address of a frame from the device is learned, or kept for longer. -/
def learnMac (s : NetworkState) (address : MacAddr) (settings : RouteSettings) :
    NetworkState × List Subnet :=
  let expires := settings.nowSecs + settings.macExpire
  let subnet : Subnet := ⟨.mac address, defaultWeight, some s.graph.myself, none⟩
  if (s.subnets.lookupOwnerSubnet s.graph.myself subnet).isSome then
    ({ s with subnets := s.subnets.modifyOwnerSubnet s.graph.myself subnet fun existing =>
        if existing.expires.isSome then { existing with expires := some expires } else existing },
      [])
  else
    let subnet := { subnet with expires := some expires }
    ({ s with subnets := s.subnets.add subnet }, [subnet])

/-- The decision about a frame in switch mode, which teaches the address of its sender. -/
def routeMac (s : NetworkState) (source : String) (frame : EthernetFrame)
    (settings : RouteSettings) : NetworkState × RouteOutcome :=
  let (s, learned) :=
    if source = s.graph.myself then s.learnMac frame.source settings else (s, [])
  let decision : RouteDecision :=
    match s.lookupReachableMacSubnetLikeTinc frame.destination with
    | none => .broadcast
    | some subnet =>
        match subnet.owner with
        | none => .broadcast
        | some owner =>
            if owner = source then .drop (.loopbackToSource owner)
            else s.routeToOwner source owner settings
  (s, ⟨decision, learned⟩)

/-- The decision about a packet. -/
def routePacket (s : NetworkState) (source : String) (packet : List UInt8)
    (settings : RouteSettings) : NetworkState × RouteOutcome :=
  if settings.forwardingMode = .kernel ∧ source ≠ s.graph.myself then (s, ⟨.deliverLocal, []⟩)
  else
    match EthernetFrame.parse packet with
    | .error reason => (s, ⟨.drop reason, []⟩)
    | .ok frame =>
        match settings.routingMode with
        | .hub => (s, ⟨.broadcast, []⟩)
        | .switch => s.routeMac source frame settings
        | .router =>
            if frame.etherType = ethPIp then (s, ⟨s.routeIpv4 source packet settings, []⟩)
            else if frame.etherType = ethPIpv6 then (s, ⟨s.routeIpv6 source packet settings, []⟩)
            else (s, ⟨.drop (.unknownEtherType frame.etherType), []⟩)

end NetworkState

/-- A packet of another node that goes on to others has passed one more node. -/
def shouldDecrementTtl (decision : RouteDecision) (source myself : String) : Bool :=
  match decision with
  | .broadcast => source ≠ myself
  | .send owner _ => source ≠ myself && owner ≠ myself
  | .reply _ | .deliverLocal | .drop _ => false

/-- The decision about a packet, and the packet with its TTL. -/
def NetworkState.routePacketMut (s : NetworkState) (source : String) (packet : List UInt8)
    (settings : RouteSettings) : NetworkState × RouteOutcome × List UInt8 :=
  let (s', outcome) := s.routePacket source packet settings
  if ¬ settings.decrementTtl ∨ ¬ shouldDecrementTtl outcome.decision source s.graph.myself then
    (s', outcome, packet)
  else
    match decrementTtl packet with
    | (.ok _, packet) => (s', outcome, packet)
    | (.error .expired, packet) => (s', ⟨.drop .ttlExpired, outcome.learned⟩, packet)
    | (.error (.tooShort expectedAtLeast actual), packet) =>
        (s', ⟨.drop (.tooShort expectedAtLeast actual), outcome.learned⟩, packet)

/-! ### Where a packet is sent -/

/-- What holds when a packet is sent to an owner: neither the owner nor the node on the way is the
one it came from, and the settings allow it. -/
structure Forwardable (s : NetworkState) (source : String) (settings : RouteSettings)
    (owner : String) (via : Option String) : Prop where
  owner_ne : owner ≠ source
  via_eq : via = s.routeVia owner
  via_ne : via ≠ some source
  forwarding : settings.forwardingMode = .off → source ≠ s.graph.myself → owner = s.graph.myself
  direct : settings.directOnly = true → s.directOnlyAllows owner via = true

/-- Where a packet may go depends on a state by its graph. -/
lemma Forwardable.of_graph {s s' : NetworkState} {source owner : String} {settings : RouteSettings}
    {via : Option String} (hgraph : s'.graph = s.graph)
    (h : Forwardable s' source settings owner via) : Forwardable s source settings owner via := by
  obtain ⟨howner, hvia, hne, hforwarding, hdirect⟩ := h
  rw [NetworkState.routeVia, hgraph] at hvia
  rw [hgraph] at hforwarding
  simp only [NetworkState.directOnlyAllows, hgraph] at hdirect
  exact ⟨howner, hvia, hne, hforwarding, hdirect⟩

namespace NetworkState

section Decision

variable {s : NetworkState} {source owner : String} {via : Option String} {packet : List UInt8}
  {settings : RouteSettings}

/-- A packet is only sent to an owner that it may be forwarded to. -/
lemma routeToOwner_send {known : String} (hne : known ≠ source)
    (h : s.routeToOwner source known settings = .send owner via) :
    known = owner ∧ Forwardable s source settings owner via := by
  rw [routeToOwner] at h
  dsimp only at h
  split_ifs at h with hoff hloop hdirect
  obtain ⟨rfl, rfl⟩ := RouteDecision.send.inj h
  refine ⟨rfl, hne, rfl, hloop, fun hmode hsource => ?_, fun hset => ?_⟩
  · by_contra howner
    exact hoff ⟨hmode, hsource, howner⟩
  · by_contra hallows
    exact hdirect ⟨hset, hallows⟩

/-- A packet is only sent to the owner of the subnet. -/
lemma routeToSubnetOwner_send {subnet : Subnet}
    (h : s.routeToSubnetOwner source subnet settings = .send owner via) :
    Forwardable s source settings owner via ∧ subnet.owner = some owner := by
  rw [routeToSubnetOwner] at h
  cases howner : subnet.owner with
  | none =>
      rw [howner] at h
      cases h
  | some known =>
      rw [howner] at h
      dsimp only at h
      split_ifs at h with hloop
      split at h
      · cases h
      · split_ifs at h with hreachable
        obtain ⟨rfl, hsend⟩ := routeToOwner_send hloop h
        exact ⟨hsend, rfl⟩

@[simp] lemma learnMac_graph (s : NetworkState) (address : MacAddr) (settings : RouteSettings) :
    (s.learnMac address settings).1.graph = s.graph := by
  rw [learnMac]
  dsimp only
  split_ifs <;> rfl

@[simp] lemma routeMac_graph (s : NetworkState) (source : String) (frame : EthernetFrame)
    (settings : RouteSettings) : (s.routeMac source frame settings).1.graph = s.graph := by
  rw [routeMac]
  split_ifs
  · exact learnMac_graph s _ _
  · rfl

/-- A switch only sends a packet where it may be forwarded. -/
lemma routeMac_send {frame : EthernetFrame}
    (h : (s.routeMac source frame settings).2.decision = .send owner via) :
    Forwardable s source settings owner via := by
  have hgraph := routeMac_graph s source frame settings
  rw [routeMac] at h hgraph
  set learned := if source = s.graph.myself then s.learnMac frame.source settings else (s, [])
    with hlearned
  clear_value learned
  obtain ⟨s', subnets⟩ := learned
  dsimp only at h hgraph
  refine Forwardable.of_graph hgraph ?_
  split at h
  · cases h
  · split at h
    · cases h
    · split_ifs at h with hloop
      obtain ⟨rfl, hsend⟩ := routeToOwner_send hloop h
      exact hsend

/-- Routing leaves the graph as it is. -/
@[simp] lemma routePacket_graph (s : NetworkState) (source : String) (packet : List UInt8)
    (settings : RouteSettings) : (s.routePacket source packet settings).1.graph = s.graph := by
  rw [routePacket]
  split_ifs
  · rfl
  cases EthernetFrame.parse packet with
  | error reason => rfl
  | ok frame =>
      cases settings.routingMode with
      | hub => rfl
      | switch => exact routeMac_graph s source frame settings
      | router =>
          dsimp only
          split_ifs <;> rfl

/-- **A packet is only sent** to an owner and by a node that it did not come from. -/
lemma routePacket_send (h : (s.routePacket source packet settings).2.decision = .send owner via) :
    Forwardable s source settings owner via := by
  rw [routePacket] at h
  split_ifs at h
  cases hframe : EthernetFrame.parse packet with
  | error reason =>
      rw [hframe] at h
      cases h
  | ok frame =>
      rw [hframe] at h
      dsimp only at h
      cases hmode : settings.routingMode with
      | hub =>
          rw [hmode] at h
          cases h
      | switch =>
          rw [hmode] at h
          exact routeMac_send h
      | router =>
          rw [hmode] at h
          dsimp only at h
          split_ifs at h with hip hipv6
          · dsimp only [routeIpv4] at h
            split_ifs at h
            split at h
            · cases h
            · exact (routeToSubnetOwner_send h).1
          · dsimp only [routeIpv6] at h
            split_ifs at h
            split at h
            · cases h
            · exact (routeToSubnetOwner_send h).1

/-- In router mode, what is sent has a whole IP header behind an untagged link header. -/
lemma routePacket_router_send (hmode : settings.routingMode = .router)
    (h : (s.routePacket source packet settings).2.decision = .send owner via) :
    u16At packet 12 = ethPIp ∧ 34 ≤ packet.length ∨
      u16At packet 12 = ethPIpv6 ∧ 54 ≤ packet.length := by
  rw [routePacket] at h
  split_ifs at h
  cases hframe : EthernetFrame.parse packet with
  | error reason =>
      rw [hframe] at h
      cases h
  | ok frame =>
      have htype : frame.etherType = u16At packet 12 := by
        rw [EthernetFrame.parse] at hframe
        split_ifs at hframe
        exact (congrArg EthernetFrame.etherType (Except.ok.inj hframe)).symm
      rw [hframe] at h
      dsimp only at h
      rw [hmode] at h
      dsimp only at h
      split_ifs at h with hip hipv6
      · dsimp only [routeIpv4] at h
        split_ifs at h with hshort
        exact Or.inl ⟨htype.symm.trans hip, Nat.le_of_not_lt hshort⟩
      · dsimp only [routeIpv6] at h
        split_ifs at h with hshort
        exact Or.inr ⟨htype.symm.trans hipv6, Nat.le_of_not_lt hshort⟩

/-- A decision is never an answer: the answers are given to dropped packets. -/
lemma routePacket_ne_reply (s : NetworkState) (source : String) (packet : List UInt8)
    (settings : RouteSettings) (target : String) :
    (s.routePacket source packet settings).2.decision ≠ .reply target := by
  have howner : ∀ (s : NetworkState) known, s.routeToOwner source known settings ≠ .reply target := by
    intro s known h
    rw [routeToOwner] at h
    dsimp only at h
    split_ifs at h
  have hsubnet : ∀ subnet, s.routeToSubnetOwner source subnet settings ≠ .reply target := by
    intro subnet h
    rw [routeToSubnetOwner] at h
    split at h
    · cases h
    · split_ifs at h
      split at h
      · cases h
      · split_ifs at h
        exact howner _ _ h
  intro h
  rw [routePacket] at h
  split_ifs at h
  cases hframe : EthernetFrame.parse packet with
  | error reason =>
      rw [hframe] at h
      cases h
  | ok frame =>
      rw [hframe] at h
      dsimp only at h
      cases hmode : settings.routingMode with
      | hub =>
          rw [hmode] at h
          cases h
      | switch =>
          rw [hmode] at h
          dsimp only [routeMac] at h
          split at h
          · cases h
          · split at h
            · cases h
            · split_ifs at h
              all_goals exact howner _ _ h
      | router =>
          rw [hmode] at h
          dsimp only at h
          split_ifs at h
          · dsimp only [routeIpv4] at h
            split_ifs at h
            split at h
            · cases h
            · exact hsubnet _ h
          · dsimp only [routeIpv6] at h
            split_ifs at h
            split at h
            · cases h
            · exact hsubnet _ h

lemma length_decrementTtl (packet : List UInt8) : (decrementTtl packet).2.length = packet.length := by
  rw [decrementTtl]
  split
  · rfl
  · simp only [decrementIpv4Ttl, decrementIpv6HopLimit]
    split_ifs <;> simp

/-- The packet that a node sends on, and whether its TTL was lowered. -/
lemma routePacketMut_send
    (h : (s.routePacketMut source packet settings).2.1.decision = .send owner via) :
    (s.routePacket source packet settings).2.decision = .send owner via ∧
      if settings.decrementTtl = true ∧ source ≠ s.graph.myself ∧ owner ≠ s.graph.myself then
        ∃ mutation, decrementTtl packet =
          (.ok mutation, (s.routePacketMut source packet settings).2.2)
      else (s.routePacketMut source packet settings).2.2 = packet := by
  have hshould : ∀ decision, decision = .send owner via →
      (shouldDecrementTtl decision source s.graph.myself = true ↔
        source ≠ s.graph.myself ∧ owner ≠ s.graph.myself) := by
    rintro _ rfl
    simp [shouldDecrementTtl]
  rw [routePacketMut] at h ⊢
  generalize s.routePacket source packet settings = routed at h ⊢
  obtain ⟨s', decision, learned⟩ := routed
  dsimp only at h ⊢
  by_cases hplain : ¬ settings.decrementTtl ∨ ¬ shouldDecrementTtl decision source s.graph.myself
  · simp only [if_pos hplain] at h ⊢
    refine ⟨h, ?_⟩
    split_ifs with hlower
    · have hforeign := (hshould decision h).mpr hlower.2
      exact absurd hplain (not_or.mpr ⟨not_not_intro hlower.1, not_not_intro hforeign⟩)
  · simp only [if_neg hplain] at h ⊢
    rw [not_or, not_not, not_not] at hplain
    cases hresult : decrementTtl packet with
    | mk result packet' =>
        rw [hresult] at h
        cases result with
        | error error => cases error <;> cases h
        | ok mutation =>
            dsimp only at h ⊢
            refine ⟨h, ?_⟩
            rw [if_pos ⟨hplain.1, (hshould decision h).mp hplain.2⟩]
            exact ⟨mutation, rfl⟩

/-- No packet is routed to a reply. -/
lemma routePacketMut_ne_reply (s : NetworkState) (source : String) (packet : List UInt8)
    (settings : RouteSettings) (target : String) :
    (s.routePacketMut source packet settings).2.1.decision ≠ .reply target := by
  have hne := routePacket_ne_reply s source packet settings target
  rw [routePacketMut]
  generalize s.routePacket source packet settings = routed at hne ⊢
  obtain ⟨s', outcome⟩ := routed
  dsimp only at hne ⊢
  split_ifs
  · exact hne
  · split
    · exact hne
    · exact RouteDecision.noConfusion
    · exact RouteDecision.noConfusion

@[simp] lemma routePacketMut_graph (s : NetworkState) (source : String) (packet : List UInt8)
    (settings : RouteSettings) : (s.routePacketMut source packet settings).1.graph = s.graph := by
  have hgraph := routePacket_graph s source packet settings
  rw [routePacketMut]
  generalize s.routePacket source packet settings = routed at hgraph ⊢
  obtain ⟨s', outcome⟩ := routed
  dsimp only at hgraph ⊢
  split_ifs
  · exact hgraph
  · split <;> exact hgraph

/-- Routing keeps the length of a packet. -/
@[simp] lemma length_routePacketMut (s : NetworkState) (source : String) (packet : List UInt8)
    (settings : RouteSettings) :
    (s.routePacketMut source packet settings).2.2.length = packet.length := by
  have hlength := length_decrementTtl packet
  rw [routePacketMut]
  generalize s.routePacket source packet settings = routed
  obtain ⟨s', outcome⟩ := routed
  dsimp only
  split_ifs
  · rfl
  · split
    all_goals
      next heq =>
        rw [heq] at hlength
        exact hlength

end Decision

end NetworkState

/-- Two subnets of the last node of the line. -/
def lineSubnets : SubnetTable :=
  SubnetTable.run [.add ⟨.ipv4 (array 4 [10]) 24, 10, some "c", none⟩,
    .add ⟨.ipv6 (array 16 [0xfd]) 64, 10, some "c", none⟩]

/-- A node of the line that knows them. -/
def lineMember (a : String) : NetworkState :=
  { stateOf Graph.lineNetwork a with subnets := lineSubnets }

end RustyTinc

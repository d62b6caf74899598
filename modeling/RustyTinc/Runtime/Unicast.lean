import RustyTinc.Core.Purge
import RustyTinc.Core.StaticRelay
import RustyTinc.Runtime.Journey
import RustyTinc.Runtime.RouteEngine

/-!
Packets for one host in a network whose nodes hold the same edges and subnets and have no indirect
links.

* `Addressed`: an IP packet for an address, as a router sends it on;
* `SharedNetwork.node_direct`: every member sends to every other member itself;
* `unicast_delivered`: a packet for the host of another member is sent once and written once, there.
-/

namespace RustyTinc

open Bytes

/-- A packet of the kind and with the destination of an address, which does not ask for a hardware
address. -/
structure Addressed (packet : List UInt8) (address : Address) : Prop where
  ip : IsIp packet
  address_eq : address = if u16At packet 12 = ethPIp then .ipv4 (array 4 (packet.drop 30))
    else .ipv6 (array 16 (packet.drop 38))
  header : u16At packet 12 = ethPIp → 5 ≤ (packet.getD 14 0 &&& 0x0f).toNat
  no_question : isNeighborSolicitationPacket packet = false

instance (packet : List UInt8) : Decidable (IsIp packet) := inferInstanceAs (Decidable (_ ∨ _))

section Addressed

variable {packet out : List UInt8} {address : Address}

lemma array_drop_congr {n start : ℕ} (h : ∀ i, start ≤ i → i < start + n → out[i]? = packet[i]?) :
    array n (out.drop start) = array n (packet.drop start) := by
  refine Vector.ext fun i hi => ?_
  rw [array, array, Vector.getElem_ofFn, Vector.getElem_ofFn, List.getD_eq_getElem?_getD,
    List.getElem?_drop, h (start + i) (Nat.le_add_right start i) (Nat.add_lt_add_left hi start),
    List.getD_eq_getElem?_getD, List.getElem?_drop]

/-- Clamping does not change where a packet is to go. -/
lemma Addressed.congr (h : Addressed packet address) (hlength : out.length = packet.length)
    (hfront : ∀ i < 14 + ipHeaderLen packet (u16At packet 12) 14 + 16, out[i]? = packet[i]?) :
    Addressed out address := by
  have htype : u16At out 12 = u16At packet 12 :=
    u16At_congr (hfront 12 (by omega)) (hfront 13 (by omega))
  have hget : ∀ i < 30, out.getD i 0 = packet.getD i 0 := by
    intro i hi
    rw [List.getD_eq_getElem?_getD, hfront i (by omega), List.getD_eq_getElem?_getD]
  have hip : IsIp out := by
    rw [IsIp, htype, hlength]
    exact h.ip
  refine ⟨hip, ?_, ?_, ?_⟩
  · rw [h.address_eq, htype]
    by_cases hkind : u16At packet 12 = ethPIp
    · have hheader := h.header hkind
      rw [ipHeaderLen, if_pos hkind] at hfront
      rw [if_pos hkind, if_pos hkind, array_drop_congr fun i _ hi => hfront i (by omega)]
    · rw [ipHeaderLen, if_neg hkind] at hfront
      rw [if_neg hkind, if_neg hkind, array_drop_congr fun i _ hi => hfront i (by omega)]
  · rw [htype, hget 14 (by decide)]
    exact h.header
  · have hsame := h.no_question
    rw [isNeighborSolicitationPacket, h.ip.payloadType] at hsame
    rw [isNeighborSolicitationPacket, hip.payloadType]
    dsimp only at hsame ⊢
    rw [htype, hlength, hget 20 (by decide)]
    by_cases hkind : u16At packet 12 = ethPIpv6
    · have hne : u16At packet 12 ≠ ethPIp := by
        rw [hkind]
        decide
      rw [ipHeaderLen, if_neg hne] at hfront
      have htarget : out.getD 54 0 = packet.getD 54 0 := by
        rw [List.getD_eq_getElem?_getD, hfront 54 (by decide), List.getD_eq_getElem?_getD]
      rw [htarget]
      exact hsame
    · rw [decide_eq_false hkind]
      rfl

end Addressed

/-! ### Routing a packet for an address -/

namespace NetworkState

variable {s : NetworkState} {source owner : String} {packet : List UInt8} {address : Address}
  {settings : RouteSettings} {subnet : Subnet}

/-- A packet for an address goes where the subnet of the address is. -/
lemma routePacket_addressed (h : Addressed packet address) (hmode : settings.routingMode = .router)
    (hkernel : settings.forwardingMode ≠ .kernel)
    (hlookup : s.lookupReachable address = some subnet) :
    s.routePacket source packet settings =
      (s, ⟨s.routeToSubnetOwner source subnet settings, []⟩) := by
  have hframe : ∃ frame, EthernetFrame.parse packet = .ok frame ∧
      frame.etherType = u16At packet 12 := by
    have hlength : ¬ packet.length < ethHlen := by
      rw [ethHlen]
      rcases h.ip with ⟨-, hlength⟩ | ⟨-, hlength⟩ <;> omega
    exact ⟨_, by rw [EthernetFrame.parse, if_neg hlength], rfl⟩
  obtain ⟨frame, hparse, htype⟩ := hframe
  rw [h.address_eq] at hlookup
  rw [routePacket, if_neg fun hand => hkernel hand.1, hparse, hmode]
  dsimp only
  rw [htype]
  rcases h.ip with ⟨hkind, hlength⟩ | ⟨hkind, hlength⟩
  · rw [if_pos hkind] at hlookup
    rw [if_pos hkind, routeIpv4,
      if_neg (show ¬ packet.length < ethHlen + 20 from Nat.not_lt.mpr hlength)]
    dsimp only
    rw [show s.lookupReachableIpv4SubnetLikeTinc (array 4 (packet.drop 30)) = some subnet from hlookup]
  · have hne : u16At packet 12 ≠ ethPIp := by
      rw [hkind]
      decide
    rw [if_neg hne] at hlookup
    rw [if_neg hne, if_pos hkind, routeIpv6,
      if_neg (show ¬ packet.length < ethHlen + 40 from Nat.not_lt.mpr hlength)]
    dsimp only
    rw [show s.lookupReachableIpv6SubnetLikeTinc (array 16 (packet.drop 38)) = some subnet from hlookup]

/-- The decision is carried out on the packet as it is, from the own host and for it. -/
lemma routePacketAction_addressed {via : Option String} (h : Addressed packet address)
    (hmode : settings.routingMode = .router) (hkernel : settings.forwardingMode ≠ .kernel)
    (hlookup : s.lookupReachable address = some subnet)
    (hsend : s.routeToSubnetOwner source subnet settings = .send owner via)
    (hown : source = s.graph.myself ∨ owner = s.graph.myself) :
    s.routePacketAction source packet settings =
      (s, ⟨⟨.send owner via, []⟩, s.sendPacketAction source owner via packet settings⟩) := by
  have hresolved : s.addressResolutionAction source packet = none := by
    have hparse : EthernetFrame.parse packet = .ok ⟨array 6 packet, array 6 (packet.drop 6),
        u16At packet 12, packet.drop ethHlen⟩ := by
      have hlength : ¬ packet.length < ethHlen := by
        rw [ethHlen]
        rcases h.ip with ⟨-, hlength⟩ | ⟨-, hlength⟩ <;> omega
      rw [EthernetFrame.parse, if_neg hlength]
    have harp : u16At packet 12 ≠ ethPArp := by
      rcases h.ip with ⟨hkind, -⟩ | ⟨hkind, -⟩
      · rw [hkind]
        decide
      · rw [hkind]
        decide
    rw [addressResolutionAction, hparse]
    dsimp only
    rw [if_neg harp, if_neg fun hand => Bool.false_ne_true (h.no_question.symm.trans hand.2)]
  have hmut : s.routePacketMut source packet settings = (s, ⟨.send owner via, []⟩, packet) := by
    rw [routePacketMut, routePacket_addressed h hmode hkernel hlookup, hsend]
    dsimp only
    refine if_pos (Or.inr ?_)
    rcases hown with hown | hown
    · simp [shouldDecrementTtl, hown]
    · simp [shouldDecrementTtl, hown]
  rw [routePacketAction, if_pos hmode, hresolved]
  dsimp only
  rw [hmut]

end NetworkState

/-! ### The members of a network -/

section Members

variable {addWeight : ℤ → ℤ → ℤ} {base : Graph} {root : String} {states : String → NetworkState}
  {a b : String}

/-- **Without indirect links** a member sends to every other member itself. -/
lemma SharedNetwork.node_direct (h : SharedNetwork addWeight base root states)
    (hall : base.AllDirect) (ha : base.Joined root a) (hb : base.Joined root b) :
    ∃ n, (states a).graph.node b = some n ∧ n.status.reachable = true ∧
      (states a).routeVia b = some b := by
  have hmember := h.member ha
  obtain ⟨n, hn, hreachable⟩ : ∃ n, (states a).graph.node b = some n ∧
      n.status.reachable = true := by
    have hreach := (hmember.reachable b).mpr hb
    rw [Graph.isReachable] at hreach
    exact (Option.any_eq_true _ _).mp hreach
  have hmyself := hmember.myself_eq
  have hself := hmember.nextHop_self
  obtain ⟨s, fuel, now, changes, hs, rfl, hedges, hrec⟩ := h a ha
  have hkeys := congrArg OrdMap.keys hedges
  obtain ⟨g, hg, hroutes⟩ := NetworkState.routeOf_recompute hrec
  obtain ⟨m, hm, hv⟩ : g.Visited b := by
    rw [(Graph.ssspBfs_spec hs hg).2 b, Graph.joined_congr hkeys]
    exact ha.symm.trans hb
  have hdirect := (Graph.ssspBfs_direct addWeight hs (Graph.allDirect_congr hedges hall) hg).1
  obtain ⟨v, hvia, -, hown⟩ := Graph.ssspBfs_keeps hs Graph.keeps_viaVisited
    (Graph.viaVisited_start hs) (fun _ _ => trivial) hg b m hm hv
  rw [hown (hdirect.direct b m hm hv)] at hvia
  have hroute : n.route = m.route := by
    have heq := hroutes b
    rw [NetworkState.routeOf, hn, hm] at heq
    exact Option.some_inj.mp heq
  refine ⟨n, hn, hreachable, ?_⟩
  rw [NetworkState.routeVia, hn, Option.bind_eq_bind, Option.bind_some, hroute, hvia, hmyself]
  split_ifs with heq
  · -- the route of a node to itself
    obtain rfl := Option.some_inj.mp heq
    rw [← hroute]
    rw [Graph.nextHop, hn] at hself
    exact hself
  · rfl

/-- Members with the same subnets find the same subnet for an address. -/
lemma SharedNetwork.lookupReachable_eq (h : SharedNetwork addWeight base root states)
    (hsubnets : (states a).subnets = (states b).subnets) (ha : base.Joined root a)
    (hb : base.Joined root b) (address : Address) :
    (states a).lookupReachable address = (states b).lookupReachable address := by
  have hreachable : ∀ k, (states a).graph.isReachable k = (states b).graph.isReachable k := by
    intro k
    rw [Bool.eq_iff_iff, (h.member ha).reachable, (h.member hb).reachable]
  have howner : (states a).ownerReachable = (states b).ownerReachable := by
    funext subnet
    rw [NetworkState.ownerReachable, NetworkState.ownerReachable]
    cases subnet.owner with
    | none => rfl
    | some owner => exact hreachable owner
  rw [NetworkState.lookupReachable_eq, NetworkState.lookupReachable_eq, hsubnets, howner]

end Members

/-! ### Delivery -/

section Delivery

variable {s : NetworkState} {source owner : String} {packet : List UInt8} {address : Address}
  {settings : RouteSettings} {subnet : Subnet}

/-- A packet that fits the way to its owner is sent as it is, but that its maximum segment size may
be lowered. -/
lemma sendPacketAction_fits {n : Node} (hip : IsIp packet) (hne : owner ≠ s.graph.myself)
    (hnode : s.graph.node owner = some n) (hfits : packet.length ≤ n.mtu) :
    ∃ out priority mssClamp, s.sendPacketAction source owner (some owner) packet settings =
        .send owner (some owner) out priority mssClamp ∧
      (out = packet ∨ ∃ mtu old new, clampTcpMss packet mtu = some (.ok (.clamped old new), out)) ∧
      out.length = packet.length ∧
      ∀ i < 14 + ipHeaderLen packet (u16At packet 12) 14 + 16, out[i]? = packet[i]? := by
  have hmtu : ¬ packet.length > effectiveRouteMtu packet n.mtu settings.routingMode := by
    cases settings.routingMode with
    | router =>
        rw [effectiveRouteMtu, hip.payloadType]
        dsimp only
        split_ifs <;> omega
    | switch => exact Nat.not_lt.mpr hfits
    | hub => exact Nat.not_lt.mpr hfits
  rw [NetworkState.sendPacketAction]
  dsimp only [Option.getD_some]
  rw [if_neg hne, hnode]
  dsimp only
  rw [if_neg hmtu]
  dsimp only
  obtain ⟨hcases, hlength, hfront⟩ := clampForVia_front n packet
    (min (((s.graph.node source).map Node.mtu).getD defaultMtu) n.mtu)
  exact ⟨_, _, _, rfl, hcases.imp_right fun hclamped => ⟨_, hclamped⟩, hlength,
    hfront _ _ hip.payloadType⟩

/-- **The owner of a subnet** writes a packet for it to its device. -/
lemma deliver_addressed {packet : VpnPacket} (h : Addressed packet.data address)
    {config : RouteEngineConfig} (hmode : config.route.routingMode = .router)
    (hkernel : config.route.forwardingMode ≠ .kernel) (hdirect : config.route.directOnly = false)
    (hlookup : s.lookupReachable address = some subnet) (howner : subnet.owner = some s.graph.myself)
    (hsource : source ≠ s.graph.myself) (hvia : s.routeVia s.graph.myself = some s.graph.myself)
    {n : Node} (hnode : s.graph.node s.graph.myself = some n) (hreachable : n.status.reachable = true)
    (hlength : packet.data.length ≤ mtu) :
    ∃ priority, (handleNetworkPacketWith .ideal config source packet).exec (s, ()) =
      (.ok [.engine (.deviceWrite ⟨packet.data, priority⟩)], (s, ())) := by
  have hsend : s.routeToSubnetOwner source subnet config.route =
      .send s.graph.myself (some s.graph.myself) := by
    rw [NetworkState.routeToSubnetOwner, howner]
    dsimp only
    rw [if_neg hsource.symm, hnode]
    dsimp only
    rw [if_neg (not_not_intro hreachable), NetworkState.routeToOwner]
    dsimp only
    rw [if_neg fun hoff => hoff.2.2 rfl, hvia, if_neg fun heq => hsource (Option.some.inj heq).symm,
      if_neg fun hset => Bool.false_ne_true (hdirect.symm.trans hset.1)]
  rw [handleNetworkPacketWith, exec_routeAndExecute _ _ _ _ _ _
    (NetworkState.routePacketAction_addressed h hmode hkernel hlookup hsend (Or.inr rfl))]
  rw [NetworkState.sendPacketAction]
  dsimp only [Option.getD_some]
  rw [if_pos rfl]
  dsimp only [executeAction]
  have hports : RoutePorts.ideal.toPorts = .ideal := rfl
  rw [sendToOwner, if_pos rfl, Stateful.exec_map, hports, exec_writeDevice_ideal hlength]
  exact ⟨_, rfl⟩

end Delivery

section Network

variable {addWeight : ℤ → ℤ → ℤ} {base : Graph} {root : String} {states : String → NetworkState}
  {a b : String}

/-- The subnets of the members are not part of what they share. -/
lemma SharedNetwork.withSubnets (h : SharedNetwork addWeight base root states)
    (subnets : SubnetTable) :
    SharedNetwork addWeight base root fun k => { states k with subnets } := by
  intro k hk
  obtain ⟨s, fuel, now, changes, hs, hmyself, hedges, hrec⟩ := h k hk
  obtain ⟨g, hg, hstate, hchanges⟩ := NetworkState.recomputeRoutesAt_eq_some hrec
  refine ⟨{ s with subnets }, fuel, now, changes, hs, hmyself, hedges, ?_⟩
  dsimp only
  rw [NetworkState.recomputeRoutesAt, hg, hstate, hchanges]
  rfl

end Network

end RustyTinc

import RustyTinc.Runtime.RouteActions

/-!
The way of a packet through routers that lower the TTL. The nodes need not agree about anything:
their tables may be out of date, contradict each other, and change while the packet travels.

* `hopsLeft`: the TTL of an IPv4 packet or the hop limit of an IPv6 packet;
* `Forwards`: a node sends a packet on, whole or in fragments;
* `Journey`: a packet is sent from node to node;
* `Journey.bounded`: the TTL ends every journey.
-/

namespace RustyTinc

open Bytes

/-- The TTL of an IPv4 packet, or the hop limit of an IPv6 packet, behind an untagged link
header. -/
def hopsLeft (packet : List UInt8) : ℕ :=
  if u16At packet 12 = ethPIp then (packet.getD 22 0).toNat else (packet.getD 21 0).toNat

lemma hopsLeft_lt (packet : List UInt8) : hopsLeft packet < 256 := by
  rw [hopsLeft]
  split_ifs
  · exact (packet.getD 22 0).toNat_lt
  · exact (packet.getD 21 0).toNat_lt

/-- An untagged packet with a whole IP header. -/
def IsIp (packet : List UInt8) : Prop :=
  u16At packet 12 = ethPIp ∧ 34 ≤ packet.length ∨ u16At packet 12 = ethPIpv6 ∧ 54 ≤ packet.length

section Forward

variable {s : NetworkState} {source owner next : String} {via : Option String}
  {packet out : List UInt8} {settings : RouteSettings}

/-- The type of an IP packet stands where there is no tag. -/
lemma IsIp.payloadType (h : IsIp packet) :
    ethernetPayloadType packet = .ok (u16At packet 12, 14) := by
  have hlength : ¬ packet.length < ethHlen := by
    rw [ethHlen]
    rcases h with ⟨-, h⟩ | ⟨-, h⟩ <;> omega
  have htag : u16At packet 12 ≠ ethP8021q := by
    rcases h with ⟨h, -⟩ | ⟨h, -⟩
    · rw [h]
      decide
    · rw [h]
      decide
  rw [ethernetPayloadType, if_neg hlength, if_neg htag, ethHlen]

/-- A packet with the type and the TTL of another one. -/
lemma hopsLeft_congr (h12 : out[12]? = packet[12]?) (h13 : out[13]? = packet[13]?)
    (h21 : u16At packet 12 ≠ ethPIp → out[21]? = packet[21]?)
    (h22 : u16At packet 12 = ethPIp → out[22]? = packet[22]?) :
    u16At out 12 = u16At packet 12 ∧ hopsLeft out = hopsLeft packet := by
  have htype : u16At out 12 = u16At packet 12 := u16At_congr h12 h13
  refine ⟨htype, ?_⟩
  rw [hopsLeft, hopsLeft, htype]
  split_ifs with hip
  · rw [List.getD_eq_getElem?_getD, h22 hip, List.getD_eq_getElem?_getD]
  · rw [List.getD_eq_getElem?_getD, h21 hip, List.getD_eq_getElem?_getD]

/-- A TTL that was lowered is one less. -/
lemma Lowered.getD_eq {position : ℕ} (h : Lowered position packet out) :
    (packet.getD position 0).toNat = (out.getD position 0).toNat + 1 := by
  obtain ⟨old, new, hold, hnew, hvalues, -⟩ := h
  rw [List.getD_eq_getElem?_getD, hold, List.getD_eq_getElem?_getD, hnew]
  exact hvalues

/-- Lowering the TTL. -/
lemma hopsLeft_decrementTtl (hip : IsIp packet) {mutation : TtlMutation}
    (h : decrementTtl packet = (.ok mutation, out)) :
    IsIp out ∧ hopsLeft packet = hopsLeft out + 1 := by
  have htype : ∀ positions, AgreeExcept positions packet out → 12 ∉ positions → 13 ∉ positions →
      u16At out 12 = u16At packet 12 :=
    fun positions hagree h12 h13 => u16At_congr (hagree.2 _ h12) (hagree.2 _ h13)
  rw [decrementTtl, hip.payloadType] at h
  dsimp only at h
  rcases hip with ⟨hkind, hlength⟩ | ⟨hkind, hlength⟩
  · rw [if_pos hkind] at h
    obtain rfl : mutation = .decremented := by
      rw [decrementIpv4Ttl] at h
      dsimp only at h
      split_ifs at h <;> cases h
      rfl
    obtain ⟨hagree, hlowered, -⟩ := decrementIpv4Ttl_sound h
    have hsame := htype _ hagree (by decide) (by decide)
    rw [IsIp, hopsLeft, hopsLeft, hsame, hagree.1, if_pos hkind, if_pos hkind]
    exact ⟨Or.inl ⟨hkind, hlength⟩, hlowered.getD_eq⟩
  · have hne : u16At packet 12 ≠ ethPIp := by
      rw [hkind]
      decide
    rw [if_neg hne, if_pos hkind] at h
    obtain rfl : mutation = .decremented := by
      rw [decrementIpv6HopLimit] at h
      dsimp only at h
      split_ifs at h <;> cases h
      rfl
    obtain ⟨hagree, hlowered⟩ := decrementIpv6HopLimit_sound h
    have hsame := htype _ hagree (by decide) (by decide)
    rw [IsIp, hopsLeft, hopsLeft, hsame, hagree.1, if_neg hne, if_neg hne]
    exact ⟨Or.inr ⟨hkind, hlength⟩, hlowered.getD_eq⟩

/-! ### What is sent on -/

lemma hopsLeft_clampForVia (hip : IsIp packet) (node : Node) (mtu : ℕ) :
    hopsLeft (clampForVia node packet mtu).2 = hopsLeft packet := by
  have hsame := (clampForVia_front node packet mtu).2.2 _ _ hip.payloadType
  exact (hopsLeft_congr (hsame 12 (by omega)) (hsame 13 (by omega)) (fun _ => hsame 21 (by omega))
    fun _ => hsame 22 (by omega)).2

lemma hopsLeft_fragment {mtu : ℕ} {fragments : List (List UInt8)} (hip : IsIp packet)
    (h : fragmentIpv4Packet packet mtu = .ok fragments) (hmem : out ∈ fragments) :
    hopsLeft out = hopsLeft packet := by
  obtain ⟨-, etherLen, htype, hsame⟩ := fragmentIpv4Packet_mem h hmem
  rw [hip.payloadType] at htype
  obtain ⟨hkind, rfl⟩ := Prod.mk.inj (Except.ok.inj htype)
  exact (hopsLeft_congr (hsame 12 (by decide) (by decide)) (hsame 13 (by decide) (by decide))
    (fun hne => absurd hkind hne) fun _ => hsame 22 (by decide) (by decide)).2

/-- An action sends something on. -/
inductive PacketAction.Sends (action : PacketAction) (owner : String) (via : Option String)
    (out : List UInt8) : Prop
  | whole {priority : Option ℤ} {mssClamp : Option MssClamp}
      (h : action = .send owner via out priority mssClamp)
  | fragment {fragments : List (List UInt8)} {priority : Option ℤ}
      (h : action = .sendFragments owner via fragments priority) (hout : out ∈ fragments)

/-- What is sent, whole or in fragments, has the TTL of the packet that is to be sent. -/
lemma hopsLeft_sendPacketAction {owner' : String} {via' : Option String} (hip : IsIp packet)
    (h : (s.sendPacketAction source owner via packet settings).Sends owner' via' out) :
    owner' = owner ∧ via' = via ∧ hopsLeft out = hopsLeft packet := by
  rw [NetworkState.sendPacketAction] at h
  dsimp only at h
  split_ifs at h with hown
  · rcases h with h | ⟨h, hout⟩
    · obtain ⟨rfl, rfl, rfl, -, -⟩ := PacketAction.send.inj h
      exact ⟨rfl, rfl, rfl⟩
    · cases h
  · cases hnode : s.graph.node (via.getD owner) with
    | none =>
        rw [hnode] at h
        rcases h with h | ⟨h, hout⟩ <;> cases h
    | some viaNode =>
        rw [hnode] at h
        dsimp only at h
        split at h
        · next action heq =>
            split_ifs at heq
            rcases pmtuAction_cases heq with ⟨reply, rfl, -⟩ | ⟨fragments, rfl, hfragments⟩
            · rcases h with h | ⟨h, hout⟩ <;> cases h
            · rcases h with h | ⟨h, hout⟩
              · cases h
              · obtain ⟨rfl, rfl, rfl, -⟩ := PacketAction.sendFragments.inj h
                exact ⟨rfl, rfl, hopsLeft_fragment hip hfragments hout⟩
        · rcases h with h | ⟨h, hout⟩
          · obtain ⟨rfl, rfl, rfl, -, -⟩ := PacketAction.send.inj h
            exact ⟨rfl, rfl, hopsLeft_clampForVia hip _ _⟩
          · cases h

/-- What is sent on goes back to a decision to send the packet. -/
lemma routePacketAction_sends {via' : Option String}
    (h : (s.routePacketAction source packet settings).2.action.Sends owner via' out) :
    ∃ s' : NetworkState, s'.graph = s.graph ∧ ∃ owner' via,
      (s.routePacketMut source packet settings).2.1.decision = .send owner' via ∧
        (s'.sendPacketAction source owner' via (s.routePacketMut source packet settings).2.2
          settings).Sends owner via' out := by
  have hgraph := NetworkState.routePacketMut_graph s source packet settings
  have hanswer : ∀ result, ¬ (packetReplyAction source result).action.Sends owner via' out := by
    intro result hsends
    rcases result with reason | _ | answer
    · rcases hsends with h | ⟨h, hout⟩ <;> cases h
    · rcases hsends with h | ⟨h, hout⟩ <;> cases h
    · rcases hsends with h | ⟨h, hout⟩ <;> cases h
  rw [NetworkState.routePacketAction] at h
  dsimp only at h
  split at h
  · next routed heq =>
      split_ifs at heq
      rw [NetworkState.addressResolutionAction] at heq
      split at heq
      · cases heq
      · split_ifs at heq
        · obtain rfl := Option.some.inj heq
          exact absurd h (hanswer _)
        · obtain rfl := Option.some.inj heq
          exact absurd h (hanswer _)
  · generalize s.routePacketMut source packet settings = routed at h hgraph ⊢
    obtain ⟨s', ⟨decision, learned⟩, routedPacket⟩ := routed
    dsimp only at h hgraph ⊢
    cases decision with
    | send owner' via => exact ⟨s', hgraph, owner', via, rfl, h⟩
    | reply target => rcases h with h | ⟨h, hout⟩ <;> cases h
    | broadcast => rcases h with h | ⟨h, hout⟩ <;> cases h
    | deliverLocal => rcases h with h | ⟨h, hout⟩ <;> cases h
    | drop reason =>
        dsimp only at h
        cases hreply : icmpReplyForDrop source routedPacket reason
            (if reason = .directOnly then inheritedPacketPriority routedPacket settings
              else none) with
        | none =>
            rw [hreply] at h
            rcases h with h | ⟨h, hout⟩ <;> cases h
        | some action =>
            rw [hreply, Option.getD_some] at h
            rw [icmpReplyForDrop] at hreply
            obtain ⟨payloadType, -, hreply⟩ := Option.bind_eq_some_iff.mp hreply
            obtain ⟨reply, -, hreply⟩ := Option.bind_eq_some_iff.mp hreply
            obtain rfl := Option.some.inj hreply
            rcases h with h | ⟨h, hout⟩ <;> cases h

end Forward

/-! ### From node to node -/

/-- A node sends a packet from `source` on to another node: to the owner of the destination, by an
encryption that the nodes between do not read, or to the node on the way. -/
structure Forwards (s : NetworkState) (source : String) (settings : RouteSettings)
    (packet : List UInt8) (next : String) (out : List UInt8) : Prop where
  sends : ∃ owner via, owner ≠ s.graph.myself ∧ (next = owner ∨ next = via.getD owner) ∧
    (s.routePacketAction source packet settings).2.action.Sends owner via out
  other : next ≠ s.graph.myself

/-- **Forwarding lowers the TTL**, except for the packets of the own host. -/
lemma Forwards.hopsLeft_lt {s : NetworkState} {source next : String} {settings : RouteSettings}
    {packet out : List UInt8} (hmode : settings.routingMode = .router)
    (hdecrement : settings.decrementTtl = true) (h : Forwards s source settings packet next out) :
    if source = s.graph.myself then hopsLeft out = hopsLeft packet
    else hopsLeft out + 1 = hopsLeft packet := by
  obtain ⟨owner, via, howner, -, hrouted⟩ := h.sends
  obtain ⟨s', hgraph, owner', via', hdecision, hsends⟩ := routePacketAction_sends hrouted
  obtain ⟨hrouted, hmut⟩ := NetworkState.routePacketMut_send hdecision
  have hip : IsIp packet := NetworkState.routePacket_router_send hmode hrouted
  generalize (s.routePacketMut source packet settings).2.2 = lowered at hmut hsends
  by_cases hown : source = s.graph.myself
  · rw [if_neg fun hlower => hlower.2.1 hown] at hmut
    subst hmut
    rw [if_pos hown]
    exact (hopsLeft_sendPacketAction hip hsends).2.2
  · rw [if_neg hown]
    by_cases howner' : owner' = s.graph.myself
    · rw [if_neg fun hlower => hlower.2.2 howner'] at hmut
      subst hmut
      obtain ⟨rfl, -, -⟩ := hopsLeft_sendPacketAction hip hsends
      exact absurd howner' howner
    · rw [if_pos ⟨hdecrement, hown, howner'⟩] at hmut
      obtain ⟨mutation, hresult⟩ := hmut
      obtain ⟨hip', hhops⟩ := hopsLeft_decrementTtl hip hresult
      rw [(hopsLeft_sendPacketAction hip' hsends).2.2, hhops]

/-- A packet is sent from node to node: `hops` times, and it is now at `node` and came from
`source`. The tables and settings at every hop are arbitrary, but that all nodes are routers that
lower the TTL. -/
inductive Journey (start origin : String) (packet : List UInt8) :
    ℕ → String → String → List UInt8 → Prop
  | begins : Journey start origin packet 0 start origin packet
  | hop {hops : ℕ} {node source next : String} {current out : List UInt8} {s : NetworkState}
      {settings : RouteSettings} (h : Journey start origin packet hops node source current)
      (hnode : s.graph.myself = node) (hmode : settings.routingMode = .router)
      (hdecrement : settings.decrementTtl = true)
      (hforward : Forwards s source settings current next out) :
      Journey start origin packet (hops + 1) next node out

/-- **The TTL ends every journey**, whatever the nodes on the way believe: it pays for every hop but
the first, and that one only if the packet comes from the host of the first node. -/
theorem Journey.bounded {start origin node source : String} {packet current : List UInt8}
    {hops : ℕ} (h : Journey start origin packet hops node source current) :
    hops + hopsLeft current ≤ hopsLeft packet + 1 ∧ hops ≤ 256 ∧
      (origin ≠ start → hops + hopsLeft current = hopsLeft packet ∧ hops ≤ 255) := by
  have hlt := hopsLeft_lt packet
  -- after the first hop every packet comes from another node
  have hinv : (hops = 0 ∧ node = start ∧ source = origin ∧ current = packet) ∨
      source ≠ node ∧
        hops + hopsLeft current = hopsLeft packet + if origin = start then 1 else 0 := by
    induction h with
    | begins => exact Or.inl ⟨rfl, rfl, rfl, rfl⟩
    | hop h hnode hmode hdecrement hforward ih =>
        have hhop := hforward.hopsLeft_lt hmode hdecrement
        rw [hnode] at hhop
        refine Or.inr ⟨fun heq => hforward.other (heq.symm.trans hnode.symm), ?_⟩
        rcases ih with ⟨rfl, rfl, rfl, rfl⟩ | ⟨hne, hsum⟩
        · split_ifs at hhop ⊢ <;> omega
        · rw [if_neg hne] at hhop
          omega
  rcases hinv with ⟨rfl, rfl, rfl, rfl⟩ | ⟨-, hsum⟩
  · exact ⟨by omega, by omega, fun _ => ⟨by omega, by omega⟩⟩
  · split_ifs at hsum with horigin
    · exact ⟨by omega, by omega, fun hne => absurd horigin hne⟩
    · exact ⟨by omega, by omega, fun _ => ⟨by omega, by omega⟩⟩

/-- A packet that passes the node in the middle. -/
theorem Journey.bounded_line :
    ∃ current, Journey "b" "a" (ipv4Packet [1, 2]) 1 "c" "b" current ∧
      1 + hopsLeft current = hopsLeft (ipv4Packet [1, 2]) := by
  have hforward : Forwards (lineMember "b") "a" { decrementTtl := true } (ipv4Packet [1, 2]) "c"
      (decrementTtl (ipv4Packet [1, 2])).2 :=
    ⟨⟨"c", some "c", by decide +kernel, Or.inl rfl,
      .whole (show _ = PacketAction.send "c" (some "c") (decrementTtl (ipv4Packet [1, 2])).2 none
        none by decide +kernel)⟩, by decide +kernel⟩
  have hjourney := Journey.begins.hop rfl rfl rfl hforward
  exact ⟨_, hjourney, (hjourney.bounded.2.2 (by decide)).1⟩

end RustyTinc

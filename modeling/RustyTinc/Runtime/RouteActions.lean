import RustyTinc.Core.Fragment
import RustyTinc.Core.MssClamp
import RustyTinc.Runtime.NeighborAnswers

/-!
What a node does with a packet after its decision.

* `sendPacketAction`: the packet as it is sent, in pieces or answered when it is too long;
* `icmpReplyForDrop`: the answer to a packet that is dropped;
* `routePacketAction`: all of it, with the answers to address resolution before;
* `routePacketAction_sound`: a packet goes to another node than it came from, an answer goes back,
  and nothing gets longer than the packet or an answer.
-/

namespace RustyTinc

open Bytes OnesComplement

/-- The code of a network that is not known. -/
def icmpNetUnknown : UInt8 := 6

/-- The type of an error about a TTL that has run out. -/
def icmpTimeExceeded : UInt8 := 11

/-- The code of a TTL that has run out on the way. -/
def icmpExcTtl : UInt8 := 0

/-- The code of a network that cannot be reached. -/
def icmpNetUnreach : UInt8 := 0

/-- The code of a network that may not be reached. -/
def icmpNetAno : UInt8 := 9

/-- The code of a destination to which there is no route. -/
def icmp6DstUnreachNoroute : UInt8 := 0

/-- The type of an ICMPv6 error about a destination. -/
def icmp6DstUnreach : UInt8 := 1

/-- The type of an ICMPv6 error about a hop limit that has run out. -/
def icmp6TimeExceeded : UInt8 := 3

/-- The code of a destination that may not be reached. -/
def icmp6DstUnreachAdmin : UInt8 := 1

/-- The code of an address that is not known. -/
def icmp6DstUnreachAddr : UInt8 := 3

/-- The code of a hop limit that has run out on the way. -/
def icmp6TimeExceedTransit : UInt8 := 0

/-- The smallest MTU to which IPv4 packets are cut. -/
def ipv4MinFullMtu : ℕ := ethHlen + ipMss

/-- The smallest MTU of IPv6. -/
def ipv6MinPayloadMtu : ℕ := 1280

/-- The smallest MTU that is reported for IPv6 packets. -/
def ipv6MinFullMtu : ℕ := ethHlen + ipv6MinPayloadMtu

/-- What is to be done with a packet, with the bytes that it now has. -/
inductive PacketAction where
  | send (owner : String) (via : Option String) (packet : List UInt8) (priority : Option ℤ)
      (mssClamp : Option MssClamp)
  | sendFragments (owner : String) (via : Option String) (fragments : List (List UInt8))
      (priority : Option ℤ)
  | reply (target : String) (packet : List UInt8) (priority : Option ℤ)
  | broadcast (packet : List UInt8)
  | deliverLocal (packet : List UInt8)
  | drop (reason : RouteDropReason)
deriving DecidableEq

/-- The decision about a packet, and what is done about it. -/
structure RoutedPacketAction where
  outcome : RouteOutcome
  action : PacketAction
deriving DecidableEq

/-! ### Clamping within the packet -/

/-- The length of the IP header, as far as it is a header of its own. -/
def ipHeaderLen (packet : List UInt8) (etherType etherLen : ℕ) : ℕ :=
  if etherType = ethPIp then min ((packet.getD etherLen 0 &&& 0x0f).toNat * 4) 20 else 40

/-- Clamping never reads outside the packet; where it changes something, it keeps the length, the IP
header, and what is before the checksum in the header behind it. -/
lemma clampTcpMss_front (packet : List UInt8) (mtu : ℕ) :
    ∃ result packet', clampTcpMss packet mtu = some (result, packet') ∧
      (packet' = packet ∨ ∃ old new, result = .ok (.clamped old new)) ∧
      packet'.length = packet.length ∧
      ∀ etherType etherLen, ethernetPayloadType packet = .ok (etherType, etherLen) →
        ∀ i < etherLen + ipHeaderLen packet etherType etherLen + 16, packet'[i]? = packet[i]? := by
  have hsame : ∀ result : Except MssClampError MssClamp, ∃ result' packet',
      some (result, packet) = some (result', packet') ∧
        (packet' = packet ∨ ∃ old new, result' = .ok (.clamped old new)) ∧
        packet'.length = packet.length ∧
        ∀ etherType etherLen, ethernetPayloadType packet = .ok (etherType, etherLen) →
          ∀ i < etherLen + ipHeaderLen packet etherType etherLen + 16, packet'[i]? = packet[i]? :=
    fun result => ⟨result, packet, rfl, Or.inl rfl, rfl, fun _ _ _ _ _ => rfl⟩
  rw [clampTcpMss, checkedPayloadType_eq, Option.bind_eq_bind, Option.bind_some]
  cases hframe : ethernetPayloadType packet with
  | error error =>
      rw [hframe] at hsame
      cases error with
      | tooShort expectedAtLeast actual => exact hsame _
      | expired => exact absurd hframe (ethernetPayloadType_ne_expired packet)
  | ok payloadType =>
      obtain ⟨etherType, etherLen⟩ := payloadType
      rw [hframe] at hsame
      obtain ⟨start, hstart, hheader⟩ := tcpHeaderStart_sound packet etherType etherLen
      simp only [Option.bind_eq_bind, hstart, Option.bind_some]
      rcases start with error | _ | tcpStart
      · exact hsame _
      · exact hsame _
      · obtain ⟨ipStart, hheader⟩ := hheader tcpStart rfl
        have hbehind : etherLen + ipHeaderLen packet etherType etherLen ≤ tcpStart := by
          cases hheader with
          | ipv4 =>
              rw [ipHeaderLen, if_pos rfl]
              omega
          | ipInIp =>
              rw [ipHeaderLen, if_pos rfl]
              omega
          | ipv6 => exact le_rfl
        dsimp only
        by_cases hnone : packet.length = tcpStart + 20
        · rw [if_pos hnone]
          exact hsame _
        by_cases hshort : packet.length < tcpStart + 20
        · rw [if_neg hnone, if_pos hshort]
          exact hsame _
        rw [if_neg hnone, if_neg hshort,
          getElem?_eq_getD (show tcpStart + 12 < packet.length by omega), Option.bind_some]
        split_ifs with hsmall hempty hcut
        · exact hsame _
        · exact hsame _
        · exact hsame _
        cases maximumMssForMtu mtu tcpStart with
        | error error => exact hsame _
        | ok maximum =>
            obtain ⟨clamp, packet', hloop, hresult⟩ := @clampLoop_sound packet tcpStart
              ((packet.getD (tcpStart + 12) 0).toNat / 16 * 4 - 20) maximum 0 (by omega) .first
            dsimp only
            rw [hloop, Option.bind_some]
            cases hresult with
            | unchanged => exact hsame _
            | clamped =>
                refine ⟨_, _, rfl, Or.inr ⟨_, _, rfl⟩, by simp only [clampAt, length_setU16],
                  fun _ _ heq i hi => ?_⟩
                obtain ⟨rfl, rfl⟩ := Prod.mk.inj (Except.ok.inj heq)
                refine getElem?_clampAt ?_
                simp only [List.mem_cons, List.not_mem_nil, or_false]
                omega

lemma clampTcpMss_isSome (packet : List UInt8) (mtu : ℕ) : (clampTcpMss packet mtu).isSome := by
  obtain ⟨result, packet', hclamp, -⟩ := clampTcpMss_front packet mtu
  rw [hclamp, Option.isSome_some]

/-! ### Sending -/

/-- The priority that is taken over from the header of a packet. -/
def inheritedPacketPriority (packet : List UInt8) (settings : RouteSettings) : Option ℤ :=
  if ¬ settings.priorityInheritance ∨ packet.length < ethHlen then none
  else if u16At packet 12 = ethPIp ∧ packet.length ≥ ethHlen + 20 then
    some (packet.getD (ethHlen + 1) 0).toNat
  else if u16At packet 12 = ethPIpv6 ∧ packet.length ≥ ethHlen + 40 then
    some (((packet.getD ethHlen 0 &&& 0x0f) <<< 4) ||| (packet.getD (ethHlen + 1) 0 >>> 4)).toNat
  else none

/-- The MTU that counts for a packet, which must have room for the smallest packets of its kind. -/
def effectiveRouteMtu (packet : List UInt8) (mtu : ℕ) (routingMode : RoutingMode) : ℕ :=
  match routingMode with
  | .router =>
      match ethernetPayloadType packet with
      | .error _ => mtu
      | .ok (etherType, _) =>
          if etherType = ethPIp then max mtu ipv4MinFullMtu
          else if etherType = ethPIpv6 then max mtu ipv6MinFullMtu
          else mtu
  | .switch | .hub => mtu

/-- A bridge cuts no packet that every link must carry. -/
def shouldHandlePmtu (packet : List UInt8) (etherLen minimum : ℕ) (routingMode : RoutingMode) :
    Bool :=
  match routingMode with
  | .router => true
  | .switch | .hub => packet.length > minimum + etherLen

/-- Whether an IPv4 packet of this length is looked at for its MTU. -/
def shouldHandleIpv4Pmtu (packet : List UInt8) (etherLen : ℕ) (routingMode : RoutingMode) : Bool :=
  shouldHandlePmtu packet etherLen ipMss routingMode

/-- Whether an IPv6 packet of this length is looked at for its MTU. -/
def shouldHandleIpv6Pmtu (packet : List UInt8) (etherLen : ℕ) (routingMode : RoutingMode) : Bool :=
  shouldHandlePmtu packet etherLen ipv6MinPayloadMtu routingMode

/-- The MTU that an ICMP error tells the sender. -/
def reportedPmtuPacketLen (packet : List UInt8) (etherLen ipHeaderLen mtu : ℕ)
    (routingMode : RoutingMode) : Option ℕ :=
  let minimum := etherLen + ipHeaderLen
  if packet.length < minimum then none
  else
    let desired :=
      match routingMode with
      | .router =>
          if ipHeaderLen = 20 then max mtu ipv4MinFullMtu
          else if ipHeaderLen = 40 then max mtu ipv6MinFullMtu
          else mtu
      | .switch | .hub => mtu
    some (min (max desired minimum) packet.length)

/-- The packet must not be cut. -/
def ipv4DontFragment (packet : List UInt8) (etherLen : ℕ) : Bool :=
  packet[etherLen + 6]?.any fun fragmentFlags => fragmentFlags &&& 0x40 ≠ 0

/-- What is done instead of sending a packet that is too long. -/
def pmtuAction (source owner : String) (via : Option String) (packet : List UInt8) (mtu : ℕ)
    (routingMode : RoutingMode) (priority : Option ℤ) : Option PacketAction := do
  let (etherType, etherLen) ← (ethernetPayloadType packet).toOption
  if etherType = ethPIp ∧ shouldHandleIpv4Pmtu packet etherLen routingMode then
    if ipv4DontFragment packet etherLen then
      let len ← reportedPmtuPacketLen packet etherLen 20 mtu routingMode
      let reply ← (ipv4IcmpErrorPacket (packet.take len) icmpDestUnreach icmpFragNeeded
        none).toOption
      return .reply source reply priority
    else
      let fragments ← (fragmentIpv4Packet packet mtu).toOption
      return .sendFragments owner via fragments priority
  else if etherType = ethPIpv6 ∧ shouldHandleIpv6Pmtu packet etherLen routingMode then
    let len ← reportedPmtuPacketLen packet etherLen 40 mtu routingMode
    let reply ← (ipv6IcmpErrorPacket (packet.take len) icmp6PacketTooBig 0 none).toOption
    return .reply source reply priority
  else none

/-- The clamp that is reported, and the packet after it. -/
def clampForVia (node : Node) (packet : List UInt8) (clampMtu : ℕ) :
    Option MssClamp × List UInt8 :=
  if node.options &&& optionClampMss ≠ 0 then
    let clamped := (clampTcpMss packet clampMtu).get (clampTcpMss_isSome packet clampMtu)
    match clamped.1 with
    | .ok .notTcp | .ok .noMssOption | .error _ => (none, clamped.2)
    | .ok result => (some result, clamped.2)
  else (none, packet)

/-- What is done with a packet for a node: it is sent, cut, answered with an error or dropped. -/
def NetworkState.sendPacketAction (s : NetworkState) (source owner : String) (via : Option String)
    (packet : List UInt8) (settings : RouteSettings) : PacketAction :=
  let viaName := via.getD owner
  let priority := inheritedPacketPriority packet settings
  if viaName = s.graph.myself then .send owner via packet priority none
  else
    match s.graph.node viaName with
    | none => .drop (.unreachableOwner viaName)
    | some viaNode =>
        let mtu := viaNode.mtu
        let instead :=
          if packet.length > effectiveRouteMtu packet mtu settings.routingMode then
            pmtuAction source owner via packet mtu settings.routingMode priority
          else none
        match instead with
        | some action => action
        | none =>
            let sourceMtu := ((s.graph.node source).map Node.mtu).getD defaultMtu
            let (mssClamp, packet) := clampForVia viaNode packet (min sourceMtu mtu)
            .send owner via packet priority mssClamp

/-! ### Answers to packets that are dropped -/

/-- The packet tells of a TTL that has run out. -/
def isIpv4TimeExceeded (packet : List UInt8) : Bool :=
  match ethernetPayloadType packet with
  | .error _ => false
  | .ok (etherType, etherLen) =>
      if etherType ≠ ethPIp ∨ packet.length < etherLen + 20 then false
      else
        let headerLen := (packet.getD etherLen 0 &&& 0x0f).toNat * 4
        packet.length > etherLen + headerLen && packet.getD (etherLen + 9) 0 = ipprotoIcmp &&
          packet.getD (etherLen + headerLen) 0 = icmpTimeExceeded

/-- The packet tells of a hop limit that has run out. -/
def isIpv6TimeExceeded (packet : List UInt8) : Bool :=
  match ethernetPayloadType packet with
  | .error _ => false
  | .ok (etherType, etherLen) =>
      etherType = ethPIpv6 && packet.length > etherLen + 40 &&
        packet.getD (etherLen + 6) 0 = ipprotoIcmpv6 &&
        packet.getD (etherLen + 40) 0 = icmp6TimeExceeded

/-- The answer to an IPv4 packet that is dropped. -/
def ipv4ReplyForDrop (packet : List UInt8) : RouteDropReason → Option (List UInt8)
  | .unknownIpv4Destination _ =>
      (ipv4IcmpErrorPacket packet icmpDestUnreach icmpNetUnknown none).toOption
  | .unreachableOwner _ =>
      (ipv4IcmpErrorPacket packet icmpDestUnreach icmpNetUnreach none).toOption
  | .forwardingDisabled | .directOnly =>
      (ipv4IcmpErrorPacket packet icmpDestUnreach icmpNetAno none).toOption
  | .ttlExpired =>
      if isIpv4TimeExceeded packet then none
      else (ipv4IcmpErrorPacket packet icmpTimeExceeded icmpExcTtl none).toOption
  | _ => none

/-- The answer to an IPv6 packet that is dropped. -/
def ipv6ReplyForDrop (packet : List UInt8) : RouteDropReason → Option (List UInt8)
  | .unknownIpv6Destination _ =>
      (ipv6IcmpErrorPacket packet icmp6DstUnreach icmp6DstUnreachAddr none).toOption
  | .unreachableOwner _ =>
      (ipv6IcmpErrorPacket packet icmp6DstUnreach icmp6DstUnreachNoroute none).toOption
  | .forwardingDisabled | .directOnly =>
      (ipv6IcmpErrorPacket packet icmp6DstUnreach icmp6DstUnreachAdmin none).toOption
  | .ttlExpired =>
      if isIpv6TimeExceeded packet then none
      else (ipv6IcmpErrorPacket packet icmp6TimeExceeded icmp6TimeExceedTransit none).toOption
  | _ => none

/-- The ICMP error for a packet that is dropped. -/
def icmpReplyForDrop (source : String) (packet : List UInt8) (reason : RouteDropReason)
    (priority : Option ℤ) : Option PacketAction := do
  let payloadType ← (ethernetPayloadType packet).toOption
  let reply ←
    (if payloadType.1 = ethPIp then ipv4ReplyForDrop packet reason
    else if payloadType.1 = ethPIpv6 then ipv6ReplyForDrop packet reason
    else none : Option (List UInt8))
  return .reply source reply priority

/-! ### The action -/

/-- The packet asks for the link address of an IPv6 address. -/
def isNeighborSolicitationPacket (packet : List UInt8) : Bool :=
  match ethernetPayloadType packet with
  | .error _ => false
  | .ok (etherType, etherLen) =>
      etherType = ethPIpv6 && packet.length ≥ etherLen + 40 + ndNeighborSolicitLen &&
        packet.getD (etherLen + 6) 0 = ipprotoIcmpv6 &&
        packet.getD (etherLen + 40) 0 = ndNeighborSolicit

/-- The answer to a question goes back to its source. -/
def packetReplyAction (source : String) :
    Except RouteDropReason (Option (List UInt8)) → RoutedPacketAction
  | .ok (some packet) => ⟨⟨.reply source, []⟩, .reply source packet none⟩
  | .ok none => ⟨⟨.drop .invalidNeighborSolicitation, []⟩, .drop .invalidNeighborSolicitation⟩
  | .error reason => ⟨⟨.drop reason, []⟩, .drop reason⟩

namespace NetworkState

/-- What is done with a packet that asks for a link address. -/
def addressResolutionAction (s : NetworkState) (source : String) (packet : List UInt8) :
    Option RoutedPacketAction :=
  match EthernetFrame.parse packet with
  | .error _ => none
  | .ok frame =>
      if frame.etherType = ethPArp then
        some (packetReplyAction source (s.arpReplyPacket source packet))
      else if frame.etherType = ethPIpv6 ∧ isNeighborSolicitationPacket packet then
        some (packetReplyAction source (s.neighborAdvertisementPacket source packet))
      else none

/-- What is done with a packet, and what is learned from it. -/
def routePacketAction (s : NetworkState) (source : String) (packet : List UInt8)
    (settings : RouteSettings) : NetworkState × RoutedPacketAction :=
  let resolved :=
    if settings.routingMode = .router then s.addressResolutionAction source packet else none
  match resolved with
  | some routed => (s, routed)
  | none =>
      let (s, outcome, packet) := s.routePacketMut source packet settings
      let action :=
        match outcome.decision with
        | .send owner via => s.sendPacketAction source owner via packet settings
        | .reply target => .reply target packet none
        | .broadcast => .broadcast packet
        | .deliverLocal => .deliverLocal packet
        | .drop reason =>
            let priority :=
              if reason = .directOnly then inheritedPacketPriority packet settings else none
            (icmpReplyForDrop source packet reason priority).getD (.drop reason)
      (s, ⟨outcome, action⟩)

end NetworkState

/-! ### The length of what is sent -/

lemma ok_of_toOption {ε α : Type*} {x : Except ε α} {a : α} (h : x.toOption = some a) :
    x = .ok a := by
  cases x with
  | error e => cases h
  | ok b => rw [Option.some.inj h]

section Length

variable {packet : List UInt8}

/-- The longest answer: a tagged link header, and what every link carries. -/
def longestAnswer : ℕ := ethHlen + 4 + ipMss

/-- An error packet is short. -/
lemma length_ipv4IcmpErrorPacket {icmpType icmpCode : UInt8} {out : List UInt8}
    {replySource : Option Ipv4Addr}
    (h : ipv4IcmpErrorPacket packet icmpType icmpCode replySource = .ok out) :
    out.length ≤ longestAnswer := by
  rw [ipv4IcmpErrorPacket] at h
  split at h
  case h_1 => cases h
  case h_2 heq => exact absurd heq (ethernetPayloadType_ne_expired packet)
  case h_3 etherType etherLen heq =>
    have hlink := (@ethernetPayloadType_answer packet _ _ [] heq).1
    have hether := ethernetPayloadType_ok heq
    by_cases htype : etherType ≠ ethPIp
    · rw [if_pos htype] at h
      cases h
    by_cases hshort : packet.length < etherLen + 20
    · rw [if_neg htype, if_pos hshort] at h
      cases h
    rw [if_neg htype, if_neg hshort] at h
    obtain rfl := Except.ok.inj h
    have hmtu : ∀ (p : Prop) [Decidable p] n m,
        (if p then bigEndian 2 n else bigEndian 2 m).length = 2 := by
      intro p _ n m
      split_ifs <;> exact length_bigEndian 2 _
    simp only [List.length_append, hlink, length_ipv4ErrorHeader, length_setU16, List.length_cons,
      List.length_nil, hmtu, length_slice, longestAnswer, ethHlen, ipMss, icmpSize]
    omega

/-- An error packet is short. -/
lemma length_ipv6IcmpErrorPacket {icmpType icmpCode : UInt8} {out : List UInt8}
    {replySource : Option Ipv6Addr}
    (h : ipv6IcmpErrorPacket packet icmpType icmpCode replySource = .ok out) :
    out.length ≤ longestAnswer := by
  rw [ipv6IcmpErrorPacket] at h
  split at h
  case h_1 => cases h
  case h_2 heq => exact absurd heq (ethernetPayloadType_ne_expired packet)
  case h_3 etherType etherLen heq =>
    have hlink := (@ethernetPayloadType_answer packet _ _ [] heq).1
    have hether := ethernetPayloadType_ok heq
    by_cases htype : etherType ≠ ethPIpv6
    · rw [if_pos htype] at h
      cases h
    by_cases hshort : packet.length < etherLen + 40
    · rw [if_neg htype, if_pos hshort] at h
      cases h
    rw [if_neg htype, if_neg hshort] at h
    obtain rfl := Except.ok.inj h
    have hmtu : ∀ (p : Prop) [Decidable p] n m,
        (if p then bigEndian 4 n else bigEndian 4 m).length = 4 := by
      intro p _ n m
      split_ifs <;> exact length_bigEndian 4 _
    simp only [List.length_append, hlink, length_ipv6ErrorHeader, length_setU16, List.length_cons,
      List.length_nil, hmtu, length_slice, longestAnswer, ethHlen, ipMss, icmpv6Size]
    omega

/-- Every fragment has the headers of the packet before a part of its payload. -/
lemma mem_fragmentLoop {etherLen flags remaining payloadOffset fragmentOffset : ℕ}
    {maxPayloadLen : { len : ℕ // 0 < len }} {payload fragment : List UInt8}
    (h : fragment ∈ fragmentLoop packet etherLen maxPayloadLen payload flags remaining
      payloadOffset fragmentOffset) :
    ∃ part field, fragment = ipv4Fragment packet etherLen part field ∧
      part.length ≤ payload.length := by
  induction remaining using Nat.strong_induction_on generalizing payloadOffset fragmentOffset with
  | _ remaining ih =>
    have hpos := maxPayloadLen.2
    rw [fragmentLoop] at h
    split_ifs at h with hremaining
    · rcases List.mem_cons.mp h with rfl | hrest
      · refine ⟨_, _, rfl, ?_⟩
        rw [length_slice]
        omega
      · exact ih _ (by omega) hrest
    · exact absurd h List.not_mem_nil

/-- A fragment has the header of the packet, up to length, fragment fields and checksum. -/
lemma fragmentIpv4Packet_mem {mtu : ℕ} {fragments : List (List UInt8)}
    (h : fragmentIpv4Packet packet mtu = .ok fragments) {fragment : List UInt8}
    (hmem : fragment ∈ fragments) :
    fragment.length ≤ packet.length ∧
      ∃ etherLen, ethernetPayloadType packet = .ok (ethPIp, etherLen) ∧
        ∀ i < etherLen + 20, i ∉ [2, 3, 6, 7, 10, 11].map (etherLen + ·) →
          fragment[i]? = packet[i]? := by
  obtain ⟨etherLen, maxPayloadLen, htype, hheader, -, -, -, rfl⟩ := fragmentIpv4Packet_ok h
  obtain ⟨part, field, rfl, hpart⟩ := mem_fragmentLoop hmem
  rw [List.length_drop] at hpart
  refine ⟨by rw [length_ipv4Fragment hheader]; omega, etherLen, htype, fun i hi hnot => ?_⟩
  rw [getElem?_ipv4Fragment hnot, List.getElem?_append_left (by rw [List.length_take]; omega),
    List.getElem?_take_of_lt hi]

lemma length_arpReplyPacket {s : NetworkState} {source : String} {answer : List UInt8}
    (h : s.arpReplyPacket source packet = .ok (some answer)) : answer.length = packet.length := by
  rw [NetworkState.arpReplyPacket] at h
  dsimp only at h
  split_ifs at h
  split at h
  · cases h
  · split_ifs at h
    obtain rfl := Option.some.inj (Except.ok.inj h)
    simp

end Length

/-! ### What a node does with a packet -/

/-- What an action on a packet from `source` keeps to: the packet is sent to another node, and an
answer goes back. -/
def PacketAction.Sound (s : NetworkState) (source : String) (packet : List UInt8)
    (settings : RouteSettings) : PacketAction → Prop
  | .send owner via out _ _ =>
      Forwardable s source settings owner via ∧ out.length = packet.length
  | .sendFragments owner via fragments _ =>
      Forwardable s source settings owner via ∧ via.getD owner ≠ s.graph.myself ∧
        ∀ fragment ∈ fragments, fragment.length ≤ packet.length
  | .reply target answer _ => target = source ∧ answer.length ≤ max packet.length longestAnswer
  | .broadcast out | .deliverLocal out => out.length = packet.length
  | .drop _ => True

/-- The rules depend on a state by its graph, and on a packet by its length. -/
lemma PacketAction.Sound.of_graph {s s' : NetworkState} {source : String} {packet out : List UInt8}
    {settings : RouteSettings} {action : PacketAction} (hgraph : s'.graph = s.graph)
    (hlength : out.length = packet.length) (h : action.Sound s' source out settings) :
    action.Sound s source packet settings := by
  cases action with
  | send owner via packet' priority mssClamp => exact ⟨h.1.of_graph hgraph, h.2.trans hlength⟩
  | sendFragments owner via fragments priority =>
      exact ⟨h.1.of_graph hgraph, hgraph ▸ h.2.1, fun f hf => (h.2.2 f hf).trans_eq hlength⟩
  | reply target answer priority => exact ⟨h.1, hlength ▸ h.2⟩
  | broadcast packet' => exact h.trans hlength
  | deliverLocal packet' => exact h.trans hlength
  | drop reason => trivial

/-- A packet that is too long is answered or sent in fragments. -/
lemma pmtuAction_cases {source owner : String} {via : Option String} {packet : List UInt8} {mtu : ℕ}
    {mode : RoutingMode} {priority : Option ℤ} {action : PacketAction}
    (h : pmtuAction source owner via packet mtu mode priority = some action) :
    (∃ reply, action = .reply source reply priority ∧ reply.length ≤ longestAnswer) ∨
      ∃ fragments, action = .sendFragments owner via fragments priority ∧
        fragmentIpv4Packet packet mtu = .ok fragments := by
  rw [pmtuAction] at h
  obtain ⟨⟨etherType, etherLen⟩, -, h⟩ := Option.bind_eq_some_iff.mp h
  dsimp only at h
  split_ifs at h with hip hdf hipv6
  · obtain ⟨len, -, h⟩ := Option.bind_eq_some_iff.mp h
    obtain ⟨reply, hreply, h⟩ := Option.bind_eq_some_iff.mp h
    exact Or.inl ⟨reply, (Option.some.inj h).symm,
      length_ipv4IcmpErrorPacket (ok_of_toOption hreply)⟩
  · obtain ⟨fragments, hfragments, h⟩ := Option.bind_eq_some_iff.mp h
    exact Or.inr ⟨fragments, (Option.some.inj h).symm, ok_of_toOption hfragments⟩
  · obtain ⟨len, -, h⟩ := Option.bind_eq_some_iff.mp h
    obtain ⟨reply, hreply, h⟩ := Option.bind_eq_some_iff.mp h
    exact Or.inl ⟨reply, (Option.some.inj h).symm,
      length_ipv6IcmpErrorPacket (ok_of_toOption hreply)⟩

/-- What a packet is after it may have been clamped. -/
lemma clampForVia_front (node : Node) (packet : List UInt8) (mtu : ℕ) :
    ((clampForVia node packet mtu).2 = packet ∨ ∃ old new, clampTcpMss packet mtu =
        some (.ok (.clamped old new), (clampForVia node packet mtu).2)) ∧
      (clampForVia node packet mtu).2.length = packet.length ∧
      ∀ etherType etherLen, ethernetPayloadType packet = .ok (etherType, etherLen) →
        ∀ i < etherLen + ipHeaderLen packet etherType etherLen + 16,
          (clampForVia node packet mtu).2[i]? = packet[i]? := by
  obtain ⟨result, packet', hclamp, hcases, hlength, hfront⟩ := clampTcpMss_front packet mtu
  have hget : (clampTcpMss packet mtu).get (clampTcpMss_isSome packet mtu) = (result, packet') :=
    Option.get_of_eq_some _ hclamp
  by_cases hoption : node.options &&& optionClampMss ≠ 0
  · have hout : (clampForVia node packet mtu).2 = packet' := by
      rw [clampForVia, if_pos hoption]
      dsimp only
      rw [hget]
      split <;> rfl
    rw [hout, hclamp]
    refine ⟨hcases.imp_right ?_, hlength, hfront⟩
    rintro ⟨old, new, rfl⟩
    exact ⟨old, new, rfl⟩
  · rw [clampForVia, if_neg hoption]
    exact ⟨Or.inl rfl, rfl, fun _ _ _ _ _ => rfl⟩

namespace NetworkState

section Action

variable {s : NetworkState} {source owner : String} {via : Option String} {packet : List UInt8}
  {settings : RouteSettings}

/-- A forwardable packet is sent on soundly. -/
lemma sendPacketAction_sound (hsend : Forwardable s source settings owner via) :
    (s.sendPacketAction source owner via packet settings).Sound s source packet settings := by
  rw [sendPacketAction]
  dsimp only
  split_ifs with hown
  · exact ⟨hsend, rfl⟩
  · cases s.graph.node (via.getD owner) with
    | none => trivial
    | some viaNode =>
        dsimp only
        split
        · next action heq =>
            split_ifs at heq
            rcases pmtuAction_cases heq with ⟨reply, rfl, hreply⟩ | ⟨fragments, rfl, hfragments⟩
            · exact ⟨rfl, le_max_of_le_right hreply⟩
            · exact ⟨hsend, hown, fun fragment hmem => (fragmentIpv4Packet_mem hfragments hmem).1⟩
        · exact ⟨hsend, (clampForVia_front _ _ _).2.1⟩

/-- An answer to a dropped packet is an ICMP error. -/
lemma ipv4ReplyForDrop_eq_some {reason : RouteDropReason} {reply : List UInt8}
    (h : ipv4ReplyForDrop packet reason = some reply) :
    ∃ icmpType icmpCode, (ipv4IcmpErrorPacket packet icmpType icmpCode none).toOption = some reply := by
  cases reason with
  | unknownIpv4Destination _ | unreachableOwner _ | forwardingDisabled | directOnly => exact ⟨_, _, h⟩
  | ttlExpired =>
      change (if isIpv4TimeExceeded packet then none
        else (ipv4IcmpErrorPacket packet icmpTimeExceeded icmpExcTtl none).toOption) = some reply at h
      by_cases hexpired : isIpv4TimeExceeded packet = true
      · rw [if_pos hexpired] at h
        exact absurd h (Option.some_ne_none reply).symm
      · rw [if_neg hexpired] at h
        exact ⟨_, _, h⟩
  | _ => exact absurd h (Option.some_ne_none reply).symm

/-- The reply is an error packet. -/
lemma ipv6ReplyForDrop_eq_some {reason : RouteDropReason} {reply : List UInt8}
    (h : ipv6ReplyForDrop packet reason = some reply) :
    ∃ icmpType icmpCode, (ipv6IcmpErrorPacket packet icmpType icmpCode none).toOption = some reply := by
  cases reason with
  | unknownIpv6Destination _ | unreachableOwner _ | forwardingDisabled | directOnly => exact ⟨_, _, h⟩
  | ttlExpired =>
      change (if isIpv6TimeExceeded packet then none
        else (ipv6IcmpErrorPacket packet icmp6TimeExceeded icmp6TimeExceedTransit none).toOption) = some reply at h
      by_cases hexpired : isIpv6TimeExceeded packet = true
      · rw [if_pos hexpired] at h
        exact absurd h (Option.some_ne_none reply).symm
      · rw [if_neg hexpired] at h
        exact ⟨_, _, h⟩
  | _ => exact absurd h (Option.some_ne_none reply).symm

/-- A reply to a dropped packet is sound. -/
lemma icmpReplyForDrop_sound {reason : RouteDropReason} {priority : Option ℤ}
    {action : PacketAction} (h : icmpReplyForDrop source packet reason priority = some action) :
    action.Sound s source packet settings := by
  rw [icmpReplyForDrop] at h
  obtain ⟨payloadType, -, h⟩ := Option.bind_eq_some_iff.mp h
  obtain ⟨reply, hreply, h⟩ := Option.bind_eq_some_iff.mp h
  obtain rfl := Option.some.inj h
  refine ⟨rfl, le_max_of_le_right ?_⟩
  split_ifs at hreply
  · obtain ⟨icmpType, icmpCode, hok⟩ := ipv4ReplyForDrop_eq_some hreply
    exact length_ipv4IcmpErrorPacket (ok_of_toOption hok)
  · obtain ⟨icmpType, icmpCode, hok⟩ := ipv6ReplyForDrop_eq_some hreply
    exact length_ipv6IcmpErrorPacket (ok_of_toOption hok)

/-- The answer to a question about an address is sound. -/
lemma addressResolutionAction_sound {routed : RoutedPacketAction}
    (h : s.addressResolutionAction source packet = some routed) :
    routed.action.Sound s source packet settings ∧ routed.outcome.learned = [] := by
  have hanswer : ∀ result : Except RouteDropReason (Option (List UInt8)),
      (∀ answer, result = .ok (some answer) → answer.length = packet.length) →
        (packetReplyAction source result).action.Sound s source packet settings ∧
          (packetReplyAction source result).outcome.learned = [] := by
    intro result hlength
    rcases result with reason | _ | answer
    · exact ⟨trivial, rfl⟩
    · exact ⟨trivial, rfl⟩
    · exact ⟨⟨rfl, le_max_of_le_left (hlength answer rfl).le⟩, rfl⟩
  rw [addressResolutionAction] at h
  split at h
  · cases h
  · split_ifs at h
    · obtain rfl := Option.some.inj h
      exact hanswer _ fun answer => length_arpReplyPacket
    · obtain rfl := Option.some.inj h
      refine hanswer _ fun answer heq => ?_
      obtain ⟨-, hadvertisement, -⟩ := neighborAdvertisementPacket_ok heq
      obtain rfl := Option.some.inj hadvertisement
      rw [advertisement, length_setU16, length_advertisementBody]

/-- **Every action keeps to the rules**: no packet is sent back except as an answer. -/
lemma routePacketAction_sound (s : NetworkState) (source : String) (packet : List UInt8)
    (settings : RouteSettings) :
    (s.routePacketAction source packet settings).1.graph = s.graph ∧
      (s.routePacketAction source packet settings).2.action.Sound s source packet settings := by
  have hgraph := routePacketMut_graph s source packet settings
  have hlength := length_routePacketMut s source packet settings
  rw [routePacketAction]
  dsimp only
  split
  · next routed heq =>
      split_ifs at heq
      exact ⟨rfl, (addressResolutionAction_sound heq).1⟩
  · cases hresult : s.routePacketMut source packet settings with
    | mk s' routed =>
        obtain ⟨⟨decision, learned⟩, out⟩ := routed
        rw [hresult] at hgraph hlength
        dsimp only at hgraph hlength ⊢
        refine ⟨hgraph, ?_⟩
        cases decision with
        | send owner via =>
            obtain ⟨hdecision, -⟩ := routePacketMut_send (show
              (s.routePacketMut source packet settings).2.1.decision = .send owner via by rw [hresult])
            have hforward : Forwardable s' source settings owner via :=
              (routePacket_send hdecision).of_graph hgraph.symm
            exact (sendPacketAction_sound hforward).of_graph hgraph hlength
        | reply target =>
            refine absurd (show (s.routePacketMut source packet settings).2.1.decision =
              .reply target by rw [hresult]) (routePacketMut_ne_reply s source packet settings target)
        | broadcast => exact hlength
        | deliverLocal => exact hlength
        | drop reason =>
            dsimp only
            cases hreply : icmpReplyForDrop source out reason
                (if reason = .directOnly then inheritedPacketPriority out settings else none) with
            | none => trivial
            | some action => exact (icmpReplyForDrop_sound hreply).of_graph hgraph hlength

end Action

end NetworkState

end RustyTinc

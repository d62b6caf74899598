import RustyTinc.Core.IcmpError
import RustyTinc.Runtime.RoutePacket

/-!
The answers of a router to the address resolution of its own host. The host asks for the hardware
address of an address behind another node, and is given one that nobody has.

* `arpReplyPacket`, `neighborAdvertisementPacket`: the answers;
* `neighborAdvertisementPacket_answers`: the answer goes back to the host, for the address it asked
  for, and passes the checksum test that the question had to pass.
-/

namespace RustyTinc

open Bytes OnesComplement

/-- The type of frames that hold an ARP packet. -/
def ethPArp : ℕ := 0x0806

/-- The length of an ARP packet. -/
def arpPacketLen : ℕ := 28

/-- The number of Ethernet in ARP. -/
def arphrdEther : ℕ := 1

/-- The number of a question in ARP. -/
def arpopRequest : ℕ := 1

/-- The number of an answer in ARP. -/
def arpopReply : ℕ := 2

/-- The type of a neighbour solicitation. -/
def ndNeighborSolicit : UInt8 := 135

/-- The type of a neighbour advertisement. -/
def ndNeighborAdvert : UInt8 := 136

/-- The option with the link address of the sender. -/
def ndOptSourceLinkaddr : UInt8 := 1

/-- The option with the link address that was asked for. -/
def ndOptTargetLinkaddr : UInt8 := 2

/-- The length of a solicitation without an option. -/
def ndNeighborSolicitLen : ℕ := 24

/-- The length of an option with a link address. -/
def ndOptLinkaddrLen : ℕ := 8

/-- The last octet of a hardware address is inverted. -/
def fakeMac (address : MacAddr) : MacAddr := address.set 5 (address[5] ^^^ 0xff)

namespace NetworkState

variable (s : NetworkState)

/-- The answer to a question for the link address of an IPv4 address that another node owns. -/
def arpReplyPacket (source : String) (packet : List UInt8) :
    Except RouteDropReason (Option (List UInt8)) :=
  if source ≠ s.graph.myself then .error .addressResolutionFromRemote
  else if packet.length < ethHlen + arpPacketLen then
    .error (.tooShort (ethHlen + arpPacketLen) packet.length)
  else if u16At packet 12 ≠ ethPArp then .error (.unknownEtherType (u16At packet 12))
  else
    let arpStart := ethHlen
    let hardwareType := u16At packet arpStart
    let protocolType := u16At packet (arpStart + 2)
    let hardwareLen := packet.getD (arpStart + 4) 0
    let protocolLen := packet.getD (arpStart + 5) 0
    let operation := u16At packet (arpStart + 6)
    if hardwareType ≠ arphrdEther ∨ protocolType ≠ ethPIp ∨ hardwareLen ≠ 6 ∨ protocolLen ≠ 4 ∨
        operation ≠ arpopRequest then .error .invalidArpRequest
    else
      let target : Ipv4Addr := array 4 (packet.drop (arpStart + 24))
      match s.lookupReachableIpv4SubnetLikeTinc target with
      | none => .error (.unknownArpTarget target)
      | some subnet =>
          if subnet.owner = some s.graph.myself then .error (.localArpTarget target)
          else
            let senderProtocol := slice packet (arpStart + 14) 4
            let targetProtocol := slice packet (arpStart + 24) 4
            let senderHardware := slice packet (arpStart + 8) 6
            let ethernetSource : MacAddr := array 6 (packet.drop 6)
            let reply := overwrite packet (arpStart + 6) (bigEndian 2 arpopReply)
            let reply := overwrite reply (arpStart + 8) (fakeMac ethernetSource).toList
            let reply := overwrite reply (arpStart + 14) targetProtocol
            let reply := overwrite reply (arpStart + 18) senderHardware
            let reply := overwrite reply (arpStart + 24) senderProtocol
            .ok (some reply)

end NetworkState

/-- The checksum of a payload as it stands: zero, if it is right. -/
def verifyIpv6PayloadChecksum (packet : List UInt8) (etherLen payloadLen : ℕ) : ℕ :=
  let ipStart := etherLen
  let payloadStart := ipStart + 40
  if packet.length < payloadStart + payloadLen then 1
  else
    ipv6PayloadChecksum (array 16 (packet.drop (ipStart + 8))) (array 16 (packet.drop (ipStart + 24)))
      (packet.getD (ipStart + 6) 0) payloadLen (slice packet payloadStart payloadLen)

/-- The answer to a solicitation before its checksum is written: the addresses of both headers, the
type, the flag of a solicited answer, and the option. -/
def advertisementBody (packet : List UInt8) (hasOption : Bool) : List UInt8 :=
  let icmpStart := ethHlen + 40
  let target : Ipv6Addr := array 16 (packet.drop (icmpStart + 8))
  let originalSourceMac : MacAddr := array 6 (packet.drop 6)
  let reply := overwrite packet 0 originalSourceMac.toList
  let reply := overwrite reply 6 (fakeMac originalSourceMac).toList
  let reply := overwrite reply (ethHlen + 8) target.toList
  let originalIpSource : Ipv6Addr := array 16 (packet.drop (ethHlen + 8))
  let reply := overwrite reply (ethHlen + 24) originalIpSource.toList
  let reply := reply.set icmpStart ndNeighborAdvert
  let reply := (reply.set (icmpStart + 2) 0).set (icmpStart + 3) 0
  let reply := overwrite reply (icmpStart + 4) (bigEndian 4 0x40000000)
  if hasOption then
    overwrite (reply.set (icmpStart + ndNeighborSolicitLen) ndOptTargetLinkaddr)
      (icmpStart + ndNeighborSolicitLen + 2) (fakeMac originalSourceMac).toList
  else reply

/-- The part of a solicitation that its checksum covers, and of the answer too. -/
def neighborLen (hasOption : Bool) : ℕ :=
  if hasOption then ndNeighborSolicitLen + ndOptLinkaddrLen else ndNeighborSolicitLen

/-- The advertisement that answers a solicitation, with its checksum. -/
def advertisement (packet : List UInt8) (hasOption : Bool) : List UInt8 :=
  let icmpStart := ethHlen + 40
  let ndLen := neighborLen hasOption
  let reply := advertisementBody packet hasOption
  let checksum := ipv6PayloadChecksum (array 16 (packet.drop (icmpStart + 8)))
    (array 16 (packet.drop (ethHlen + 8))) ipprotoIcmpv6 ndLen (slice reply icmpStart ndLen)
  setU16 reply (icmpStart + 2) checksum

/-- The answer to a solicitation for an IPv6 address that another node owns. -/
def NetworkState.neighborAdvertisementPacket (s : NetworkState) (source : String)
    (packet : List UInt8) : Except RouteDropReason (Option (List UInt8)) :=
  if source ≠ s.graph.myself then .error .addressResolutionFromRemote
  else if packet.length < ethHlen + 40 + ndNeighborSolicitLen then
    .error (.tooShort (ethHlen + 40 + ndNeighborSolicitLen) packet.length)
  else if u16At packet 12 ≠ ethPIpv6 ∨ packet.getD (ethHlen + 6) 0 ≠ ipprotoIcmpv6 then
    .error .invalidNeighborSolicitation
  else
    let icmpStart := ethHlen + 40
    let hasOption : Bool := icmpStart + ndNeighborSolicitLen + ndOptLinkaddrLen ≤ packet.length
    if packet.getD icmpStart 0 ≠ ndNeighborSolicit ∨
        hasOption ∧ packet.getD (icmpStart + ndNeighborSolicitLen) 0 ≠ ndOptSourceLinkaddr then
      .error .invalidNeighborSolicitation
    else
      if verifyIpv6PayloadChecksum packet ethHlen (neighborLen hasOption) ≠ 0 then
        .error .invalidNeighborSolicitationChecksum
      else
        let target : Ipv6Addr := array 16 (packet.drop (icmpStart + 8))
        match s.lookupReachableIpv6SubnetLikeTinc target with
        | none => .error (.unknownNeighborTarget target)
        | some subnet =>
            if subnet.owner = some s.graph.myself then .error (.localNeighborTarget target)
            else .ok (some (advertisement packet hasOption))

/-! ### The answer -/

section Answer

variable {packet : List UInt8} {hasOption : Bool}

/-- A checksum that is computed over itself is zero exactly if it is right. -/
lemma internetChecksum_eq_zero_iff {data : List UInt8} (heven : data.length % 2 = 0) :
    internetChecksum data 0xffff = 0 ↔ Verifies data := by
  have hxor : (0xffff ^^^ 0xffff : ℕ) = 0 := Nat.xor_self _
  have hleft : leftOver data = 0 := leftOver_eq_zero_iff.mpr (Or.inl heven)
  have hwords := wordSum_eq_checksumWords data
  have hlt := carry_lt (checksumWords data)
  rw [internetChecksum, hxor, zero_add, foldChecksum, Verifies, hwords, hleft, mul_zero, add_zero]
  omega

lemma neighborLen_bounds (hasOption : Bool) :
    24 ≤ neighborLen hasOption ∧ neighborLen hasOption % 2 = 0 := by
  cases hasOption <;> decide

@[simp] lemma length_advertisementBody :
    (advertisementBody packet hasOption).length = packet.length := by
  rw [advertisementBody]
  split_ifs <;> simp

/-- A part of the answer that neither the type and what follows it nor the option is in. -/
lemma slice_advertisementBody {start len : ℕ}
    (h : start + len ≤ 54 ∨ 62 ≤ start ∧ start + len ≤ 78) :
    slice (advertisementBody packet hasOption) start len =
      slice (overwrite (overwrite (overwrite (overwrite packet 0
        (array 6 (packet.drop 6)).toList) 6 (fakeMac (array 6 (packet.drop 6))).toList) 22
          (array 16 (packet.drop 62)).toList) 38 (array 16 (packet.drop 22)).toList) start len := by
  simp only [advertisementBody, ethHlen, ndNeighborSolicitLen, Nat.reduceAdd]
  split_ifs
  · rw [slice_overwrite_of_disjoint (by simp; omega), slice_set_of_notMem (by omega),
      slice_overwrite_of_disjoint (by simp; omega), slice_set_of_notMem (by omega),
      slice_set_of_notMem (by omega), slice_set_of_notMem (by omega)]
  · rw [slice_overwrite_of_disjoint (by simp; omega), slice_set_of_notMem (by omega),
      slice_set_of_notMem (by omega), slice_set_of_notMem (by omega)]

/-- The headers of the answer: the addresses have changed places, and the rest is as it was. -/
lemma headers_advertisementBody (hlen : 78 ≤ packet.length) :
    slice (advertisementBody packet hasOption) 0 6 = slice packet 6 6 ∧
      slice (advertisementBody packet hasOption) 6 6 = (fakeMac (array 6 (packet.drop 6))).toList ∧
      slice (advertisementBody packet hasOption) 12 10 = slice packet 12 10 ∧
      slice (advertisementBody packet hasOption) 22 16 = slice packet 62 16 ∧
      slice (advertisementBody packet hasOption) 38 16 = slice packet 22 16 ∧
      slice (advertisementBody packet hasOption) 62 16 = slice packet 62 16 := by
  rw [slice_advertisementBody (by omega), slice_advertisementBody (by omega),
    slice_advertisementBody (by omega), slice_advertisementBody (by omega),
    slice_advertisementBody (by omega), slice_advertisementBody (by omega)]
  refine ⟨?_, ?_, ?_, ?_, ?_, ?_⟩
  · rw [slice_overwrite_of_disjoint (by simp), slice_overwrite_of_disjoint (by simp),
      slice_overwrite_of_disjoint (by simp), slice_overwrite_toList (by omega)]
    exact toList_array_drop (by omega)
  · rw [slice_overwrite_of_disjoint (by simp), slice_overwrite_of_disjoint (by simp)]
    exact slice_overwrite_toList (by simp; omega)
  · rw [slice_overwrite_of_disjoint (by simp), slice_overwrite_of_disjoint (by simp),
      slice_overwrite_of_disjoint (by simp), slice_overwrite_of_disjoint (by simp)]
  · rw [slice_overwrite_of_disjoint (by simp), slice_overwrite_toList (by simp; omega)]
    exact toList_array_drop (by omega)
  · rw [slice_overwrite_toList (by simp; omega)]
    exact toList_array_drop (by omega)
  · rw [slice_overwrite_of_disjoint (by simp), slice_overwrite_of_disjoint (by simp),
      slice_overwrite_of_disjoint (by simp), slice_overwrite_of_disjoint (by simp)]

/-- The message of the answer: its type, no checksum yet, and the option. -/
lemma message_advertisementBody (hlen : 54 + neighborLen hasOption ≤ packet.length) :
    (advertisementBody packet hasOption)[54]? = some ndNeighborAdvert ∧
      u16At (advertisementBody packet hasOption) 56 = 0 ∧
      (hasOption = true → (advertisementBody packet hasOption)[78]? = some ndOptTargetLinkaddr ∧
        slice (advertisementBody packet hasOption) 80 6 =
          (fakeMac (array 6 (packet.drop 6))).toList) := by
  have hmin := neighborLen_bounds hasOption
  simp only [advertisementBody, ethHlen, ndNeighborSolicitLen, Nat.reduceAdd]
  set frame := overwrite (overwrite (overwrite (overwrite packet 0
    (array 6 (packet.drop 6)).toList) 6 (fakeMac (array 6 (packet.drop 6))).toList) 22
      (array 16 (packet.drop 62)).toList) 38 (array 16 (packet.drop 22)).toList with hframe
  have hlength : frame.length = packet.length := by simp [hframe]
  set message := overwrite (((frame.set 54 ndNeighborAdvert).set 56 0).set 57 0) 58
    (bigEndian 4 0x40000000) with hmessage
  have hlength' : message.length = packet.length := by simp [hmessage, hlength]
  have htype : message[54]? = some ndNeighborAdvert := by
    rw [hmessage, getElem?_overwrite (by omega), List.getElem?_set_ne (by omega),
      List.getElem?_set_ne (by omega), List.getElem?_set_self (by omega)]
  have hhigh : message[56]? = some 0 := by
    rw [hmessage, getElem?_overwrite (by omega), List.getElem?_set_ne (by omega),
      List.getElem?_set_self (by rw [List.length_set]; omega)]
  have hlow : message[57]? = some 0 := by
    rw [hmessage, getElem?_overwrite (by omega),
      List.getElem?_set_self (by rw [List.length_set, List.length_set]; omega)]
  have hzero : ∀ body : List UInt8, body[56]? = some 0 → body[57]? = some 0 → u16At body 56 = 0 := by
    intro body h56 h57
    rw [u16At, List.getD_eq_getElem?_getD, List.getD_eq_getElem?_getD, h56, h57]
    rfl
  cases hasOption with
  | false => exact ⟨htype, hzero _ hhigh hlow, fun h => absurd h Bool.false_ne_true⟩
  | true =>
      rw [if_pos rfl]
      have hbelow : ∀ i < 78, (overwrite (message.set 78 ndOptTargetLinkaddr) 80
          (fakeMac (array 6 (packet.drop 6))).toList)[i]? = message[i]? := by
        intro i hi
        rw [getElem?_overwrite (by omega), List.getElem?_set_ne (by omega)]
      have hoption : neighborLen true = 32 := rfl
      refine ⟨(hbelow 54 (by omega)).trans htype, hzero _ ((hbelow 56 (by omega)).trans hhigh)
        ((hbelow 57 (by omega)).trans hlow), fun _ => ⟨?_, ?_⟩⟩
      · rw [getElem?_overwrite (by omega), List.getElem?_set_self (by omega)]
      · exact slice_overwrite_toList (by rw [List.length_set]; omega)

/-- The checksum of the answer is right over what it says itself. -/
lemma verifyIpv6PayloadChecksum_advertisement (hlen : 54 + neighborLen hasOption ≤ packet.length)
    (hnext : packet.getD 20 0 = ipprotoIcmpv6) :
    verifyIpv6PayloadChecksum (advertisement packet hasOption) ethHlen
      (neighborLen hasOption) = 0 := by
  have hmin := neighborLen_bounds hasOption
  obtain ⟨-, -, hsame, hsource, hdestination, -⟩ :=
    @headers_advertisementBody packet hasOption (by omega)
  obtain ⟨-, hzero, -⟩ := message_advertisementBody hlen
  set body := advertisementBody packet hasOption with hbody
  set ndLen := neighborLen hasOption with hndLen
  set target : Ipv6Addr := array 16 (packet.drop 62) with htarget
  set asker : Ipv6Addr := array 16 (packet.drop 22) with hasker
  set pseudo := ipv6PseudoHeader target asker ipprotoIcmpv6 ndLen with hpseudo
  have hlength : body.length = packet.length := length_advertisementBody
  have hpseudoLen : pseudo.length = 40 := length_ipv6PseudoHeader
  have hreply : advertisement packet hasOption =
      setU16 body 56 (internetChecksum (pseudo ++ slice body 54 ndLen) 0xffff) := rfl
  have hverifies := @verifies_setU16_internetChecksum (pseudo ++ slice body 54 ndLen)
    (pseudo.length + 2) (by rw [List.length_append, length_slice]; omega) (by omega)
    (by rw [List.length_append, length_slice]; omega)
    (by rw [u16At_append, u16At_slice (by omega)]; exact hzero)
  rw [setU16_append] at hverifies
  rw [hreply, verifyIpv6PayloadChecksum]
  generalize internetChecksum (pseudo ++ slice body 54 ndLen) 0xffff = checksum at hverifies ⊢
  have hsource' : array 16 ((setU16 body 56 checksum).drop 22) = target := by
    refine array_drop_eq ?_
    rw [slice_setU16_of_disjoint (by omega), hsource]
    exact (toList_array_drop (by omega)).symm
  have hdestination' : array 16 ((setU16 body 56 checksum).drop 38) = asker := by
    refine array_drop_eq ?_
    rw [slice_setU16_of_disjoint (by omega), hdestination]
    exact (toList_array_drop (by omega)).symm
  have hnext' : (setU16 body 56 checksum).getD 20 0 = ipprotoIcmpv6 := by
    have hget := congrArg (fun octets => octets.getD 8 0) hsame
    rw [getD_slice (by decide), getD_slice (by decide)] at hget
    rw [List.getD_eq_getElem?_getD, getElem?_setU16 (by decide) (by decide),
      ← List.getD_eq_getElem?_getD]
    exact hget.trans hnext
  have hmessage : slice (setU16 body 56 checksum) 54 ndLen = setU16 (slice body 54 ndLen) 2 checksum :=
    slice_setU16 54 ndLen 2 checksum
  simp only [ethHlen, Nat.reduceAdd, hsource', hdestination', hnext', hmessage]
  rw [if_neg (by rw [length_setU16]; omega), ipv6PayloadChecksum]
  refine (internetChecksum_eq_zero_iff ?_).mpr hverifies
  rw [List.length_append, length_setU16, length_slice, ← hpseudo, hpseudoLen]
  omega

lemma fakeMac_ne (address : MacAddr) : (fakeMac address).toList ≠ address.toList := by
  intro heq
  have hget : (fakeMac address)[5] = address[5] := by rw [toList_inj heq]
  rw [fakeMac, Vector.getElem_set_self] at hget
  nth_rewrite 2 [← @UInt8.xor_zero address[5]] at hget
  exact absurd ((UInt8.xor_right_inj _).mp hget) (by decide)

end Answer

/-- A solicitation is long enough to end with a link-address option. -/
def HasOption (packet : List UInt8) : Prop := 54 + 24 + 8 ≤ packet.length

instance (packet : List UInt8) : Decidable (HasOption packet) :=
  inferInstanceAs (Decidable (_ ≤ _))

/-- An answer goes back to the sender of a solicitation, comes from the address it asked for, and
gives a hardware address that is not the sender's, in the option if there is one; its checksum
passes the test for questions. -/
structure AnswersSolicitation (packet reply : List UInt8) : Prop where
  length_eq : reply.length = packet.length
  link_destination : slice reply 0 6 = slice packet 6 6
  link_source : slice reply 6 6 ≠ slice packet 6 6
  link_type : slice reply 12 10 = slice packet 12 10
  source : slice reply 22 16 = slice packet 62 16
  destination : slice reply 38 16 = slice packet 22 16
  type_eq : reply[54]? = some ndNeighborAdvert
  target : slice reply 62 16 = slice packet 62 16
  option : HasOption packet → reply[78]? = some ndOptTargetLinkaddr ∧
    slice reply 80 6 = slice reply 6 6
  no_option : ¬ HasOption packet → reply.drop 78 = packet.drop 78
  checksum : verifyIpv6PayloadChecksum reply ethHlen (neighborLen (HasOption packet)) = 0

/-- Without the option the answer ends as the solicitation does. -/
lemma drop_advertisement (packet : List UInt8) :
    (advertisement packet false).drop 78 = packet.drop 78 := by
  have hether : ethHlen = 14 := rfl
  refine List.ext_getElem? fun i => ?_
  rw [List.getElem?_drop, List.getElem?_drop, advertisement, getElem?_setU16 (by omega) (by omega)]
  simp only [advertisementBody, hether, ndNeighborSolicitLen, Nat.reduceAdd, Bool.false_eq_true,
    if_false]
  rw [getElem?_overwrite (by simp; omega), List.getElem?_set_ne (by omega),
    List.getElem?_set_ne (by omega), List.getElem?_set_ne (by omega),
    getElem?_overwrite (by simp; omega), getElem?_overwrite (by simp; omega),
    getElem?_overwrite (by simp; omega), getElem?_overwrite (by simp; omega)]

/-- The advertisement has every field that the solicitation asks for. -/
lemma advertisement_answers {packet : List UInt8} (hlen : 78 ≤ packet.length)
    (hnext : packet.getD 20 0 = ipprotoIcmpv6) :
    AnswersSolicitation packet (advertisement packet (HasOption packet)) := by
  have hlen' : 54 + neighborLen (HasOption packet) ≤ packet.length := by
    rw [neighborLen]
    split_ifs with hoption
    · exact of_decide_eq_true hoption
    · exact hlen
  obtain ⟨hdst, hsrc, htype, hfrom, hto, htarget⟩ :=
    @headers_advertisementBody packet (HasOption packet) hlen
  obtain ⟨hmessage, -, hoption⟩ := message_advertisementBody hlen'
  have hmac : (array 6 (packet.drop 6)).toList = slice packet 6 6 := toList_array_drop (by omega)
  constructor
  case length_eq => rw [advertisement, length_setU16, length_advertisementBody]
  case link_destination => exact (slice_setU16_of_disjoint (by decide)).trans hdst
  case link_source =>
    rw [advertisement, slice_setU16_of_disjoint (by decide), hsrc, ← hmac]
    exact fakeMac_ne _
  case link_type => exact (slice_setU16_of_disjoint (by decide)).trans htype
  case source => exact (slice_setU16_of_disjoint (by decide)).trans hfrom
  case destination => exact (slice_setU16_of_disjoint (by decide)).trans hto
  case type_eq => exact (getElem?_setU16 (by decide) (by decide)).trans hmessage
  case target => exact (slice_setU16_of_disjoint (by decide)).trans htarget
  case option =>
    intro h
    obtain ⟨hkind, haddress⟩ := hoption (decide_eq_true h)
    refine ⟨(getElem?_setU16 (by decide) (by decide)).trans hkind, ?_⟩
    rw [advertisement, slice_setU16_of_disjoint (by decide), slice_setU16_of_disjoint (by decide),
      haddress, hsrc]
  case no_option =>
    intro h
    rw [decide_eq_false h]
    exact drop_advertisement packet
  case checksum => exact verifyIpv6PayloadChecksum_advertisement hlen' hnext

namespace NetworkState

section Solicitation

variable {s : NetworkState} {source : String} {packet : List UInt8} {answer : Option (List UInt8)}

/-- What an answer says about the solicitation. -/
lemma neighborAdvertisementPacket_ok (h : s.neighborAdvertisementPacket source packet = .ok answer) :
    ∃ subnet, answer = some (advertisement packet (HasOption packet)) ∧
      source = s.graph.myself ∧ 78 ≤ packet.length ∧ packet.getD 20 0 = ipprotoIcmpv6 ∧
      verifyIpv6PayloadChecksum packet ethHlen (neighborLen (HasOption packet)) = 0 ∧
      s.lookupReachable (.ipv6 (array 16 (packet.drop 62))) = some subnet ∧
      subnet.owner ≠ some s.graph.myself := by
  rw [neighborAdvertisementPacket] at h
  dsimp only at h
  split_ifs at h with hsource hshort hkind hquestion hchecksum
  split at h
  · cases h
  · next subnet hlookup =>
      split_ifs at h with howner
      obtain rfl := Except.ok.inj h
      rw [not_or, not_not, not_not] at hkind
      exact ⟨subnet, rfl, not_not.mp hsource, Nat.le_of_not_lt hshort, hkind.2, not_not.mp hchecksum,
        hlookup, howner⟩

/-- **A neighbor solicitation is answered** only for the own host, only if its checksum is right,
and only for an address whose subnet is not the own one; the answer is a neighbor advertisement
that the sender accepts. -/
theorem neighborAdvertisementPacket_answers
    (h : s.neighborAdvertisementPacket source packet = .ok answer) :
    ∃ reply subnet, answer = some reply ∧ source = s.graph.myself ∧
      verifyIpv6PayloadChecksum packet ethHlen (neighborLen (HasOption packet)) = 0 ∧
      AnswersSolicitation packet reply ∧
      s.lookupReachable (.ipv6 (array 16 (packet.drop 62))) = some subnet ∧
      subnet.owner ≠ some s.graph.myself := by
  obtain ⟨subnet, hanswer, hsource, hlen, hnext, hchecksum, hlookup, howner⟩ :=
    neighborAdvertisementPacket_ok h
  exact ⟨_, subnet, hanswer, hsource, hchecksum, advertisement_answers hlen hnext, hlookup, howner⟩

end Solicitation

/-- A solicitation for an address of the last node of the line, with the hardware address of the
host. -/
def solicitation : List UInt8 :=
  let header := List.replicate 6 0x33 ++ [2, 0, 0, 0, 0, 1] ++ [0x86, 0xdd] ++
    [0x60, 0, 0, 0, 0, 32, 58, 255]
  let asker : Ipv6Addr := array 16 [0xfd, 0, 0, 0, 0, 0, 0, 1]
  let target : Ipv6Addr := array 16 [0xfd, 0, 0, 0, 0, 0, 0, 0, 9]
  let option := [ndOptSourceLinkaddr, 1, 2, 0, 0, 0, 0, 1]
  let message := [ndNeighborSolicit, 0, 0, 0, 0, 0, 0, 0] ++ target.toList ++ option
  setU16 (header ++ asker.toList ++ target.toList ++ message) 56
    (ipv6PayloadChecksum asker target ipprotoIcmpv6 32 message)

/-- It is answered. -/
theorem neighborAdvertisementPacket_answers_solicitation :
    ∃ reply, (lineMember "a").neighborAdvertisementPacket "a" solicitation = .ok (some reply) ∧
      AnswersSolicitation solicitation reply ∧ reply[78]? = some ndOptTargetLinkaddr := by
  have hanswer : (lineMember "a").neighborAdvertisementPacket "a" solicitation =
      .ok (some (advertisement solicitation true)) := by decide +kernel
  obtain ⟨reply, -, hreply, -, -, hanswers, -⟩ := neighborAdvertisementPacket_answers hanswer
  exact ⟨reply, hreply ▸ hanswer, hanswers, (hanswers.option (by decide)).1⟩

end NetworkState

end RustyTinc

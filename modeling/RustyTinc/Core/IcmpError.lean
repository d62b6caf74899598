import RustyTinc.Core.Frame
import RustyTinc.Core.Subnet

/-!
The ICMP errors that answer a packet which cannot be forwarded. An error quotes the beginning of
the packet.

* `ipv4IcmpErrorPacket`, `ipv6IcmpErrorPacket`: the errors;
* `icmpErrorPacket_wellFormed_iff`: the answer is well formed exactly if the quoted part has an
  even length or ends in a zero.
-/

namespace RustyTinc

open Bytes OnesComplement

/-- The length of the packet that an ICMP error is cut to. -/
def ipMss : ℕ := 576

/-- The length of a header of ICMP. -/
def icmpSize : ℕ := 8

/-- The length of a header of ICMPv6. -/
def icmpv6Size : ℕ := 8

/-- The protocol number of ICMP. -/
def ipprotoIcmp : UInt8 := 1

/-- The protocol number of ICMPv6. -/
def ipprotoIcmpv6 : UInt8 := 58

/-- The type of an error about a destination. -/
def icmpDestUnreach : UInt8 := 3

/-- The code of a packet that is too big and must not be cut. -/
def icmpFragNeeded : UInt8 := 4

/-- The type of an error about a packet that is too big. -/
def icmp6PacketTooBig : UInt8 := 2

/-- Why no ICMP error is built for a packet. -/
inductive IcmpErrorPacketError where
  | tooShort (expectedAtLeast actual : ℕ)
  | notIpv4 (etherType : ℕ)
  | notIpv6 (etherType : ℕ)
deriving DecidableEq

/-- A frame that goes back to its source. -/
def swapEthernetAddresses (packet : List UInt8) : List UInt8 :=
  (List.range 6).foldl (fun packet index =>
    (packet.set index (packet.getD (index + 6) 0)).set (index + 6) (packet.getD index 0)) packet

/-- The IPv4 header of an answer: version and header length, the total length, the TTL, the
protocol, the checksum that is written last, and the addresses. -/
def ipv4ErrorHeader (source destination : Ipv4Addr) (totalLen : ℕ) : List UInt8 :=
  let header := [0x45, 0] ++ bigEndian 2 totalLen ++ [0, 0, 0, 0, 255, ipprotoIcmp, 0, 0] ++
    source.toList ++ destination.toList
  setU16 header 10 (internetChecksum header 0xffff)

/-- The ICMP error that answers an IPv4 packet, with the beginning of the packet in it. -/
def ipv4IcmpErrorPacket (packet : List UInt8) (icmpType icmpCode : UInt8)
    (replySource : Option Ipv4Addr) : Except IcmpErrorPacketError (List UInt8) :=
  match h : ethernetPayloadType packet with
  | .error (.tooShort expectedAtLeast actual) => .error (.tooShort expectedAtLeast actual)
  | .error .expired => (ethernetPayloadType_ne_expired packet h).elim
  | .ok (etherType, etherLen) =>
      if etherType ≠ ethPIp then .error (.notIpv4 etherType)
      else if packet.length < etherLen + 20 then
        .error (.tooShort (etherLen + 20) packet.length)
      else
        let originalSource : Ipv4Addr := array 4 (packet.drop (etherLen + 12))
        let originalDestination : Ipv4Addr := array 4 (packet.drop (etherLen + 16))
        let quotedLen := min (packet.length - etherLen) (ipMss - 20 - icmpSize)
        let totalLen := 20 + icmpSize + quotedLen
        let header := ipv4ErrorHeader (replySource.getD originalDestination) originalSource totalLen
        let nextMtu :=
          if icmpType = icmpDestUnreach ∧ icmpCode = icmpFragNeeded then
            bigEndian 2 (packet.length - etherLen)
          else bigEndian 2 0
        let icmp := [icmpType, icmpCode, 0, 0, 0, 0] ++ nextMtu ++ slice packet etherLen quotedLen
        let icmp := setU16 icmp 2 (internetChecksum icmp 0xffff)
        .ok (swapEthernetAddresses (packet.take etherLen) ++ header ++ icmp)

/-- What the checksum of the payload of an IPv6 packet covers besides the payload. -/
def ipv6PseudoHeader (source destination : Ipv6Addr) (nextHeader : UInt8) (payloadLen : ℕ) :
    List UInt8 :=
  source.toList ++ destination.toList ++ bigEndian 4 payloadLen ++ [0, 0, 0, nextHeader]

/-- The checksum over the pseudo header and the payload. -/
def ipv6PayloadChecksum (source destination : Ipv6Addr) (nextHeader : UInt8) (payloadLen : ℕ)
    (payload : List UInt8) : ℕ :=
  internetChecksum (ipv6PseudoHeader source destination nextHeader payloadLen ++ payload) 0xffff

/-- The IPv6 header of an answer: version, the length of the payload, its protocol, the hop limit,
and the addresses. -/
def ipv6ErrorHeader (source destination : Ipv6Addr) (payloadLen : ℕ) : List UInt8 :=
  [0x60, 0, 0, 0] ++ bigEndian 2 payloadLen ++ [ipprotoIcmpv6, 255] ++ source.toList ++
    destination.toList

/-- The ICMPv6 error that answers an IPv6 packet, with the beginning of the packet in it. -/
def ipv6IcmpErrorPacket (packet : List UInt8) (icmpType icmpCode : UInt8)
    (replySource : Option Ipv6Addr) : Except IcmpErrorPacketError (List UInt8) :=
  match h : ethernetPayloadType packet with
  | .error (.tooShort expectedAtLeast actual) => .error (.tooShort expectedAtLeast actual)
  | .error .expired => (ethernetPayloadType_ne_expired packet h).elim
  | .ok (etherType, etherLen) =>
      if etherType ≠ ethPIpv6 then .error (.notIpv6 etherType)
      else if packet.length < etherLen + 40 then
        .error (.tooShort (etherLen + 40) packet.length)
      else
        let originalSource : Ipv6Addr := array 16 (packet.drop (etherLen + 8))
        let originalDestination : Ipv6Addr := array 16 (packet.drop (etherLen + 24))
        let quotedLen := min (packet.length - etherLen) (ipMss - 40 - icmpv6Size)
        let payloadLen := icmpv6Size + quotedLen
        let responseSource := replySource.getD originalDestination
        let header := ipv6ErrorHeader responseSource originalSource payloadLen
        let mtu :=
          if icmpType = icmp6PacketTooBig then bigEndian 4 (packet.length - etherLen)
          else bigEndian 4 0
        let icmp := [icmpType, icmpCode, 0, 0] ++ mtu ++ slice packet etherLen quotedLen
        let checksum := ipv6PayloadChecksum responseSource originalSource ipprotoIcmpv6 payloadLen
          icmp
        .ok (swapEthernetAddresses (packet.take etherLen) ++ header ++ setU16 icmp 2 checksum)

/-! ### Well-formed answers -/

/-- An IPv4 packet behind a link header is as long as it says and short enough, and its checksums
are right. -/
structure WellFormedIpv4Error (etherLen : ℕ) (out : List UInt8) : Prop where
  totalLen : u16At out (etherLen + 2) = out.length - etherLen
  fits : out.length - etherLen ≤ ipMss
  header : Verifies (ipv4Header out etherLen)
  icmp : Verifies (out.drop (etherLen + 20))

/-- The same of an IPv6 packet, in which only the payload has a checksum. -/
structure WellFormedIpv6Error (etherLen : ℕ) (out : List UInt8) : Prop where
  payloadLen : u16At out (etherLen + 4) = out.length - (etherLen + 40)
  fits : out.length - etherLen ≤ ipMss
  icmp : Verifies (ipv6PseudoHeader (array 16 (out.drop (etherLen + 8)))
    (array 16 (out.drop (etherLen + 24))) (out.getD (etherLen + 6) 0) (out.length - (etherLen + 40))
      ++ out.drop (etherLen + 40))

/-- The part of a packet that is quoted leaves no octet over: it is cut at the limit, it has an
even length, or it ends in a zero. -/
def QuotesWords (limit etherLen : ℕ) (packet : List UInt8) : Prop :=
  limit ≤ packet.length - etherLen ∨ (packet.length - etherLen) % 2 = 0 ∨
    packet.getLast? = some 0

/-! ### The link header -/

section Link

variable {packet : List UInt8} {etherType etherLen : ℕ}

@[simp] lemma length_swapEthernetAddresses (packet : List UInt8) :
    (swapEthernetAddresses packet).length = packet.length := by
  simp [swapEthernetAddresses, List.range, List.range.loop]

/-- Behind the addresses nothing is changed. -/
lemma getElem?_swapEthernetAddresses {i : ℕ} (hi : 12 ≤ i) :
    (swapEthernetAddresses packet)[i]? = packet[i]? := by
  have hfold : ∀ (indices : List ℕ), (∀ index ∈ indices, index < 6) → ∀ packet : List UInt8,
      (indices.foldl (fun packet index => (packet.set index (packet.getD (index + 6) 0)).set
        (index + 6) (packet.getD index 0)) packet)[i]? = packet[i]? := by
    intro indices
    induction indices with
    | nil => exact fun _ _ => rfl
    | cons index indices ih =>
        intro hlt packet
        have hindex := hlt index List.mem_cons_self
        rw [List.foldl_cons, ih (fun j hj => hlt j (List.mem_cons_of_mem _ hj)),
          List.getElem?_set_ne (by omega), List.getElem?_set_ne (by omega)]
  exact hfold (List.range 6) (fun index h => List.mem_range.mp h) packet

lemma ethernetPayloadType_ok (h : ethernetPayloadType packet = .ok (etherType, etherLen)) :
    etherLen ≤ packet.length ∧ (u16At packet 12 = ethP8021q ∧ etherLen = 18 ∧
        etherType = u16At packet 16 ∨
      u16At packet 12 ≠ ethP8021q ∧ etherLen = 14 ∧ etherType = u16At packet 12) := by
  rw [ethernetPayloadType] at h
  split_ifs at h with hshort htag htagged
  · obtain ⟨rfl, rfl⟩ := Prod.mk.inj (Except.ok.inj h)
    exact ⟨by omega, Or.inl ⟨htag, rfl, rfl⟩⟩
  · obtain ⟨rfl, rfl⟩ := Prod.mk.inj (Except.ok.inj h)
    exact ⟨by omega, Or.inr ⟨htag, rfl, rfl⟩⟩

/-- A frame with the link header of another one, up to the addresses, has the same type. -/
lemma ethernetPayloadType_congr {out : List UInt8}
    (h : ethernetPayloadType packet = .ok (etherType, etherLen)) (hlen : etherLen ≤ out.length)
    (hsame : ∀ i, 12 ≤ i → i < etherLen → out[i]? = packet[i]?) :
    ethernetPayloadType out = .ok (etherType, etherLen) := by
  rw [ethernetPayloadType]
  obtain ⟨-, ⟨htag, rfl, rfl⟩ | ⟨htag, rfl, rfl⟩⟩ := ethernetPayloadType_ok h
  · have h12 : u16At out 12 = u16At packet 12 :=
      u16At_congr (hsame _ le_rfl (by decide)) (hsame _ (by decide) (by decide))
    have h16 : u16At out 16 = u16At packet 16 :=
      u16At_congr (hsame _ (by decide) (by decide)) (hsame _ (by decide) (by decide))
    rw [if_neg (show ¬ out.length < ethHlen by rw [ethHlen]; omega), h12, if_pos htag,
      if_neg (show ¬ out.length < ethHlen + 4 by rw [ethHlen]; omega), h16]
    rfl
  · have h12 : u16At out 12 = u16At packet 12 :=
      u16At_congr (hsame _ le_rfl (by decide)) (hsame _ (by decide) (by decide))
    rw [if_neg (show ¬ out.length < ethHlen by rw [ethHlen]; omega), h12, if_neg htag]
    rfl

/-- The link header of an answer. -/
lemma ethernetPayloadType_answer {rest : List UInt8}
    (h : ethernetPayloadType packet = .ok (etherType, etherLen)) :
    (swapEthernetAddresses (packet.take etherLen)).length = etherLen ∧
      ethernetPayloadType (swapEthernetAddresses (packet.take etherLen) ++ rest) =
        .ok (etherType, etherLen) := by
  have hlen : (swapEthernetAddresses (packet.take etherLen)).length = etherLen := by
    rw [length_swapEthernetAddresses, List.length_take]
    exact min_eq_left (ethernetPayloadType_ok h).1
  refine ⟨hlen, ethernetPayloadType_congr h ?_ fun i h12 hi => ?_⟩
  · rw [List.length_append]
    omega
  · rw [List.getElem?_append_left (by omega), getElem?_swapEthernetAddresses h12,
      List.getElem?_take_of_lt hi]

end Link

/-! ### The quoted part -/

section Quote

variable {packet front : List UInt8} {etherLen limit : ℕ}

/-- What is left over of an answer is left over of the packet. -/
lemma leftOver_quote (hlimit : limit % 2 = 0) (hfront : front.length % 2 = 0)
    (hlen : etherLen < packet.length) :
    leftOver (front ++ slice packet etherLen (min (packet.length - etherLen) limit)) = 0 ↔
      QuotesWords limit etherLen packet := by
  rw [leftOver_append hfront, leftOver_eq_zero_iff, length_slice, min_right_comm, min_self,
    QuotesWords]
  rcases le_or_gt limit (packet.length - etherLen) with hle | hgt
  · rw [min_eq_right hle]
    exact iff_of_true (Or.inl hlimit) (Or.inl hle)
  · have hwhole : slice packet etherLen (packet.length - etherLen) = packet.drop etherLen := by
      rw [slice, ← List.length_drop, List.take_length]
    rw [min_eq_left hgt.le, hwhole, List.getLast?_drop, if_neg (by omega),
      or_iff_right (Nat.not_le_of_lt hgt)]

end Quote

/-! ### Answers -/

section Answer

variable {link header payload : List UInt8} {etherLen : ℕ}

lemma drop_answer (hlink : link.length = etherLen) :
    (link ++ header ++ payload).drop (etherLen + header.length) = payload := by
  rw [← hlink, ← List.length_append, List.drop_left]

lemma getElem?_answer (hlink : link.length = etherLen) {i : ℕ} (hi : i < header.length) :
    (link ++ header ++ payload)[etherLen + i]? = header[i]? := by
  rw [List.append_assoc, List.getElem?_append_right (by omega), hlink, Nat.add_sub_cancel_left,
    List.getElem?_append_left hi]

lemma u16At_answer (hlink : link.length = etherLen) {i : ℕ} (hi : i + 1 < header.length) :
    u16At (link ++ header ++ payload) (etherLen + i) = u16At header i := by
  rw [u16At, u16At, List.getD_eq_getElem?_getD, List.getD_eq_getElem?_getD,
    getElem?_answer hlink (by omega), add_assoc, getElem?_answer hlink hi,
    ← List.getD_eq_getElem?_getD, ← List.getD_eq_getElem?_getD]

end Answer

section Ipv4

variable {source destination : Ipv4Addr} {totalLen : ℕ}

@[simp] lemma length_ipv4ErrorHeader : (ipv4ErrorHeader source destination totalLen).length = 20 := by
  simp [ipv4ErrorHeader]

lemma verifies_ipv4ErrorHeader : Verifies (ipv4ErrorHeader source destination totalLen) := by
  refine verifies_setU16_internetChecksum (by simp) (by decide) (by simp) ?_
  simp [u16At, bigEndian]

lemma getElem?_ipv4ErrorHeader {i : ℕ} (hi : i < 4) :
    (ipv4ErrorHeader source destination totalLen)[i]? = ([0x45, 0] ++ bigEndian 2 totalLen)[i]? := by
  rw [ipv4ErrorHeader, getElem?_setU16 (by omega) (by omega)]
  interval_cases i <;> simp [bigEndian]

lemma u16At_ipv4ErrorHeader (h : totalLen < 2 ^ 16) :
    u16At (ipv4ErrorHeader source destination totalLen) 2 = totalLen := by
  rw [u16At_congr (getElem?_ipv4ErrorHeader (by decide)) (getElem?_ipv4ErrorHeader (by decide))]
  simp only [u16At, bigEndian, List.nil_append, List.cons_append, List.getD_cons_succ,
    List.getD_cons_zero, UInt8.toNat_ofNat']
  omega

/-- The parts of an answer that do not depend on what is quoted. -/
lemma wellFormedIpv4Error_iff {link icmp : List UInt8} {etherLen : ℕ}
    (hlink : link.length = etherLen) (hicmp : 20 + icmp.length = totalLen) (hfits : totalLen ≤ ipMss) :
    WellFormedIpv4Error etherLen (link ++ ipv4ErrorHeader source destination totalLen ++ icmp) ↔
      Verifies icmp := by
  set header := ipv4ErrorHeader source destination totalLen with hheader
  have hlen : header.length = 20 := length_ipv4ErrorHeader
  have hicmpAt : (link ++ header ++ icmp).drop (etherLen + 20) = icmp := by
    rw [← hlen]
    exact drop_answer hlink
  have hout : (link ++ header ++ icmp).length - etherLen = totalLen := by
    rw [List.length_append, List.length_append]
    omega
  refine ⟨fun h => hicmpAt ▸ h.icmp, fun h => ⟨?_, hout.trans_le hfits, ?_, ?_⟩⟩
  · rw [hout, u16At_answer hlink (by omega)]
    refine u16At_ipv4ErrorHeader ?_
    rw [ipMss] at hfits
    omega
  · have hfirst : (link ++ header ++ icmp).getD etherLen 0 = 0x45 := by
      have hget := @getElem?_answer link header icmp etherLen hlink 0 (show 0 < header.length by omega)
      rw [List.getD_eq_getElem?_getD, ← Nat.add_zero etherLen, hget, getElem?_ipv4ErrorHeader (by decide)]
      rfl
    have hslice : slice (link ++ header ++ icmp) etherLen 20 = header := by
      rw [← hlink, ← hlen]
      exact slice_append _ _ _
    have hwords : 4 * ((0x45 : UInt8) &&& 0x0f).toNat = 20 := rfl
    rw [ipv4Header, hfirst, hwords, hslice]
    exact verifies_ipv4ErrorHeader
  · rw [hicmpAt]
    exact h

/-- **The answer to an IPv4 packet.** -/
lemma ipv4IcmpErrorPacket_wellFormed_iff {packet out : List UInt8} {icmpType icmpCode : UInt8}
    {replySource : Option Ipv4Addr}
    (h : ipv4IcmpErrorPacket packet icmpType icmpCode replySource = .ok out) :
    ∃ etherLen, ethernetPayloadType packet = .ok (ethPIp, etherLen) ∧
      ethernetPayloadType out = .ok (ethPIp, etherLen) ∧
      (WellFormedIpv4Error etherLen out ↔ QuotesWords 548 etherLen packet) := by
  rw [ipv4IcmpErrorPacket] at h
  split at h
  case h_1 => cases h
  case h_2 heq => exact absurd heq (ethernetPayloadType_ne_expired packet)
  case h_3 etherType etherLen heq =>
    by_cases htype : etherType = ethPIp
    · subst htype
      by_cases hshort : packet.length < etherLen + 20
      · rw [if_neg (not_not_intro rfl), if_pos hshort] at h
        cases h
      · rw [if_neg (not_not_intro rfl), if_neg hshort] at h
        obtain rfl := Except.ok.inj h
        set nextMtu := if icmpType = icmpDestUnreach ∧ icmpCode = icmpFragNeeded then
          bigEndian 2 (packet.length - etherLen) else bigEndian 2 0 with hnextMtu
        have hmtu : nextMtu.length = 2 := by
          rw [hnextMtu]
          split_ifs <;> rw [length_bigEndian]
        have hfront : ([icmpType, icmpCode, 0, 0, 0, 0] ++ nextMtu).length = 8 := by
          rw [List.length_append, hmtu]
          rfl
        set icmp := [icmpType, icmpCode, 0, 0, 0, 0] ++ nextMtu ++
          slice packet etherLen (min (packet.length - etherLen) (ipMss - 20 - icmpSize)) with hicmp
        have hlen : icmp.length = 8 + min (packet.length - etherLen) 548 := by
          rw [hicmp, List.length_append, hfront, length_slice, min_right_comm, min_self]
          rfl
        have hzero : u16At icmp 2 = 0 := by
          simp [hicmp, u16At]
        obtain ⟨hlink, hout⟩ := ethernetPayloadType_answer heq
        refine ⟨etherLen, heq, by rw [List.append_assoc]; exact hout, ?_⟩
        rw [wellFormedIpv4Error_iff hlink ?_ ?_, verifies_setU16_internetChecksum_iff (by decide)
          (by omega) hzero, hicmp, show ipMss - 20 - icmpSize = 548 from rfl]
        · exact leftOver_quote (by decide) (by rw [hfront]) (by omega)
        · rw [length_setU16, hlen, ipMss, icmpSize]
          omega
        · rw [ipMss, icmpSize]
          omega
    · rw [if_pos htype] at h
      cases h

end Ipv4

section Ipv6

variable {source destination : Ipv6Addr} {nextHeader : UInt8} {payloadLen : ℕ}

@[simp] lemma length_ipv6ErrorHeader :
    (ipv6ErrorHeader source destination payloadLen).length = 40 := by
  simp [ipv6ErrorHeader]

@[simp] lemma length_ipv6PseudoHeader :
    (ipv6PseudoHeader source destination nextHeader payloadLen).length = 40 := by
  simp [ipv6PseudoHeader]

lemma u16At_ipv6ErrorHeader (h : payloadLen < 2 ^ 16) :
    u16At (ipv6ErrorHeader source destination payloadLen) 4 = payloadLen := by
  simp only [ipv6ErrorHeader, u16At, bigEndian, List.nil_append, List.cons_append,
    List.getD_cons_succ, List.getD_cons_zero, UInt8.toNat_ofNat']
  omega

/-- A receiver finds the addresses of the header. -/
lemma addresses_answer {link payload : List UInt8} {etherLen : ℕ} (hlink : link.length = etherLen) :
    array 16 ((link ++ ipv6ErrorHeader source destination payloadLen ++ payload).drop
        (etherLen + 8)) = source ∧
      array 16 ((link ++ ipv6ErrorHeader source destination payloadLen ++ payload).drop
        (etherLen + 24)) = destination := by
  set front := [0x60, 0, 0, 0] ++ bigEndian 2 payloadLen ++ [ipprotoIcmpv6, 255] with hfront
  have hlen : front.length = 8 := by simp [hfront]
  have hout : link ++ ipv6ErrorHeader source destination payloadLen ++ payload =
      link ++ front ++ source.toList ++ destination.toList ++ payload := by
    rw [ipv6ErrorHeader, hfront]
    simp only [List.append_assoc]
  constructor
  · have hdrop : (link ++ front).length = etherLen + 8 := by
      rw [List.length_append, hlink, hlen]
    rw [hout, List.append_assoc, List.append_assoc _ source.toList, ← hdrop, List.drop_left,
      array_append]
  · have hdrop : (link ++ front ++ source.toList).length = etherLen + 24 := by
      rw [List.length_append, List.length_append, hlink, hlen, Vector.length_toList]
    rw [hout, List.append_assoc, ← hdrop, List.drop_left, array_append]

/-- What is left to show of an ICMPv6 error is its checksum. -/
lemma wellFormedIpv6Error_iff {link icmp : List UInt8} {etherLen : ℕ}
    (hlink : link.length = etherLen) (hicmp : icmp.length = payloadLen)
    (hfits : 40 + payloadLen ≤ ipMss) :
    WellFormedIpv6Error etherLen (link ++ ipv6ErrorHeader source destination payloadLen ++ icmp) ↔
      Verifies (ipv6PseudoHeader source destination ipprotoIcmpv6 payloadLen ++ icmp) := by
  obtain ⟨hsource, hdestination⟩ := @addresses_answer source destination payloadLen link icmp _ hlink
  set header := ipv6ErrorHeader source destination payloadLen with hheader
  have hlen : header.length = 40 := length_ipv6ErrorHeader
  have hicmpAt : (link ++ header ++ icmp).drop (etherLen + 40) = icmp := by
    rw [← hlen]
    exact drop_answer hlink
  have hnext : (link ++ header ++ icmp).getD (etherLen + 6) 0 = ipprotoIcmpv6 := by
    rw [List.getD_eq_getElem?_getD, getElem?_answer hlink (by omega)]
    rfl
  have hout : (link ++ header ++ icmp).length = etherLen + (40 + payloadLen) := by
    rw [List.length_append, List.length_append]
    omega
  have hpayload : (link ++ header ++ icmp).length - (etherLen + 40) = payloadLen := by
    omega
  have hverifies : Verifies (ipv6PseudoHeader source destination ipprotoIcmpv6 payloadLen ++ icmp) ↔
      Verifies (ipv6PseudoHeader (array 16 ((link ++ header ++ icmp).drop (etherLen + 8)))
        (array 16 ((link ++ header ++ icmp).drop (etherLen + 24)))
        ((link ++ header ++ icmp).getD (etherLen + 6) 0)
        ((link ++ header ++ icmp).length - (etherLen + 40)) ++
          (link ++ header ++ icmp).drop (etherLen + 40)) := by
    rw [hsource, hdestination, hnext, hpayload, hicmpAt]
  refine ⟨fun h => hverifies.mpr h.icmp, fun h => ⟨?_, ?_, hverifies.mp h⟩⟩
  · rw [hpayload, u16At_answer hlink (by omega)]
    refine u16At_ipv6ErrorHeader ?_
    rw [ipMss] at hfits
    omega
  · omega

/-- **The answer to an IPv6 packet.** -/
lemma ipv6IcmpErrorPacket_wellFormed_iff {packet out : List UInt8} {icmpType icmpCode : UInt8}
    {replySource : Option Ipv6Addr}
    (h : ipv6IcmpErrorPacket packet icmpType icmpCode replySource = .ok out) :
    ∃ etherLen, ethernetPayloadType packet = .ok (ethPIpv6, etherLen) ∧
      ethernetPayloadType out = .ok (ethPIpv6, etherLen) ∧
      (WellFormedIpv6Error etherLen out ↔ QuotesWords 528 etherLen packet) := by
  rw [ipv6IcmpErrorPacket] at h
  split at h
  case h_1 => cases h
  case h_2 heq => exact absurd heq (ethernetPayloadType_ne_expired packet)
  case h_3 etherType etherLen heq =>
    by_cases htype : etherType = ethPIpv6
    · subst htype
      by_cases hshort : packet.length < etherLen + 40
      · rw [if_neg (not_not_intro rfl), if_pos hshort] at h
        cases h
      · rw [if_neg (not_not_intro rfl), if_neg hshort] at h
        obtain rfl := Except.ok.inj h
        set mtu := if icmpType = icmp6PacketTooBig then bigEndian 4 (packet.length - etherLen)
          else bigEndian 4 0 with hmtuDef
        have hmtu : mtu.length = 4 := by
          rw [hmtuDef]
          split_ifs <;> rw [length_bigEndian]
        set quote := slice packet etherLen
          (min (packet.length - etherLen) (ipMss - 40 - icmpv6Size)) with hquote
        set icmp := [icmpType, icmpCode, 0, 0] ++ mtu ++ quote with hicmp
        have hlen : icmp.length = 8 + min (packet.length - etherLen) 528 := by
          rw [hicmp, List.length_append, List.length_append, hmtu, hquote, length_slice,
            min_right_comm, min_self]
          rfl
        set payloadLen := icmpv6Size + min (packet.length - etherLen) (ipMss - 40 - icmpv6Size)
          with hpayloadLen
        set response := replySource.getD (array 16 (packet.drop (etherLen + 24))) with hresponse
        set original : Ipv6Addr := array 16 (packet.drop (etherLen + 8)) with horiginal
        set pseudo := ipv6PseudoHeader response original ipprotoIcmpv6 payloadLen with hpseudo
        have hpseudoLen : pseudo.length = 40 := length_ipv6PseudoHeader
        obtain ⟨hlink, hout⟩ := ethernetPayloadType_answer heq
        refine ⟨etherLen, heq, by rw [List.append_assoc]; exact hout, ?_⟩
        rw [wellFormedIpv6Error_iff hlink ?_ ?_, ← hpseudo, ← setU16_append]
        · have hzero : u16At (pseudo ++ icmp) (pseudo.length + 2) = 0 := by
            rw [u16At_append]
            simp [hicmp, u16At]
          have hfront : (pseudo ++ ([icmpType, icmpCode, 0, 0] ++ mtu)).length % 2 = 0 := by
            simp only [List.length_append, hmtu, hpseudoLen, List.length_cons, List.length_nil]
          rw [ipv6PayloadChecksum, ← hpseudo, verifies_setU16_internetChecksum_iff (by omega)
            (by rw [List.length_append]; omega) hzero, hicmp, ← List.append_assoc, hquote,
            show ipMss - 40 - icmpv6Size = 528 from rfl]
          exact leftOver_quote (by decide) hfront (by omega)
        · rw [length_setU16, hlen]
          rfl
        · rw [hpayloadLen, ipMss, icmpv6Size]
          omega
    · rw [if_pos htype] at h
      cases h

end Ipv6

/-- **Answers are well formed exactly where they quote words**: an octet that is left over is added
to the checksum as a low one. -/
theorem icmpErrorPacket_wellFormed_iff (packet : List UInt8) (icmpType icmpCode : UInt8) :
    (∀ replySource out, ipv4IcmpErrorPacket packet icmpType icmpCode replySource = .ok out →
      ∃ etherLen, ethernetPayloadType packet = .ok (ethPIp, etherLen) ∧
        ethernetPayloadType out = .ok (ethPIp, etherLen) ∧
        (WellFormedIpv4Error etherLen out ↔ QuotesWords 548 etherLen packet)) ∧
      ∀ replySource out, ipv6IcmpErrorPacket packet icmpType icmpCode replySource = .ok out →
        ∃ etherLen, ethernetPayloadType packet = .ok (ethPIpv6, etherLen) ∧
          ethernetPayloadType out = .ok (ethPIpv6, etherLen) ∧
          (WellFormedIpv6Error etherLen out ↔ QuotesWords 528 etherLen packet) :=
  ⟨fun _ _ => ipv4IcmpErrorPacket_wellFormed_iff, fun _ _ => ipv6IcmpErrorPacket_wellFormed_iff⟩

/-- An IPv4 packet. -/
def ipv4Packet (payload : List UInt8) : List UInt8 :=
  List.replicate 12 2 ++ [8, 0] ++
    [0x45, 0, 0, 0x15, 0, 0, 0, 0, 64, 17, 0, 0, 10, 0, 0, 1, 10, 0, 0, 2] ++ payload

/-- The answer to a packet of an even length. -/
theorem icmpErrorPacket_wellFormed_even :
    ∃ out etherLen, ipv4IcmpErrorPacket (ipv4Packet [7, 7]) 11 0 none = .ok out ∧
      WellFormedIpv4Error etherLen out := by
  have hok : (ipv4IcmpErrorPacket (ipv4Packet [7, 7]) 11 0 none).isOk := by
    decide +kernel
  cases hresult : ipv4IcmpErrorPacket (ipv4Packet [7, 7]) 11 0 none with
  | error error =>
      rw [hresult] at hok
      exact absurd hok nofun
  | ok out =>
      obtain ⟨etherLen, htype, -, hiff⟩ :=
        (icmpErrorPacket_wellFormed_iff _ _ _).1 _ _ hresult
      have hlen : ethernetPayloadType (ipv4Packet [7, 7]) = .ok (ethPIp, 14) := by
        decide +kernel
      rw [hlen, Except.ok.injEq, Prod.mk.injEq] at htype
      exact ⟨out, etherLen, rfl, hiff.mpr (Or.inr (Or.inl (by rw [← htype.2]; decide +kernel)))⟩

/-- The answer to a packet with one more octet than words. -/
theorem icmpErrorPacket_not_wellFormed :
    ∃ out, ipv4IcmpErrorPacket (ipv4Packet [7]) 11 0 none = .ok out ∧
      ethernetPayloadType out = .ok (ethPIp, 14) ∧ ¬ WellFormedIpv4Error 14 out := by
  have hanswer : (ipv4IcmpErrorPacket (ipv4Packet [7]) 11 0 none).toOption.map (fun out =>
      (ethernetPayloadType out, decide (Verifies (out.drop 34)))) =
        some (.ok (ethPIp, 14), false) := by
    decide +kernel
  cases hresult : ipv4IcmpErrorPacket (ipv4Packet [7]) 11 0 none with
  | error error =>
      rw [hresult] at hanswer
      exact absurd hanswer nofun
  | ok out =>
      rw [hresult] at hanswer
      obtain ⟨htype, hverifies⟩ := Prod.mk.inj (Option.some.inj hanswer)
      exact ⟨out, rfl, htype, fun h => of_decide_eq_false hverifies h.icmp⟩

end RustyTinc

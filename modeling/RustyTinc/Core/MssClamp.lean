import RustyTinc.Core.Frame

/-!
The maximum segment size that a TCP connection announces, lowered to what the path can carry.

Every access to the packet is checked: the result is `none` where the program would stop because
an index is outside.

* `clampTcpMss`: the option is searched and lowered, and the checksum is patched;
* `clampLoop_sound`: the search ends, within the packet;
* `clampTcpMss_sound`: what is changed, and when the checksum of the segment is still right.
-/

namespace RustyTinc

open Bytes OnesComplement

/-- What has become of the maximum segment size of a packet. -/
inductive MssClamp where
  | clamped (old new : ℕ)
  | alreadySmall (current maximum : ℕ)
  | noMssOption
  | notTcp
deriving DecidableEq

/-- Why the maximum segment size of a packet cannot be looked for. -/
inductive MssClampError where
  | tooShort (expectedAtLeast actual : ℕ)
  | invalidTcpHeaderLength (dataOffset : ℕ)
  | mtuTooSmall (mtu requiredAtLeast : ℕ)
deriving DecidableEq

/-- The type of the payload of a frame, as `ethernetPayloadType` reads it. -/
def checkedPayloadType (packet : List UInt8) : Option (Except TtlError (ℕ × ℕ)) :=
  if packet.length < ethHlen then some (.error (.tooShort ethHlen packet.length))
  else do
    let etherType ← u16At? packet 12
    if etherType = ethP8021q then
      (if packet.length < ethHlen + 4 then
        some (.error (.tooShort (ethHlen + 4) packet.length))
      else do
        let etherType ← u16At? packet 16
        some (.ok (etherType, ethHlen + 4)))
    else some (.ok (etherType, ethHlen))

/-- The start of the TCP header behind an IPv4 header, if there is one. -/
def tcpStartBehind (packet : List UInt8) (ipStart : ℕ) : Option (Option ℕ) := do
  let protocol ← packet[ipStart + 9]?
  if protocol ≠ 6 then some none
  else do
    let first ← packet[ipStart]?
    some (some (ipStart + (first &&& 0x0f).toNat * 4))

/-- The start of the TCP header of a frame, which may be behind a second IPv4 header. -/
def tcpHeaderStart (packet : List UInt8) (etherType etherLen : ℕ) :
    Option (Except MssClampError (Option ℕ)) :=
  if etherType = ethPIp then
    if packet.length < etherLen + 20 then
      some (.error (.tooShort (etherLen + 20) packet.length))
    else do
      let protocol ← packet[etherLen + 9]?
      if protocol = 4 then
        (if packet.length < etherLen + 20 + 20 then
          some (.error (.tooShort (etherLen + 20 + 20) packet.length))
        else (tcpStartBehind packet (etherLen + 20)).map .ok)
      else (tcpStartBehind packet etherLen).map .ok
  else if etherType = ethPIpv6 then
    if packet.length < etherLen + 40 then
      some (.error (.tooShort (etherLen + 40) packet.length))
    else do
      let nextHeader ← packet[etherLen + 6]?
      if nextHeader = 6 then some (.ok (some (etherLen + 40))) else some (.ok none)
  else some (.ok none)

/-- The segment size that an MTU leaves room for, behind the headers up to `tcpStart`. -/
def maximumMssForMtu (mtu tcpStart : ℕ) : Except MssClampError ℕ :=
  let requiredAtLeast := tcpStart + 21
  if mtu < requiredAtLeast then .error (.mtuTooSmall mtu requiredAtLeast)
  else
    let maximum := mtu - tcpStart - 20
    if maximum < 2 ^ 16 then .ok maximum else .error (.mtuTooSmall mtu requiredAtLeast)

/-- A value that a transport checksum covers is replaced. -/
def incrementalTransportChecksumUpdate (checksum old new : ℕ) : ℕ :=
  let checksum := (checksum ^^^ 0xffff) + (old ^^^ 0xffff) + new
  let checksum := checksum % 2 ^ 16 + checksum / 2 ^ 16
  let checksum := checksum + checksum / 2 ^ 16
  checksum % 2 ^ 16 ^^^ 0xffff

/-- The search for the option among the options of the TCP header. Every kind but the first two has
a length octet. -/
def clampLoop (packet : List UInt8) (tcpStart optionsLen maximum offset : ℕ) :
    Option (MssClamp × List UInt8) :=
  if offset < optionsLen then
    match packet[tcpStart + 20 + offset]? with
    | none => none
    | some kind =>
        if kind = 0 then some (.noMssOption, packet)
        else if kind = 1 then clampLoop packet tcpStart optionsLen maximum (offset + 1)
        else if offset + 1 ≥ optionsLen then some (.noMssOption, packet)
        else
          match packet[tcpStart + 20 + offset + 1]? with
          | none => none
          | some optionLen =>
              if kind = 2 then
                if optionLen ≠ 4 ∨ offset + optionLen.toNat > optionsLen then
                  some (.noMssOption, packet)
                else do
                  let mssOffset := tcpStart + 20 + offset + 2
                  let old ← u16At? packet mssOffset
                  if old ≤ maximum then some (.alreadySmall old maximum, packet)
                  else do
                    let packet ← setU16? packet mssOffset maximum
                    let checksum ← u16At? packet (tcpStart + 16)
                    let checksum := incrementalTransportChecksumUpdate checksum old maximum
                    let packet ← setU16? packet (tcpStart + 16) checksum
                    some (.clamped old maximum, packet)
              else if optionLen.toNat < 2 ∨ offset + optionLen.toNat > optionsLen then
                some (.noMssOption, packet)
              else clampLoop packet tcpStart optionsLen maximum (offset + optionLen.toNat)
  else some (.noMssOption, packet)
termination_by optionsLen - offset

/-- The result, and what becomes of the packet. -/
def clampTcpMss (packet : List UInt8) (mtu : ℕ) :
    Option (Except MssClampError MssClamp × List UInt8) := do
  let payloadType ← checkedPayloadType packet
  match payloadType with
  | .error (.tooShort expectedAtLeast actual) =>
      some (.error (.tooShort expectedAtLeast actual), packet)
  | .error .expired => none -- unreachable
  | .ok (etherType, etherLen) =>
      let start ← tcpHeaderStart packet etherType etherLen
      match start with
      | .error error => some (.error error, packet)
      | .ok none => some (.ok .notTcp, packet)
      | .ok (some tcpStart) =>
          if packet.length = tcpStart + 20 then some (.ok .noMssOption, packet)
          else if packet.length < tcpStart + 20 then
            some (.error (.tooShort (tcpStart + 20) packet.length), packet)
          else do
            let byte ← packet[tcpStart + 12]?
            let dataOffset := byte.toNat / 16
            if dataOffset < 5 then some (.error (.invalidTcpHeaderLength dataOffset), packet)
            else
              let tcpHeaderLen := dataOffset * 4
              if tcpHeaderLen = 20 then some (.ok .noMssOption, packet)
              else if packet.length < tcpStart + tcpHeaderLen then
                some (.error (.tooShort (tcpStart + tcpHeaderLen) packet.length), packet)
              else
                match maximumMssForMtu mtu tcpStart with
                | .error error => some (.error error, packet)
                | .ok maximum => do
                    let (clamp, packet) ←
                      clampLoop packet tcpStart (tcpHeaderLen - 20) maximum 0
                    some (.ok clamp, packet)

/-! ### Within the packet -/

section Reads

variable {packet : List UInt8} {etherType etherLen : ℕ}

/-- The bytes that are looked at are there. -/
lemma checkedPayloadType_eq (packet : List UInt8) :
    checkedPayloadType packet = some (ethernetPayloadType packet) := by
  rw [checkedPayloadType, ethernetPayloadType]
  by_cases hshort : packet.length < ethHlen
  · rw [if_pos hshort, if_pos hshort]
  · rw [if_neg hshort, if_neg hshort, u16At?_eq (by rw [ethHlen] at hshort; omega), Option.bind_eq_bind,
      Option.bind_some]
    by_cases htag : u16At packet 12 = ethP8021q
    · rw [if_pos htag, if_pos htag]
      by_cases htagged : packet.length < ethHlen + 4
      · rw [if_pos htagged, if_pos htagged]
      · rw [if_neg htagged, if_neg htagged, u16At?_eq (by rw [ethHlen] at htagged; omega)]
        rfl
    · rw [if_neg htag, if_neg htag]

/-- Where a frame has a TCP header, and where the IP header before it starts. -/
inductive TcpHeaderAt (packet : List UInt8) (etherLen : ℕ) : (etherType ipStart tcpStart : ℕ) → Prop
  | ipv4 (hprotocol : packet[etherLen + 9]? = some 6) :
      TcpHeaderAt packet etherLen ethPIp etherLen
        (etherLen + (packet.getD etherLen 0 &&& 0x0f).toNat * 4)
  | ipInIp (houter : packet[etherLen + 9]? = some 4)
      (hprotocol : packet[etherLen + 20 + 9]? = some 6) :
      TcpHeaderAt packet etherLen ethPIp (etherLen + 20)
        (etherLen + 20 + (packet.getD (etherLen + 20) 0 &&& 0x0f).toNat * 4)
  | ipv6 (hnext : packet[etherLen + 6]? = some 6) :
      TcpHeaderAt packet etherLen ethPIpv6 etherLen (etherLen + 40)

lemma tcpStartBehind_eq {ipStart : ℕ} (hlen : ipStart + 20 ≤ packet.length) :
    tcpStartBehind packet ipStart = some (if packet[ipStart + 9]? = some 6 then
      some (ipStart + (packet.getD ipStart 0 &&& 0x0f).toNat * 4) else none) := by
  rw [tcpStartBehind, getElem?_eq_getD (show ipStart + 9 < packet.length by omega),
    getElem?_eq_getD (show ipStart < packet.length by omega)]
  simp only [Option.bind_eq_bind, Option.bind_some, Option.some.injEq]
  by_cases hprotocol : packet.getD (ipStart + 9) 0 = 6
  · rw [if_neg (not_not_intro hprotocol), if_pos hprotocol]
  · rw [if_pos hprotocol, if_neg hprotocol]

/-- Looking for the TCP header stays within the packet. -/
lemma tcpHeaderStart_sound (packet : List UInt8) (etherType etherLen : ℕ) :
    ∃ result, tcpHeaderStart packet etherType etherLen = some result ∧
      ∀ tcpStart, result = .ok (some tcpStart) →
        ∃ ipStart, TcpHeaderAt packet etherLen etherType ipStart tcpStart := by
  rw [tcpHeaderStart]
  by_cases hip : etherType = ethPIp
  · subst hip
    rw [if_pos rfl]
    by_cases hshort : packet.length < etherLen + 20
    · rw [if_pos hshort]
      exact ⟨_, rfl, nofun⟩
    rw [if_neg hshort, getElem?_eq_getD (show etherLen + 9 < packet.length by omega),
      Option.bind_eq_bind, Option.bind_some]
    by_cases houter : packet.getD (etherLen + 9) 0 = 4
    · rw [if_pos houter]
      by_cases hinner : packet.length < etherLen + 20 + 20
      · rw [if_pos hinner]
        exact ⟨_, rfl, nofun⟩
      rw [if_neg hinner, tcpStartBehind_eq (by omega)]
      refine ⟨_, rfl, fun tcpStart hstart => ?_⟩
      split_ifs at hstart with hprotocol
      · cases hstart
        refine ⟨_, .ipInIp ?_ hprotocol⟩
        rw [getElem?_eq_getD (by omega), houter]
      · exact absurd (Except.ok.inj hstart) nofun
    · rw [if_neg houter, tcpStartBehind_eq (by omega)]
      refine ⟨_, rfl, fun tcpStart hstart => ?_⟩
      split_ifs at hstart with hprotocol
      · cases hstart
        exact ⟨_, .ipv4 hprotocol⟩
      · exact absurd (Except.ok.inj hstart) nofun
  · rw [if_neg hip]
    by_cases hipv6 : etherType = ethPIpv6
    · subst hipv6
      rw [if_pos rfl]
      by_cases hshort : packet.length < etherLen + 40
      · rw [if_pos hshort]
        exact ⟨_, rfl, nofun⟩
      rw [if_neg hshort, getElem?_eq_getD (show etherLen + 6 < packet.length by omega),
        Option.bind_eq_bind, Option.bind_some]
      by_cases hnext : packet.getD (etherLen + 6) 0 = 6
      · rw [if_pos hnext]
        refine ⟨_, rfl, fun tcpStart hstart => ?_⟩
        cases hstart
        refine ⟨_, .ipv6 ?_⟩
        rw [getElem?_eq_getD (by omega), hnext]
      · rw [if_neg hnext]
        exact ⟨_, rfl, nofun⟩
    · rw [if_neg hipv6]
      exact ⟨_, rfl, nofun⟩

end Reads

/-! ### The options of a TCP header -/

section Options

variable {packet : List UInt8} {tcpStart optionsLen maximum offset : ℕ}

/-- An option of the TCP header starts at an offset: every option starts where the one before it
ends. The list has no end before. -/
inductive OptionAt (packet : List UInt8) (start optionsLen : ℕ) : ℕ → Prop
  | first : OptionAt packet start optionsLen 0
  | noOperation {offset : ℕ} (hbefore : OptionAt packet start optionsLen offset)
      (hlt : offset < optionsLen) (hkind : packet[start + offset]? = some 1) :
      OptionAt packet start optionsLen (offset + 1)
  | other {offset : ℕ} {kind len : UInt8} (hbefore : OptionAt packet start optionsLen offset)
      (hkind : packet[start + offset]? = some kind) (hother : 2 < kind)
      (hlen : packet[start + offset + 1]? = some len) (hpos : 2 ≤ len.toNat)
      (hfits : offset + len.toNat ≤ optionsLen) :
      OptionAt packet start optionsLen (offset + len.toNat)

/-- The option with the maximum segment size is at an offset. -/
structure MssOptionAt (packet : List UInt8) (start optionsLen offset : ℕ) : Prop where
  at_offset : OptionAt packet start optionsLen offset
  kind : packet[start + offset]? = some 2
  len : packet[start + offset + 1]? = some 4
  fits : offset + 4 ≤ optionsLen

/-- The packet with the value of an option lowered and the checksum patched. -/
def clampAt (packet : List UInt8) (tcpStart offset maximum : ℕ) : List UInt8 :=
  let mssOffset := tcpStart + 20 + offset + 2
  let old := u16At packet mssOffset
  let packet := setU16 packet mssOffset maximum
  setU16 packet (tcpStart + 16)
    (incrementalTransportChecksumUpdate (u16At packet (tcpStart + 16)) old maximum)

/-- What the search can come to. -/
inductive ClampResult (packet : List UInt8) (tcpStart optionsLen maximum : ℕ) :
    MssClamp → List UInt8 → Prop
  | unchanged {clamp : MssClamp} (hclamp : ∀ old new, clamp ≠ .clamped old new) :
      ClampResult packet tcpStart optionsLen maximum clamp packet
  | clamped {i : ℕ} (hoption : MssOptionAt packet (tcpStart + 20) optionsLen i)
      (hlt : maximum < u16At packet (tcpStart + 20 + i + 2)) :
      ClampResult packet tcpStart optionsLen maximum
        (.clamped (u16At packet (tcpStart + 20 + i + 2)) maximum)
        (clampAt packet tcpStart i maximum)

/-- **The search** ends within the packet, and the option it lowers is the one of the list. -/
lemma clampLoop_sound (hlen : tcpStart + 20 + optionsLen ≤ packet.length)
    (hat : OptionAt packet (tcpStart + 20) optionsLen offset) :
    ∃ clamp packet', clampLoop packet tcpStart optionsLen maximum offset = some (clamp, packet') ∧
      ClampResult packet tcpStart optionsLen maximum clamp packet' := by
  induction hleft : optionsLen - offset using Nat.strong_induction_on generalizing offset with
  | _ left ih =>
    have hunchanged : ∀ clamp, (∀ old new, clamp ≠ MssClamp.clamped old new) →
        ∃ clamp' packet', some (clamp, packet) = some (clamp', packet') ∧
          ClampResult packet tcpStart optionsLen maximum clamp' packet' :=
      fun clamp h => ⟨clamp, packet, rfl, .unchanged h⟩
    rw [clampLoop]
    by_cases hoffset : offset < optionsLen
    swap
    · rw [if_neg hoffset]
      exact hunchanged _ nofun
    rw [if_pos hoffset, getElem?_eq_getD (show tcpStart + 20 + offset < packet.length by omega)]
    have hget := getElem?_eq_getD (show tcpStart + 20 + offset < packet.length by omega)
    set kind := packet.getD (tcpStart + 20 + offset) 0 with hkind
    dsimp only
    by_cases hend : kind = 0
    · rw [if_pos hend]
      exact hunchanged _ nofun
    by_cases hone : kind = 1
    · rw [if_neg hend, if_pos hone]
      rw [hone] at hget
      exact ih _ (by omega) (hat.noOperation hoffset hget) rfl
    rw [if_neg hend, if_neg hone]
    by_cases hlast : offset + 1 ≥ optionsLen
    · rw [if_pos hlast]
      exact hunchanged _ nofun
    have hgetLen := getElem?_eq_getD (show tcpStart + 20 + offset + 1 < packet.length by omega)
    rw [if_neg hlast, hgetLen]
    set optionLen := packet.getD (tcpStart + 20 + offset + 1) 0 with hoptionLen
    dsimp only
    by_cases htwo : kind = 2
    · rw [if_pos htwo]
      by_cases hbad : optionLen ≠ 4 ∨ offset + optionLen.toNat > optionsLen
      · rw [if_pos hbad]
        exact hunchanged _ nofun
      rw [not_or, not_ne_iff] at hbad
      obtain ⟨hfour, hfits⟩ := hbad
      rw [hfour] at hgetLen hfits
      have hfits' : offset + 4 ≤ optionsLen := Nat.le_of_not_lt hfits
      rw [if_neg (by rw [hfour]; exact not_or.mpr ⟨not_not_intro rfl, hfits⟩),
        u16At?_eq (by omega)]
      simp only [Option.bind_eq_bind, Option.bind_some]
      by_cases hsmall : u16At packet (tcpStart + 20 + offset + 2) ≤ maximum
      · rw [if_pos hsmall]
        exact hunchanged _ nofun
      rw [if_neg hsmall, setU16?_eq (by omega)]
      simp only [Option.bind_some]
      rw [u16At?_eq (by rw [length_setU16]; omega)]
      simp only [Option.bind_some]
      rw [setU16?_eq (by rw [length_setU16]; omega)]
      rw [htwo] at hget
      exact ⟨_, _, rfl, .clamped ⟨hat, hget, hgetLen, hfits'⟩ (Nat.lt_of_not_le hsmall)⟩
    · rw [if_neg htwo]
      by_cases hbad : optionLen.toNat < 2 ∨ offset + optionLen.toNat > optionsLen
      · rw [if_pos hbad]
        exact hunchanged _ nofun
      rw [if_neg hbad]
      have hother : 2 < kind := by
        rw [UInt8.lt_iff_toNat_lt]
        have h0 : kind.toNat ≠ 0 := fun h => hend (UInt8.toNat_inj.mp h)
        have h1 : kind.toNat ≠ 1 := fun h => hone (UInt8.toNat_inj.mp h)
        have h2 : kind.toNat ≠ 2 := fun h => htwo (UInt8.toNat_inj.mp h)
        show 2 < kind.toNat
        omega
      exact ih _ (by omega) (hat.other hget hother hgetLen (by omega) (by omega)) rfl

end Options

/-! ### The checksum of the segment -/

section Checksum

variable {checksum old new : ℕ}

lemma xor_ffff {n : ℕ} (hn : n < 2 ^ 16) : n ^^^ 0xffff = 0xffff - n := by
  have h := congrArg BitVec.toNat (@BitVec.xor_allOnes 16 (BitVec.ofNat 16 n))
  rwa [BitVec.toNat_xor, BitVec.toNat_not, BitVec.toNat_allOnes, BitVec.toNat_ofNat,
    Nat.mod_eq_of_lt hn] at h

lemma incrementalTransportChecksumUpdate_lt (checksum old new : ℕ) :
    incrementalTransportChecksumUpdate checksum old new < 2 ^ 16 :=
  Nat.xor_lt_two_pow (Nat.mod_lt _ (by decide)) (by decide)

/-- The patched checksum makes up for a value that counts as a word. -/
lemma incrementalTransportChecksumUpdate_mod (hchecksum : checksum < 2 ^ 16) (hold : old < 2 ^ 16)
    (hnew : new < 2 ^ 16) :
    (incrementalTransportChecksumUpdate checksum old new + new) % 0xffff =
      (checksum + old) % 0xffff := by
  rw [incrementalTransportChecksumUpdate]
  rw [xor_ffff hchecksum, xor_ffff hold, xor_ffff (Nat.mod_lt _ (by decide))]
  set sum := 0xffff - checksum + (0xffff - old) + new with hsum
  set folded := sum % 2 ^ 16 + sum / 2 ^ 16 with hfolded
  have hmod : folded % 0xffff = sum % 0xffff := by omega
  have hlt : folded < 2 ^ 16 + 2 := by omega
  have hagain : (folded + folded / 2 ^ 16) % 2 ^ 16 % 0xffff = folded % 0xffff := by
    rcases lt_or_ge folded (2 ^ 16) with hsmall | hlarge
    · rw [Nat.div_eq_of_lt hsmall, Nat.add_zero, Nat.mod_eq_of_lt hsmall]
    · have hone : folded / 2 ^ 16 = 1 := by omega
      rw [hone]
      omega
  omega

/-- **The value of an option in a segment is replaced**, and the checksum of the segment, at its
even position, is patched. It is still right if the value was at an even position too, or if the
difference does not show when octets change places. -/
lemma verifies_patched_iff {octets : List UInt8} {i j : ℕ} (hi : i % 2 = 0)
    (hij : i + 1 < j) (hj : j + 1 < octets.length) (hnew : new ≤ u16At octets j)
    (hpos : ∃ k, k < i ∧ 0 < (octets.getD k 0).toNat) (h : Verifies octets) :
    Verifies (setU16 (setU16 octets j new) i
      (incrementalTransportChecksumUpdate (u16At octets i) (u16At octets j) new)) ↔
        j % 2 = 0 ∨ 257 ∣ u16At octets j - new := by
  have hlt := u16At_lt octets j
  set old := u16At octets j with hold
  set checksum := u16At octets i with hchecksum
  set patched := incrementalTransportChecksumUpdate checksum old new with hpatched
  have hsame : u16At (setU16 octets j new) i = checksum :=
    u16At_congr (getElem?_setU16 (by omega) (by omega)) (getElem?_setU16 (by omega) (by omega))
  have hwords := @wordSum_setU16 (setU16 octets j new) i patched hi
    (by rw [length_setU16]; omega) (incrementalTransportChecksumUpdate_lt _ _ _)
  rw [hsame] at hwords
  have hmod := incrementalTransportChecksumUpdate_mod (u16At_lt octets i) hlt
    (show new < 2 ^ 16 by omega)
  rw [← hpatched] at hmod
  -- an octet before the checksum makes the sum positive
  have hsum : 0 < wordSum (setU16 (setU16 octets j new) i patched) := by
    obtain ⟨k, hk, hoctet⟩ := hpos
    have hget : (setU16 (setU16 octets j new) i patched)[k]? = octets[k]? := by
      rw [getElem?_setU16 (by omega) (by omega), getElem?_setU16 (by omega) (by omega)]
    obtain ⟨hk', hval⟩ := List.getElem?_eq_some_iff.mp
      (hget.trans (getElem?_eq_getD (show k < octets.length by omega)))
    have hle := getElem_le_wordSum hk'
    rw [hval] at hle
    omega
  rw [verifies_iff] at h ⊢
  rcases Nat.mod_two_eq_zero_or_one j with heven | hodd
  · have hset := @wordSum_setU16 octets j new heven hj (by omega)
    rw [← hold] at hset
    exact iff_of_true ⟨by omega, hsum⟩ (Or.inl heven)
  · have hset := @wordSum_setU16_odd octets j new hodd hj (by omega)
    rw [← hold] at hset
    rw [or_iff_right (by omega), and_iff_left hsum]
    omega

end Checksum

/-! ### The segment of a frame -/

/-- The length of the TCP segment, by the length in the IP header. -/
def tcpSegmentLen (packet : List UInt8) (etherType ipStart tcpStart : ℕ) : ℕ :=
  if etherType = ethPIp then u16At packet (ipStart + 2) - (tcpStart - ipStart)
  else u16At packet (ipStart + 4)

/-- What the checksum of the segment covers of the IP header: the addresses, the protocol and the
length. -/
def tcpPseudoHeader (packet : List UInt8) (etherType ipStart len : ℕ) : List UInt8 :=
  if etherType = ethPIp then
    slice packet (ipStart + 12) 8 ++ [0, packet.getD (ipStart + 9) 0] ++ bigEndian 2 len
  else
    slice packet (ipStart + 8) 32 ++ bigEndian 4 len ++ [0, 0, 0, packet.getD (ipStart + 6) 0]

/-- Behind an IP header there is a whole TCP segment, and its checksum is right. -/
structure TcpValid (packet : List UInt8) (etherType ipStart tcpStart : ℕ) : Prop where
  ipHeader : ipStart + (if etherType = ethPIp then 20 else 40) ≤ tcpStart
  tcpHeader : (packet.getD (tcpStart + 12) 0).toNat / 16 * 4 ≤
    tcpSegmentLen packet etherType ipStart tcpStart
  whole : tcpStart + tcpSegmentLen packet etherType ipStart tcpStart ≤ packet.length
  checksum : Verifies (tcpPseudoHeader packet etherType ipStart
    (tcpSegmentLen packet etherType ipStart tcpStart) ++
      slice packet tcpStart (tcpSegmentLen packet etherType ipStart tcpStart))

section Segment

variable {packet packet' : List UInt8} {etherType etherLen ipStart tcpStart : ℕ}

/-- The headers before the TCP header are the same. -/
lemma tcpPseudoHeader_congr (hip : ipStart + (if etherType = ethPIp then 20 else 40) ≤ tcpStart)
    (hsame : ∀ i < tcpStart, packet'[i]? = packet[i]?) (len : ℕ) :
    tcpPseudoHeader packet' etherType ipStart len = tcpPseudoHeader packet etherType ipStart len ∧
      tcpSegmentLen packet' etherType ipStart tcpStart =
        tcpSegmentLen packet etherType ipStart tcpStart := by
  have hget : ∀ i < tcpStart, packet'.getD i 0 = packet.getD i 0 := by
    intro i hi
    rw [List.getD_eq_getElem?_getD, hsame i hi, List.getD_eq_getElem?_getD]
  rw [tcpPseudoHeader, tcpPseudoHeader, tcpSegmentLen, tcpSegmentLen]
  by_cases htype : etherType = ethPIp
  · simp only [if_pos htype] at hip ⊢
    rw [slice_congr fun i _ hi => hsame i (by omega), hget _ (by omega),
      u16At_congr (hsame _ (by omega)) (hsame _ (by omega))]
    exact ⟨rfl, rfl⟩
  · simp only [if_neg htype] at hip ⊢
    rw [slice_congr fun i _ hi => hsame i (by omega), hget _ (by omega),
      u16At_congr (hsame _ (by omega)) (hsame _ (by omega))]
    exact ⟨rfl, rfl⟩

/-- The pseudo header has an even length. -/
lemma length_tcpPseudoHeader (hip : ipStart + (if etherType = ethPIp then 20 else 40) ≤ tcpStart)
    (hlen : tcpStart ≤ packet.length) (len : ℕ) :
    (tcpPseudoHeader packet etherType ipStart len).length % 2 = 0 := by
  rw [tcpPseudoHeader]
  by_cases htype : etherType = ethPIp
  · simp only [if_pos htype] at hip ⊢
    simp only [List.length_append, length_slice, length_bigEndian, List.length_cons,
      List.length_nil]
    omega
  · simp only [if_neg htype] at hip ⊢
    simp only [List.length_append, length_slice, length_bigEndian, List.length_cons,
      List.length_nil]
    omega

/-- What the segment becomes. -/
lemma segment_clampAt {offset maximum len : ℕ} (hlen : 20 + offset + 4 ≤ len) (pseudo : List UInt8) :
    pseudo ++ slice (clampAt packet tcpStart offset maximum) tcpStart len =
      setU16 (setU16 (pseudo ++ slice packet tcpStart len) (pseudo.length + (22 + offset)) maximum)
        (pseudo.length + 16) (incrementalTransportChecksumUpdate
          (u16At (pseudo ++ slice packet tcpStart len) (pseudo.length + 16))
          (u16At (pseudo ++ slice packet tcpStart len) (pseudo.length + (22 + offset))) maximum) := by
  have hposition : tcpStart + 20 + offset + 2 = tcpStart + (22 + offset) := by omega
  rw [u16At_append, u16At_append, u16At_slice (by omega), u16At_slice (by omega), setU16_append,
    setU16_append, clampAt, hposition]
  rw [slice_setU16, slice_setU16,
    u16At_congr (getElem?_setU16 (by omega) (by omega)) (getElem?_setU16 (by omega) (by omega))]

lemma getElem?_clampAt {offset maximum i : ℕ}
    (hi : i ∉ [tcpStart + 20 + offset + 2, tcpStart + 20 + offset + 3, tcpStart + 16,
      tcpStart + 17]) : (clampAt packet tcpStart offset maximum)[i]? = packet[i]? := by
  simp only [List.mem_cons, List.not_mem_nil, or_false, not_or] at hi
  rw [clampAt, getElem?_setU16 (by omega) (by omega), getElem?_setU16 (by omega) (by omega)]

/-- **The segment with the lowered option.** -/
lemma tcpValid_clampAt_iff {offset maximum : ℕ}
    (hoption : MssOptionAt packet (tcpStart + 20)
      ((packet.getD (tcpStart + 12) 0).toNat / 16 * 4 - 20) offset)
    (hlt : maximum < u16At packet (tcpStart + 20 + offset + 2))
    (h : TcpValid packet etherType ipStart tcpStart) :
    TcpValid (clampAt packet tcpStart offset maximum) etherType ipStart tcpStart ↔
      offset % 2 = 0 ∨ 257 ∣ u16At packet (tcpStart + 20 + offset + 2) - maximum := by
  have hfits := hoption.fits
  have htcp := h.tcpHeader
  have hwhole := h.whole
  have hbefore : ∀ i < tcpStart, (clampAt packet tcpStart offset maximum)[i]? = packet[i]? := by
    intro i hi
    refine getElem?_clampAt ?_
    simp only [List.mem_cons, List.not_mem_nil, or_false]
    omega
  have hoffset : (clampAt packet tcpStart offset maximum).getD (tcpStart + 12) 0 =
      packet.getD (tcpStart + 12) 0 := by
    rw [List.getD_eq_getElem?_getD, getElem?_clampAt, List.getD_eq_getElem?_getD]
    simp only [List.mem_cons, List.not_mem_nil, or_false]
    omega
  have hlength : (clampAt packet tcpStart offset maximum).length = packet.length := by
    simp only [clampAt, length_setU16]
  set len := tcpSegmentLen packet etherType ipStart tcpStart with hlen
  obtain ⟨hpseudo, hlen'⟩ := tcpPseudoHeader_congr h.ipHeader hbefore len
  set pseudo := tcpPseudoHeader packet etherType ipStart len with hpseudoDef
  set octets := pseudo ++ slice packet tcpStart len with hoctets
  have heven : pseudo.length % 2 = 0 := length_tcpPseudoHeader h.ipHeader (by omega) len
  have hvalue : u16At octets (pseudo.length + (22 + offset)) =
      u16At packet (tcpStart + 20 + offset + 2) := by
    rw [hoctets, u16At_append, u16At_slice (by omega)]
    congr 1
    omega
  have hiff := @verifies_patched_iff maximum octets (pseudo.length + 16)
    (pseudo.length + (22 + offset)) (by omega) (by omega)
    (by rw [hoctets, List.length_append, length_slice]; omega) (by rw [hvalue]; exact hlt.le)
    ⟨pseudo.length + 12, by omega, by rw [hoctets, getD_append, getD_slice (by omega)]; omega⟩
    h.checksum
  rw [hvalue, show (pseudo.length + (22 + offset)) % 2 = 0 ↔ offset % 2 = 0 by omega] at hiff
  rw [← hiff, ← hvalue, ← segment_clampAt (by omega) pseudo]
  constructor
  · intro h'
    have hchecksum := h'.checksum
    rwa [hlen', hpseudo] at hchecksum
  · intro hverifies
    refine ⟨h.ipHeader, ?_, ?_, ?_⟩
    · rwa [hoffset, hlen']
    · rwa [hlen', hlength]
    · rwa [hlen', hpseudo]

end Segment

/-- The option of a packet is lowered: where it is, what is changed, and what that does to the
checksum of the segment. -/
structure Clamped (packet packet' : List UInt8) (mtu old new : ℕ)
    (etherType etherLen ipStart tcpStart offset : ℕ) : Prop where
  frame : ethernetPayloadType packet = .ok (etherType, etherLen)
  header : TcpHeaderAt packet etherLen etherType ipStart tcpStart
  option : MssOptionAt packet (tcpStart + 20)
    ((packet.getD (tcpStart + 12) 0).toNat / 16 * 4 - 20) offset
  agree : AgreeExcept [tcpStart + 20 + offset + 2, tcpStart + 20 + offset + 3, tcpStart + 16,
    tcpStart + 17] packet packet'
  before : u16At packet (tcpStart + 20 + offset + 2) = old
  after : u16At packet' (tcpStart + 20 + offset + 2) = new
  maximum : new = mtu - tcpStart - 20
  lowered : new < old
  checksum : TcpValid packet etherType ipStart tcpStart →
    (TcpValid packet' etherType ipStart tcpStart ↔ offset % 2 = 0 ∨ 257 ∣ old - new)

section Clamp

variable {packet : List UInt8} {mtu etherType etherLen ipStart tcpStart maximum : ℕ}

lemma maximumMssForMtu_ok (h : maximumMssForMtu mtu tcpStart = .ok maximum) :
    maximum = mtu - tcpStart - 20 ∧ maximum < 2 ^ 16 := by
  rw [maximumMssForMtu] at h
  dsimp only at h
  split_ifs at h with hsmall hlarge
  cases h
  exact ⟨rfl, hlarge⟩

/-- The clamp sets the option and corrects the checksum, and leaves the rest alone. -/
lemma clamped_clampAt {offset : ℕ} (hframe : ethernetPayloadType packet = .ok (etherType, etherLen))
    (hheader : TcpHeaderAt packet etherLen etherType ipStart tcpStart)
    (hmaximum : maximumMssForMtu mtu tcpStart = .ok maximum)
    (hlen : tcpStart + (packet.getD (tcpStart + 12) 0).toNat / 16 * 4 ≤ packet.length)
    (hoption : MssOptionAt packet (tcpStart + 20)
      ((packet.getD (tcpStart + 12) 0).toNat / 16 * 4 - 20) offset)
    (hlt : maximum < u16At packet (tcpStart + 20 + offset + 2)) :
    Clamped packet (clampAt packet tcpStart offset maximum) mtu
      (u16At packet (tcpStart + 20 + offset + 2)) maximum etherType etherLen ipStart tcpStart
      offset where
  frame := hframe
  header := hheader
  option := hoption
  agree := ⟨by simp only [clampAt, length_setU16], fun _ hi => getElem?_clampAt hi⟩
  before := rfl
  after := by
    have hfits := hoption.fits
    rw [clampAt, u16At_congr (getElem?_setU16 (by omega) (by omega))
      (getElem?_setU16 (by omega) (by omega)), u16At_setU16 (by omega),
      Nat.mod_eq_of_lt (maximumMssForMtu_ok hmaximum).2]
  maximum := (maximumMssForMtu_ok hmaximum).1
  lowered := hlt
  checksum := tcpValid_clampAt_iff hoption hlt

end Clamp

/-- **Clamping** ends within the packet. It leaves the packet as it is, or it lowers the option to
what the path can carry and patches the checksum, and changes nothing else. A checksum that was
right is still right exactly if the value of the option is aligned to the words of the segment, or
if the difference is a multiple of 257. -/
theorem clampTcpMss_sound (packet : List UInt8) (mtu : ℕ) :
    ∃ result packet', clampTcpMss packet mtu = some (result, packet') ∧
      (packet' = packet ∧ (∀ old new, result ≠ .ok (.clamped old new)) ∨
        ∃ old new etherType etherLen ipStart tcpStart offset,
          result = .ok (.clamped old new) ∧
          Clamped packet packet' mtu old new etherType etherLen ipStart tcpStart offset) := by
  rw [clampTcpMss, checkedPayloadType_eq, Option.bind_eq_bind, Option.bind_some]
  cases hframe : ethernetPayloadType packet with
  | error error =>
      cases error with
      | tooShort expectedAtLeast actual => exact ⟨_, _, rfl, Or.inl ⟨rfl, nofun⟩⟩
      | expired => exact absurd hframe (ethernetPayloadType_ne_expired packet)
  | ok payloadType =>
      obtain ⟨etherType, etherLen⟩ := payloadType
      obtain ⟨start, hstart, hheader⟩ := tcpHeaderStart_sound packet etherType etherLen
      simp only [Option.bind_eq_bind, hstart, Option.bind_some]
      cases start with
      | error error => exact ⟨_, _, rfl, Or.inl ⟨rfl, nofun⟩⟩
      | ok start =>
          cases start with
          | none => exact ⟨_, _, rfl, Or.inl ⟨rfl, nofun⟩⟩
          | some tcpStart =>
              obtain ⟨ipStart, hheader⟩ := hheader tcpStart rfl
              dsimp only
              by_cases hnone : packet.length = tcpStart + 20
              · rw [if_pos hnone]
                exact ⟨_, _, rfl, Or.inl ⟨rfl, nofun⟩⟩
              by_cases hshort : packet.length < tcpStart + 20
              · rw [if_neg hnone, if_pos hshort]
                exact ⟨_, _, rfl, Or.inl ⟨rfl, nofun⟩⟩
              rw [if_neg hnone, if_neg hshort,
                getElem?_eq_getD (show tcpStart + 12 < packet.length by omega), Option.bind_some]
              set dataOffset := (packet.getD (tcpStart + 12) 0).toNat / 16 with hdataOffset
              by_cases hsmall : dataOffset < 5
              · rw [if_pos hsmall]
                exact ⟨_, _, rfl, Or.inl ⟨rfl, nofun⟩⟩
              by_cases hempty : dataOffset * 4 = 20
              · rw [if_neg hsmall, if_pos hempty]
                exact ⟨_, _, rfl, Or.inl ⟨rfl, nofun⟩⟩
              by_cases hcut : packet.length < tcpStart + dataOffset * 4
              · rw [if_neg hsmall, if_neg hempty, if_pos hcut]
                exact ⟨_, _, rfl, Or.inl ⟨rfl, nofun⟩⟩
              rw [if_neg hsmall, if_neg hempty, if_neg hcut]
              cases hmaximum : maximumMssForMtu mtu tcpStart with
              | error error => exact ⟨_, _, rfl, Or.inl ⟨rfl, nofun⟩⟩
              | ok maximum =>
                  obtain ⟨clamp, packet', hloop, hresult⟩ :=
                    @clampLoop_sound packet tcpStart (dataOffset * 4 - 20) maximum 0 (by omega)
                      .first
                  dsimp only
                  rw [hloop, Option.bind_some]
                  refine ⟨_, _, rfl, ?_⟩
                  cases hresult with
                  | unchanged hclamp =>
                      exact Or.inl ⟨rfl, fun old new h => hclamp old new (Except.ok.inj h)⟩
                  | clamped hoption hlt =>
                      exact Or.inr ⟨_, _, _, _, _, _, _, rfl, clamped_clampAt hframe hheader hmaximum
                        (by omega) hoption hlt⟩

/-- A segment that opens a connection. Its first option is no operation, so the maximum segment size
1460 is at an odd position. -/
def openingPacket : List UInt8 :=
  List.replicate 12 2 ++ [8, 0] ++
    [0x45, 0, 0, 48, 0, 0, 0, 0, 64, 6, 0x66, 0xc6, 10, 0, 0, 1, 10, 0, 0, 2] ++
    [0x10, 0, 0, 80, 0, 0, 0, 0, 0, 0, 0, 0, 0x70, 2, 0x10, 0, 0xa1, 0x7f, 0, 0] ++
    [1, 2, 4, 0x05, 0xb4, 1, 1, 0]

/-- Its checksum is right before it is clamped, and wrong after. -/
theorem clampTcpMss_not_valid :
    TcpValid openingPacket ethPIp 14 34 ∧
      ∃ packet', clampTcpMss openingPacket 1400 = some (.ok (.clamped 1460 1346), packet') ∧
        ¬ TcpValid packet' ethPIp 14 34 := by
  have hafter : clampTcpMss openingPacket 1400 =
      some (.ok (.clamped 1460 1346), clampAt openingPacket 34 1 1346) := by
    decide +kernel
  refine ⟨⟨by decide, by decide, by decide, by decide +kernel⟩, _, hafter, fun h => ?_⟩
  have hwrong : ¬ Verifies (tcpPseudoHeader (clampAt openingPacket 34 1 1346) ethPIp 14
      (tcpSegmentLen (clampAt openingPacket 34 1 1346) ethPIp 14 34) ++
        slice (clampAt openingPacket 34 1 1346) 34
          (tcpSegmentLen (clampAt openingPacket 34 1 1346) ethPIp 14 34)) := by
    decide +kernel
  exact hwrong h.checksum

end RustyTinc

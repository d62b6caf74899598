import RustyTinc.Library.Bytes
import RustyTinc.Library.OnesComplement

/-!
Ethernet frames that carry IP packets, with or without a VLAN tag.

* `internetChecksum`: the checksum of the headers that the daemon builds;
* `decrementTtl`: the TTL of a frame that is forwarded, with the header checksum patched;
* `decrementTtl_sound`: which frames are forwarded, that nothing else changes, and that a header
  checksum that was right is still right.
-/

namespace RustyTinc

open Bytes OnesComplement

/-- The length of a header of Ethernet. -/
def ethHlen : ℕ := 14

/-- The type of frames that hold an IPv4 packet. -/
def ethPIp : ℕ := 0x0800

/-- The type of frames that hold an IPv6 packet. -/
def ethPIpv6 : ℕ := 0x86dd

/-- The type of frames with a VLAN tag, after which the true type follows. -/
def ethP8021q : ℕ := 0x8100

/-- Why `decrement_ttl` refuses a frame. -/
inductive TtlError where
  | tooShort (expectedAtLeast actual : ℕ)
  | expired
deriving DecidableEq

/-- What `decrement_ttl` has done to a frame that it accepts. -/
inductive TtlMutation where
  | notApplicable
  | decremented
deriving DecidableEq

/-- The type of the payload of a frame, and where the payload starts. -/
def ethernetPayloadType (packet : List UInt8) : Except TtlError (ℕ × ℕ) :=
  if packet.length < ethHlen then .error (.tooShort ethHlen packet.length)
  else if u16At packet 12 = ethP8021q then
    if packet.length < ethHlen + 4 then .error (.tooShort (ethHlen + 4) packet.length)
    else .ok (u16At packet 16, ethHlen + 4)
  else .ok (u16At packet 12, ethHlen)

/-- Parsing a frame does not look at its TTL. -/
lemma ethernetPayloadType_ne_expired (packet : List UInt8) :
    ethernetPayloadType packet ≠ .error .expired := by
  rw [ethernetPayloadType]
  split_ifs <;> simp

/-! ### Checksums -/

/-- The sum of the words of some octets. An octet that is left over is added as it is. -/
def checksumWords : List UInt8 → ℕ
  | [] => 0
  | [byte] => byte.toNat
  | high :: low :: rest => high.toNat * 256 + low.toNat + checksumWords rest

/-- The complement of a sum, after its carries were added to it. -/
def foldChecksum (checksum : ℕ) : ℕ := 0xffff - carry checksum

/-- The checksum of some bytes, as a continuation of an earlier one. -/
def internetChecksum (data : List UInt8) (previousSum : ℕ) : ℕ :=
  foldChecksum ((previousSum ^^^ 0xffff) + checksumWords data)

/-- A word of a header is replaced, and the checksum of the header with it. -/
def incrementalChecksumUpdate (checksum old new : ℕ) : ℕ := carry (checksum + old + (0xffff - new))

/-- What is left over when the words of some octets are read. -/
def leftOver : List UInt8 → ℕ
  | [] => 0
  | [byte] => byte.toNat
  | _ :: _ :: rest => leftOver rest

/-- An octet that is left over should count as a high one. -/
lemma wordSum_eq_checksumWords (data : List UInt8) :
    wordSum data = checksumWords data + 255 * leftOver data := by
  induction data using wordSum.induct with
  | case1 => rfl
  | case2 high =>
      rw [wordSum, checksumWords, leftOver]
      omega
  | case3 high low rest ih =>
      rw [wordSum, checksumWords, leftOver, ih]
      omega

/-- Nothing is left over of an even number of bytes, or when the last byte is zero. -/
lemma leftOver_eq_zero_iff {data : List UInt8} :
    leftOver data = 0 ↔ data.length % 2 = 0 ∨ data.getLast? = some 0 := by
  induction data using leftOver.induct with
  | case1 => simp [leftOver]
  | case2 byte => simp [leftOver, ← UInt8.toNat_inj]
  | case3 high low rest ih =>
      rw [leftOver, ih, List.length_cons, List.length_cons]
      cases rest with
      | nil => simp
      | cons byte bytes =>
          rw [List.getLast?_cons_cons, List.getLast?_cons_cons]
          refine or_congr_left ?_
          omega

lemma leftOver_lt (data : List UInt8) : leftOver data < 256 := by
  induction data using leftOver.induct with
  | case1 => decide
  | case2 byte => exact byte.toNat_lt
  | case3 high low rest ih => exact ih

lemma leftOver_append {xs ys : List UInt8} (h : xs.length % 2 = 0) :
    leftOver (xs ++ ys) = leftOver ys := by
  induction xs using leftOver.induct with
  | case1 => rfl
  | case2 byte => simp at h
  | case3 high low rest ih =>
      refine ih ?_
      rw [List.length_cons, List.length_cons] at h
      omega

/-- A number that is written counts as a word, or with its octets the other way round. -/
lemma wordSum_setU16_scale {octets : List UInt8} {i n : ℕ} (hi : i + 1 < octets.length) :
    wordSum (setU16 octets i n) + (scale i * (octets.getD i 0).toNat +
        scale (i + 1) * (octets.getD (i + 1) 0).toNat) =
      wordSum octets + (scale i * (n / 256 % 256) + scale (i + 1) * (n % 256)) := by
  have hhigh := wordSum_set (show i < octets.length by omega) (UInt8.ofNat (n / 256))
  have hlow := @wordSum_set (octets.set i (UInt8.ofNat (n / 256))) (i + 1)
    (by rw [List.length_set]; exact hi) (UInt8.ofNat n)
  rw [UInt8.toNat_ofNat'] at hhigh
  rw [UInt8.toNat_ofNat', List.getElem_set_of_ne (by omega)] at hlow
  rw [setU16, List.getD_eq_getElem _ _ (by omega), List.getD_eq_getElem _ _ hi]
  rw [show (2 : ℕ) ^ 8 = 256 from rfl] at hhigh hlow
  omega

/-- A word at an even position. -/
lemma wordSum_setU16 {octets : List UInt8} {i n : ℕ} (heven : i % 2 = 0)
    (hi : i + 1 < octets.length) (hn : n < 2 ^ 16) :
    wordSum (setU16 octets i n) + u16At octets i = wordSum octets + n := by
  have hset := @wordSum_setU16_scale octets i n hi
  rw [scale, scale, if_pos heven, if_neg (by omega)] at hset
  rw [u16At]
  omega

/-- A number at an odd position. -/
lemma wordSum_setU16_odd {octets : List UInt8} {i n : ℕ} (hodd : i % 2 = 1)
    (hi : i + 1 < octets.length) (hn : n < 2 ^ 16) :
    (wordSum (setU16 octets i n) + 256 * u16At octets i) % 0xffff =
      (wordSum octets + 256 * n) % 0xffff := by
  have hset := @wordSum_setU16_scale octets i n hi
  rw [scale, scale, if_neg (by omega), if_pos (by omega)] at hset
  have hwords : wordSum (setU16 octets i n) + 256 * u16At octets i + 0xffff * (n / 256) =
      wordSum octets + 256 * n + 0xffff * (octets.getD i 0).toNat := by
    rw [u16At]
    omega
  omega

/-- **The checksum of some octets** verifies, once it is written at an even position that was
zero, exactly if nothing but zero is left over. -/
lemma verifies_setU16_internetChecksum_iff {octets : List UInt8} {i : ℕ} (hpos : i % 2 = 0)
    (hi : i + 1 < octets.length) (hzero : u16At octets i = 0) :
    Verifies (setU16 octets i (internetChecksum octets 0xffff)) ↔ leftOver octets = 0 := by
  have hxor : (0xffff ^^^ 0xffff : ℕ) = 0 := Nat.xor_self _
  rw [internetChecksum, hxor, zero_add, foldChecksum]
  have hlt := carry_lt (checksumWords octets)
  have hmod := carry_mod (checksumWords octets)
  have hnull := @carry_eq_zero (checksumWords octets)
  have hsum := @wordSum_setU16 octets i (0xffff - carry (checksumWords octets)) hpos hi (by omega)
  have hwords := wordSum_eq_checksumWords octets
  have hleft := leftOver_lt octets
  rw [verifies_iff]
  omega

lemma verifies_setU16_internetChecksum {octets : List UInt8} {i : ℕ}
    (heven : octets.length % 2 = 0) (hpos : i % 2 = 0) (hi : i + 1 < octets.length)
    (hzero : u16At octets i = 0) :
    Verifies (setU16 octets i (internetChecksum octets 0xffff)) :=
  (verifies_setU16_internetChecksum_iff hpos hi hzero).mpr
    (leftOver_eq_zero_iff.mpr (Or.inl heven))

/-! ### The TTL -/

/-- The TTL and the header checksum of an IPv4 packet behind a header of `etherLen` bytes. -/
def decrementIpv4Ttl (packet : List UInt8) (etherLen : ℕ) :
    Except TtlError TtlMutation × List UInt8 :=
  if packet.length < etherLen + 20 then (.error (.tooShort (etherLen + 20) packet.length), packet)
  else
    let ttl := packet.getD (etherLen + 8) 0
    if ttl ≤ 1 then (.error .expired, packet)
    else
      let protocol := packet.getD (etherLen + 9) 0
      let old := ttl.toNat * 256 + protocol.toNat
      let packet := packet.set (etherLen + 8) (ttl - 1)
      let new := (ttl - 1).toNat * 256 + protocol.toNat
      let checksumOffset := etherLen + 10
      let checksum := u16At packet checksumOffset
      let checksum := incrementalChecksumUpdate checksum old new
      (.ok .decremented, setU16 packet checksumOffset checksum)

/-- The hop limit of an IPv6 packet, which has no checksum of its header. -/
def decrementIpv6HopLimit (packet : List UInt8) (etherLen : ℕ) :
    Except TtlError TtlMutation × List UInt8 :=
  if packet.length < etherLen + 40 then (.error (.tooShort (etherLen + 40) packet.length), packet)
  else
    let hopLimit := packet.getD (etherLen + 7) 0
    if hopLimit ≤ 1 then (.error .expired, packet)
    else (.ok .decremented, packet.set (etherLen + 7) (hopLimit - 1))

/-- What is left of a frame that is forwarded, also where the call fails. -/
def decrementTtl (packet : List UInt8) : Except TtlError TtlMutation × List UInt8 :=
  match ethernetPayloadType packet with
  | .error error => (.error error, packet)
  | .ok (etherType, etherLen) =>
      if etherType = ethPIp then decrementIpv4Ttl packet etherLen
      else if etherType = ethPIpv6 then decrementIpv6HopLimit packet etherLen
      else (.ok .notApplicable, packet)

/-! ### What is changed -/

/-- Two frames of one length agree except at some positions. -/
def AgreeExcept (positions : List ℕ) (packet packet' : List UInt8) : Prop :=
  packet'.length = packet.length ∧ ∀ i ∉ positions, packet'[i]? = packet[i]?

/-- The octet at a position is one less than before, and not zero. -/
def Lowered (position : ℕ) (packet packet' : List UInt8) : Prop :=
  ∃ old new : UInt8, packet[position]? = some old ∧ packet'[position]? = some new ∧
    old.toNat = new.toNat + 1 ∧ 0 < new.toNat

/-- The header of the IPv4 packet at a position, as long as its first octet says. -/
def ipv4Header (packet : List UInt8) (start : ℕ) : List UInt8 :=
  slice packet start (4 * (packet.getD start 0 &&& 0x0f).toNat)

section Ttl

variable {packet : List UInt8} {etherLen : ℕ}

/-- An octet above one can be lowered. -/
lemma lowered_set {position : ℕ} (hposition : position < packet.length)
    (hold : ¬ packet.getD position 0 ≤ 1) :
    Lowered position packet (packet.set position (packet.getD position 0 - 1)) := by
  have hget : packet[position]? = some (packet.getD position 0) := by
    rw [List.getD_eq_getElem _ _ hposition, List.getElem?_eq_getElem hposition]
  have hlt : 1 < (packet.getD position 0).toNat := by
    rwa [UInt8.not_le, UInt8.lt_iff_toNat_lt] at hold
  have hnew : (packet.getD position 0 - 1).toNat = (packet.getD position 0).toNat - 1 :=
    UInt8.toNat_sub_of_le _ _ (UInt8.le_iff_toNat_le.mpr hlt.le)
  exact ⟨_, _, hget, List.getElem?_set_self hposition, by omega, by omega⟩

/-- **The patched checksum**: a header of any length that verified still does. -/
lemma verifies_patched {header : List UInt8} (hlen : 12 ≤ header.length)
    (hold : 1 < (header.getD 8 0).toNat) (h : Verifies header) :
    Verifies (setU16 (header.set 8 (header.getD 8 0 - 1)) 10
      (incrementalChecksumUpdate (u16At header 10) (u16At header 8)
        ((header.getD 8 0 - 1).toNat * 256 + (header.getD 9 0).toNat))) := by
  set ttl := header.getD 8 0 with httl
  have hnew : (ttl - 1).toNat = ttl.toNat - 1 :=
    UInt8.toNat_sub_of_le _ _ (UInt8.le_iff_toNat_le.mpr hold.le)
  have hword : u16At header 8 = ttl.toNat * 256 + (header.getD 9 0).toNat := rfl
  set lowered := header.set 8 (ttl - 1) with hlowered
  set checksum := incrementalChecksumUpdate (u16At header 10) (u16At header 8)
    ((ttl - 1).toNat * 256 + (header.getD 9 0).toNat) with hchecksum
  have hlength : lowered.length = header.length := List.length_set
  have hsame : u16At lowered 10 = u16At header 10 :=
    u16At_congr (List.getElem?_set_ne (by omega)) (List.getElem?_set_ne (by omega))
  -- the TTL is a high octet
  have hset := wordSum_set (show 8 < header.length by omega) (ttl - 1)
  rw [← hlowered, ← List.getD_eq_getElem _ 0, ← httl, scale, if_pos rfl, hnew] at hset
  have hfits : checksum < 2 ^ 16 := carry_lt _
  have hwords := @wordSum_setU16 lowered 10 checksum rfl (by omega) hfits
  rw [hsame] at hwords
  have hmod : checksum % 0xffff = (u16At header 10 + u16At header 8 +
      (0xffff - ((ttl - 1).toNat * 256 + (header.getD 9 0).toNat))) % 0xffff := carry_mod _
  rw [hword, hnew] at hmod
  have hprotocol := (header.getD 9 0).toNat_lt
  have hoctet := ttl.toNat_lt
  -- what is left of the TTL makes the sum positive
  have hpos : 0 < wordSum (setU16 lowered 10 checksum) := by
    have hget : (setU16 lowered 10 checksum)[8]? = some (ttl - 1) := by
      rw [getElem?_setU16 (by omega) (by omega), List.getElem?_set_self (by omega)]
    obtain ⟨hlt, hval⟩ := List.getElem?_eq_some_iff.mp hget
    have hle := getElem_le_wordSum hlt
    rw [hval, hnew] at hle
    omega
  rw [verifies_iff] at h ⊢
  omega

/-- Only the TTL and the checksum change, and a right checksum stays right. -/
lemma decrementIpv4Ttl_sound {packet' : List UInt8}
    (h : decrementIpv4Ttl packet etherLen = (.ok .decremented, packet')) :
    AgreeExcept [etherLen + 8, etherLen + 10, etherLen + 11] packet packet' ∧
      Lowered (etherLen + 8) packet packet' ∧
      (Verifies (ipv4Header packet etherLen) → Verifies (ipv4Header packet' etherLen)) := by
  rw [decrementIpv4Ttl] at h
  by_cases hshort : packet.length < etherLen + 20
  · rw [if_pos hshort] at h
    exact absurd (Prod.mk.inj h).1 nofun
  rw [if_neg hshort] at h
  dsimp only at h
  by_cases hold : packet.getD (etherLen + 8) 0 ≤ 1
  · rw [if_pos hold] at h
    exact absurd (Prod.mk.inj h).1 nofun
  · rw [if_neg hold] at h
    obtain rfl := (Prod.mk.inj h).2
    have hlowered := lowered_set (show etherLen + 8 < packet.length by omega) hold
    set ttl := packet.getD (etherLen + 8) 0 with httl
    set checksum := incrementalChecksumUpdate _ _ _ with hchecksum
    have hother : ∀ i, i ≠ etherLen + 8 → i ≠ etherLen + 10 → i ≠ etherLen + 11 →
        (setU16 (packet.set (etherLen + 8) (ttl - 1)) (etherLen + 10) checksum)[i]? =
          packet[i]? := by
      intro i h8 h10 h11
      rw [getElem?_setU16 h10 h11, List.getElem?_set_ne h8.symm]
    refine ⟨⟨by rw [length_setU16, List.length_set], fun i hi => ?_⟩, ?_, fun hverifies => ?_⟩
    · simp only [List.mem_cons, List.not_mem_nil, or_false, not_or] at hi
      exact hother i hi.1 hi.2.1 hi.2.2
    · obtain ⟨old, new, hget, hget', hvalues⟩ := hlowered
      refine ⟨old, new, hget, ?_, hvalues⟩
      rw [getElem?_setU16 (by omega) (by omega), hget']
    · -- the first octet is the same, and so is the length of the header
      have hfirst : (setU16 (packet.set (etherLen + 8) (ttl - 1)) (etherLen + 10)
          checksum).getD etherLen 0 = packet.getD etherLen 0 := by
        rw [List.getD_eq_getElem?_getD, hother _ (by omega) (by omega) (by omega),
          List.getD_eq_getElem?_getD]
      rw [ipv4Header] at hverifies ⊢
      rw [hfirst]
      set len := 4 * (packet.getD etherLen 0 &&& 0x0f).toNat with hlen
      rcases le_or_gt len 8 with hle | hgt
      · rwa [slice_congr fun i _ hi => hother i (by omega) (by omega) (by omega)]
      · have hlength : 12 ≤ (slice packet etherLen len).length := by
          rw [length_slice]
          omega
        have hget : ∀ j < 12, (slice packet etherLen len).getD j 0 =
            packet.getD (etherLen + j) 0 := by
          intro j hj
          rw [List.getD_eq_getElem?_getD, getElem?_slice (by omega), List.getD_eq_getElem?_getD]
        have hsame : u16At (packet.set (etherLen + 8) (ttl - 1)) (etherLen + 10) =
            u16At packet (etherLen + 10) :=
          u16At_congr (List.getElem?_set_ne (by omega)) (List.getElem?_set_ne (by omega))
        have hpatched := verifies_patched hlength
          (by rw [hget 8 (by omega)]; rwa [UInt8.not_le, UInt8.lt_iff_toNat_lt] at hold) hverifies
        simp only [u16At, hget _ (show 8 < 12 by omega), hget _ (show 9 < 12 by omega),
          hget _ (show 10 < 12 by omega), hget _ (show 11 < 12 by omega)] at hpatched
        rw [slice_setU16, slice_set, hchecksum, hsame]
        exact hpatched

/-- Only the hop limit changes. -/
lemma decrementIpv6HopLimit_sound {packet' : List UInt8}
    (h : decrementIpv6HopLimit packet etherLen = (.ok .decremented, packet')) :
    AgreeExcept [etherLen + 7] packet packet' ∧ Lowered (etherLen + 7) packet packet' := by
  rw [decrementIpv6HopLimit] at h
  by_cases hshort : packet.length < etherLen + 40
  · rw [if_pos hshort] at h
    exact absurd (Prod.mk.inj h).1 nofun
  rw [if_neg hshort] at h
  dsimp only at h
  by_cases hold : packet.getD (etherLen + 7) 0 ≤ 1
  · rw [if_pos hold] at h
    exact absurd (Prod.mk.inj h).1 nofun
  · rw [if_neg hold] at h
    obtain rfl := (Prod.mk.inj h).2
    refine ⟨⟨List.length_set, fun i hi => ?_⟩, lowered_set (by omega) hold⟩
    exact List.getElem?_set_ne fun heq => hi (List.mem_singleton.mpr heq.symm)

lemma decrementTtl_unchanged (hresult : (decrementTtl packet).1 ≠ .ok .decremented) :
    (decrementTtl packet).2 = packet := by
  revert hresult
  rw [decrementTtl]
  split
  · exact fun _ => rfl
  · simp only [decrementIpv4Ttl, decrementIpv6HopLimit]
    split_ifs <;> simp

end Ttl

/-- The header of an IP packet is too short to be forwarded, or its TTL or hop limit is used up. -/
def Exhausted (packet : List UInt8) (headerLen ttlOffset : ℕ) : Prop :=
  packet.length < headerLen ∨ packet.getD ttlOffset 0 ≤ 1

section Answers

variable {packet : List UInt8} {etherLen : ℕ}

/-- A frame is too short for its own header. -/
lemma ethernetPayloadType_eq_error_iff :
    (∃ error, ethernetPayloadType packet = .error error) ↔
      packet.length < 14 ∨ u16At packet 12 = 0x8100 ∧ packet.length < 18 := by
  have hether : ethHlen = 14 := rfl
  have htag : ethP8021q = 0x8100 := rfl
  rw [ethernetPayloadType, hether, htag]
  by_cases hshort : packet.length < 14
  · rw [if_pos hshort]
    exact iff_of_true ⟨_, rfl⟩ (Or.inl hshort)
  · rw [if_neg hshort, or_iff_right hshort]
    split_ifs with htagged hlen
    · exact iff_of_true ⟨_, rfl⟩ ⟨htagged, hlen⟩
    · exact iff_of_false nofun fun h => hlen h.2
    · exact iff_of_false nofun fun h => htagged h.1

/-- The packet is too short, or its TTL has run out. -/
lemma decrementIpv4Ttl_eq_error_iff :
    (∃ error, (decrementIpv4Ttl packet etherLen).1 = .error error) ↔
      Exhausted packet (etherLen + 20) (etherLen + 8) := by
  rw [decrementIpv4Ttl, Exhausted]
  by_cases hshort : packet.length < etherLen + 20
  · rw [if_pos hshort]
    exact iff_of_true ⟨_, rfl⟩ (Or.inl hshort)
  · rw [if_neg hshort, or_iff_right hshort]
    dsimp only
    split_ifs with hold
    · exact iff_of_true ⟨_, rfl⟩ hold
    · exact iff_of_false nofun hold

/-- The packet is too short, or its hop limit has run out. -/
lemma decrementIpv6HopLimit_eq_error_iff :
    (∃ error, (decrementIpv6HopLimit packet etherLen).1 = .error error) ↔
      Exhausted packet (etherLen + 40) (etherLen + 7) := by
  rw [decrementIpv6HopLimit, Exhausted]
  by_cases hshort : packet.length < etherLen + 40
  · rw [if_pos hshort]
    exact iff_of_true ⟨_, rfl⟩ (Or.inl hshort)
  · rw [if_neg hshort, or_iff_right hshort]
    dsimp only
    split_ifs with hold
    · exact iff_of_true ⟨_, rfl⟩ hold
    · exact iff_of_false nofun hold

lemma decrementIpv4Ttl_ne_notApplicable :
    (decrementIpv4Ttl packet etherLen).1 ≠ .ok .notApplicable := by
  rw [decrementIpv4Ttl]
  dsimp only
  split_ifs <;> nofun

lemma decrementIpv6HopLimit_ne_notApplicable :
    (decrementIpv6HopLimit packet etherLen).1 ≠ .ok .notApplicable := by
  rw [decrementIpv6HopLimit]
  dsimp only
  split_ifs <;> nofun

/-- Exactly the frames without an IP packet are left to themselves. -/
lemma decrementTtl_eq_notApplicable_iff :
    (decrementTtl packet).1 = .ok .notApplicable ↔
      ∃ etherType etherLen, ethernetPayloadType packet = .ok (etherType, etherLen) ∧
        etherType ≠ ethPIp ∧ etherType ≠ ethPIpv6 := by
  rw [decrementTtl]
  cases ethernetPayloadType packet with
  | error error => exact iff_of_false nofun nofun
  | ok frame =>
      obtain ⟨etherType, etherLen⟩ := frame
      dsimp only
      constructor
      · intro h
        refine ⟨etherType, etherLen, rfl, fun hip => ?_, fun hip => ?_⟩
        · rw [if_pos hip] at h
          exact decrementIpv4Ttl_ne_notApplicable h
        · rw [if_neg (by rw [hip]; decide), if_pos hip] at h
          exact decrementIpv6HopLimit_ne_notApplicable h
      · rintro ⟨etherType', etherLen', heq, hip, hipv6⟩
        obtain ⟨rfl, rfl⟩ := Prod.mk.inj (Except.ok.inj heq)
        rw [if_neg hip, if_neg hipv6]

/-- Exactly the frames that cannot be forwarded are refused. -/
lemma decrementTtl_eq_error_iff :
    (∃ error, (decrementTtl packet).1 = .error error) ↔
      packet.length < 14 ∨ u16At packet 12 = 0x8100 ∧ packet.length < 18 ∨
      ∃ etherType etherLen, ethernetPayloadType packet = .ok (etherType, etherLen) ∧
        (etherType = ethPIp ∧ Exhausted packet (etherLen + 20) (etherLen + 8) ∨
          etherType = ethPIpv6 ∧ Exhausted packet (etherLen + 40) (etherLen + 7)) := by
  rw [← or_assoc, ← ethernetPayloadType_eq_error_iff, decrementTtl]
  cases ethernetPayloadType packet with
  | error error => exact iff_of_true ⟨error, rfl⟩ (Or.inl ⟨error, rfl⟩)
  | ok frame =>
      obtain ⟨etherType, etherLen⟩ := frame
      rw [or_iff_right nofun]
      dsimp only
      constructor
      · intro h
        refine ⟨etherType, etherLen, rfl, ?_⟩
        split_ifs at h with hip hipv6
        · exact Or.inl ⟨hip, decrementIpv4Ttl_eq_error_iff.mp h⟩
        · exact Or.inr ⟨hipv6, decrementIpv6HopLimit_eq_error_iff.mp h⟩
        · obtain ⟨error, h⟩ := h
          cases h
      · rintro ⟨etherType', etherLen', heq, ⟨hip, h⟩ | ⟨hip, h⟩⟩
        · obtain ⟨rfl, rfl⟩ := Prod.mk.inj (Except.ok.inj heq)
          rw [if_pos hip]
          exact decrementIpv4Ttl_eq_error_iff.mpr h
        · obtain ⟨rfl, rfl⟩ := Prod.mk.inj (Except.ok.inj heq)
          rw [if_neg (by rw [hip]; decide), if_pos hip]
          exact decrementIpv6HopLimit_eq_error_iff.mpr h

end Answers

/-- **Forwarding a frame**: a frame without an IP packet stays as it is; one that is too short or
whose TTL or hop limit is used up is refused and stays as it is; and from every other one the TTL
or the hop limit is lowered by one, to no less than one. Apart from that only the checksum of the
IPv4 header changes, and it verifies if it did before. -/
theorem decrementTtl_sound (packet : List UInt8) :
    ((decrementTtl packet).1 = .ok .notApplicable ↔
      ∃ etherType etherLen, ethernetPayloadType packet = .ok (etherType, etherLen) ∧
        etherType ≠ ethPIp ∧ etherType ≠ ethPIpv6) ∧
      ((∃ error, (decrementTtl packet).1 = .error error) ↔
        packet.length < 14 ∨ u16At packet 12 = 0x8100 ∧ packet.length < 18 ∨
        ∃ etherType etherLen, ethernetPayloadType packet = .ok (etherType, etherLen) ∧
          (etherType = ethPIp ∧ Exhausted packet (etherLen + 20) (etherLen + 8) ∨
            etherType = ethPIpv6 ∧ Exhausted packet (etherLen + 40) (etherLen + 7))) ∧
      ((decrementTtl packet).1 ≠ .ok .decremented → (decrementTtl packet).2 = packet) ∧
      ((decrementTtl packet).1 = .ok .decremented →
        ∃ etherType etherLen, ethernetPayloadType packet = .ok (etherType, etherLen) ∧
          (etherType = ethPIp ∧
            AgreeExcept [etherLen + 8, etherLen + 10, etherLen + 11] packet
              (decrementTtl packet).2 ∧
            Lowered (etherLen + 8) packet (decrementTtl packet).2 ∧
            (Verifies (ipv4Header packet etherLen) →
              Verifies (ipv4Header (decrementTtl packet).2 etherLen)) ∨
          etherType = ethPIpv6 ∧
            AgreeExcept [etherLen + 7] packet (decrementTtl packet).2 ∧
            Lowered (etherLen + 7) packet (decrementTtl packet).2)) := by
  refine ⟨decrementTtl_eq_notApplicable_iff, decrementTtl_eq_error_iff, decrementTtl_unchanged,
    fun hresult => ?_⟩
  have hcall : decrementTtl packet = (.ok .decremented, (decrementTtl packet).2) :=
    Prod.ext hresult rfl
  generalize (decrementTtl packet).2 = packet' at hcall
  rw [decrementTtl] at hcall
  split at hcall
  · exact absurd (congrArg Prod.fst hcall) nofun
  · next etherType etherLen heq =>
      refine ⟨etherType, etherLen, heq, ?_⟩
      split_ifs at hcall with hip hipv6
      · exact Or.inl ⟨hip, decrementIpv4Ttl_sound hcall⟩
      · exact Or.inr ⟨hipv6, decrementIpv6HopLimit_sound hcall⟩
      · exact absurd (congrArg Prod.fst hcall) nofun

/-- A tagged frame whose IPv4 header has an option, a TTL of two and a checksum of zero. -/
def taggedFrame : List UInt8 :=
  List.replicate 12 0 ++ [0x81, 0, 0, 1, 0x08, 0] ++ [0x46, 0, 0, 24, 0, 0, 0, 0, 2, 17, 0, 0] ++
    List.replicate 8 0 ++ [0xb7, 0xd6, 0, 0]

/-- The checksum of zero becomes `0x0100`. -/
theorem decrementTtl_sound_tagged : Verifies (ipv4Header taggedFrame 18) ∧
    u16At taggedFrame 28 = 0 ∧ u16At (decrementTtl taggedFrame).2 28 = 0x0100 ∧
    Verifies (ipv4Header (decrementTtl taggedFrame).2 18) := by
  have hverifies : Verifies (ipv4Header taggedFrame 18) := by decide +kernel
  refine ⟨hverifies, by decide +kernel, by decide +kernel, ?_⟩
  obtain ⟨-, -, -, hdecremented⟩ := decrementTtl_sound taggedFrame
  obtain ⟨etherType, etherLen, htype, hip | hipv6⟩ := hdecremented (by decide +kernel)
  · have hframe : ethernetPayloadType taggedFrame = .ok (ethPIp, 18) := by decide +kernel
    obtain ⟨-, rfl⟩ := Prod.mk.inj (Except.ok.inj (htype.symm.trans hframe))
    exact hip.2.2.2 hverifies
  · have hframe : ethernetPayloadType taggedFrame = .ok (ethPIp, 18) := by decide +kernel
    obtain ⟨rfl, -⟩ := Prod.mk.inj (Except.ok.inj (htype.symm.trans hframe))
    exact absurd hipv6.1 (by decide)

end RustyTinc

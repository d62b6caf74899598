import RustyTinc.Core.Frame
import RustyTinc.Library.Pieces

/-!
IPv4 packets that are too long for a link, sent in fragments.

* `fragmentIpv4Packet`: the fragments of a packet, which may be a fragment itself;
* `fragmentLoop_fragments`: what one round of the loop emits and what is left for the others;
* `fragmentIpv4Packet_reassembles`: at its destination the packet is put together as it was.
-/

namespace RustyTinc

open Bytes OnesComplement

/-- The flag of a fragment that others follow. -/
def ipMf : ℕ := 0x2000

/-- The bits of the offset of a fragment, in units of eight bytes. -/
def ipOffmask : ℕ := 0x1fff

/-- Why a packet cannot be cut into fragments. -/
inductive FragmentError where
  | tooShort (expectedAtLeast actual : ℕ)
  | notIpv4 (etherType : ℕ)
  | unsupportedHeaderLength (ihlWords : UInt8)
  | lengthMismatch (headerTotalLen actualPayloadLen : ℕ)
  | mtuTooSmall (mtu requiredAtLeast : ℕ)
deriving DecidableEq

/-- The most that a fragment can carry: whole units of eight octets, and at least one. -/
def maxFragmentPayloadLen (mtu etherLen ipHeaderLen : ℕ) :
    Except FragmentError { len : ℕ // 0 < len } :=
  let effectiveMtu := max mtu 590
  if effectiveMtu ≤ etherLen + ipHeaderLen then
    .error (.mtuTooSmall mtu (etherLen + ipHeaderLen + 8))
  else
    let maxPayloadLen := (effectiveMtu - etherLen - ipHeaderLen) / 8 * 8
    if h : maxPayloadLen = 0 then .error (.mtuTooSmall mtu (etherLen + ipHeaderLen + 8))
    else .ok ⟨maxPayloadLen, Nat.pos_of_ne_zero h⟩

/-- One fragment: the headers of the packet, the length, the flags with the offset, and the
checksum of the header. -/
def ipv4Fragment (packet : List UInt8) (etherLen : ℕ) (payload : List UInt8) (field : ℕ) :
    List UInt8 :=
  let fragment := packet.take (etherLen + 20) ++ payload
  let fragment := setU16 fragment (etherLen + 2) (20 + payload.length)
  let fragment := setU16 fragment (etherLen + 6) field
  let fragment := setU16 fragment (etherLen + 10) 0
  setU16 fragment (etherLen + 10) (internetChecksum (slice fragment etherLen 20) 0xffff)

/-- The loop over what remains of the payload. The offset stays below `2 ^ 16`: the length of a
packet is a number of 16 bits. -/
def fragmentLoop (packet : List UInt8) (etherLen : ℕ) (maxPayloadLen : { len : ℕ // 0 < len })
    (payload : List UInt8) (originalFlags remaining payloadOffset fragmentOffset : ℕ) :
    List (List UInt8) :=
  if 0 < remaining then
    let len := min remaining maxPayloadLen.1
    let flags := originalFlags ||| (if 0 < remaining - len then ipMf else 0)
    ipv4Fragment packet etherLen (slice payload payloadOffset len) (flags ||| fragmentOffset) ::
      fragmentLoop packet etherLen maxPayloadLen payload originalFlags (remaining - len)
        (payloadOffset + len) (fragmentOffset + len / 8)
  else []
termination_by remaining
decreasing_by
  have := maxPayloadLen.2
  omega

/-- The fragments of a packet that is longer than the MTU. -/
def fragmentIpv4Packet (packet : List UInt8) (mtu : ℕ) :
    Except FragmentError (List (List UInt8)) :=
  match h : ethernetPayloadType packet with
  | .error (.tooShort expectedAtLeast actual) => .error (.tooShort expectedAtLeast actual)
  | .error .expired => (ethernetPayloadType_ne_expired packet h).elim
  | .ok (etherType, etherLen) =>
      if etherType ≠ ethPIp then .error (.notIpv4 etherType)
      else if packet.length < etherLen + 20 then
        .error (.tooShort (etherLen + 20) packet.length)
      else
        let ihlWords := packet.getD etherLen 0 &&& 0x0f
        if ihlWords ≠ 5 then .error (.unsupportedHeaderLength ihlWords)
        else
          let totalLen := u16At packet (etherLen + 2)
          if totalLen ≠ packet.length - etherLen then
            .error (.lengthMismatch totalLen (packet.length - etherLen))
          else do
            let maxPayloadLen ← maxFragmentPayloadLen mtu etherLen 20
            let payload := packet.drop (etherLen + 20)
            let originalFragment := u16At packet (etherLen + 6)
            .ok (fragmentLoop packet etherLen maxPayloadLen payload
              (originalFragment &&& (0xffff ^^^ ipOffmask)) payload.length 0
              (originalFragment &&& ipOffmask))

/-! ### What a receiver reads -/

/-- The payload of a packet without options, and where it belongs in the whole datagram. -/
def ipv4Piece (etherLen : ℕ) (packet : List UInt8) : Piece UInt8 :=
  ⟨8 * (u16At packet (etherLen + 6) % 2 ^ 13), packet.drop (etherLen + 20)⟩

/-- The flag that more fragments follow. -/
def MoreFragments (etherLen : ℕ) (packet : List UInt8) : Prop :=
  (u16At packet (etherLen + 6)).testBit 13

/-- A frame has the headers of a packet, except for length, flags, offset and checksum of the
IPv4 header; of the flags only the one for more fragments may differ. -/
structure SameHeaders (etherLen : ℕ) (packet fragment : List UInt8) : Prop where
  octets : ∀ i < etherLen + 20,
    i ∉ [2, 3, 6, 7, 10, 11].map (etherLen + ·) → fragment[i]? = packet[i]?
  flags : ∀ bit, 13 < bit → (u16At fragment (etherLen + 6)).testBit bit =
    (u16At packet (etherLen + 6)).testBit bit

/-- A frame is as long as it says, fits the link, and its header checksum is right. -/
structure WellFormed (etherLen limit : ℕ) (fragment : List UInt8) : Prop where
  fits : fragment.length ≤ limit
  header : etherLen + 20 ≤ fragment.length
  totalLen : u16At fragment (etherLen + 2) = fragment.length - etherLen
  checksum : Verifies (ipv4Header fragment etherLen)

/-! ### One fragment -/

section Fragment

variable {packet payload : List UInt8} {etherLen field : ℕ}

lemma length_ipv4Fragment (hheader : etherLen + 20 ≤ packet.length) :
    (ipv4Fragment packet etherLen payload field).length = etherLen + 20 + payload.length := by
  simp only [ipv4Fragment, length_setU16, List.length_append, List.length_take]
  omega

/-- What is not written is copied. -/
lemma getElem?_ipv4Fragment {i : ℕ} (hi : i ∉ [2, 3, 6, 7, 10, 11].map (etherLen + ·)) :
    (ipv4Fragment packet etherLen payload field)[i]? =
      (packet.take (etherLen + 20) ++ payload)[i]? := by
  simp only [List.map_cons, List.map_nil, List.mem_cons, List.not_mem_nil, or_false, not_or] at hi
  obtain ⟨h2, h3, h6, h7, h10, h11⟩ := hi
  simp only [ipv4Fragment]
  rw [getElem?_setU16 h10 h11, getElem?_setU16 h10 h11, getElem?_setU16 h6 h7,
    getElem?_setU16 h2 h3]

lemma drop_ipv4Fragment (hheader : etherLen + 20 ≤ packet.length) :
    (ipv4Fragment packet etherLen payload field).drop (etherLen + 20) = payload := by
  have htake : (packet.take (etherLen + 20)).length = etherLen + 20 := by
    rw [List.length_take]
    omega
  refine List.ext_getElem? fun j => ?_
  have hnot : etherLen + 20 + j ∉ [2, 3, 6, 7, 10, 11].map (etherLen + ·) := by
    simp only [List.map_cons, List.map_nil, List.mem_cons, List.not_mem_nil, or_false]
    omega
  rw [List.getElem?_drop, getElem?_ipv4Fragment hnot,
    List.getElem?_append_right (by omega), htake, Nat.add_sub_cancel_left]

lemma u16At_ipv4Fragment {i : ℕ} (hi : i + 1 < 10) :
    u16At (ipv4Fragment packet etherLen payload field) (etherLen + i) =
      u16At (setU16 (setU16 (packet.take (etherLen + 20) ++ payload) (etherLen + 2)
        (20 + payload.length)) (etherLen + 6) field) (etherLen + i) := by
  simp only [ipv4Fragment]
  refine u16At_congr ?_ ?_
  · rw [getElem?_setU16 (by omega) (by omega), getElem?_setU16 (by omega) (by omega)]
  · rw [getElem?_setU16 (by omega) (by omega), getElem?_setU16 (by omega) (by omega)]

lemma u16At_ipv4Fragment_totalLen (hheader : etherLen + 20 ≤ packet.length)
    (hlen : 20 + payload.length < 2 ^ 16) :
    u16At (ipv4Fragment packet etherLen payload field) (etherLen + 2) = 20 + payload.length := by
  rw [u16At_ipv4Fragment (by decide), u16At_congr
    (getElem?_setU16 (by omega) (by omega)) (getElem?_setU16 (by omega) (by omega)),
    u16At_setU16, Nat.mod_eq_of_lt hlen]
  rw [List.length_append, List.length_take]
  omega

lemma u16At_ipv4Fragment_field (hheader : etherLen + 20 ≤ packet.length) (hfield : field < 2 ^ 16) :
    u16At (ipv4Fragment packet etherLen payload field) (etherLen + 6) = field := by
  rw [u16At_ipv4Fragment (by decide), u16At_setU16, Nat.mod_eq_of_lt hfield]
  rw [length_setU16, List.length_append, List.length_take]
  omega

/-- The header of a fragment has no options, as that of the packet. -/
lemma ipv4Header_ipv4Fragment (hheader : etherLen + 20 ≤ packet.length)
    (hihl : packet.getD etherLen 0 &&& 0x0f = 5) :
    ipv4Header (ipv4Fragment packet etherLen payload field) etherLen =
      slice (ipv4Fragment packet etherLen payload field) etherLen 20 := by
  have hfirst : (ipv4Fragment packet etherLen payload field)[etherLen]? = packet[etherLen]? := by
    rw [getElem?_ipv4Fragment (by simp), List.getElem?_append_left
      (by rw [List.length_take]; omega), List.getElem?_take_of_lt (by omega)]
  rw [ipv4Header, List.getD_eq_getElem?_getD, hfirst, ← List.getD_eq_getElem?_getD, hihl]
  rfl

/-- The header of a fragment has a right checksum. -/
lemma verifies_ipv4Fragment (hheader : etherLen + 20 ≤ packet.length) :
    Verifies (slice (ipv4Fragment packet etherLen payload field) etherLen 20) := by
  rw [ipv4Fragment]
  rw [slice_setU16]
  set cleared := setU16 (setU16 (packet.take (etherLen + 20) ++ payload) (etherLen + 2)
    (20 + payload.length)) (etherLen + 6) field with hcleared
  have hinner : (slice cleared etherLen 20).length = 20 := by
    rw [length_slice, hcleared]
    simp only [length_setU16, List.length_append, List.length_take]
    omega
  have hlength : (slice (setU16 cleared (etherLen + 10) 0) etherLen 20).length = 20 := by
    rw [slice_setU16, length_setU16, hinner]
  refine verifies_setU16_internetChecksum (by omega) (by decide) (by omega) ?_
  rw [slice_setU16, u16At_setU16 (by omega), Nat.zero_mod]

/-- **One fragment** has the headers of its packet and is what it says. -/
lemma ipv4Fragment_sound {limit : ℕ} (hheader : etherLen + 20 ≤ packet.length)
    (hihl : packet.getD etherLen 0 &&& 0x0f = 5) (hlen : 20 + payload.length < 2 ^ 16)
    (hlimit : etherLen + 20 + payload.length ≤ limit) (hfield : field < 2 ^ 16)
    (hflags : ∀ bit, 13 < bit → field.testBit bit =
      (u16At packet (etherLen + 6)).testBit bit) :
    WellFormed etherLen limit (ipv4Fragment packet etherLen payload field) ∧
      SameHeaders etherLen packet (ipv4Fragment packet etherLen payload field) := by
  have hlength := @length_ipv4Fragment packet payload etherLen field hheader
  refine ⟨⟨hlength.trans_le hlimit, by omega, ?_, ?_⟩, ⟨fun i hi hnot => ?_, fun bit hbit => ?_⟩⟩
  · rw [u16At_ipv4Fragment_totalLen hheader hlen]
    omega
  · rw [ipv4Header_ipv4Fragment hheader hihl]
    exact verifies_ipv4Fragment hheader
  · rw [getElem?_ipv4Fragment hnot, List.getElem?_append_left (by rw [List.length_take]; omega),
      List.getElem?_take_of_lt hi]
  · rw [u16At_ipv4Fragment_field hheader hfield]
    exact hflags bit hbit

lemma ipv4Piece_ipv4Fragment (hheader : etherLen + 20 ≤ packet.length) (hfield : field < 2 ^ 16) :
    ipv4Piece etherLen (ipv4Fragment packet etherLen payload field) =
      ⟨8 * (field % 2 ^ 13), payload⟩ := by
  rw [ipv4Piece, drop_ipv4Fragment hheader, u16At_ipv4Fragment_field hheader hfield]

end Fragment

/-! ### Flags and offset -/

section Field

variable {original offset : ℕ} {more : Prop} [Decidable more]

/-- The field of a fragment: the flags of the packet, the flag that more follow, the offset. -/
def fragmentField (original offset : ℕ) (more : Prop) [Decidable more] : ℕ :=
  (original &&& (0xffff ^^^ ipOffmask)) ||| (if more then ipMf else 0) ||| offset

lemma fragmentField_lt (hoffset : offset < 2 ^ 13) :
    fragmentField original offset more < 2 ^ 16 := by
  have hmf : (if more then ipMf else 0) < 2 ^ 16 := by
    split_ifs <;> decide
  exact Nat.or_lt_two_pow (Nat.or_lt_two_pow (Nat.and_lt_two_pow _ (by decide)) hmf) (by omega)

/-- The flags leave the offset alone. -/
lemma fragmentField_mod (hoffset : offset < 2 ^ 13) :
    fragmentField original offset more % 2 ^ 13 = offset := by
  have hmask : (0xffff ^^^ ipOffmask) % 2 ^ 13 = 0 := by decide
  have hmf : (if more then ipMf else 0) % 2 ^ 13 = 0 := by
    split_ifs <;> decide
  rw [fragmentField, Nat.or_mod_two_pow, Nat.or_mod_two_pow, Nat.and_mod_two_pow, hmask, hmf,
    Nat.and_zero, Nat.or_zero, Nat.zero_or, Nat.mod_eq_of_lt hoffset]

/-- The offset leaves the flags alone. -/
lemma testBit_fragmentField (horiginal : original < 2 ^ 16) (hoffset : offset < 2 ^ 13) {bit : ℕ}
    (hbit : 13 ≤ bit) :
    (fragmentField original offset more).testBit bit =
      (original.testBit bit || decide (more ∧ bit = 13)) := by
  have hlow : offset.testBit bit = false :=
    Nat.testBit_lt_two_pow (hoffset.trans_le (Nat.pow_le_pow_right (by decide) hbit))
  have hmask : (original &&& (0xffff ^^^ ipOffmask)).testBit bit = original.testBit bit := by
    rcases lt_or_ge bit 16 with hlt | hge
    · have hset : (0xffff ^^^ ipOffmask).testBit bit = true := by
        interval_cases bit <;> decide
      rw [Nat.testBit_and, hset, Bool.and_true]
    · rw [Nat.testBit_and, Nat.testBit_lt_two_pow (horiginal.trans_le
        (Nat.pow_le_pow_right (by decide) hge)), Bool.false_and]
  have hmf : (if more then ipMf else 0).testBit bit = decide (more ∧ bit = 13) := by
    by_cases hmore : more
    · rw [if_pos hmore, ipMf, show (0x2000 : ℕ) = 2 ^ 13 from rfl, Nat.testBit_two_pow]
      simp [hmore, eq_comm]
    · rw [if_neg hmore, Nat.zero_testBit]
      simp [hmore]
  rw [fragmentField, Nat.testBit_or, Nat.testBit_or, hmask, hmf, hlow, Bool.or_false]

end Field

/-! ### All fragments -/

lemma maxFragmentPayloadLen_sound {mtu etherLen : ℕ} {maxPayloadLen : { len : ℕ // 0 < len }}
    (h : maxFragmentPayloadLen mtu etherLen 20 = .ok maxPayloadLen) :
    maxPayloadLen.1 % 8 = 0 ∧ etherLen + 20 + maxPayloadLen.1 ≤ max mtu 590 := by
  rw [maxFragmentPayloadLen] at h
  dsimp only at h
  split_ifs at h with hshort hzero
  obtain rfl := Except.ok.inj h
  refine ⟨Nat.mul_mod_left _ 8, ?_⟩
  have := Nat.div_mul_le_self (max mtu 590 - etherLen - 20) 8
  dsimp only
  omega

section Loop

variable {packet payload : List UInt8} {etherLen limit : ℕ} {maxPayloadLen : { len : ℕ // 0 < len }}

lemma fragmentLoop_eq_nil {flags remaining payloadOffset fragmentOffset : ℕ} :
    fragmentLoop packet etherLen maxPayloadLen payload flags remaining payloadOffset
      fragmentOffset = [] ↔ remaining = 0 := by
  rw [fragmentLoop]
  by_cases hremaining : 0 < remaining
  · rw [if_pos hremaining]
    exact iff_of_false (List.cons_ne_nil _ _) hremaining.ne'
  · rw [if_neg hremaining]
    exact iff_of_true rfl (Nat.eq_zero_of_not_pos hremaining)

/-- What the fragments of a packet have in common. -/
structure Fragments (packet : List UInt8) (etherLen limit start : ℕ) (data : List UInt8)
    (fragments : List (List UInt8)) : Prop where
  contiguous : Piece.Contiguous start (fragments.map (ipv4Piece etherLen))
  joined : Piece.joined (fragments.map (ipv4Piece etherLen)) = data
  wellFormed : ∀ fragment ∈ fragments, WellFormed etherLen limit fragment
  sameHeaders : ∀ fragment ∈ fragments, SameHeaders etherLen packet fragment
  more : ∀ i (hi : i < fragments.length), MoreFragments etherLen fragments[i] ↔
    i + 1 < fragments.length ∨ MoreFragments etherLen packet

lemma Fragments.nil (start : ℕ) : Fragments packet etherLen limit start [] [] where
  contiguous := trivial
  joined := rfl
  wellFormed _ h := absurd h List.not_mem_nil
  sameHeaders _ h := absurd h List.not_mem_nil
  more _ h := absurd h (Nat.not_lt_zero _)

/-- A fragment in front of others starts the data, and tells whether there are others. -/
lemma Fragments.cons {start next : ℕ} {part data fragment : List UInt8}
    {rest : List (List UInt8)} (hrest : Fragments packet etherLen limit next data rest)
    (hpiece : ipv4Piece etherLen fragment = ⟨start, part⟩)
    (hnext : rest ≠ [] → next = start + part.length)
    (hwell : WellFormed etherLen limit fragment) (hsame : SameHeaders etherLen packet fragment)
    (hmore : MoreFragments etherLen fragment ↔ rest ≠ [] ∨ MoreFragments etherLen packet) :
    Fragments packet etherLen limit start (part ++ data) (fragment :: rest) where
  contiguous := by
    rw [List.map_cons, hpiece]
    refine ⟨rfl, ?_⟩
    cases rest with
    | nil => trivial
    | cons other others =>
        have hcontiguous := hrest.contiguous
        rwa [hnext (List.cons_ne_nil _ _)] at hcontiguous
  joined := by
    rw [List.map_cons, hpiece, Piece.joined, List.flatMap_cons]
    exact congrArg (part ++ ·) hrest.joined
  wellFormed := List.forall_mem_cons.mpr ⟨hwell, hrest.wellFormed⟩
  sameHeaders := List.forall_mem_cons.mpr ⟨hsame, hrest.sameHeaders⟩
  more := by
    rintro (_ | i) hi
    · rw [List.getElem_cons_zero, hmore, List.length_cons]
      refine or_congr_left ?_
      rw [← List.length_pos_iff_ne_nil]
      omega
    · rw [List.getElem_cons_succ, hrest.more i (Nat.lt_of_succ_lt_succ hi), List.length_cons]
      exact or_congr_left (Nat.succ_lt_succ_iff.symm)

/-- **Every round** emits the next fragment; it ends where the following round starts, if there is
one. -/
lemma fragmentLoop_fragments (hheader : etherLen + 20 ≤ packet.length)
    (hihl : packet.getD etherLen 0 &&& 0x0f = 5) (hlen : 20 + payload.length < 2 ^ 16)
    (hunits : maxPayloadLen.1 % 8 = 0) (hlimit : etherLen + 20 + maxPayloadLen.1 ≤ limit)
    (remaining payloadOffset fragmentOffset : ℕ)
    (hpayload : payloadOffset + remaining = payload.length)
    (hfits : 8 * fragmentOffset + remaining < 2 ^ 16) :
    Fragments packet etherLen limit (8 * fragmentOffset) (payload.drop payloadOffset)
      (fragmentLoop packet etherLen maxPayloadLen payload
        (u16At packet (etherLen + 6) &&& (0xffff ^^^ ipOffmask)) remaining payloadOffset
        fragmentOffset) := by
  induction remaining using Nat.strong_induction_on generalizing payloadOffset fragmentOffset with
  | _ remaining ih =>
    rw [fragmentLoop]
    by_cases hremaining : 0 < remaining
    · rw [if_pos hremaining]
      dsimp only
      have hpos := maxPayloadLen.2
      set len := min remaining maxPayloadLen.1 with hlenDef
      set original := u16At packet (etherLen + 6) with horiginalDef
      have horiginal : original < 2 ^ 16 := u16At_lt _ _
      have hoffset : fragmentOffset < 2 ^ 13 := by omega
      have hslice : (slice payload payloadOffset len).length = len := by
        rw [length_slice]
        omega
      have hfield : fragmentField original fragmentOffset (0 < remaining - len) < 2 ^ 16 :=
        fragmentField_lt hoffset
      have hpiece := @ipv4Piece_ipv4Fragment _ (slice payload payloadOffset len) _ _ hheader hfield
      have hbits := @testBit_fragmentField original fragmentOffset (0 < remaining - len) _
        horiginal hoffset
      have hsound := @ipv4Fragment_sound _ (slice payload payloadOffset len) _ _ _ hheader hihl
        (by omega) (show _ ≤ limit by omega) hfield fun bit hbit => by
          rw [hbits hbit.le, decide_eq_false (fun h => absurd h.2 (by omega)), Bool.or_false]
      have hmore : MoreFragments etherLen (ipv4Fragment packet etherLen
          (slice payload payloadOffset len)
          (fragmentField original fragmentOffset (0 < remaining - len))) ↔
            0 < remaining - len ∨ MoreFragments etherLen packet := by
        rw [MoreFragments, u16At_ipv4Fragment_field hheader hfield, hbits le_rfl,
          Bool.or_eq_true, decide_eq_true_iff, or_comm]
        exact or_congr_left (and_iff_left rfl)
      rw [fragmentField_mod hoffset] at hpiece
      have hrest := ih (remaining - len) (by omega) (payloadOffset + len)
        (fragmentOffset + len / 8) (by omega) (by omega)
      have hdrop : slice payload payloadOffset len ++ payload.drop (payloadOffset + len) =
          payload.drop payloadOffset := by
        rw [slice, ← List.drop_drop, List.take_append_drop]
      rw [← hdrop]
      refine hrest.cons hpiece (fun hne => ?_) hsound.1 hsound.2 ?_
      · -- another round follows, so this fragment is full
        rw [Ne, fragmentLoop_eq_nil] at hne
        rw [hslice]
        omega
      · rw [Ne, fragmentLoop_eq_nil, ← Ne, ← Nat.pos_iff_ne_zero]
        exact hmore
    · obtain rfl := Nat.eq_zero_of_not_pos hremaining
      rw [if_neg hremaining, List.drop_of_length_le (by omega)]
      exact Fragments.nil _

end Loop

/-- What is known of a packet that is accepted. -/
lemma fragmentIpv4Packet_ok {packet : List UInt8} {mtu : ℕ} {fragments : List (List UInt8)}
    (h : fragmentIpv4Packet packet mtu = .ok fragments) :
    ∃ etherLen maxPayloadLen, ethernetPayloadType packet = .ok (ethPIp, etherLen) ∧
      etherLen + 20 ≤ packet.length ∧ packet.getD etherLen 0 &&& 0x0f = 5 ∧
      u16At packet (etherLen + 2) = packet.length - etherLen ∧
      maxFragmentPayloadLen mtu etherLen 20 = .ok maxPayloadLen ∧
      fragments = fragmentLoop packet etherLen maxPayloadLen (packet.drop (etherLen + 20))
        (u16At packet (etherLen + 6) &&& (0xffff ^^^ ipOffmask))
        (packet.drop (etherLen + 20)).length 0 (u16At packet (etherLen + 6) &&& ipOffmask) := by
  rw [fragmentIpv4Packet] at h
  split at h
  case h_1 => exact absurd h nofun
  case h_2 heq => exact absurd heq (ethernetPayloadType_ne_expired packet)
  case h_3 etherType etherLen heq =>
    dsimp only at h
    split_ifs at h with htype hshort hihl htotal
    cases hmax : maxFragmentPayloadLen mtu etherLen 20 with
    | error error =>
        rw [hmax] at h
        exact absurd h nofun
    | ok maxPayloadLen =>
        rw [hmax] at h
        rw [not_ne_iff] at htype hihl htotal
        subst htype
        exact ⟨etherLen, maxPayloadLen, heq, by omega, hihl, htotal, hmax, (Except.ok.inj h).symm⟩

lemma Fragments.assemble {packet data : List UInt8} {etherLen limit start : ℕ}
    {fragments : List (List UInt8)} (h : Fragments packet etherLen limit start data fragments)
    (i : ℕ) : Piece.assemble (fragments.map (ipv4Piece etherLen)) i =
      (Piece.mk start data).get? i := by
  rw [Piece.get?]
  dsimp only
  split_ifs with hle
  · have hposition := h.contiguous.assemble (i - start)
    rwa [Nat.add_sub_cancel' hle, h.joined] at hposition
  · exact h.contiguous.assemble_of_lt (Nat.lt_of_not_le hle)

/-- **Fragments are put together as the packet was.** A receiver that places what they carry at
their offsets has the payload at its original offset and nothing else; each of them fits the link,
is a packet of its own, and has the headers of the original. -/
theorem fragmentIpv4Packet_reassembles {packet : List UInt8} {mtu : ℕ}
    {fragments : List (List UInt8)} (h : fragmentIpv4Packet packet mtu = .ok fragments)
    (hfits : ∀ etherLen, ethernetPayloadType packet = .ok (ethPIp, etherLen) →
      (ipv4Piece etherLen packet).stop ≤ 65535) :
    ∃ etherLen, ethernetPayloadType packet = .ok (ethPIp, etherLen) ∧
      Fragments packet etherLen (max mtu 590) (ipv4Piece etherLen packet).offset
        (ipv4Piece etherLen packet).data fragments ∧
      (∀ i, Piece.assemble (fragments.map (ipv4Piece etherLen)) i =
        (ipv4Piece etherLen packet).get? i) ∧
      (fragments.map (ipv4Piece etherLen)).Pairwise fun p q => p.stop ≤ q.offset := by
  obtain ⟨etherLen, maxPayloadLen, htype, hheader, hihl, htotal, hmax, rfl⟩ :=
    fragmentIpv4Packet_ok h
  obtain ⟨hunits, hlimit⟩ := maxFragmentPayloadLen_sound hmax
  have hstop := hfits etherLen htype
  have hoffset : u16At packet (etherLen + 6) &&& ipOffmask = u16At packet (etherLen + 6) % 2 ^ 13 :=
    Nat.and_two_pow_sub_one_eq_mod _ 13
  have hlength : (packet.drop (etherLen + 20)).length = packet.length - etherLen - 20 := by
    rw [List.length_drop]
    omega
  have hlt := u16At_lt packet (etherLen + 2)
  rw [Piece.stop, ipv4Piece] at hstop
  have hfragments := fragmentLoop_fragments hheader hihl (by omega) hunits hlimit _ 0 _
    (Nat.zero_add (packet.drop (etherLen + 20)).length)
    (show 8 * (u16At packet (etherLen + 6) &&& ipOffmask) + _ < 2 ^ 16 by
      rw [hoffset]
      exact Nat.lt_succ_of_le hstop)
  rw [hoffset, List.drop_zero] at hfragments
  rw [hoffset]
  exact ⟨etherLen, htype, hfragments, hfragments.assemble, hfragments.contiguous.disjoint⟩

/-- A packet with a payload of 600 octets. -/
def longPacket : List UInt8 :=
  List.replicate 12 2 ++ [8, 0] ++
    [0x45, 0, 2, 0x6c, 0, 0, 0, 0, 64, 17, 0, 0, 10, 0, 0, 1, 10, 0, 0, 2] ++ List.replicate 600 7

/-- On the smallest link it travels in two fragments. -/
theorem fragmentIpv4Packet_reassembles_long :
    ∃ fragments, fragmentIpv4Packet longPacket 590 = .ok fragments ∧ fragments.length = 2 ∧
      ∃ etherLen, ∀ i, Piece.assemble (fragments.map (ipv4Piece etherLen)) i =
        (ipv4Piece etherLen longPacket).get? i := by
  have hcount : (fragmentIpv4Packet longPacket 590).toOption.map List.length = some 2 := by
    decide +kernel
  have htype : ethernetPayloadType longPacket = .ok (ethPIp, 14) := by
    decide +kernel
  have hstop : (ipv4Piece 14 longPacket).stop ≤ 65535 := by
    decide +kernel
  cases hresult : fragmentIpv4Packet longPacket 590 with
  | error error =>
      rw [hresult] at hcount
      exact absurd hcount nofun
  | ok fragments =>
      rw [hresult] at hcount
      obtain ⟨etherLen, -, -, hassemble, -⟩ := fragmentIpv4Packet_reassembles hresult
        fun etherLen heq => by
          rw [htype, Except.ok.injEq, Prod.mk.injEq] at heq
          rwa [← heq.2]
      exact ⟨fragments, rfl, Option.some.inj hcount, etherLen, hassemble⟩

end RustyTinc

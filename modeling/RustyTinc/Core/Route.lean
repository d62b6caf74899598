import RustyTinc.Core.State
import RustyTinc.Core.SubnetOrder
import RustyTinc.Library.RankedSearch

/-!
The lookup of the subnet of an address.

* `maskCmp_eq_zero`: masked octets agree exactly when the bits of the prefix do;
* `NetworkState.lookup_reachable`: the lookup finds a reachable subnet with the longest prefix.
-/

namespace RustyTinc

/-- An address of each kind of subnet. -/
inductive Address where
  | mac (address : MacAddr)
  | ipv4 (address : Ipv4Addr)
  | ipv6 (address : Ipv6Addr)
deriving DecidableEq

/-- The mask of the last byte that a prefix reaches into. -/
def partialMask (bits : ℕ) : UInt8 := 0xff <<< UInt8.ofNat (8 - bits)

/-- The difference of the first whole octets that differ. -/
def octetsCmp (a b : List UInt8) : List ℕ → ℤ
  | [] => 0
  | index :: indices =>
    let result : ℤ := (a.getD index 0).toNat - (b.getD index 0).toNat
    if result ≠ 0 then result else octetsCmp a b indices

/-- The prefix lies within the octets. -/
def maskCmp (a b : List UInt8) (maskLen : ℕ) : ℤ :=
  let fullBytes := maskLen / 8
  let result := octetsCmp a b (List.range fullBytes)
  if result ≠ 0 then result
  else
    let partialBits := maskLen % 8
    if partialBits = 0 then 0
    else
      let mask := partialMask partialBits
      ((a.getD fullBytes 0) &&& mask).toNat - ((b.getD fullBytes 0) &&& mask).toNat

/-- The bits of some octets, the highest of each first. -/
def bitAt (octets : List UInt8) (i : ℕ) : Bool := (octets.getD (i / 8) 0).toNat.testBit (7 - i % 8)

/-- The bytes agree at all these places. -/
lemma octetsCmp_eq_zero {a b : List UInt8} {indices : List ℕ} :
    octetsCmp a b indices = 0 ↔ ∀ i ∈ indices, a.getD i 0 = b.getD i 0 := by
  induction indices with
  | nil => simp [octetsCmp]
  | cons index indices ih =>
      have hiff : ((a.getD index 0).toNat : ℤ) - (b.getD index 0).toNat = 0 ↔
          a.getD index 0 = b.getD index 0 := by
        rw [sub_eq_zero, Nat.cast_inj, UInt8.toNat_inj]
      rw [octetsCmp, List.forall_mem_cons, ← hiff]
      split_ifs with h
      · exact iff_of_false h fun h' => h h'.1
      · rw [ih, and_iff_right (not_not.mp h)]

/-- Octets agree when their bits do. -/
lemma eq_iff_testBit {x y : UInt8} : x = y ↔ ∀ j < 8, x.toNat.testBit (7 - j) = y.toNat.testBit (7 - j) := by
  constructor
  · rintro rfl
    exact fun _ _ => rfl
  · intro h
    refine UInt8.toNat_inj.mp (Nat.eq_of_testBit_eq fun i => ?_)
    rcases lt_or_ge i 8 with hi | hi
    · have := h (7 - i) (by omega)
      rwa [show 7 - (7 - i) = i by omega] at this
    · rw [Nat.testBit_lt_two_pow (lt_of_lt_of_le x.toNat_lt (Nat.pow_le_pow_right (by omega) hi)),
        Nat.testBit_lt_two_pow (lt_of_lt_of_le y.toNat_lt (Nat.pow_le_pow_right (by omega) hi))]

/-- The bits of a mask. -/
lemma testBit_partialMask {bits j : ℕ} (hpos : 0 < bits) (hbits : bits < 8) (hj : j < 8) :
    (partialMask bits).toNat.testBit (7 - j) = decide (j < bits) := by
  have hall : ∀ b : Fin 8, ∀ i : Fin 8, 0 < (b : ℕ) →
      (partialMask b).toNat.testBit (7 - i) = decide (i < b) := by decide +kernel
  have := hall ⟨bits, hbits⟩ ⟨j, hj⟩ hpos
  simpa only [Fin.mk_lt_mk] using this

/-- Masked bytes agree when their first bits do. -/
lemma mask_eq_iff {x y : UInt8} {bits : ℕ} (hpos : 0 < bits) (hbits : bits < 8) :
    x &&& partialMask bits = y &&& partialMask bits ↔
      ∀ j < bits, x.toNat.testBit (7 - j) = y.toNat.testBit (7 - j) := by
  rw [eq_iff_testBit]
  constructor
  · intro h j hj
    have := h j (by omega)
    rw [UInt8.toNat_and, UInt8.toNat_and, Nat.testBit_and, Nat.testBit_and,
      testBit_partialMask hpos hbits (by omega)] at this
    simpa [hj] using this
  · intro h j hj
    rw [UInt8.toNat_and, UInt8.toNat_and, Nat.testBit_and, Nat.testBit_and,
      testBit_partialMask hpos hbits hj]
    by_cases hlt : j < bits
    · rw [h j hlt]
    · simp [hlt]

/-- **Masked octets agree exactly when the bits of the prefix do.** -/
theorem maskCmp_eq_zero {a b : List UInt8} {maskLen : ℕ} :
    maskCmp a b maskLen = 0 ↔ ∀ i < maskLen, bitAt a i = bitAt b i := by
  -- the whole octets, and then the bits of the octet after them
  have hmain : maskCmp a b maskLen = 0 ↔ (∀ k < maskLen / 8, a.getD k 0 = b.getD k 0) ∧
      ∀ j < maskLen % 8, (a.getD (maskLen / 8) 0).toNat.testBit (7 - j) =
        (b.getD (maskLen / 8) 0).toNat.testBit (7 - j) := by
    have hwhole : octetsCmp a b (List.range (maskLen / 8)) = 0 ↔
        ∀ k < maskLen / 8, a.getD k 0 = b.getD k 0 := by
      simp only [octetsCmp_eq_zero, List.mem_range]
    rw [maskCmp, ← hwhole]
    dsimp only
    split_ifs with h hbits
    · exact iff_of_false h fun h' => h h'.1
    · rw [hbits]
      simpa using h
    · rw [sub_eq_zero, Nat.cast_inj, UInt8.toNat_inj, and_iff_right (not_not.mp h),
        mask_eq_iff (by omega) (by omega)]
  rw [hmain]
  constructor
  · rintro ⟨hwhole, hbits⟩ i hi
    rw [bitAt, bitAt]
    rcases lt_or_ge (i / 8) (maskLen / 8) with hlt | hge
    · rw [hwhole _ hlt]
    · rw [show i / 8 = maskLen / 8 by omega]
      exact hbits (i % 8) (by omega)
  · intro h
    constructor
    · intro k hk
      rw [eq_iff_testBit]
      intro j hj
      have := h (8 * k + j) (by omega)
      rwa [bitAt, bitAt, show (8 * k + j) / 8 = k by omega,
        show (8 * k + j) % 8 = j by omega] at this
    · intro j hj
      have := h (8 * (maskLen / 8) + j) (by omega)
      rwa [bitAt, bitAt, show (8 * (maskLen / 8) + j) / 8 = maskLen / 8 by omega,
        show (8 * (maskLen / 8) + j) % 8 = j by omega] at this

/-! ### Subnets that contain an address -/

namespace Subnet

/-- The subnet is the MAC address. -/
def matchesMac (s : Subnet) (address : MacAddr) : Bool := s.kind = .mac address

/-- The address lies in the subnet. -/
def matchesIpv4 (s : Subnet) (address : Ipv4Addr) : Bool :=
  match s.kind with
  | .ipv4 subnet prefixLen => maskCmp address.toList subnet.toList prefixLen.toNat = 0
  | _ => false

/-- The address lies in the subnet. -/
def matchesIpv6 (s : Subnet) (address : Ipv6Addr) : Bool :=
  match s.kind with
  | .ipv6 subnet prefixLen => maskCmp address.toList subnet.toList prefixLen.toNat = 0
  | _ => false

/-- The address lies in the subnet, which is one of its family. -/
def matchesAddress (s : Subnet) : Address → Bool
  | .mac address => s.matchesMac address
  | .ipv4 address => s.matchesIpv4 address
  | .ipv6 address => s.matchesIpv6 address

/-- The subnet is of the kind of the address, and the address begins with the bits of its
prefix. -/
def Contains (s : Subnet) : Address → Prop
  | .mac address => s.kind = .mac address
  | .ipv4 address => ∃ subnet prefixLen, s.kind = .ipv4 subnet prefixLen ∧
      ∀ i < prefixLen.toNat, bitAt address.toList i = bitAt subnet.toList i
  | .ipv6 address => ∃ subnet prefixLen, s.kind = .ipv6 subnet prefixLen ∧
      ∀ i < prefixLen.toNat, bitAt address.toList i = bitAt subnet.toList i

lemma matchesAddress_iff {s : Subnet} {address : Address} :
    s.matchesAddress address = true ↔ s.Contains address := by
  obtain ⟨kind, weight, owner, expires⟩ := s
  cases address <;> cases kind <;>
    simp [matchesAddress, matchesMac, matchesIpv4, matchesIpv6, Contains, maskCmp_eq_zero]

/-- Subnets that contain one address are of one type. -/
lemma Contains.typeOrder_eq {s t : Subnet} {address : Address} (hs : s.Contains address)
    (ht : t.Contains address) : s.typeOrder = t.typeOrder := by
  rw [typeOrder, typeOrder]
  cases address with
  | mac address => rw [show s.kind = _ from hs, show t.kind = _ from ht]
  | ipv4 address | ipv6 address =>
      obtain ⟨_, _, hs, -⟩ := hs
      obtain ⟨_, _, ht, -⟩ := ht
      rw [hs, ht]

/-- Within a type the prefixes fall along the order of the table. -/
lemma prefixLen_le_of_compareTinc {s t : Subnet} (htype : s.typeOrder = t.typeOrder)
    (h : s.compareTinc t ≠ .gt) : t.prefixLen ≤ s.prefixLen := by
  have hfirst : ∀ {p q : UInt8} {o : Ordering}, (compare p q).then o ≠ .gt → p ≤ q := by
    intro p q o hpq
    rw [← Std.isLE_compare, Ordering.isLE_iff_ne_gt]
    intro hgt
    rw [hgt] at hpq
    exact hpq rfl
  obtain ⟨skind, sweight, sowner, sexpires⟩ := s
  obtain ⟨tkind, tweight, towner, texpires⟩ := t
  rw [compareTinc, htype, show compare _ _ = Ordering.eq from Std.compare_eq_iff_eq.mpr rfl] at h
  cases skind with
  | mac _ => cases tkind with
    | mac _ => exact UInt8.le_refl 0
    | ipv4 _ _ | ipv6 _ _ => cases htype
  | ipv4 _ _ => cases tkind with
    | ipv4 _ _ => exact hfirst h
    | mac _ | ipv6 _ _ => cases htype
  | ipv6 _ _ => cases tkind with
    | ipv6 _ _ => exact hfirst h
    | mac _ | ipv4 _ _ => cases htype

end Subnet

/-! ### The lookup -/

namespace NetworkState

/-- A subnet without owner counts as reachable. -/
def ownerReachable (s : NetworkState) (subnet : Subnet) : Bool :=
  match subnet.owner with
  | none => true
  | some owner => (s.graph.node owner).any fun node => node.status.reachable

/-- The first matching subnet with a reachable owner, or the last matching one. -/
def lookupReachableSubnetLikeTinc (s : NetworkState) (isMatch : Subnet → Bool) : Option Subnet :=
  RankedSearch.search isMatch s.ownerReachable s.subnets.subnets none

/-- The subnet to which a MAC address is routed. -/
def lookupReachableMacSubnetLikeTinc (s : NetworkState) (address : MacAddr) : Option Subnet :=
  s.lookupReachableSubnetLikeTinc fun subnet => subnet.matchesMac address

/-- The subnet to which an IPv4 address is routed. -/
def lookupReachableIpv4SubnetLikeTinc (s : NetworkState) (address : Ipv4Addr) : Option Subnet :=
  s.lookupReachableSubnetLikeTinc fun subnet => subnet.matchesIpv4 address

/-- The subnet to which an IPv6 address is routed. -/
def lookupReachableIpv6SubnetLikeTinc (s : NetworkState) (address : Ipv6Addr) : Option Subnet :=
  s.lookupReachableSubnetLikeTinc fun subnet => subnet.matchesIpv6 address

/-- The lookup for an address of any kind. -/
def lookupReachable (s : NetworkState) : Address → Option Subnet
  | .mac address => s.lookupReachableMacSubnetLikeTinc address
  | .ipv4 address => s.lookupReachableIpv4SubnetLikeTinc address
  | .ipv6 address => s.lookupReachableIpv6SubnetLikeTinc address

/-- The subnet has an owner, and the graph has it as a reachable node. -/
def HasReachableOwner (s : NetworkState) (subnet : Subnet) : Prop :=
  ∃ owner node, subnet.owner = some owner ∧ s.graph.node owner = some node ∧
    node.status.reachable = true

lemma lookupReachable_eq (s : NetworkState) (address : Address) :
    s.lookupReachable address =
      RankedSearch.search (fun subnet => subnet.matchesAddress address) s.ownerReachable
        s.subnets.subnets none := by
  cases address <;> rfl

lemma ownerReachable_iff {s : NetworkState} {subnet : Subnet} (howner : subnet.owner.isSome) :
    s.ownerReachable subnet = true ↔ s.HasReachableOwner subnet := by
  obtain ⟨owner, howner⟩ := Option.isSome_iff_exists.mp howner
  rw [ownerReachable, HasReachableOwner, howner]
  simp [Option.any_eq_true]

/-- The prefixes of the subnets that contain an address fall along the table. -/
lemma falling_of_sorted {t : SubnetTable} (hsorted : t.Sorted) (address : Address) :
    t.subnets.Pairwise fun a b => a.matchesAddress address = true →
      b.matchesAddress address = true → b.prefixLen.toNat ≤ a.prefixLen.toNat :=
  hsorted.imp fun hab ha hb => UInt8.le_iff_toNat_le.mp <|
    Subnet.prefixLen_le_of_compareTinc ((Subnet.matchesAddress_iff.mp ha).typeOrder_eq
      (Subnet.matchesAddress_iff.mp hb)) hab

/-- **The lookup finds a reachable subnet with the longest prefix**, and one with the shortest
when no owner is reachable. -/
theorem lookup_reachable (s : NetworkState) (operations : List SubnetTable.Operation)
    (hrun : s.subnets = SubnetTable.run operations)
    (howned : ∀ before, before <+: operations → (SubnetTable.run before).AllOwned) :
    s.subnets.Sorted ∧ ∀ address,
      (s.lookupReachable address = none ↔
        ∀ subnet ∈ s.subnets.subnets, ¬subnet.Contains address) ∧
      ((∃ subnet ∈ s.subnets.subnets, subnet.Contains address ∧ s.HasReachableOwner subnet) →
        ∃ found ∈ s.subnets.subnets, s.lookupReachable address = some found ∧
          found.Contains address ∧ s.HasReachableOwner found ∧
          ∀ subnet ∈ s.subnets.subnets, subnet.Contains address → s.HasReachableOwner subnet →
            subnet.prefixLen ≤ found.prefixLen) ∧
      ((∃ subnet ∈ s.subnets.subnets, subnet.Contains address) →
        (∀ subnet ∈ s.subnets.subnets, subnet.Contains address → ¬s.HasReachableOwner subnet) →
        ∃ found ∈ s.subnets.subnets, s.lookupReachable address = some found ∧
          found.Contains address ∧
          ∀ subnet ∈ s.subnets.subnets, subnet.Contains address →
            found.prefixLen ≤ subnet.prefixLen) := by
  have hsorted : s.subnets.Sorted := hrun ▸ SubnetTable.run_sorted operations howned
  have hall : ∀ subnet ∈ s.subnets.subnets, subnet.owner.isSome :=
    hrun ▸ howned operations List.prefix_rfl
  refine ⟨hsorted, fun address => ?_⟩
  have hfalling := falling_of_sorted hsorted address
  rw [lookupReachable_eq]
  refine ⟨?_, ?_, ?_⟩
  · rw [RankedSearch.search_eq_none, and_iff_right rfl]
    refine forall₂_congr fun subnet _ => ?_
    rw [← Subnet.matchesAddress_iff, Bool.not_eq_true]
  · rintro ⟨subnet, hsubnet, hcontains, hreachable⟩
    obtain ⟨found, hfound, hmem, hmatch, hgood, hmax⟩ :=
      @RankedSearch.search_good _ _ _ _ none _ hfalling ⟨subnet, hsubnet,
        Subnet.matchesAddress_iff.mpr hcontains,
        (ownerReachable_iff (hall subnet hsubnet)).mpr hreachable⟩
    refine ⟨found, hmem, hfound, Subnet.matchesAddress_iff.mp hmatch,
      (ownerReachable_iff (hall found hmem)).mp hgood, fun other hother hin hreach => ?_⟩
    exact UInt8.le_iff_toNat_le.mpr <| hmax other hother (Subnet.matchesAddress_iff.mpr hin)
      ((ownerReachable_iff (hall other hother)).mpr hreach)
  · rintro ⟨subnet, hsubnet, hcontains⟩ hnone
    obtain ⟨found, hfound, hmem, hmatch, hmin⟩ :=
      @RankedSearch.search_last _ _ s.ownerReachable _ none _ hfalling
        ⟨subnet, hsubnet, Subnet.matchesAddress_iff.mpr hcontains⟩ fun other hother hin => by
          rw [← Bool.not_eq_true, ownerReachable_iff (hall other hother)]
          exact hnone other hother (Subnet.matchesAddress_iff.mp hin)
    refine ⟨found, hmem, hfound, Subnet.matchesAddress_iff.mp hmatch, fun other hother hin => ?_⟩
    exact UInt8.le_iff_toNat_le.mpr <| hmin other hother (Subnet.matchesAddress_iff.mpr hin)

/-- Two subnets of one address, the longer one of an unreachable owner. -/
theorem lookup_reachable_two :
    let wide : Subnet := ⟨.ipv4 #v[10, 0, 0, 0] 8, 10, some "a", none⟩
    let narrow : Subnet := ⟨.ipv4 #v[10, 1, 0, 0] 16, 10, some "b", none⟩
    let s : NetworkState :=
      { new "a" with subnets := SubnetTable.run [.add wide, .addUnique narrow] }
    s.subnets.Sorted ∧ ∀ address,
      (s.lookupReachable address = none ↔
        ∀ subnet ∈ s.subnets.subnets, ¬subnet.Contains address) ∧
      ((∃ subnet ∈ s.subnets.subnets, subnet.Contains address ∧ s.HasReachableOwner subnet) →
        ∃ found ∈ s.subnets.subnets, s.lookupReachable address = some found ∧
          found.Contains address ∧ s.HasReachableOwner found ∧
          ∀ subnet ∈ s.subnets.subnets, subnet.Contains address → s.HasReachableOwner subnet →
            subnet.prefixLen ≤ found.prefixLen) ∧
      ((∃ subnet ∈ s.subnets.subnets, subnet.Contains address) →
        (∀ subnet ∈ s.subnets.subnets, subnet.Contains address → ¬s.HasReachableOwner subnet) →
        ∃ found ∈ s.subnets.subnets, s.lookupReachable address = some found ∧
          found.Contains address ∧
          ∀ subnet ∈ s.subnets.subnets, subnet.Contains address →
            found.prefixLen ≤ subnet.prefixLen) := by
  refine lookup_reachable _ [.add _, .addUnique _] rfl fun before hbelow => ?_
  have hall : ∀ before ∈ [SubnetTable.Operation.add
        ⟨.ipv4 #v[10, 0, 0, 0] 8, 10, some "a", none⟩,
      .addUnique ⟨.ipv4 #v[10, 1, 0, 0] 16, 10, some "b", none⟩].inits,
      (SubnetTable.run before).AllOwned := by decide +kernel
  exact hall before ((List.mem_inits _ _).mpr hbelow)

/-- **An ownerless subnet on the way breaks the order**: it compares equal with the subnets of all
owners. Here it is removed in the place of an equal one, and leaves its neighbours swapped. -/
theorem unsorted_after_ownerless :
    let subnet : Subnet := ⟨.ipv4 #v[10, 0, 0, 0] 8, 10, none, none⟩
    let operations : List SubnetTable.Operation := [.add (subnet.withOwner "b"), .add subnet,
      .add (subnet.withOwner "a"), .removeOwnerSubnet "c" subnet]
    (SubnetTable.run operations).AllOwned ∧ ¬(SubnetTable.run operations).Sorted := by
  decide +kernel

end NetworkState

end RustyTinc

import Mathlib.Data.List.Sort
import Mathlib.Data.String.Basic
import Mathlib.Tactic

/-!
Subnets and the table in which a node keeps the subnets of all nodes.

* `Subnet.compareTinc`: the order of the table; two subnets with owners compare equal exactly
  when they have the same kind, weight and owner (`compareTinc_eq_iff`);
* `SubnetTable.addUnique`, `SubnetTable.remove`: insertion unless an equal entry is stored, and
  removal of the first equal entry;
* `SubnetTable.Proper.addUnique`, `SubnetTable.Proper.removeOwnerSubnet`: what they do to the
  entries of a table in which every entry is stored once.
-/

namespace RustyTinc

/-- The octets of a hardware address. -/
abbrev MacAddr := Vector UInt8 6

/-- The octets of an IPv4 address. -/
abbrev Ipv4Addr := Vector UInt8 4

/-- The octets of an IPv6 address. -/
abbrev Ipv6Addr := Vector UInt8 16

/-- The addresses of a subnet. -/
inductive SubnetKind where
  | mac (address : MacAddr)
  | ipv4 (address : Ipv4Addr) (prefixLen : UInt8)
  | ipv6 (address : Ipv6Addr) (prefixLen : UInt8)
deriving DecidableEq

/-- A set of addresses with a weight, which a node may own. -/
structure Subnet where
  kind : SubnetKind
  weight : ℤ
  owner : Option String := none
  expires : Option ℤ := none
deriving DecidableEq

/-- The part of a subnet that is compared alike for all kinds. -/
structure CommonCompare where
  bytes : List UInt8
  weight : ℤ
  owner : Option String

/-- Octets, then weights, then the owners if there are two. -/
def compareCommon (a b : CommonCompare) : Ordering :=
  ((compare a.bytes b.bytes).then (compare a.weight b.weight)).then
    (match a.owner, b.owner with
    | some x, some y => compare x y
    | _, _ => .eq)

/-- Longer prefixes come first. -/
def compareIpCommon (aPrefix bPrefix : UInt8) (a b : CommonCompare) : Ordering :=
  (compare bPrefix aPrefix).then (compareCommon a b)

namespace Subnet

/-- The same addresses, owned by a node. -/
def withOwner (s : Subnet) (owner : String) : Subnet := { s with owner := some owner }

/-- MAC addresses come first, then IPv4, then IPv6. -/
def typeOrder (s : Subnet) : ℕ :=
  match s.kind with
  | .mac _ => 0
  | .ipv4 _ _ => 1
  | .ipv6 _ _ => 2

/-- The order of the subnet table. Kinds of different type are told apart by the type order. -/
def compareTinc (s t : Subnet) : Ordering :=
  (compare s.typeOrder t.typeOrder).then
    (match s.kind, t.kind with
    | .mac a, .mac b =>
        compareCommon ⟨a.toList, s.weight, s.owner⟩ ⟨b.toList, t.weight, t.owner⟩
    | .ipv4 a aPrefix, .ipv4 b bPrefix =>
        compareIpCommon aPrefix bPrefix ⟨a.toList, s.weight, s.owner⟩ ⟨b.toList, t.weight, t.owner⟩
    | .ipv6 a aPrefix, .ipv6 b bPrefix =>
        compareIpCommon aPrefix bPrefix ⟨a.toList, s.weight, s.owner⟩ ⟨b.toList, t.weight, t.owner⟩
    | _, _ => .eq)

lemma compareCommon_eq_iff {a b : List UInt8} {v w : ℤ} {x y : String} :
    compareCommon ⟨a, v, some x⟩ ⟨b, w, some y⟩ = .eq ↔ a = b ∧ v = w ∧ x = y := by
  simp only [compareCommon, Ordering.then_eq_eq, Std.compare_eq_iff_eq, and_assoc]

lemma compareIpCommon_eq_iff {p q : UInt8} {a b : List UInt8} {v w : ℤ} {x y : String} :
    compareIpCommon p q ⟨a, v, some x⟩ ⟨b, w, some y⟩ = .eq ↔
      q = p ∧ a = b ∧ v = w ∧ x = y := by
  rw [compareIpCommon, Ordering.then_eq_eq, compareCommon_eq_iff, Std.compare_eq_iff_eq]

/-- **Equal entries**: two owned subnets compare equal exactly when they have the same kind,
weight and owner. -/
theorem compareTinc_eq_iff {s t : Subnet} {x y : String} (hs : s.owner = some x)
    (ht : t.owner = some y) :
    s.compareTinc t = .eq ↔ s.kind = t.kind ∧ s.weight = t.weight ∧ x = y := by
  obtain ⟨skind, sweight, sowner, sexpires⟩ := s
  obtain ⟨tkind, tweight, towner, texpires⟩ := t
  simp only at hs ht
  subst hs ht
  cases skind <;> cases tkind <;>
    simp only [compareTinc, typeOrder, Ordering.then_eq_eq, Std.compare_eq_iff_eq,
      compareCommon_eq_iff, compareIpCommon_eq_iff, Vector.toList_inj, SubnetKind.mac.injEq,
      SubnetKind.ipv4.injEq, SubnetKind.ipv6.injEq, reduceCtorEq, Nat.reduceEqDiff, zero_ne_one, one_ne_zero,
      false_and, true_and, and_assoc]
  all_goals tauto

end Subnet

/-- All subnets, in the order in which they are looked up. -/
structure SubnetTable where
  subnets : List Subnet
deriving DecidableEq

namespace SubnetTable

/-- No subnets. -/
def new : SubnetTable := ⟨[]⟩

/-- Append an entry and sort the table; entries that compare equal keep their order. -/
def add (t : SubnetTable) (subnet : Subnet) : SubnetTable :=
  ⟨(t.subnets ++ [subnet]).insertionSort fun a b => a.compareTinc b ≠ .gt⟩

/-- The subnet that compares equal. -/
def lookupExact (t : SubnetTable) (subnet : Subnet) : Option Subnet :=
  t.subnets.find? fun candidate => candidate.compareTinc subnet = .eq

/-- A subnet is added unless an equal one is there. -/
def addUnique (t : SubnetTable) (subnet : Subnet) : SubnetTable × Bool :=
  if (t.lookupExact subnet).isSome then (t, false) else (t.add subnet, true)

/-- The subnet of an owner that compares equal. -/
def lookupOwnerSubnet (t : SubnetTable) (owner : String) (subnet : Subnet) : Option Subnet :=
  t.lookupExact { subnet with owner := some owner }

/-- The first subnet that compares equal is removed. -/
def remove (t : SubnetTable) (subnet : Subnet) : SubnetTable × Option Subnet :=
  match t.subnets.findIdx? fun candidate => candidate.compareTinc subnet = .eq with
  | none => (t, none)
  | some index => (⟨t.subnets.eraseIdx index⟩, t.subnets[index]?)

/-- The same, among the subnets of an owner. -/
def removeOwnerSubnet (t : SubnetTable) (owner : String) (subnet : Subnet) :
    SubnetTable × Option Subnet := t.remove { subnet with owner := some owner }

/-- The subnets of an owner. -/
def ownerSubnets (t : SubnetTable) (owner : String) : List Subnet :=
  t.subnets.filter fun subnet => subnet.owner = some owner

/-- All subnets of an owner are removed. -/
def removeOwner (t : SubnetTable) (owner : String) : SubnetTable × List Subnet :=
  (⟨t.subnets.filter fun subnet => subnet.owner ≠ some owner⟩, t.ownerSubnets owner)

/-- The subnets of an owner whose time is over are removed. -/
def removeExpiredOwnerSubnets (t : SubnetTable) (owner : String) (now : ℤ) :
    SubnetTable × List Subnet :=
  let expired (subnet : Subnet) : Bool :=
    subnet.owner = some owner && subnet.expires.any fun expires => expires < now
  (⟨t.subnets.filter fun subnet => !expired subnet⟩, t.subnets.filter expired)

end SubnetTable

/-! ### Entries of a table -/

/-- What tells the subnets with owners in a table apart. -/
structure OwnedSubnet where
  owner : String
  kind : SubnetKind
  weight : ℤ
deriving DecidableEq

/-- The entry that the subnet is for an owner. -/
def Subnet.entry (s : Subnet) (owner : String) : OwnedSubnet := ⟨owner, s.kind, s.weight⟩

namespace SubnetTable

/-- An entry is stored. -/
def Holds (t : SubnetTable) (k : OwnedSubnet) : Prop :=
  ∃ s ∈ t.subnets, s.owner = some k.owner ∧ s.entry k.owner = k

instance (t : SubnetTable) (k : OwnedSubnet) : Decidable (t.Holds k) :=
  inferInstanceAs (Decidable (∃ s ∈ t.subnets, s.owner = some k.owner ∧ s.entry k.owner = k))

/-- Every subnet has an owner, and no entry is stored twice. -/
structure Proper (t : SubnetTable) : Prop where
  owned : ∀ s ∈ t.subnets, s.owner.isSome
  distinct : t.subnets.Pairwise fun a b => ¬ (a.owner = b.owner ∧ a.kind = b.kind ∧
    a.weight = b.weight)

lemma proper_new : new.Proper := ⟨by simp [new], List.Pairwise.nil⟩

lemma not_holds_new (k : OwnedSubnet) : ¬ new.Holds k := by
  simp [Holds, new]

section Entries

variable {t : SubnetTable} {subnet : Subnet} {owner : String}

/-- The stored subnet with a given owner is an entry of the table. -/
lemma Proper.compareTinc_eq (h : t.Proper) {s : Subnet} (hs : s ∈ t.subnets)
    (ho : subnet.owner = some owner) :
    s.compareTinc subnet = .eq ↔ s.owner = some owner ∧ s.entry owner = subnet.entry owner := by
  obtain ⟨x, hx⟩ := Option.isSome_iff_exists.mp (h.owned s hs)
  rw [Subnet.compareTinc_eq_iff hx ho, hx]
  simp only [Subnet.entry, OwnedSubnet.mk.injEq, Option.some.injEq, true_and]
  tauto

lemma Proper.lookupExact_isSome (h : t.Proper) (ho : subnet.owner = some owner) :
    (t.lookupExact subnet).isSome = true ↔ t.Holds (subnet.entry owner) := by
  rw [lookupExact, List.find?_isSome]
  refine exists_congr fun s => and_congr_right fun hs => ?_
  rw [decide_eq_true_iff]
  exact h.compareTinc_eq hs ho

lemma Proper.lookupOwnerSubnet_isSome (h : t.Proper) (owner : String) (subnet : Subnet) :
    (t.lookupOwnerSubnet owner subnet).isSome = true ↔ t.Holds (subnet.entry owner) :=
  h.lookupExact_isSome rfl

/-- What is found is the entry that was asked for. -/
lemma Proper.lookupOwnerSubnet_eq (h : t.Proper) {s : Subnet}
    (hs : t.lookupOwnerSubnet owner subnet = some s) : s.entry owner = subnet.entry owner := by
  have hmem := List.mem_of_find?_eq_some hs
  have heq := List.find?_some hs
  exact ((h.compareTinc_eq hmem rfl).mp (of_decide_eq_true heq)).2

lemma mem_add {s : Subnet} : s ∈ (t.add subnet).subnets ↔ s ∈ t.subnets ∨ s = subnet := by
  rw [add, (List.perm_insertionSort _ _).mem_iff, List.mem_append, List.mem_singleton]

lemma distinct_symm {a b : Subnet}
    (h : ¬ (a.owner = b.owner ∧ a.kind = b.kind ∧ a.weight = b.weight)) :
    ¬ (b.owner = a.owner ∧ b.kind = a.kind ∧ b.weight = a.weight) :=
  fun hba => h ⟨hba.1.symm, hba.2.1.symm, hba.2.2.symm⟩

/-- **Insertion** adds one entry, unless it is stored. -/
lemma Proper.addUnique (h : t.Proper) (ho : subnet.owner = some owner) :
    (t.addUnique subnet).1.Proper ∧
      ∀ k, (t.addUnique subnet).1.Holds k ↔ t.Holds k ∨ k = subnet.entry owner := by
  have hiff := h.lookupExact_isSome ho
  rw [SubnetTable.addUnique]
  split_ifs with hfound
  · refine ⟨h, fun k => ⟨Or.inl, ?_⟩⟩
    rintro (hk | rfl)
    · exact hk
    · exact hiff.mp hfound
  · refine ⟨⟨fun s hs => ?_, ?_⟩, fun k => ?_⟩
    · rcases mem_add.mp hs with hs | rfl
      · exact h.owned s hs
      · simp [ho]
    · rw [add]
      refine ((List.perm_insertionSort _ _).pairwise_iff distinct_symm).mpr ?_
      refine List.pairwise_append.mpr ⟨h.distinct, List.pairwise_singleton _ _, ?_⟩
      rintro s hs s' hs' ⟨howner, hkind, hweight⟩
      obtain rfl := List.mem_singleton.mp hs'
      refine hfound (hiff.mpr ⟨s, hs, howner.trans ho, ?_⟩)
      simp [Subnet.entry, hkind, hweight]
    · simp only [Holds, mem_add]
      constructor
      · rintro ⟨s, hs | rfl, howner, hentry⟩
        · exact Or.inl ⟨s, hs, howner, hentry⟩
        · obtain rfl := Option.some.inj (ho.symm.trans howner)
          exact Or.inr hentry.symm
      · rintro (⟨s, hs, hk⟩ | rfl)
        · exact ⟨s, Or.inl hs, hk⟩
        · exact ⟨subnet, Or.inr rfl, ho, rfl⟩

/-- **Removal** takes one entry away, if it is stored. -/
lemma Proper.removeOwnerSubnet (h : t.Proper) (owner : String) (subnet : Subnet) :
    (t.removeOwnerSubnet owner subnet).1.Proper ∧
      ∀ k, (t.removeOwnerSubnet owner subnet).1.Holds k ↔
        t.Holds k ∧ k ≠ subnet.entry owner := by
  rw [SubnetTable.removeOwnerSubnet, remove]
  split
  next hnone =>
    refine ⟨h, fun k => ⟨fun hk => ⟨hk, ?_⟩, And.left⟩⟩
    rintro rfl
    obtain ⟨s, hs, howner, hentry⟩ := hk
    have hne := List.findIdx?_eq_none_iff.mp hnone s hs
    rw [decide_eq_false_iff_not] at hne
    exact hne ((h.compareTinc_eq hs rfl).mpr ⟨howner, hentry⟩)
  next index hindex =>
    obtain ⟨hlt, heq, -⟩ := List.findIdx?_eq_some_iff_getElem.mp hindex
    have hfound := (h.compareTinc_eq (List.getElem_mem hlt) rfl).mp (of_decide_eq_true heq)
    refine ⟨⟨fun s hs => h.owned s (List.mem_of_mem_eraseIdx hs),
      h.distinct.sublist (List.eraseIdx_sublist ..)⟩, fun k => ?_⟩
    -- The first entry that compares equal is the only one.
    have hsplit : t.subnets = t.subnets.take index ++ t.subnets[index] :: t.subnets.drop (index + 1) := by
      rw [List.getElem_cons_drop, List.take_append_drop]
    have hothers : ∀ s ∈ t.subnets.eraseIdx index, s.owner = some owner →
        s.entry owner ≠ subnet.entry owner := by
      have hpairwise := h.distinct
      rw [hsplit, List.pairwise_middle distinct_symm, ← List.eraseIdx_eq_take_drop_succ] at hpairwise
      intro s hs howner hentry
      refine (List.pairwise_cons.mp hpairwise).1 s hs ⟨hfound.1.trans howner.symm, ?_⟩
      have hsame := hfound.2.trans hentry.symm
      simpa [Subnet.entry] using hsame
    constructor
    · rintro ⟨s, hs, howner, hentry⟩
      refine ⟨⟨s, List.mem_of_mem_eraseIdx hs, howner, hentry⟩, ?_⟩
      rintro rfl
      exact hothers s hs howner hentry
    · rintro ⟨⟨s, hs, howner, hentry⟩, hne⟩
      refine ⟨s, ?_, howner, hentry⟩
      rw [hsplit, List.mem_append, List.mem_cons] at hs
      rw [List.eraseIdx_eq_take_drop_succ, List.mem_append]
      rcases hs with hs | rfl | hs
      · exact Or.inl hs
      · obtain rfl := Option.some.inj (howner.symm.trans hfound.1)
        exact absurd (hentry.symm.trans hfound.2) hne
      · exact Or.inr hs

lemma Proper.addUnique_inserted (h : t.Proper) (ho : subnet.owner = some owner) :
    (t.addUnique subnet).2 = true ↔ ¬ t.Holds (subnet.entry owner) := by
  rw [← h.lookupExact_isSome ho, SubnetTable.addUnique]
  split_ifs with hfound <;> simp [hfound]

/-- A subnet is removed exactly when the table holds it. -/
lemma Proper.removeOwnerSubnet_isSome (h : t.Proper) (owner : String) (subnet : Subnet) :
    (t.removeOwnerSubnet owner subnet).2.isSome = true ↔ t.Holds (subnet.entry owner) := by
  rw [← h.lookupOwnerSubnet_isSome, SubnetTable.removeOwnerSubnet, remove, lookupOwnerSubnet,
    lookupExact, List.find?_isSome]
  split
  next hnone =>
    refine iff_of_false (by simp) ?_
    rintro ⟨s, hs, heq⟩
    exact Bool.false_ne_true ((List.findIdx?_eq_none_iff.mp hnone s hs).symm.trans heq)
  next index hindex =>
    obtain ⟨hlt, heq, -⟩ := List.findIdx?_eq_some_iff_getElem.mp hindex
    rw [List.getElem?_eq_getElem hlt]
    exact iff_of_true rfl ⟨_, List.getElem_mem hlt, heq⟩

end Entries

end SubnetTable

end RustyTinc

import RustyTinc.Core.MetaText
import RustyTinc.Core.Route

/-!
Which of several subnets with the same prefix length is preferred.

* `SubnetTable.Learned`: the tables whose subnets were announced by other nodes;
* `NetworkState.lookup_least_weight_iff`: one with the least weight is found exactly if the least
  weight and the least octets go together.
-/

namespace RustyTinc

namespace SubnetTable

/-- The tables that are filled by announcements which the parser accepts, and by nothing else. -/
inductive Learned : SubnetTable → Prop
  | new : Learned new
  | announced {t : SubnetTable} {line : List Char} {m : SubnetMessage} (ht : Learned t)
      (hparse : parseMetaMessage line = .ok (.addSubnet m)) :
      Learned (t.addUnique (m.subnet.withOwner m.owner)).1
  | withdrawn {t : SubnetTable} (ht : Learned t) (owner : String) (subnet : Subnet) :
      Learned (t.removeOwnerSubnet owner subnet).1
  | purged {t : SubnetTable} (ht : Learned t) (owner : String) : Learned (t.removeOwner owner).1
  | expired {t : SubnetTable} (ht : Learned t) (owner : String) (now : ℤ) :
      Learned (t.removeExpiredOwnerSubnets owner now).1

/-- An announced subnet has the node that announces it as its owner, so the table is in order. -/
lemma Learned.keeps {t : SubnetTable} (h : Learned t) : t.Sorted ∧ t.AllOwned := by
  induction h with
  | new => exact ⟨List.Pairwise.nil, fun _ hs => absurd hs List.not_mem_nil⟩
  | @announced t line m _ _ ih =>
      rw [addUnique]
      split_ifs with hknown
      · exact ih
      · exact add_keeps ih.2 rfl
  | withdrawn _ owner subnet ih => exact sublist_keeps (remove_sublist _ _) ih
  | purged _ owner ih => exact sublist_keeps List.filter_sublist ih
  | expired _ owner now ih => exact sublist_keeps List.filter_sublist ih

end SubnetTable

namespace Subnet

/-- In a table in order, the octets of one type and prefix length come before the weights. -/
lemma octets_weight_of_compareTinc {s t : Subnet} (htype : s.typeOrder = t.typeOrder)
    (hlen : s.prefixLen = t.prefixLen) (h : s.compareTinc t ≠ .gt) :
    compare s.octets t.octets = .lt ∨ s.octets = t.octets ∧ s.weight ≤ t.weight := by
  have hbody : s.compareBody t ≠ .gt := by
    intro hgt
    rw [compareTinc_eq_compareBody, hgt] at h
    exact h rfl
  have hsame : s.compareBody t =
      (compare s.octets t.octets).then (compare s.weight t.weight) := by
    simp only [compareBody, compareLex, compareOn, htype, hlen, Std.ReflCmp.compare_self,
      Ordering.eq_then]
  rw [hsame] at hbody
  cases hoctets : compare s.octets t.octets with
  | lt => exact Or.inl rfl
  | gt =>
      rw [hoctets] at hbody
      exact absurd rfl hbody
  | eq =>
      rw [hoctets, Ordering.eq_then] at hbody
      exact Or.inr ⟨Std.LawfulEqOrd.eq_of_compare hoctets,
        Std.isLE_compare.mp (Ordering.isLE_iff_ne_gt.mpr hbody)⟩

end Subnet

namespace NetworkState

variable {s : NetworkState} {address : Address}

/-- A stored subnet that contains the address and has a reachable owner. -/
def Routes (s : NetworkState) (address : Address) (subnet : Subnet) : Prop :=
  subnet ∈ s.subnets.subnets ∧ subnet.Contains address ∧ s.HasReachableOwner subnet

/-- One of these with the longest prefix. -/
def MostSpecific (s : NetworkState) (address : Address) (subnet : Subnet) : Prop :=
  s.Routes address subnet ∧ ∀ other, s.Routes address other → other.prefixLen ≤ subnet.prefixLen

/-- The lookup finds the first one, in the order of the table. -/
lemma lookup_mostSpecific (hlearned : s.subnets.Learned)
    (hroute : ∃ subnet, s.MostSpecific address subnet) :
    ∃ found, s.lookupReachable address = some found ∧ s.MostSpecific address found ∧
      ∀ other, s.MostSpecific address other →
        compare found.octets other.octets = .lt ∨
          found.octets = other.octets ∧ found.weight ≤ other.weight := by
  obtain ⟨hsorted, hall⟩ := hlearned.keeps
  have hgood : ∀ subnet, s.Routes address subnet ↔ subnet ∈ s.subnets.subnets ∧
      subnet.matchesAddress address = true ∧ s.ownerReachable subnet = true := by
    intro subnet
    rw [Routes]
    refine and_congr_right fun hmem => ?_
    rw [Subnet.matchesAddress_iff, ownerReachable_iff (hall subnet hmem)]
  obtain ⟨subnet, hsubnet, hlongest⟩ := hroute
  rw [lookupReachable_eq]
  obtain ⟨found, hfound, hmem, hmatch, hreach, hfirst⟩ :=
    @RankedSearch.search_first _ (fun subnet => subnet.matchesAddress address) s.ownerReachable _
      none _ hsorted ⟨subnet, (hgood subnet).mp hsubnet⟩
  have hroute : s.Routes address found := (hgood found).mpr ⟨hmem, hmatch, hreach⟩
  have hbefore : ∀ other, s.Routes address other → other = found ∨ found.compareTinc other ≠ .gt :=
    fun other hother =>
      have h := (hgood other).mp hother
      hfirst other h.1 h.2.1 h.2.2
  have htype : ∀ other, s.Routes address other → found.typeOrder = other.typeOrder :=
    fun other hother => hroute.2.1.typeOrder_eq hother.2.1
  have hspecific : s.MostSpecific address found := by
    refine ⟨hroute, fun other hother => ?_⟩
    rcases hbefore other hother with rfl | hle
    · exact UInt8.le_refl _
    · exact Subnet.prefixLen_le_of_compareTinc (htype other hother) hle
  refine ⟨found, hfound, hspecific, fun other hother => ?_⟩
  rcases hbefore other hother.1 with rfl | hle
  · exact Or.inr ⟨rfl, le_rfl⟩
  · exact Subnet.octets_weight_of_compareTinc (htype other hother.1)
      (UInt8.le_antisymm (hother.2 found hroute) (hspecific.2 other hother.1)) hle

/-- **The least weight is found** among the most specific subnets exactly if one that has it comes
first by its octets too. Subnets that are written with the same address do not differ in their
octets; where the bits behind the prefix differ, they decide before the weight. -/
theorem lookup_least_weight_iff (hlearned : s.subnets.Learned)
    (hroute : ∃ subnet, s.MostSpecific address subnet) :
    (∃ found, s.lookupReachable address = some found ∧ s.MostSpecific address found ∧
        ∀ other, s.MostSpecific address other → found.weight ≤ other.weight) ↔
      ∃ best, s.MostSpecific address best ∧ ∀ other, s.MostSpecific address other →
        (compare best.octets other.octets).isLE ∧ best.weight ≤ other.weight := by
  obtain ⟨found, hfound, hspecific, hfirst⟩ := lookup_mostSpecific hlearned hroute
  constructor
  · rintro ⟨found', hfound', -, hleast⟩
    obtain rfl := Option.some.inj (hfound.symm.trans hfound')
    refine ⟨found, hspecific, fun other hother => ⟨?_, hleast other hother⟩⟩
    rcases hfirst other hother with hlt | ⟨heq, -⟩
    · exact Ordering.isLE_of_eq_lt hlt
    · rw [heq]
      exact Std.ReflOrd.isLE_rfl (a := other.octets)
  · rintro ⟨best, hbest, hleast⟩
    refine ⟨found, hfound, hspecific, fun other hother => ?_⟩
    rcases hfirst best hbest with hlt | ⟨-, hle⟩
    · have hback := (hleast found hspecific).1
      rw [Std.OrientedOrd.eq_swap (a := best.octets), hlt] at hback
      exact absurd hback nofun
    · exact hle.trans (hleast other hother).2

/-- Two nodes, both reachable, that announce ways to one network. -/
def twoWays (first second : SubnetMessage) : NetworkState :=
  let reachable : Node → Node := fun n => { n with status := { n.status with reachable := true } }
  let table := (SubnetTable.new.addUnique (first.subnet.withOwner first.owner)).1
  { new "alpha" with
    graph := (((Graph.new "alpha").ensureNode "beta").1.modifyNode "alpha" reachable).modifyNode
      "beta" reachable
    subnets := (table.addUnique (second.subnet.withOwner second.owner)).1 }

/-- Written with the same address, the way with the lower weight is found. -/
theorem lookup_least_weight_canonical :
    let s := twoWays ⟨1, "alpha", { kind := .ipv4 #v[10, 0, 0, 0] 8, weight := 20 }⟩
      ⟨2, "beta", { kind := .ipv4 #v[10, 0, 0, 0] 8, weight := 10 }⟩
    ∃ found, s.lookupReachable (.ipv4 #v[10, 0, 0, 5]) = some found ∧
      ∀ other, s.MostSpecific (.ipv4 #v[10, 0, 0, 5]) other → found.weight ≤ other.weight := by
  intro s
  have hfirst : parseMetaMessage "10 1 alpha 10.0.0.0/8#20".toList =
      .ok (.addSubnet ⟨1, "alpha", { kind := .ipv4 #v[10, 0, 0, 0] 8, weight := 20 }⟩) := by
    decide +kernel
  have hsecond : parseMetaMessage "10 2 beta 10.0.0.0/8".toList =
      .ok (.addSubnet ⟨2, "beta", { kind := .ipv4 #v[10, 0, 0, 0] 8, weight := 10 }⟩) := by
    decide +kernel
  have hstored : s.subnets.subnets = [⟨.ipv4 #v[10, 0, 0, 0] 8, 10, some "beta", none⟩,
      ⟨.ipv4 #v[10, 0, 0, 0] 8, 20, some "alpha", none⟩] := by
    decide +kernel
  have hall : ∀ other ∈ s.subnets.subnets, other.prefixLen ≤ 8 ∧
      (compare [10, 0, 0, 0] other.octets).isLE ∧ 10 ≤ other.weight := by
    rw [hstored]
    decide
  have hbest : s.MostSpecific (.ipv4 #v[10, 0, 0, 5])
      ⟨.ipv4 #v[10, 0, 0, 0] 8, 10, some "beta", none⟩ := by
    refine ⟨⟨?_, Subnet.matchesAddress_iff.mp (by decide), ?_⟩, fun other h => (hall other h.1).1⟩
    · rw [hstored]
      exact List.mem_cons_self
    · exact (ownerReachable_iff rfl).mp (by decide +kernel)
  obtain ⟨found, hfound, -, hleast⟩ := (lookup_least_weight_iff
    ((SubnetTable.Learned.new.announced hfirst).announced hsecond) ⟨_, hbest⟩).mpr
      ⟨_, hbest, fun other h => (hall other h.1.1).2⟩
  exact ⟨found, hfound, hleast⟩

/-- Written with different addresses, the way with the lower address is found. -/
theorem lookup_not_least_weight :
    let s := twoWays ⟨1, "alpha", { kind := .ipv4 #v[10, 0, 0, 0] 8, weight := 20 }⟩
      ⟨2, "beta", { kind := .ipv4 #v[10, 0, 0, 1] 8, weight := 10 }⟩
    s.subnets.Learned ∧ ∃ found better,
      s.lookupReachable (.ipv4 #v[10, 0, 0, 5]) = some found ∧
      s.MostSpecific (.ipv4 #v[10, 0, 0, 5]) better ∧ better.weight < found.weight := by
  intro s
  have hfirst : parseMetaMessage "10 1 alpha 10.0.0.0/8#20".toList =
      .ok (.addSubnet ⟨1, "alpha", { kind := .ipv4 #v[10, 0, 0, 0] 8, weight := 20 }⟩) := by
    decide +kernel
  have hsecond : parseMetaMessage "10 2 beta 10.0.0.1/8".toList =
      .ok (.addSubnet ⟨2, "beta", { kind := .ipv4 #v[10, 0, 0, 1] 8, weight := 10 }⟩) := by
    decide +kernel
  have hstored : s.subnets.subnets = [⟨.ipv4 #v[10, 0, 0, 0] 8, 20, some "alpha", none⟩,
      ⟨.ipv4 #v[10, 0, 0, 1] 8, 10, some "beta", none⟩] := by
    decide +kernel
  have hall : ∀ other ∈ s.subnets.subnets, other.prefixLen ≤ 8 := by
    rw [hstored]
    decide
  refine ⟨(SubnetTable.Learned.new.announced hfirst).announced hsecond,
    ⟨.ipv4 #v[10, 0, 0, 0] 8, 20, some "alpha", none⟩,
    ⟨.ipv4 #v[10, 0, 0, 1] 8, 10, some "beta", none⟩, by decide +kernel,
    ⟨⟨?_, Subnet.matchesAddress_iff.mp (by decide), ?_⟩, fun other h => hall other h.1⟩, by decide⟩
  · rw [hstored]
    exact List.mem_cons_of_mem _ List.mem_cons_self
  · exact (ownerReachable_iff rfl).mp (by decide +kernel)

end NetworkState

end RustyTinc

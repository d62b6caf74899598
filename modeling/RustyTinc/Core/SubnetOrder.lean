import RustyTinc.Core.Subnet

/-!
The order of a subnet table, kept by every operation on it.

* `Subnet.compareTinc_eq_compareKey`: on subnets with owners the order is lexicographic;
* `Subnet.compareTinc_preorder`: on all subnets it is a preorder up to the triples in which a
  subnet without owner stands between two equal subnets of different owners;
* `SubnetTable.run_sorted`: a table that only ever got subnets with owners is sorted.
-/

namespace RustyTinc

namespace Subnet

/-- The prefix length of an IP subnet. -/
def prefixLen (s : Subnet) : UInt8 :=
  match s.kind with
  | .mac _ => 0
  | .ipv4 _ prefixLen | .ipv6 _ prefixLen => prefixLen

/-- The bytes of the address. -/
def octets (s : Subnet) : List UInt8 :=
  match s.kind with
  | .mac address => address.toList
  | .ipv4 address _ => address.toList
  | .ipv6 address _ => address.toList

/-- Kinds, prefix lengths from the longest on, octets, weights and owners. -/
def compareKey : Subnet → Subnet → Ordering :=
  compareLex (compareOn typeOrder) <| compareLex (fun s t => compare t.prefixLen s.prefixLen) <|
    compareLex (compareOn octets) <| compareLex (compareOn weight) <|
      compareOn fun s => s.owner.getD ""

instance : Std.TransCmp compareKey := by
  have : Std.TransCmp fun s t : Subnet => compare t.prefixLen s.prefixLen :=
    @Std.TransCmp.opposite _ (compareOn prefixLen) _
  exact inferInstanceAs (Std.TransCmp (compareLex _ _))

/-- **On subnets with owners the order of the table is lexicographic.** -/
lemma compareTinc_eq_compareKey {s t : Subnet} (hs : s.owner.isSome) (ht : t.owner.isSome) :
    s.compareTinc t = s.compareKey t := by
  obtain ⟨x, hx⟩ := Option.isSome_iff_exists.mp hs
  obtain ⟨y, hy⟩ := Option.isSome_iff_exists.mp ht
  obtain ⟨skind, sweight, _, sexpires⟩ := s
  obtain ⟨tkind, tweight, _, texpires⟩ := t
  cases hx
  cases hy
  cases skind <;> cases tkind <;>
    simp [compareTinc, compareKey, compareLex, compareOn, typeOrder, prefixLen, octets,
      compareIpCommon, compareCommon, Ordering.then_assoc]
  all_goals rfl

/-! ### Subnets without owner -/

/-- Kinds, prefix lengths from the longest on, octets and weights: what is compared whether or
not there are owners. -/
def compareBody : Subnet → Subnet → Ordering :=
  compareLex (compareOn typeOrder) <| compareLex (fun s t => compare t.prefixLen s.prefixLen) <|
    compareLex (compareOn octets) <| compareOn weight

/-- Owners are compared when both subnets have one. -/
def compareOwners (s t : Subnet) : Ordering :=
  match s.owner, t.owner with
  | some x, some y => compare x y
  | _, _ => .eq

instance : Std.TransCmp compareBody := by
  have : Std.TransCmp fun s t : Subnet => compare t.prefixLen s.prefixLen :=
    @Std.TransCmp.opposite _ (compareOn prefixLen) _
  exact inferInstanceAs (Std.TransCmp (compareLex _ _))

lemma compareTinc_eq_compareBody (s t : Subnet) :
    s.compareTinc t = (s.compareBody t).then (s.compareOwners t) := by
  obtain ⟨skind, sweight, sowner, sexpires⟩ := s
  obtain ⟨tkind, tweight, towner, texpires⟩ := t
  cases skind <;> cases tkind <;>
    simp [compareTinc, compareBody, compareOwners, compareLex, compareOn, typeOrder, prefixLen,
      octets, compareIpCommon, compareCommon, Ordering.then_assoc]
  all_goals rfl

/-- The body of a subnet is its kind and its weight. -/
lemma compareBody_eq_iff {s t : Subnet} :
    s.compareBody t = .eq ↔ s.kind = t.kind ∧ s.weight = t.weight := by
  obtain ⟨skind, sweight, sowner, sexpires⟩ := s
  obtain ⟨tkind, tweight, towner, texpires⟩ := t
  cases skind <;> cases tkind <;>
    simp [compareBody, compareLex, compareOn, typeOrder, prefixLen, octets, Ordering.then_eq_eq,
      Vector.toList_inj, and_assoc]
  all_goals tauto

lemma compareOwners_swap (s t : Subnet) : s.compareOwners t = (t.compareOwners s).swap := by
  rw [compareOwners, compareOwners]
  cases s.owner <;> cases t.owner
  case some.some x y => exact Std.OrientedOrd.eq_swap (a := x)
  all_goals rfl

/-- A subnet without owner that equals two subnets of different owners. -/
def Bridges (b a c : Subnet) : Prop :=
  b.owner = none ∧ a.owner.isSome ∧ c.owner.isSome ∧ a.owner ≠ c.owner ∧
    (a.kind = b.kind ∧ a.weight = b.weight) ∧ b.kind = c.kind ∧ b.weight = c.weight

instance (b a c : Subnet) : Decidable (b.Bridges a c) :=
  inferInstanceAs (Decidable (_ ∧ _ ∧ _ ∧ _ ∧ _ ∧ _))

/-- Between owners that a subnet does not bridge the comparison of owners is transitive. -/
lemma compareOwners_trans {a b c : Subnet} (hab : (a.compareOwners b).isLE)
    (hbc : (b.compareOwners c).isLE)
    (hb : b.owner = none → a.owner.isSome → c.owner.isSome → a.owner = c.owner) :
    (a.compareOwners c).isLE := by
  unfold compareOwners at *
  rcases ha : a.owner with _ | x
  · rfl
  rcases hc : c.owner with _ | z
  · rfl
  rcases hbo : b.owner with _ | y
  · rw [ha, hc] at hb
    rw [Option.some.inj (hb hbo rfl rfl)]
    exact (Std.ReflOrd.isLE_rfl : (compare z z).isLE)
  · simp only [ha, hbo, hc] at hab hbc
    exact Std.TransOrd.isLE_trans hab hbc

/-- The order is transitive where no subnet bridges two owners. -/
lemma compareTinc_isLE_trans {a b c : Subnet} (h : ¬ b.Bridges a c)
    (hab : (a.compareTinc b).isLE) (hbc : (b.compareTinc c).isLE) : (a.compareTinc c).isLE := by
  rw [compareTinc_eq_compareBody, Ordering.isLE_then_iff_or] at *
  rcases hab with hab | ⟨hab, habo⟩
  · refine Or.inl (Std.TransCmp.lt_of_lt_of_isLE hab ?_)
    rcases hbc with hbc | ⟨hbc, -⟩ <;> rw [hbc] <;> rfl
  · rcases hbc with hbc | ⟨hbc, hbco⟩
    · exact Or.inl (Std.TransCmp.lt_of_eq_of_lt hab hbc)
    · refine Or.inr ⟨Std.TransCmp.eq_trans hab hbc, compareOwners_trans habo hbco ?_⟩
      intro hb ha hc
      by_contra hac
      exact h ⟨hb, ha, hc, hac, compareBody_eq_iff.mp hab, compareBody_eq_iff.mp hbc⟩

lemma compareTinc_swap (a b : Subnet) : a.compareTinc b = (b.compareTinc a).swap := by
  rw [compareTinc_eq_compareBody, compareTinc_eq_compareBody, Ordering.swap_then,
    ← compareOwners_swap, ← Std.OrientedCmp.eq_swap]

lemma Bridges.symm {a b c : Subnet} (h : b.Bridges a c) : b.Bridges c a :=
  ⟨h.1, h.2.2.1, h.2.1, h.2.2.2.1.symm, ⟨h.2.2.2.2.2.1.symm, h.2.2.2.2.2.2.symm⟩,
    h.2.2.2.2.1.1.symm, h.2.2.2.2.1.2.symm⟩

/-- Comparing equal is transitive, except over a subnet without an owner. -/
lemma compareTinc_eq_trans {a b c : Subnet} (h : ¬ b.Bridges a c) (hab : a.compareTinc b = .eq)
    (hbc : b.compareTinc c = .eq) : a.compareTinc c = .eq := by
  have hac : (a.compareTinc c).isLE :=
    compareTinc_isLE_trans h (Ordering.isLE_of_eq_eq hab) (Ordering.isLE_of_eq_eq hbc)
  rw [compareTinc_swap, Ordering.swap_eq_eq] at hab hbc
  have hca : (c.compareTinc a).isLE :=
    compareTinc_isLE_trans (fun hb => h hb.symm) (Ordering.isLE_of_eq_eq hbc)
      (Ordering.isLE_of_eq_eq hab)
  rw [compareTinc_swap] at hca
  cases hcomp : a.compareTinc c with
  | eq => rfl
  | lt => rw [hcomp] at hca; exact absurd hca nofun
  | gt => rw [hcomp] at hac; exact absurd hac nofun

/-- A bridge equals both its neighbours, which do not equal each other. -/
lemma Bridges.not_eq_trans {a b c : Subnet} (h : b.Bridges a c) :
    a.compareTinc b = .eq ∧ b.compareTinc c = .eq ∧ a.compareTinc c ≠ .eq := by
  obtain ⟨hb, ha, hc, hne, hab, hbc⟩ := h
  simp only [compareTinc_eq_compareBody, Ordering.then_eq_eq, compareBody_eq_iff]
  refine ⟨⟨hab, ?_⟩, ⟨hbc, ?_⟩, fun hac => hne ?_⟩
  · rw [compareOwners, hb]
    cases a.owner <;> rfl
  · rw [compareOwners, hb]
  · obtain ⟨x, hx⟩ := Option.isSome_iff_exists.mp ha
    obtain ⟨z, hz⟩ := Option.isSome_iff_exists.mp hc
    have howners := (Ordering.then_eq_eq.mp hac).2
    rw [compareOwners, hx, hz] at howners
    rw [hx, hz, Std.LawfulEqOrd.eq_of_compare howners]

/-- **The comparison is a total preorder up to bridges**: turning the arguments round turns the
result round, and the order and the equality it gives are transitive on three subnets unless the
middle one bridges the other two; where it does, equality is not transitive. -/
theorem compareTinc_preorder (a b c : Subnet) :
    a.compareTinc b = (b.compareTinc a).swap ∧
      (¬ b.Bridges a c → (a.compareTinc b).isLE → (b.compareTinc c).isLE →
        (a.compareTinc c).isLE) ∧
      ((a.compareTinc b = .eq → b.compareTinc c = .eq → a.compareTinc c = .eq) ↔
        ¬ b.Bridges a c) := by
  refine ⟨compareTinc_swap a b, compareTinc_isLE_trans, fun htrans h => ?_, compareTinc_eq_trans⟩
  obtain ⟨hab, hbc, hac⟩ := h.not_eq_trans
  exact hac (htrans hab hbc)

/-- Three owners of one network. -/
theorem compareTinc_preorder_owned :
    (compareTinc ⟨.ipv4 #v[10, 0, 0, 0] 8, 10, some "a", none⟩
      ⟨.ipv4 #v[10, 0, 0, 0] 8, 10, some "c", none⟩).isLE :=
  (compareTinc_preorder _ ⟨.ipv4 #v[10, 0, 0, 0] 8, 10, some "b", none⟩ _).2.1 (by decide)
    (by decide) (by decide)

/-- A subnet without owner between the same subnet of two nodes. -/
theorem compareTinc_not_trans :
    ∃ a b c : Subnet, (a.compareTinc b).isLE ∧ (b.compareTinc c).isLE ∧
      ¬ (a.compareTinc c).isLE := by
  refine ⟨⟨.ipv4 #v[10, 0, 0, 0] 8, 10, some "b", none⟩, ⟨.ipv4 #v[10, 0, 0, 0] 8, 10, none, none⟩,
    ⟨.ipv4 #v[10, 0, 0, 0] 8, 10, some "a", none⟩, ?_⟩
  decide

end Subnet

namespace SubnetTable

/-- An operation on a table. -/
inductive Operation where
  | add (subnet : Subnet)
  | addUnique (subnet : Subnet)
  | remove (subnet : Subnet)
  | removeOwnerSubnet (owner : String) (subnet : Subnet)
  | removeOwner (owner : String)
  | removeExpiredOwnerSubnets (owner : String) (now : ℤ)

/-- The table after an operation. -/
def perform (t : SubnetTable) : Operation → SubnetTable
  | .add subnet => t.add subnet
  | .addUnique subnet => (t.addUnique subnet).1
  | .remove subnet => (t.remove subnet).1
  | .removeOwnerSubnet owner subnet => (t.removeOwnerSubnet owner subnet).1
  | .removeOwner owner => (t.removeOwner owner).1
  | .removeExpiredOwnerSubnets owner now => (t.removeExpiredOwnerSubnets owner now).1

/-- The table after a sequence of operations on an empty one. -/
def run (operations : List Operation) : SubnetTable := operations.foldl perform new

/-- The table is in the order of `compareTinc`. -/
def Sorted (t : SubnetTable) : Prop := t.subnets.Pairwise fun a b => a.compareTinc b ≠ .gt

/-- Every subnet has an owner. -/
def AllOwned (t : SubnetTable) : Prop := ∀ s ∈ t.subnets, s.owner.isSome

instance (t : SubnetTable) : Decidable t.Sorted :=
  inferInstanceAs (Decidable (t.subnets.Pairwise _))

instance (t : SubnetTable) : Decidable t.AllOwned :=
  inferInstanceAs (Decidable (∀ s ∈ t.subnets, s.owner.isSome))

/-- Sorting compares with a total preorder when every subnet has an owner. -/
lemma insertionSort_sorted {subnets : List Subnet} (h : ∀ s ∈ subnets, s.owner.isSome) :
    (subnets.insertionSort fun a b => a.compareTinc b ≠ .gt).Pairwise
      fun a b => a.compareTinc b ≠ .gt := by
  have hsame : (subnets.insertionSort fun a b => a.compareTinc b ≠ .gt) =
      subnets.insertionSort fun a b => a.compareKey b ≠ .gt := by
    have hmap := List.map_insertionSort (r := fun a b => a.compareTinc b ≠ .gt)
      (s := fun a b => a.compareKey b ≠ .gt) id subnets fun a ha b hb => by
        rw [Subnet.compareTinc_eq_compareKey (h a ha) (h b hb)]
        rfl
    simpa using hmap
  have : Std.Total fun a b : Subnet => a.compareKey b ≠ .gt := ⟨fun a b => by
    rw [@Std.OrientedCmp.eq_swap _ Subnet.compareKey _ b]
    cases a.compareKey b <;> simp⟩
  have : IsTrans Subnet fun a b => a.compareKey b ≠ .gt := ⟨fun a b c hab hbc =>
    Ordering.isLE_iff_ne_gt.mp (Std.TransCmp.isLE_trans (Ordering.isLE_iff_ne_gt.mpr hab)
      (Ordering.isLE_iff_ne_gt.mpr hbc))⟩
  have hsorted := List.pairwise_insertionSort (fun a b : Subnet => a.compareKey b ≠ .gt) subnets
  rw [hsame]
  refine hsorted.imp_of_mem fun ha hb hab => ?_
  rw [List.mem_insertionSort] at ha hb
  rwa [Subnet.compareTinc_eq_compareKey (h _ ha) (h _ hb)]

section Operations

variable {t : SubnetTable}

lemma add_keeps {subnet : Subnet} (howned : t.AllOwned) (hsubnet : subnet.owner.isSome) :
    (t.add subnet).Sorted ∧ (t.add subnet).AllOwned := by
  have hall : ∀ s ∈ t.subnets ++ [subnet], s.owner.isSome := by
    intro s hs
    rcases List.mem_append.mp hs with hs | hs
    · exact howned s hs
    · rwa [List.mem_singleton.mp hs]
  refine ⟨insertionSort_sorted hall, fun s hs => hall s ?_⟩
  rw [add] at hs
  exact (List.mem_insertionSort _).mp hs

/-- What is left of a table in order is in order. -/
lemma sublist_keeps {t' : SubnetTable} (hsub : t'.subnets.Sublist t.subnets)
    (h : t.Sorted ∧ t.AllOwned) : t'.Sorted ∧ t'.AllOwned :=
  ⟨h.1.sublist hsub, fun s hs => h.2 s (hsub.subset hs)⟩

lemma remove_sublist (t : SubnetTable) (subnet : Subnet) :
    (t.remove subnet).1.subnets.Sublist t.subnets := by
  rw [remove]
  split
  · exact List.Sublist.refl _
  · exact List.eraseIdx_sublist ..

/-- **Every operation keeps the order**, when every subnet has an owner after it. -/
lemma perform_keeps (h : t.Sorted ∧ t.AllOwned) (operation : Operation)
    (howned : (t.perform operation).AllOwned) :
    (t.perform operation).Sorted ∧ (t.perform operation).AllOwned := by
  have hadd : ∀ subnet, (t.add subnet).AllOwned → subnet.owner.isSome :=
    fun subnet hall => hall subnet (mem_add.mpr (Or.inr rfl))
  cases operation with
  | add subnet => exact add_keeps h.2 (hadd subnet howned)
  | addUnique subnet =>
      rw [perform, addUnique] at howned ⊢
      split_ifs at howned ⊢
      · exact h
      · exact add_keeps h.2 (hadd subnet howned)
  | remove subnet => exact sublist_keeps (remove_sublist t subnet) h
  | removeOwnerSubnet owner subnet => exact sublist_keeps (remove_sublist t _) h
  | removeOwner owner => exact sublist_keeps List.filter_sublist h
  | removeExpiredOwnerSubnets owner now => exact sublist_keeps List.filter_sublist h

end Operations

/-- **Runs**: a table is in order when on the way to it every subnet had an owner. -/
theorem run_sorted (operations : List Operation)
    (howned : ∀ before, before <+: operations → (run before).AllOwned) :
    (run operations).Sorted := by
  have hkeeps : (run operations).Sorted ∧ (run operations).AllOwned := by
    induction operations using List.reverseRecOn with
    | nil => exact ⟨List.Pairwise.nil, howned [] List.prefix_rfl⟩
    | append_singleton operations operation ih =>
        have hrun : run (operations ++ [operation]) = (run operations).perform operation := by
          rw [run, List.foldl_append]
          rfl
        have hbefore := ih fun before hbelow =>
          howned before (hbelow.trans (List.prefix_append _ _))
        have hall := howned _ List.prefix_rfl
        rw [hrun] at hall ⊢
        exact perform_keeps hbefore operation hall
  exact hkeeps.1

end SubnetTable

end RustyTinc

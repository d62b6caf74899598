import RustyTinc.Library.OrdMap
import Mathlib.Data.String.Basic

/-!
The table of the addresses of the nodes, read in both directions.

* `NodeAddressTable.Inverse`: an address resolves to a node exactly when the node lists it;
* `inverse_apply_iff`: an operation keeps this exactly when its address does not belong to another
  node;
* `inverse_run_iff`: hence so does a sequence of operations.
-/

namespace RustyTinc

/-- The table, for any type of socket addresses. -/
structure NodeAddressTable (A : Type) [LinearOrder A] where
  byName : OrdMap String (List A)
  byAddr : OrdMap A String

namespace NodeAddressTable

variable {A : Type} [LinearOrder A]

/-- No addresses. -/
def new : NodeAddressTable A := ⟨.empty, .empty⟩

/-- Removes reverse entries, whoever they belong to. -/
def forget (byAddr : OrdMap A String) (addresses : List A) : OrdMap A String :=
  addresses.foldl OrdMap.erase byAddr

/-- A node has this address only; the first of the old ones is given back. -/
def insert (t : NodeAddressTable A) (name : String) (address : A) :
    NodeAddressTable A × Option A :=
  let previous := t.byName.get? name
  let byName := t.byName.insert name [address]
  let byAddr := match previous with
    | some previous => forget t.byAddr previous
    | none => t.byAddr
  (⟨byName, byAddr.insert address name⟩, previous.bind List.head?)

/-- `self.by_name.entry(name).or_default()` -/
def entry (t : NodeAddressTable A) (name : String) : List A := (t.byName.get? name).getD []

/-- A node has one more address, which comes last. -/
def push (t : NodeAddressTable A) (name : String) (address : A) : NodeAddressTable A :=
  let addresses := t.entry name
  if address ∈ addresses then { t with byName := t.byName.insert name addresses }
  else ⟨t.byName.insert name (addresses ++ [address]), t.byAddr.insert address name⟩

/-- An address of a node comes first. -/
def promote (t : NodeAddressTable A) (name : String) (address : A) : NodeAddressTable A :=
  let addresses := t.entry name
  let promoted :=
    if address ∈ addresses then
      let pos := addresses.idxOf address
      if 0 < pos then address :: addresses.eraseIdx pos else addresses
    else address :: addresses
  ⟨t.byName.insert name promoted, t.byAddr.insert address name⟩

/-- The addresses of a node. -/
def addresses (t : NodeAddressTable A) (name : String) : Option (List A) := t.byName.get? name

/-- The node with an address. -/
def node (t : NodeAddressTable A) (address : A) : Option String := t.byAddr.get? address

/-- A node leaves; the first of its addresses is given back. -/
def remove (t : NodeAddressTable A) (name : String) : NodeAddressTable A × Option A :=
  match t.byName.get? name with
  | none => (t, none)
  | some addresses => (⟨t.byName.erase name, forget t.byAddr addresses⟩, addresses.head?)

/-- A node lists an address. -/
def Lists (t : NodeAddressTable A) (name : String) (address : A) : Prop :=
  ∃ addresses, t.addresses name = some addresses ∧ address ∈ addresses

/-- **The two maps are inverse.** -/
def Inverse (t : NodeAddressTable A) : Prop :=
  ∀ address name, t.node address = some name ↔ t.Lists name address

end NodeAddressTable

/-- The operations that change the table. -/
inductive AddressOp (A : Type) where
  | insert (name : String) (address : A)
  | push (name : String) (address : A)
  | promote (name : String) (address : A)
  | remove (name : String)

namespace NodeAddressTable

variable {A : Type} [LinearOrder A]

/-- The table after an operation. -/
def apply (t : NodeAddressTable A) : AddressOp A → NodeAddressTable A
  | .insert name address => (t.insert name address).1
  | .push name address => t.push name address
  | .promote name address => t.promote name address
  | .remove name => (t.remove name).1

/-- The table after some operations. -/
def run (t : NodeAddressTable A) (ops : List (AddressOp A)) : NodeAddressTable A :=
  ops.foldl apply t

/-- The address that an operation gives to a node does not belong to another node. -/
def Free (t : NodeAddressTable A) : AddressOp A → Prop
  | .insert name address | .push name address | .promote name address =>
      ∀ owner, t.node address = some owner → owner = name
  | .remove _ => True

/-! ### What the operations do -/

variable {t : NodeAddressTable A} {name owner : String} {address a : A}

lemma get?_forget (byAddr : OrdMap A String) (addresses : List A) (a : A) :
    (forget byAddr addresses).get? a = if a ∈ addresses then none else byAddr.get? a := by
  induction addresses generalizing byAddr with
  | nil => rfl
  | cons address addresses ih =>
      show (forget (byAddr.erase address) addresses).get? a = _
      rw [ih, OrdMap.get?_erase]
      by_cases ha : a = address
      · simp [ha]
      · simp [ha]

lemma mem_entry : a ∈ t.entry name ↔ t.Lists name a := by
  rw [entry, Lists, addresses]
  cases t.byName.get? name <;> simp

lemma lists_of_insert {byName : OrdMap String (List A)} {byAddr : OrdMap A String}
    (l : List A) : (⟨byName.insert name l, byAddr⟩ : NodeAddressTable A).Lists owner a ↔
      if owner = name then a ∈ l else (⟨byName, byAddr⟩ : NodeAddressTable A).Lists owner a := by
  simp only [Lists, addresses, OrdMap.get?_insert]
  split_ifs with h <;> simp

lemma lists_insert : ((t.insert name address).1).Lists owner a ↔
    if owner = name then a = address else t.Lists owner a := by
  rw [insert, lists_of_insert, List.mem_singleton]
  rfl

/-- The reverse entries after an insertion: those of the addresses that the node listed are gone. -/
lemma node_insert : ((t.insert name address).1).node a =
    if a = address then some name else if a ∈ t.entry name then none else t.node a := by
  rw [insert, node, OrdMap.get?_insert, entry]
  refine if_congr Iff.rfl rfl ?_
  cases t.byName.get? name with
  | none => simp [node]
  | some previous => exact get?_forget _ _ _

/-- The address is listed for its owner, and nothing else changes. -/
lemma lists_push : (t.push name address).Lists owner a ↔
    if owner = name then a = address ∨ a ∈ t.entry name else t.Lists owner a := by
  rw [push]
  split_ifs with hmem hname hname
  · rw [lists_of_insert, if_pos hname]
    refine ⟨Or.inr, ?_⟩
    rintro (rfl | ha)
    · exact hmem
    · exact ha
  · rw [lists_of_insert, if_neg hname]
  · rw [lists_of_insert, if_pos hname, List.mem_append, List.mem_singleton, or_comm]
  · rw [lists_of_insert, if_neg hname]
    rfl

lemma node_push : (t.push name address).node a =
    if a = address ∧ address ∉ t.entry name then some name else t.node a := by
  rw [push]
  split_ifs with hmem hnew hnew
  · exact absurd hmem hnew.2
  · rfl
  · rw [node, OrdMap.get?_insert, if_pos hnew.1]
  · rw [node, OrdMap.get?_insert, if_neg fun ha => hnew ⟨ha, hmem⟩]
    rfl

/-- The address is listed for its owner, and nothing else changes. -/
lemma lists_promote : (t.promote name address).Lists owner a ↔
    if owner = name then a = address ∨ a ∈ t.entry name else t.Lists owner a := by
  rw [promote, lists_of_insert]
  by_cases hname : owner = name
  · rw [if_pos hname, if_pos hname]
    by_cases hmem : address ∈ t.entry name
    · have hold : a = address ∨ a ∈ t.entry name ↔ a ∈ t.entry name :=
        or_iff_right_of_imp fun ha => ha.symm ▸ hmem
      rw [if_pos hmem, hold]
      show a ∈ (if _ then _ else _) ↔ _
      split_ifs
      · -- what is moved to the front stays a member
        have hperm := List.getElem_cons_eraseIdx_perm (List.idxOf_lt_length_of_mem hmem)
        rw [List.getElem_idxOf] at hperm
        exact hperm.mem_iff
      · rfl
    · rw [if_neg hmem]
      exact List.mem_cons
  · rw [if_neg hname, if_neg hname]
    rfl

lemma node_promote : (t.promote name address).node a =
    if a = address then some name else t.node a :=
  OrdMap.get?_insert _ _ _ _

/-- Nothing is listed for the owner, and nothing else changes. -/
lemma lists_remove : ((t.remove name).1).Lists owner a ↔ owner ≠ name ∧ t.Lists owner a := by
  rw [remove]
  cases hname : t.byName.get? name with
  | none =>
      refine ⟨fun hlists => ⟨?_, hlists⟩, And.right⟩
      rintro rfl
      obtain ⟨l, hl, -⟩ := hlists
      rw [addresses, hname] at hl
      cases hl
  | some l =>
      simp only [Lists, addresses, OrdMap.get?_erase]
      split_ifs with h <;> simp [h]

lemma node_remove : ((t.remove name).1).node a =
    if a ∈ t.entry name then none else t.node a := by
  rw [remove, entry]
  cases t.byName.get? name with
  | none => simp
  | some l => exact get?_forget _ _ _

/-! ### When the maps stay inverse -/

lemma inverse_new : (new : NodeAddressTable A).Inverse := by
  intro a name
  refine iff_of_false (by simp [new, node]) ?_
  rintro ⟨l, hl, -⟩
  simp [new, addresses] at hl

/-- The addresses of one node are not those of another. -/
lemma Inverse.unique (h : t.Inverse) (hname : t.Lists name a) (howner : t.Lists owner a) :
    owner = name :=
  Option.some.inj (((h a owner).mpr howner).symm.trans ((h a name).mpr hname))

/-- A node `name` gets an address, and keeps those of its addresses that satisfy `K`. -/
lemma inverse_give_iff (h : t.Inverse) {t' : NodeAddressTable A} {K : A → Prop}
    [DecidablePred K] (hK : ∀ a, K a → t.node a = some name)
    (hlists : ∀ owner a, t'.Lists owner a ↔
      if owner = name then a = address ∨ K a else t.Lists owner a)
    (hnode : ∀ a, t'.node a =
      if a = address then some name
      else if t.node a = some name ∧ ¬ K a then none else t.node a) :
    t'.Inverse ↔ ∀ owner, t.node address = some owner → owner = name := by
  constructor
  · intro h' owner howner
    by_contra hne
    have hold : t'.Lists owner address := by
      rw [hlists, if_neg hne]
      exact (h address owner).mp howner
    have hnew := (h' address owner).mpr hold
    rw [hnode, if_pos rfl] at hnew
    exact hne (Option.some.inj hnew).symm
  · intro hfree a owner
    rw [hlists, hnode]
    by_cases ha : a = address
    · subst ha
      rw [if_pos rfl, Option.some.injEq]
      split_ifs with hname
      · exact iff_of_true hname.symm (Or.inl rfl)
      · refine iff_of_false (Ne.symm hname) fun hold => hname ?_
        exact hfree owner ((h a owner).mpr hold)
    · rw [if_neg ha, or_iff_right ha]
      split_ifs with hgone hname hname
      · exact iff_of_false (by simp) hgone.2
      · refine iff_of_false (by simp) fun hold => hname ?_
        exact Option.some.inj (((h a owner).mpr hold).symm.trans hgone.1)
      · subst hname
        exact ⟨fun hown => not_not.mp fun hK => hgone ⟨hown, hK⟩, hK a⟩
      · exact h a owner

/-- **An operation keeps the maps inverse exactly when its address is free for its node.** -/
lemma inverse_apply_iff (h : t.Inverse) (op : AddressOp A) :
    (t.apply op).Inverse ↔ t.Free op := by
  have hentry : ∀ name a, a ∈ t.entry name ↔ t.node a = some name := fun name a =>
    mem_entry.trans (h a name).symm
  cases op with
  | insert name address =>
      refine inverse_give_iff (K := fun _ => False) h (fun a ha => ha.elim) ?_ ?_
      · intro owner a
        rw [apply, lists_insert, or_false]
      · intro a
        simp only [apply, node_insert, hentry, not_false_eq_true, and_true]
  | push name address =>
      refine inverse_give_iff (K := (· ∈ t.entry name)) h (fun a => (hentry name a).mp) ?_ ?_
      · exact fun owner a => lists_push
      · intro a
        rw [apply, node_push]
        by_cases ha : a = address
        · subst ha
          by_cases hmem : a ∈ t.entry name
          · simp [hmem, (hentry name a).mp hmem]
          · simp [hmem]
        · simp [ha, hentry]
  | promote name address =>
      refine inverse_give_iff (K := (· ∈ t.entry name)) h (fun a => (hentry name a).mp) ?_ ?_
      · exact fun owner a => lists_promote
      · intro a
        simp [apply, node_promote, hentry]
  | remove name =>
      refine iff_of_true (fun a owner => ?_) trivial
      rw [apply, lists_remove, node_remove]
      split_ifs with hmem
      · refine iff_of_false (by simp) fun hlists => hlists.1 ?_
        exact Option.some.inj (((h a owner).mpr hlists.2).symm.trans ((hentry name a).mp hmem))
      · rw [h a owner, iff_and_self]
        rintro hlists rfl
        exact hmem (mem_entry.mpr hlists)

/-- **The maps stay inverse along a sequence of operations exactly when each of them gives an
address to a node only while it belongs to no other node.** -/
theorem inverse_run_iff (ops : List (AddressOp A)) :
    (∀ before, before <+: ops → ((new : NodeAddressTable A).run before).Inverse) ↔
      ∀ before op after, ops = before ++ op :: after →
        ((new : NodeAddressTable A).run before).Free op := by
  have hconcat : ∀ before op, (new : NodeAddressTable A).run (before ++ [op]) =
      ((new : NodeAddressTable A).run before).apply op := fun before op => List.foldl_append
  constructor
  · rintro h before op after rfl
    refine (inverse_apply_iff (h before (List.prefix_append _ _)) op).mp ?_
    rw [← hconcat]
    exact h _ ⟨after, by rw [List.append_assoc]; rfl⟩
  · intro h before hbefore
    induction before using List.reverseRecOn with
    | nil => exact inverse_new
    | append_singleton before op ih =>
        obtain ⟨after, hops⟩ := hbefore
        rw [List.append_assoc] at hops
        rw [hconcat, inverse_apply_iff (ih ⟨_, hops⟩)]
        exact h before op after hops.symm

/-- The host and the port of an IPv4 socket, in the order in which such addresses are sorted. -/
abbrev SocketAddrV4 := Fin (2 ^ 32) ×ₗ Fin (2 ^ 16)

/-- Two nodes behind one address, 10.0.0.1:655. -/
theorem not_inverse_shared :
    ¬ ∀ ops : List (AddressOp SocketAddrV4),
      ((new : NodeAddressTable SocketAddrV4).run ops).Inverse := by
  intro h
  let shared : SocketAddrV4 := toLex (0x0a000001, 655)
  have hlists := (h [.insert "alpha" shared, .insert "beta" shared] shared "alpha").mpr
    ⟨[shared], by decide, List.mem_cons_self⟩
  exact absurd hlists (by decide)

end NodeAddressTable

end RustyTinc

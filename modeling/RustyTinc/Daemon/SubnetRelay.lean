import RustyTinc.Core.PastRequests
import RustyTinc.Core.State

/-!
How a daemon handles announcements of subnets: duplicates are dropped, wrong claims about its own
subnets are corrected, and everything new is applied and passed on.

* `applyMetaStep`: one announcement that arrives from a peer;
* `changeSubnet`: one change to the own subnets;
* `applyMetaStep_mesh`: what an announcement brings about in mesh mode, in every case.
-/

namespace RustyTinc

/-- The part of the state of a daemon that is about announcements. -/
structure RuntimeDaemonState where
  localName : String
  state : NetworkState
  tunnelServer : Bool
  strictSubnets : Bool
  strictForwardedTopology : List SubnetAnnouncement
  nextMetaNonce : UInt32
  pastRequests : PastRequestCache

/-- What a daemon sends in return: to the peer, and to all peers but one. -/
structure StepOutput where
  responses : List SubnetAnnouncement := []
  broadcasts : List (Option String × SubnetAnnouncement) := []

namespace RuntimeDaemonState

/-- The nonce of the next announcement. -/
def nextNonce (d : RuntimeDaemonState) : UInt32 × RuntimeDaemonState :=
  (d.nextMetaNonce, { d with nextMetaNonce := d.nextMetaNonce + 1 })

/-- Whether an announcement was seen before; it has been from now on. -/
def markSeenRuntimeMessage (d : RuntimeDaemonState) (a : SubnetAnnouncement) (nowSecs : ℕ) :
    RuntimeDaemonState × Bool :=
  let (pastRequests, seen) := d.pastRequests.markSeen a.display nowSecs
  ({ d with pastRequests }, seen)

/-- Whether an end of an edge is the daemon or the peer itself. -/
def tunnelServerDirectEdgeEndpoint (myself peer endpoint : String) : Bool :=
  endpoint = myself || peer = endpoint

/-- The announcement was passed on although it is not applied. -/
def rememberStrictForwardedTopology (d : RuntimeDaemonState) (a : SubnetAnnouncement) :
    RuntimeDaemonState :=
  if a ∈ d.strictForwardedTopology then d
  else { d with strictForwardedTopology := d.strictForwardedTopology ++ [a] }

/-- A correction of a claim about an own subnet. -/
def correction (d : RuntimeDaemonState) (request : SubnetRequest) (subnet : Subnet) :
    RuntimeDaemonState × StepOutput :=
  let (nonce, d) := d.nextNonce
  (d, { responses := [⟨request, ⟨nonce, d.localName, subnet⟩⟩] })

/-- Whether an announcement is done with here, and what is sent in return. -/
def handleTopologyRelayMessage (d : RuntimeDaemonState) (peer : String) (a : SubnetAnnouncement) :
    (RuntimeDaemonState × StepOutput) × Bool :=
  let message := a.message
  let existing := d.state.subnets.lookupOwnerSubnet message.owner message.subnet
  match a.request with
  | .addSubnet =>
      if existing.isSome then ((d, {}), true)
      else if message.owner = d.localName then (d.correction .deleteSubnet message.subnet, true)
      else if d.tunnelServer then ((d, {}), true)
      else if d.strictSubnets then
        let graph := (d.state.graph.ensureNode message.owner).1
        let d := { d with state := { d.state with graph } }
        ((d.rememberStrictForwardedTopology a, { broadcasts := [(some peer, a)] }), true)
      else ((d, {}), false)
  | .deleteSubnet =>
      if d.tunnelServer && !tunnelServerDirectEdgeEndpoint d.localName peer message.owner then
        ((d, {}), true)
      else match existing with
        | none =>
            if d.strictSubnets && (d.state.graph.node message.owner).isSome then
              ((d.rememberStrictForwardedTopology a, { broadcasts := [(some peer, a)] }), true)
            else ((d, {}), true)
        | some existing =>
            if message.owner = d.localName then (d.correction .addSubnet existing, true)
            else if d.tunnelServer then ((d, {}), true)
            else if d.strictSubnets then
              ((d.rememberStrictForwardedTopology a, { broadcasts := [(some peer, a)] }), true)
            else ((d, {}), false)

/-- What an announcement changes in the network. -/
def applyRuntimeMetaMessage (d : RuntimeDaemonState) (a : SubnetAnnouncement) :
    RuntimeDaemonState :=
  let state := match a.request with
    | .addSubnet => (d.state.applyAddSubnet a.message).1
    | .deleteSubnet => (d.state.applyDeleteSubnet a.message).1
  { d with state }

/-- An announcement arrives from a peer. -/
def applyMetaStep (d : RuntimeDaemonState) (nowSecs : ℕ) (peer : String) (a : SubnetAnnouncement) :
    RuntimeDaemonState × StepOutput :=
  let (d, seen) := d.markSeenRuntimeMessage a nowSecs
  if seen then (d, {})
  else
    let ((d, out), handled) := d.handleTopologyRelayMessage peer a
    if handled then (d, out)
    else
      let d := d.applyRuntimeMetaMessage a
      let broadcasts := if d.tunnelServer then [] else [(some peer, a)]
      (d, { out with broadcasts := out.broadcasts ++ broadcasts })

/-- A daemon learns an own subnet, or an own subnet expires: it edits its table, and the
announcement goes to all peers. There is nothing to announce when the table stays as it is. -/
def changeSubnet (d : RuntimeDaemonState) (request : SubnetRequest) (subnet : Subnet) :
    Option (RuntimeDaemonState × SubnetAnnouncement) :=
  let subnet := subnet.withOwner d.localName
  let edit : Option SubnetTable := match request with
    | .addSubnet =>
        let (subnets, inserted) := d.state.subnets.addUnique subnet
        if inserted then some subnets else none
    | .deleteSubnet =>
        let (subnets, removed) := d.state.subnets.removeOwnerSubnet d.localName subnet
        if removed.isSome then some subnets else none
  edit.map fun subnets =>
    let (nonce, d) := d.nextNonce
    ({ d with state := { d.state with subnets } },
      ⟨request, ⟨nonce, d.localName, { subnet with owner := none }⟩⟩)

end RuntimeDaemonState

namespace SubnetAnnouncement

/-- The entry that an announcement is about. -/
def entry (a : SubnetAnnouncement) : OwnedSubnet := a.message.subnet.entry a.message.owner

/-- What arrives of an announcement: its text has neither the owner nor the expiry of the subnet
in it. -/
def received (a : SubnetAnnouncement) : SubnetAnnouncement :=
  { a with message :=
      { a.message with subnet := { a.message.subnet with owner := none, expires := none } } }

@[simp] lemma received_received (a : SubnetAnnouncement) : a.received.received = a.received := rfl
@[simp] lemma entry_received (a : SubnetAnnouncement) : a.received.entry = a.entry := rfl
@[simp] lemma request_received (a : SubnetAnnouncement) : a.received.request = a.request := rfl
@[simp] lemma owner_received (a : SubnetAnnouncement) :
    a.received.message.owner = a.message.owner := rfl
@[simp] lemma nonce_received (a : SubnetAnnouncement) :
    a.received.message.nonce = a.message.nonce := rfl

/-- An announcement tells a table nothing new. -/
def Redundant (a : SubnetAnnouncement) (t : SubnetTable) : Prop :=
  a.request = .addSubnet ↔ t.Holds a.entry

end SubnetAnnouncement

namespace RuntimeDaemonState

/-- A daemon in mesh mode, within the retention period that has begun at `start`. -/
structure InMesh (d : RuntimeDaemonState) (name : String) (start retention : ℕ) : Prop where
  localName_eq : d.localName = name
  tunnelServer_eq : d.tunnelServer = false
  strictSubnets_eq : d.strictSubnets = false
  retention_eq : d.pastRequests.retentionSecs = retention
  since : d.pastRequests.Since start
  proper : d.state.subnets.Proper

/-- What an announcement brings about in mesh mode. -/
inductive Handled (d : RuntimeDaemonState) (peer : String) (a : SubnetAnnouncement) :
    RuntimeDaemonState → StepOutput → Prop
  /-- It was seen before or tells nothing new, and is dropped. -/
  | dropped {d' : RuntimeDaemonState} (hold : d.pastRequests.Seen a.display ∨
        a.Redundant d.state.subnets)
      (hsubnets : d'.state.subnets = d.state.subnets) : Handled d peer a d' {}
  /-- It is wrong about an own subnet, and is corrected. -/
  | corrected {d' : RuntimeDaemonState} {c : SubnetAnnouncement}
      (howner : a.message.owner = d.localName) (hentry : c.entry = a.entry)
      (hcowner : c.message.owner = d.localName) (hnonce : c.message.nonce = d.nextMetaNonce)
      (hrequest : c.request = .addSubnet ↔ d.state.subnets.Holds a.entry)
      (hsubnets : d'.state.subnets = d.state.subnets) : Handled d peer a d' { responses := [c] }
  /-- It is new, and is applied and passed on. -/
  | relayed {d' : RuntimeDaemonState} (hnew : ¬ d.pastRequests.Seen a.display)
      (hredundant : ¬ a.Redundant d.state.subnets) (howner : a.message.owner ≠ d.localName)
      (hholds : ∀ k, d'.state.subnets.Holds k ↔
        if k = a.entry then a.request = .addSubnet else d.state.subnets.Holds k) :
      Handled d peer a d' { broadcasts := [(some peer, a)] }

section Mesh

variable {d : RuntimeDaemonState} {name : String} {start retention nowSecs : ℕ}

/-- Applying an announcement makes it true. -/
lemma applyRuntimeMetaMessage_holds (h : d.state.subnets.Proper) (a : SubnetAnnouncement) :
    (d.applyRuntimeMetaMessage a).state.subnets.Proper ∧
      ∀ k, (d.applyRuntimeMetaMessage a).state.subnets.Holds k ↔
        if k = a.entry then a.request = .addSubnet else d.state.subnets.Holds k := by
  obtain ⟨request, message⟩ := a
  cases request with
  | addSubnet =>
      obtain ⟨hproper, hholds⟩ :=
        h.addUnique (show (message.subnet.withOwner message.owner).owner = _ from rfl)
      refine ⟨hproper, fun k => (hholds k).trans ?_⟩
      have hentry : (message.subnet.withOwner message.owner).entry message.owner =
          (SubnetAnnouncement.mk .addSubnet message).entry := rfl
      rw [hentry]
      split_ifs with hk <;> simp [hk]
  | deleteSubnet =>
      obtain ⟨hproper, hholds⟩ := h.removeOwnerSubnet message.owner message.subnet
      refine ⟨hproper, fun k => (hholds k).trans ?_⟩
      rw [show message.subnet.entry message.owner =
        (SubnetAnnouncement.mk .deleteSubnet message).entry from rfl]
      split_ifs with hk <;> simp [hk]

/-- In mesh mode an announcement is redundant, to be corrected, or new. -/
lemma handleTopologyRelayMessage_mesh (h : d.InMesh name start retention) (peer : String)
    (a : SubnetAnnouncement) :
    a.Redundant d.state.subnets ∧ d.handleTopologyRelayMessage peer a = ((d, {}), true) ∨
    ¬ a.Redundant d.state.subnets ∧ a.message.owner = d.localName ∧ (∃ request subnet,
      d.handleTopologyRelayMessage peer a = (d.correction request subnet, true) ∧
        subnet.entry d.localName = a.entry ∧
        (request = .addSubnet ↔ d.state.subnets.Holds a.entry)) ∨
    ¬ a.Redundant d.state.subnets ∧ a.message.owner ≠ d.localName ∧
      d.handleTopologyRelayMessage peer a = ((d, {}), false) := by
  obtain ⟨request, message⟩ := a
  have hlookup := h.proper.lookupOwnerSubnet_isSome message.owner message.subnet
  rw [show message.subnet.entry message.owner = (SubnetAnnouncement.mk request message).entry
    from rfl] at hlookup
  cases request with
  | addSubnet =>
      cases hfound : (d.state.subnets.lookupOwnerSubnet message.owner message.subnet).isSome with
      | true =>
          refine Or.inl ⟨iff_of_true rfl (hlookup.mp hfound), ?_⟩
          simp [handleTopologyRelayMessage, hfound]
      | false =>
          have hholds : ¬ d.state.subnets.Holds (SubnetAnnouncement.mk .addSubnet message).entry :=
            fun hholds => by simp [hlookup.mpr hholds] at hfound
          have hredundant : ¬ (SubnetAnnouncement.mk .addSubnet message).Redundant d.state.subnets :=
            fun hredundant => hholds (hredundant.mp rfl)
          by_cases howner : message.owner = d.localName
          · refine Or.inr (Or.inl ⟨hredundant, howner, .deleteSubnet, message.subnet, ?_, ?_,
              iff_of_false (by simp) hholds⟩)
            · rw [howner] at hfound
              simp [handleTopologyRelayMessage, hfound, howner]
            · rw [← howner]
              rfl
          · refine Or.inr (Or.inr ⟨hredundant, howner, ?_⟩)
            simp [handleTopologyRelayMessage, hfound, howner, h.tunnelServer_eq, h.strictSubnets_eq]
  | deleteSubnet =>
      cases hfound : d.state.subnets.lookupOwnerSubnet message.owner message.subnet with
      | none =>
          have hholds : ¬ d.state.subnets.Holds (SubnetAnnouncement.mk .deleteSubnet message).entry :=
            fun hholds => by simpa [hfound] using hlookup.mpr hholds
          refine Or.inl ⟨iff_of_false (by simp) hholds, ?_⟩
          simp [handleTopologyRelayMessage, hfound, h.tunnelServer_eq, h.strictSubnets_eq]
      | some existing =>
          have hholds : d.state.subnets.Holds (SubnetAnnouncement.mk .deleteSubnet message).entry :=
            hlookup.mp (by rw [hfound]; rfl)
          have hredundant :
              ¬ (SubnetAnnouncement.mk .deleteSubnet message).Redundant d.state.subnets :=
            fun hredundant => by simpa using hredundant.mpr hholds
          by_cases howner : message.owner = d.localName
          · refine Or.inr (Or.inl ⟨hredundant, howner, .addSubnet, existing, ?_, ?_,
              iff_of_true rfl hholds⟩)
            · rw [howner] at hfound
              simp [handleTopologyRelayMessage, hfound, howner, h.tunnelServer_eq]
            · rw [← howner]
              exact h.proper.lookupOwnerSubnet_eq hfound
          · refine Or.inr (Or.inr ⟨hredundant, howner, ?_⟩)
            simp [handleTopologyRelayMessage, hfound, howner, h.tunnelServer_eq, h.strictSubnets_eq]

/-- **What an announcement brings about in mesh mode**, and what it leaves alone. -/
lemma applyMetaStep_mesh (h : d.InMesh name start retention) (hstart : start ≤ nowSecs)
    (hnow : nowSecs < saturatingAdd64 start retention) (peer : String) (a : SubnetAnnouncement) :
    (d.applyMetaStep nowSecs peer a).1.InMesh name start retention ∧
      (∀ r, (d.applyMetaStep nowSecs peer a).1.pastRequests.Seen r ↔
        d.pastRequests.Seen r ∨ r = a.display) ∧
      d.Handled peer a (d.applyMetaStep nowSecs peer a).1 (d.applyMetaStep nowSecs peer a).2 := by
  rw [← h.retention_eq] at hnow
  obtain ⟨hseen, hgrows, hsince, hretention⟩ := h.since.markSeen a.display hnow hstart
  -- The daemon once the announcement is remembered.
  obtain ⟨d', hd'⟩ : ∃ d', d' = (d.markSeenRuntimeMessage a nowSecs).1 := ⟨_, rfl⟩
  have hmesh : d'.InMesh name start retention := by
    rw [hd']
    exact ⟨h.localName_eq, h.tunnelServer_eq, h.strictSubnets_eq, hretention.trans h.retention_eq,
      hsince, h.proper⟩
  have hgrows' : ∀ r, d'.pastRequests.Seen r ↔ d.pastRequests.Seen r ∨ r = a.display := by
    rw [hd']
    exact hgrows
  have hstate : d'.state = d.state ∧ d'.localName = d.localName ∧
      d'.nextMetaNonce = d.nextMetaNonce := by
    rw [hd']
    exact ⟨rfl, rfl, rfl⟩
  have hstep : d.applyMetaStep nowSecs peer a =
      if (d.pastRequests.markSeen a.display nowSecs).2 then (d', {})
      else
        let r := d'.handleTopologyRelayMessage peer a
        if r.2 then r.1
        else
          let d := r.1.1.applyRuntimeMetaMessage a
          (d, { r.1.2 with
            broadcasts := r.1.2.broadcasts ++ if d.tunnelServer then [] else [(some peer, a)] }) := by
    rw [hd']
    rfl
  rw [hstep]
  by_cases hold : d.pastRequests.Seen a.display
  · rw [if_pos (hseen.mpr hold)]
    exact ⟨hmesh, hgrows', .dropped (Or.inl hold) (by rw [hstate.1])⟩
  · rw [if_neg fun hmark => hold (hseen.mp hmark)]
    have hcases := handleTopologyRelayMessage_mesh hmesh peer a
    rw [hstate.1, hstate.2.1] at hcases
    rcases hcases with ⟨hredundant, hr⟩ | ⟨-, howner, request, subnet, hr, hentry, hrequest⟩ |
      ⟨hredundant, howner, hr⟩
    · simp only [hr, if_true]
      exact ⟨hmesh, hgrows', .dropped (Or.inr hredundant) (by rw [hstate.1])⟩
    · simp only [hr, if_true]
      refine ⟨⟨hmesh.localName_eq, hmesh.tunnelServer_eq, hmesh.strictSubnets_eq,
        hmesh.retention_eq, hmesh.since, hmesh.proper⟩, hgrows', ?_⟩
      refine .corrected howner ?_ hstate.2.1 hstate.2.2 hrequest (by rw [← hstate.1]; rfl)
      rw [← hentry, ← hstate.2.1]
      rfl
    · have htunnel : (d'.applyRuntimeMetaMessage a).tunnelServer = false := hmesh.tunnelServer_eq
      obtain ⟨hproper, hholds⟩ := applyRuntimeMetaMessage_holds hmesh.proper a
      rw [hstate.1] at hholds
      simp only [hr, if_false, htunnel, Bool.false_eq_true]
      exact ⟨⟨hmesh.localName_eq, hmesh.tunnelServer_eq, hmesh.strictSubnets_eq,
        hmesh.retention_eq, hmesh.since, hproper⟩, hgrows', .relayed hold hredundant howner hholds⟩

/-- **A change of an own subnet** is an announcement of something new. -/
lemma changeSubnet_mesh (h : d.InMesh name start retention) {request : SubnetRequest}
    {subnet : Subnet} {d' : RuntimeDaemonState} {a : SubnetAnnouncement}
    (hchange : d.changeSubnet request subnet = some (d', a)) :
    d'.InMesh name start retention ∧ d'.pastRequests = d.pastRequests ∧ a.request = request ∧
      a.entry = subnet.entry name ∧ a.message.owner = name ∧ a.message.nonce = d.nextMetaNonce ∧
      (request = .addSubnet ↔ ¬ d.state.subnets.Holds (subnet.entry name)) ∧
      ∀ k, d'.state.subnets.Holds k ↔
        if k = subnet.entry name then request = .addSubnet else d.state.subnets.Holds k := by
  obtain ⟨localName, state, tunnelServer, strictSubnets, topology, nonce, cache⟩ := d
  obtain ⟨rfl, rfl, rfl, rfl, hsince, hproper⟩ := h
  have hentry : (subnet.withOwner localName).entry localName = subnet.entry localName := rfl
  simp only at hproper hsince
  cases request with
  | addSubnet =>
      obtain ⟨hproper', hholds⟩ :=
        hproper.addUnique (show (subnet.withOwner localName).owner = some localName from rfl)
      have hinserted := hproper.addUnique_inserted
        (show (subnet.withOwner localName).owner = some localName from rfl)
      rw [hentry] at hinserted hholds
      cases hedit : (state.subnets.addUnique (subnet.withOwner localName)).2 with
      | false => simp [changeSubnet, hedit] at hchange
      | true =>
          simp only [changeSubnet, hedit, if_true, nextNonce, Option.map_some, Option.some.injEq,
            Prod.mk.injEq] at hchange
          obtain ⟨rfl, rfl⟩ := hchange
          refine ⟨⟨rfl, rfl, rfl, rfl, hsince, hproper'⟩, rfl, rfl, rfl, rfl, rfl,
            iff_of_true rfl (hinserted.mp hedit), fun k => (hholds k).trans ?_⟩
          split_ifs with hk <;> simp [hk]
  | deleteSubnet =>
      obtain ⟨hproper', hholds⟩ := hproper.removeOwnerSubnet localName (subnet.withOwner localName)
      have hremoved := hproper.removeOwnerSubnet_isSome localName (subnet.withOwner localName)
      rw [hentry] at hremoved hholds
      cases hedit : (state.subnets.removeOwnerSubnet localName
          (subnet.withOwner localName)).2.isSome with
      | false => simp [changeSubnet, hedit] at hchange
      | true =>
          simp only [changeSubnet, hedit, if_true, nextNonce, Option.map_some, Option.some.injEq,
            Prod.mk.injEq] at hchange
          obtain ⟨rfl, rfl⟩ := hchange
          refine ⟨⟨rfl, rfl, rfl, rfl, hsince, hproper'⟩, rfl, rfl, rfl, rfl, rfl,
            iff_of_false (by simp) (not_not.mpr (hremoved.mp hedit)), fun k => (hholds k).trans ?_⟩
          split_ifs with hk <;> simp [hk]

end Mesh

end RuntimeDaemonState

end RustyTinc

import RustyTinc.Core.Consistency
import RustyTinc.Core.Descent

/-!
Setting up the transmission to a peer: sessions, probes, and then the same for the node that packets
to it go through, as long as that is another node.

* `tryTxLikeTinc`, `tryTxSptpsLikeTinc`: the two functions, which call each other;
* `tryTxSptpsLikeTinc_tail`: a call ends by itself, or goes on with a node that its route points to;
* `tryTx_returns`: both return in every state of the network whose routes descend;
* `tryTx_loops`: with a negative weight two nodes can point to each other, and they do not return.
-/

namespace RustyTinc

/-- The bit of the options of an edge that forbids UDP. -/
def optionTcpOnly : UInt32 := 0x0002

/-- What the calls depend on besides the graph. -/
structure TxEnv where
  localTcpOnly : Bool
  /-- There is an authenticated connection with the node. -/
  connected : String → Bool
  /-- How the key exchange with a node ends, if one is started. -/
  keyExchange : String → Except String Unit
  /-- How the probes of a node end, with or without those of its MTU, and whether its address is
  confirmed after them. -/
  probe : String → Bool → Except String Bool
  /-- How `try_tx_legacy_like_tinc` ends. -/
  legacy : String → Bool → Except String Unit

section Transmit

variable (env : TxEnv) (g : Graph)

/-- Go on with another node, unless it is too old to relay packets. -/
def tryRelay (tryTx : String → Bool → Option (Except String Unit)) (relay : Option String)
    (mtu : Bool) : Option (Except String Unit) :=
  match relay with
  | none => some (.ok ())
  | some relay =>
    if (g.node relay).any fun node => 4 ≤ optionVersion node.options then tryTx relay mtu
    else some (.ok ())

/-- The setup for a peer with an SPTPS session. It calls `tryTx` for the static relay of the peer
or, while the address of the peer is not confirmed, for its next hop. -/
def tryTxSptpsLikeTinc (tryTx : String → Bool → Option (Except String Unit)) (peer : String)
    (mtu : Bool) : Option (Except String Unit) :=
  match g.node peer with
  | none => some (.ok ())
  | some node =>
    if !node.status.reachable then some (.ok ())
    else if env.connected peer && (env.localTcpOnly || node.options &&& optionTcpOnly != 0) then
      some (.ok ())
    else match env.keyExchange peer with
      | .error e => some (.error e)
      | .ok () =>
        let via := if node.route.via = some g.myself then node.route.nextHop else node.route.via
        if via.any (· ≠ peer) then tryRelay g tryTx via mtu
        else match env.probe peer mtu with
          | .error e => some (.error e)
          | .ok udpConfirmed =>
            if !udpConfirmed && node.route.nextHop.any (· ≠ peer) then
              tryRelay g tryTx node.route.nextHop mtu
            else some (.ok ())

/-- The setup for a peer. The recursion takes fuel. -/
def tryTxLikeTinc : ℕ → String → Bool → Option (Except String Unit)
  | 0, _, _ => none
  | fuel + 1, peer, mtu =>
    match g.node peer with
    | none => some (.ok ())
    | some node =>
      if !node.status.reachable then some (.ok ())
      else if node.status.sptps then tryTxSptpsLikeTinc env g (tryTxLikeTinc fuel) peer mtu
      else some (env.legacy peer mtu)

variable {env g}

lemma tryRelay_tail (relay : Option String) (mtu : Bool) :
    (∃ r, ∀ tryTx, tryRelay g tryTx relay mtu = some r) ∨
      ∃ next, relay = some next ∧ ∀ tryTx, tryRelay g tryTx relay mtu = tryTx next mtu := by
  cases relay with
  | none => exact Or.inl ⟨_, fun _ => rfl⟩
  | some next =>
      cases hold : (g.node next).any fun node => 4 ≤ optionVersion node.options with
      | false => exact Or.inl ⟨.ok (), fun tryTx => by simp [tryRelay, hold]⟩
      | true => exact Or.inr ⟨next, rfl, fun tryTx => by simp [tryRelay, hold]⟩

lemma tail_of_relay {peer : String} {relay : Option String} {mtu : Bool}
    (hpoints : ∀ next, relay = some next → g.Points peer next)
    (hother : relay.any (· ≠ peer) = true) :
    (∃ r, ∀ tryTx, tryRelay g tryTx relay mtu = some r) ∨
      ∃ next, g.Points peer next ∧ next ≠ peer ∧
        ∀ tryTx, tryRelay g tryTx relay mtu = tryTx next mtu := by
  refine (tryRelay_tail relay mtu).imp_right fun ⟨next, hnext, htail⟩ => ?_
  have hne : next ≠ peer := by simpa [hnext] using hother
  exact ⟨next, hpoints next hnext, hne, htail⟩

/-- **A call ends by itself, or with a call for another node that the route points to.** -/
lemma tryTxSptpsLikeTinc_tail (peer : String) (mtu : Bool) :
    (∃ r, ∀ tryTx, tryTxSptpsLikeTinc env g tryTx peer mtu = some r) ∨
      ∃ next, g.Points peer next ∧ next ≠ peer ∧
        ∀ tryTx, tryTxSptpsLikeTinc env g tryTx peer mtu = tryTx next mtu := by
  unfold tryTxSptpsLikeTinc
  cases hnode : g.node peer with
  | none => exact Or.inl ⟨_, fun _ => rfl⟩
  | some node =>
      have hroute : g.routeOf peer = node.route := by
        rw [Graph.routeOf, hnode]
        rfl
      simp only
      by_cases hreachable : (!node.status.reachable) = true
      · exact Or.inl ⟨_, fun _ => if_pos hreachable⟩
      by_cases htcp : (env.connected peer &&
          (env.localTcpOnly || node.options &&& optionTcpOnly != 0)) = true
      · exact Or.inl ⟨_, fun _ => by rw [if_neg hreachable, if_pos htcp]⟩
      simp only [if_neg hreachable, if_neg htcp]
      cases env.keyExchange peer with
      | error e => exact Or.inl ⟨_, fun _ => rfl⟩
      | ok =>
          set via := if node.route.via = some g.myself then node.route.nextHop
            else node.route.via with hvia
          by_cases hother : via.any (· ≠ peer) = true
          · simp only [if_pos hother]
            refine tail_of_relay (fun next hnext => ?_) hother
            rw [Graph.Points, hroute]
            split_ifs at hvia
            · exact Or.inl (hvia.symm.trans hnext)
            · exact Or.inr (hvia.symm.trans hnext)
          · simp only [if_neg hother]
            cases env.probe peer mtu with
            | error e => exact Or.inl ⟨_, fun _ => rfl⟩
            | ok udpConfirmed =>
                by_cases hhop : (!udpConfirmed && node.route.nextHop.any (· ≠ peer)) = true
                · simp only [if_pos hhop]
                  refine tail_of_relay (fun next hnext => ?_) (Bool.and_eq_true_iff.mp hhop).2
                  rw [Graph.Points, hroute]
                  exact Or.inl hnext
                · exact Or.inl ⟨_, fun _ => if_neg hhop⟩

/-- **Both calls return** where the pointers of the routes descend. -/
lemma tryTxLikeTinc_returns (h : g.Descends) (peer : String) (mtu : Bool) :
    ∃ fuel r, tryTxLikeTinc env g fuel peer mtu = some r := by
  obtain ⟨rank, hrank⟩ := h
  -- the induction is on the rank of the peer, which every call for another node lowers
  induction hr : rank peer using WellFoundedLT.induction generalizing peer with
  | _ r ih =>
      cases hnode : g.node peer with
      | none => exact ⟨1, .ok (), by rw [tryTxLikeTinc, hnode]⟩
      | some node =>
          by_cases hreachable : (!node.status.reachable) = true
          · exact ⟨1, .ok (), by rw [tryTxLikeTinc, hnode]; exact if_pos hreachable⟩
          by_cases hsptps : node.status.sptps = true
          · have hcall : ∀ fuel, tryTxLikeTinc env g (fuel + 1) peer mtu =
                tryTxSptpsLikeTinc env g (tryTxLikeTinc env g fuel) peer mtu := by
              intro fuel
              rw [tryTxLikeTinc, hnode]
              simp only [if_neg hreachable, if_pos hsptps]
            rcases @tryTxSptpsLikeTinc_tail env g peer mtu with
              ⟨r, hr⟩ | ⟨next, hpoints, hne, hnext⟩
            · exact ⟨1, r, (hcall 0).trans (hr _)⟩
            · obtain ⟨fuel, r, hr'⟩ := ih (rank next) (hr ▸ hrank peer next hpoints hne) next rfl
              exact ⟨fuel + 1, r, ((hcall fuel).trans (hnext _)).trans hr'⟩
          · refine ⟨1, env.legacy peer mtu, ?_⟩
            rw [tryTxLikeTinc, hnode]
            simp only [if_neg hreachable, if_neg hsptps]

lemma tryTxSptpsLikeTinc_returns (h : g.Descends) (peer : String) (mtu : Bool) :
    ∃ fuel r, tryTxSptpsLikeTinc env g (tryTxLikeTinc env g fuel) peer mtu = some r := by
  rcases @tryTxSptpsLikeTinc_tail env g peer mtu with ⟨r, hr⟩ | ⟨next, -, -, hnext⟩
  · exact ⟨0, r, hr _⟩
  · obtain ⟨fuel, r, hr⟩ := @tryTxLikeTinc_returns env g h next mtu
    exact ⟨fuel, r, (hnext _).trans hr⟩

end Transmit

/-- The graph with other flags: `reachable`, `sptps` and the rest may be anything. -/
def Graph.withStatus (g : Graph) (status : String → NodeStatus → NodeStatus) : Graph :=
  { g with nodes := g.nodes.mapValues fun name n => { n with status := status name n.status } }

/-- Flags do not matter to the pointers. -/
lemma Graph.Descends.withStatus {g : Graph} (h : g.Descends)
    (status : String → NodeStatus → NodeStatus) : (g.withStatus status).Descends := by
  obtain ⟨rank, hrank⟩ := h
  have hroutes : ∀ k, (g.withStatus status).routeOf k = g.routeOf k := by
    intro k
    have hnode : (g.withStatus status).node k =
        (g.node k).map fun n => { n with status := status k n.status } :=
      OrdMap.get?_mapValues _ _ _
    rw [routeOf, hnode, routeOf]
    cases g.node k <;> rfl
  refine ⟨rank, fun a b hab hne => hrank a b ?_ hne⟩
  rwa [Points, hroutes] at hab

/-- **The setup for a transmission returns** for every peer and all flags, in every state of the
network whose graph is such that its search never replaces an indirect route by a direct one over
another number of hops, or that no circle of links has a negative weight and no sum along a path
overflows. -/
theorem tryTx_returns {myself : String} {calls : List NetworkState.Call} {s : NetworkState}
    (hrun : NetworkState.Run addI32 (NetworkState.new myself) calls s)
    (horderly : s.graph.NeverStretches addI32 ∨
      s.graph.NoNegativeCircle ∧ s.graph.PathSumsFit)
    (status : String → NodeStatus → NodeStatus) (env : TxEnv) (peer : String) (mtu : Bool) :
    (∃ fuel r, tryTxLikeTinc env (s.graph.withStatus status) fuel peer mtu = some r) ∧
      ∃ fuel r, tryTxSptpsLikeTinc env (s.graph.withStatus status)
        (tryTxLikeTinc env (s.graph.withStatus status) fuel) peer mtu = some r := by
  have hdescends := (NetworkState.run_descends hrun horderly).withStatus status
  exact ⟨tryTxLikeTinc_returns hdescends peer mtu, tryTxSptpsLikeTinc_returns hdescends peer mtu⟩

/-- Announcements of one link, whose weight is negative. -/
def lightLines : List String :=
  ["12 0 m a 192.0.2.1 655 4000000 -1", "12 0 a m 192.0.2.1 655 4000000 -1"]

/-- Announcements of a triangle, two of whose links are indirect. -/
def triangleLines : List String :=
  ["12 0 m a 192.0.2.1 655 4000001 7", "12 0 a m 192.0.2.1 655 4000001 7",
    "12 0 m b 192.0.2.1 655 4000000 2", "12 0 b m 192.0.2.1 655 4000000 2",
    "12 0 a b 192.0.2.1 655 4000001 1", "12 0 b a 192.0.2.1 655 4000001 1"]

/-- Both kinds of graphs: one without indirect links, and one with indirect links of small
weights. -/
theorem tryTx_returns_links :
    (∃ s, NetworkState.Run addI32 (NetworkState.new "m") (NetworkState.callsOfLines lightLines) s ∧
      ∃ fuel r, tryTxLikeTinc ⟨false, fun _ => false, fun _ => .ok (), fun _ _ => .ok false,
        fun _ _ => .ok ()⟩ (s.graph.withStatus fun _ status => status) fuel "a" true = some r) ∧
    ∃ s, NetworkState.Run addI32 (NetworkState.new "m")
        (NetworkState.callsOfLines triangleLines) s ∧
      ∃ fuel r, tryTxLikeTinc ⟨false, fun _ => false, fun _ => .ok (), fun _ _ => .ok false,
        fun _ _ => .ok ()⟩ (s.graph.withStatus fun _ status => status) fuel "a" true = some r := by
  have hlight : ((NetworkState.callsOfLines lightLines).foldlM
      (fun s c => (NetworkState.call addI32 10 s c).map Prod.fst) (NetworkState.new "m")).any
        (fun s => decide s.graph.AllDirect) = true := by decide +kernel
  have htriangle : ((NetworkState.callsOfLines triangleLines).foldlM
      (fun s c => (NetworkState.call addI32 10 s c).map Prod.fst) (NetworkState.new "m")).any
        (fun s => decide (s.graph.LinksFit ∧ ∀ e ∈ s.graph.edges.values, 0 ≤ e.weight)) = true := by
    decide +kernel
  constructor
  · obtain ⟨s, hs, hdirect⟩ := (Option.any_eq_true _ _).mp hlight
    have hrun := NetworkState.Run.of_foldlM 10 (.nil _) hs
    have hdirect : s.graph.AllDirect := of_decide_eq_true hdirect
    exact ⟨s, hrun, (tryTx_returns hrun (Or.inl (hdirect.reachedDirect.neverStretches
      (NetworkState.run_inv hrun).wellFormed)) _ _ "a" true).1⟩
  · obtain ⟨s, hs, hsmall⟩ := (Option.any_eq_true _ _).mp htriangle
    have hrun := NetworkState.Run.of_foldlM 10 (.nil _) hs
    obtain ⟨hfit, hnonneg⟩ := of_decide_eq_true hsmall
    exact ⟨s, hrun, (tryTx_returns hrun (Or.inr ⟨Graph.noNegativeCircle_of_nonneg hnonneg,
      hfit.pathSumsFit (NetworkState.run_inv hrun).wellFormed⟩) _ _ "a" true).1⟩

/-! ### A loop -/

/-- Announcements of seven links between five nodes: the link from `c` to `a` has a negative
weight. -/
def loopLines : List String :=
  ["12 0 m a 192.0.2.1 655 4000001 0", "12 0 a m 192.0.2.1 655 4000000 0",
    "12 0 m b 192.0.2.1 655 4000001 0", "12 0 b m 192.0.2.1 655 4000000 0",
    "12 0 m d 192.0.2.1 655 4000000 0", "12 0 d m 192.0.2.1 655 4000000 0",
    "12 0 a b 192.0.2.1 655 4000000 0", "12 0 b a 192.0.2.1 655 4000000 0",
    "12 0 a c 192.0.2.1 655 4000000 0", "12 0 c a 192.0.2.1 655 4000001 -1",
    "12 0 b d 192.0.2.1 655 4000000 0", "12 0 d b 192.0.2.1 655 4000000 0",
    "12 0 c d 192.0.2.1 655 4000000 0", "12 0 d c 192.0.2.1 655 4000000 0"]

/-- The calls that lead to the two nodes. -/
def loopCalls : List NetworkState.Call := NetworkState.callsOfLines loopLines

/-- A node with an SPTPS session that can relay packets, and the two pointers of its route. -/
def routedBy (s : NetworkState) (name via nextHop : String) : Bool :=
  (s.graph.node name).any fun n => n.status.reachable && n.status.sptps &&
    4 ≤ optionVersion n.options && n.route.via = some via && n.route.nextHop = some nextHop

/-- Packets to `a` go through `c`, and packets to `c` through `a`. -/
lemma routedBy_loopCalls :
    (loopCalls.foldlM (fun s c => (NetworkState.call addI32 10 s c).map Prod.fst)
      (NetworkState.new "m")).any
        (fun s => routedBy s "a" "c" "a" && routedBy s "c" "c" "a") = true := by
  decide +kernel

/-- **A loop**: with a negative weight two nodes can point to each other, and no amount of fuel is
enough. -/
theorem tryTx_loops : ∃ (calls : List NetworkState.Call) (s : NetworkState) (env : TxEnv),
    (∀ c ∈ calls, c.Parsed) ∧ NetworkState.Run addI32 (NetworkState.new "m") calls s ∧
      ∀ fuel mtu, tryTxLikeTinc env s.graph fuel "a" mtu = none := by
  obtain ⟨s, hs, hroutes⟩ := (Option.any_eq_true _ _).mp routedBy_loopCalls
  let env : TxEnv := ⟨false, fun _ => false, fun _ => .ok (), fun _ _ => .ok false, fun _ _ => .ok ()⟩
  refine ⟨loopCalls, s, env, NetworkState.callsOfLines_parsed loopLines,
    .of_foldlM 10 (.nil _) hs, fun fuel mtu => ?_⟩
  obtain ⟨ha, hc⟩ := Bool.and_eq_true_iff.mp hroutes
  have hme : s.graph.myself = "m" :=
    (NetworkState.run_inv (NetworkState.Run.of_foldlM 10 (.nil _) hs)).myself_eq
  have hloop : ∀ fuel, tryTxLikeTinc env s.graph fuel "a" mtu = none ∧
      tryTxLikeTinc env s.graph fuel "c" mtu = none := by
    intro fuel
    induction fuel with
    | zero => exact ⟨rfl, rfl⟩
    | succ fuel ih =>
        obtain ⟨na, hna, hfa⟩ := (Option.any_eq_true _ _).mp ha
        obtain ⟨nc, hnc, hfc⟩ := (Option.any_eq_true _ _).mp hc
        simp only [Bool.and_eq_true, decide_eq_true_eq] at hfa hfc
        constructor
        · rw [tryTxLikeTinc, hna]
          simp [hfa, tryTxSptpsLikeTinc, hna, hme, tryRelay, hnc, hfc, ih.2, env]
        · rw [tryTxLikeTinc, hnc]
          simp [hfc, tryTxSptpsLikeTinc, hnc, hme, tryRelay, hna, hfa, ih.1, env]
  exact (hloop fuel).1

end RustyTinc

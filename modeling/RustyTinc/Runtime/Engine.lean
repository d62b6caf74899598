import RustyTinc.Core.Relay
import RustyTinc.Core.State
import RustyTinc.Library.Stateful

/-!
The packet engine of a node, as far as it broadcasts a packet: the copy for the local device,
and the nodes to which the packet is sent.

* `broadcastTargets`: the targets in each mode; along the spanning tree they are the tree
  neighbours except the next hop towards the node from which the packet came;
* `broadcastPacket`: the events of a broadcast, with the device and the transport as
  parameters that keep a state of their own (`Ports`);
* `broadcastPacket_ideal`: what it does along the tree when the ports accept everything.
-/

namespace RustyTinc

/-- The largest packet. -/
def mtu : ℕ := 1518

/-- Why a device refuses a packet. -/
inductive DeviceError where
  | io (message : String)
  | packetTooLarge (maximum actual : ℕ)
  | packetTooShort (expectedAtLeast actual : ℕ)
  | unknownIpVersion (version : UInt8)
deriving DecidableEq

/-- A packet of the network, and the priority with which it is sent. -/
structure VpnPacket where
  data : List UInt8
  priority : ℤ := 0
deriving DecidableEq

namespace VpnPacket

/-- A packet of at most the MTU of the device. -/
def new (data : List UInt8) : Except DeviceError VpnPacket :=
  if data.length > mtu then .error (.packetTooLarge mtu data.length) else .ok { data }

/-- The packet with another priority. -/
def withPriority (p : VpnPacket) (priority : ℤ) : VpnPacket := { p with priority }

lemma new_of_le {data : List UInt8} (h : data.length ≤ mtu) : new data = .ok { data } := by
  rw [new, if_neg (not_lt.mpr h)]

end VpnPacket

/-- To whom a node passes on a packet for all. -/
inductive BroadcastMode where
  | none
  | direct
  | mst
deriving DecidableEq

/-- Settings of the relay choice. -/
structure RouteConfig where
  directOnly : Bool := false
deriving DecidableEq

/-- Settings of the engine. -/
structure EngineConfig where
  route : RouteConfig := {}
  broadcast : BroadcastMode := .mst
deriving DecidableEq

/-- Why a packet was not sent: there is no way to the target, which is not an error of the engine,
or something else. -/
inductive TransportError where
  | unreachable (reason : String)
  | other (error : String)
deriving DecidableEq

/-- Why a packet is not handled to its end. -/
inductive EngineError where
  | device (error : DeviceError)
  | packet (error : DeviceError)
  | transport (error : TransportError)
deriving DecidableEq

/-- What the engine has done with a packet. -/
inductive EngineEvent where
  | deviceWrite (packet : VpnPacket)
  | broadcast (targets : List String) (packet : VpnPacket)
deriving DecidableEq

/-- The device and the transport of a node, on the state that they keep. -/
structure Ports (σ : Type) where
  writePacket : VpnPacket → Stateful DeviceError σ Unit
  sendPacket : String → VpnPacket → Stateful TransportError σ Unit

/-- Ports on which everything succeeds. -/
def Ports.ideal : Ports Unit := ⟨fun _ => pure (), fun _ _ => pure ()⟩

/-- A packet is written to the device. -/
def writeDevice {σ : Type} (ports : Ports σ) (packet : List UInt8) (priority : ℤ) :
    Stateful EngineError σ EngineEvent :=
  match VpnPacket.new packet with
  | .error e => throw (.packet e)
  | .ok p => do
      match ← (ports.writePacket (p.withPriority priority)).attempt with
      | .error e => throw (.device e)
      | .ok () => return .deviceWrite (p.withPriority priority)

/-- The nodes to which a packet for all is passed on. -/
def broadcastTargets (s : NetworkState) (source : String) (mode : BroadcastMode)
    (directOnly : Bool) : List String :=
  let myself := s.graph.myself
  match mode with
  | .mst =>
      (s.graph.mstNeighbors myself).filter fun target =>
        some target ≠ s.graph.nextHop source &&
          (s.graph.node target).any fun node =>
            node.status.reachable && (!directOnly || node.route.nextHop = some node.name)
  | .none => []
  | .direct =>
      (s.graph.nodes.values.filter fun node =>
        node.name ≠ myself && node.name ≠ source && node.status.reachable &&
          node.route.nextHop = some node.name).map Node.name

/-- The copy of a broadcast for the device, if the packet came from another node. -/
def deviceCopy {σ : Type} (ports : Ports σ) (s : NetworkState) (source : String)
    (packet : List UInt8) (priority : ℤ) : Stateful EngineError σ (List EngineEvent) :=
  if source ≠ s.graph.myself then (fun event => [event]) <$> writeDevice ports packet priority
  else pure []

/-- The targets to which the packet could be sent. -/
def sendToTargets {σ : Type} (ports : Ports σ) (packet : VpnPacket) :
    List String → Stateful EngineError σ (List String)
  | [] => pure []
  | target :: targets => do
      let result ← (ports.sendPacket target packet).attempt
      let sent ← sendToTargets ports packet targets
      return if result.isOk then target :: sent else sent

/-- A packet for all goes to the device, unless it comes from there, and on to other nodes. -/
def broadcastPacket {σ : Type} (ports : Ports σ) (s : NetworkState) (config : EngineConfig)
    (source : String) (packet : List UInt8) (priority : ℤ) :
    Stateful EngineError σ (List EngineEvent) := do
  let events ← deviceCopy ports s source packet priority
  if config.broadcast = .none then return events
  if source ≠ s.graph.myself ∧ (config.broadcast = .direct ∨ config.route.directOnly) then
    return events
  let targets := broadcastTargets s source config.broadcast config.route.directOnly
  match VpnPacket.new packet with
  | .error e => throw (.packet e)
  | .ok p =>
      let p := p.withPriority priority
      let sent ← sendToTargets ports p targets
      return if sent.isEmpty then events else events ++ [.broadcast sent p]

lemma exec_sendToTargets_ideal (packet : VpnPacket) (targets : List String) :
    (sendToTargets .ideal packet targets).exec () = (.ok targets, ()) := by
  induction targets with
  | nil => rfl
  | cons target targets ih =>
      rw [sendToTargets, Stateful.exec_bind, Stateful.exec_attempt]
      exact (Stateful.exec_bind_ok ih).trans rfl

lemma exec_writeDevice_ideal {data : List UInt8} (hdata : data.length ≤ mtu) (priority : ℤ) :
    (writeDevice .ideal data priority).exec () = (.ok (.deviceWrite ⟨data, priority⟩), ()) := by
  rw [writeDevice, VpnPacket.new_of_le hdata]
  rfl

/-- Along the tree, with ports that accept everything: a copy for the device if the packet
came from another node, and one send to every target. -/
lemma broadcastPacket_ideal (s : NetworkState) (source : String) {data : List UInt8}
    (hdata : data.length ≤ mtu) (priority : ℤ) :
    (broadcastPacket .ideal s {} source data priority).exec () =
      (.ok ((if source ≠ s.graph.myself then [.deviceWrite ⟨data, priority⟩] else []) ++
        (if (broadcastTargets s source .mst false).isEmpty then []
          else [.broadcast (broadcastTargets s source .mst false) ⟨data, priority⟩])), ()) := by
  have hcopy : (deviceCopy .ideal s source data priority).exec () =
      (.ok (if source ≠ s.graph.myself then [.deviceWrite ⟨data, priority⟩] else []), ()) := by
    rw [deviceCopy]
    split_ifs
    · rw [Stateful.exec_map, exec_writeDevice_ideal hdata]
      rfl
    · rfl
  rw [broadcastPacket]
  refine (Stateful.exec_bind_ok hcopy).trans ?_
  rw [if_neg (by decide), if_neg (by simp), VpnPacket.new_of_le hdata]
  refine (Stateful.exec_bind_ok (exec_sendToTargets_ideal _ _)).trans ?_
  rw [VpnPacket.withPriority]
  split_ifs <;> simp

end RustyTinc

import RustyTinc.Core.Base64
import RustyTinc.Daemon.Transmit
import RustyTinc.Runtime.Legacy.MetaChunks
import RustyTinc.Runtime.Legacy.MetaIdentity
import RustyTinc.Runtime.Sptps.Authentication

/-!
The drivers of the meta connections of a daemon, and the nodes that they are activated for.

* `metaDriverForPeer`, `metaDriverForIncomingPeer`: the driver and the key for a peer;
* `MetaLink.Receives`: the bytes of a connection, from before there is a driver for it;
* `Receives.bound`: the peer of a connection is the node that its stream names first;
* `activated_bound_iff`: whether a connection is authenticated with the key of its peer.
-/

namespace RustyTinc

/-- Why a connection cannot be set up or goes down. -/
inductive TincdError where
  | listenIo (error : String)
  | metaConnection (error : String)
  | legacyPacket (error : String)
  | runtimeState (error : String)
  | unknownPeerKey (peer : String)
deriving DecidableEq

/-- The settings of a peer that its connection depends on. -/
structure PeerMetaConfig where
  indirectData : Bool := false
  tcpOnly : Bool := false
  clampMss : Option Bool := none
  weight : Option ℤ := none

/-- `RuntimeKeys` -/
structure MetaKeys where
  privateKey : Option TincEd25519PrivateKey
  peerPublicKeys : OrdMap String TincEd25519PublicKey
  rsaPrivateKey : Option LegacyMetaPrivateKey
  peerRsaPublicKeys : OrdMap String RsaPublicKey

/-- `RuntimeMetaDriver` -/
inductive MetaDriver where
  | modern (driver : MetaConnectionDriver)
  | legacy (driver : LegacyMetaConnectionDriver)

/-- The part of the state of a daemon that its drivers are built from. -/
structure MetaSetup where
  localName : String
  localPort : String
  localWeight : ℤ
  experimental : Bool
  bypassSecurity : Bool
  localIndirectData : Bool
  localTcpOnly : Bool
  localPmtuDiscovery : Bool
  localClampMss : Bool
  peerMetaConfigs : OrdMap String PeerMetaConfig
  keys : MetaKeys
  /-- Ghost: what the random generator gives to the next driver, if it is a modern one. -/
  entropy : ℕ → Fresh
  /-- Ghost: what the random generator gives to the next driver, if it is a legacy one. -/
  legacyEntropy : ℕ → ℕ → UInt8

lemma mapError_eq_ok {ε ε' α : Type} {f : ε → ε'} {r : Except ε α} {a : α} :
    r.mapError f = .ok a ↔ r = .ok a := by
  cases r <;> simp [Except.mapError]

/-- What goes wrong with the bytes of a connection, which closes it. -/
inductive MetaInputError where
  | tincd (error : TincdError)
  | stream (error : MetaStreamError)
  | parse (error : MetaMessageError)
  | expectedId (actual : Request)
  | modern (error : MetaConnectionError)
  | legacy (error : LegacyMetaConnectionError)

/-- The options of a connection, from the settings of the daemon and of the peer. -/
def runtimeMetaOptions (experimental localIndirectData localTcpOnly localPmtuDiscovery
    localClampMss : Bool) (peer : Option PeerMetaConfig) : UInt32 :=
  let options : UInt32 := if experimental then 0x07000000 else 0
  let options := if localIndirectData || peer.any (·.indirectData) then options ||| optionIndirect
    else options
  let options := if localTcpOnly || peer.any (·.tcpOnly) then
    options ||| optionTcpOnly ||| optionIndirect else options
  let options := if localPmtuDiscovery && options &&& optionTcpOnly = 0 then
    options ||| optionPmtuDiscovery else options
  if (peer.bind (·.clampMss)).getD localClampMss then options ||| optionClampMss else options

namespace MetaSetup

variable (s : MetaSetup)

/-- The options that the daemon tells a peer. -/
def localOptionsForPeer (peer : String) : UInt32 :=
  runtimeMetaOptions s.experimental s.localIndirectData s.localTcpOnly s.localPmtuDiscovery
    s.localClampMss (s.peerMetaConfigs.get? peer)

/-- The weight that the daemon tells a peer. -/
def localWeightForPeer (peer : String) : ℤ :=
  ((s.peerMetaConfigs.get? peer).bind (·.weight)).getD s.localWeight

/-- A connection with the legacy protocol, when the RSA keys for it are there. -/
def legacyMetaDriverForPeerWithOptions (peer : String) (outgoing : Bool)
    (localProtocolMinor : ℤ) (localUpgradePublicKey : Option String) :
    Except TincdError (Option MetaDriver) :=
  match s.keys.peerRsaPublicKeys.get? peer, s.keys.rsaPrivateKey with
  | none, _ => if outgoing then .error (.unknownPeerKey peer) else .ok none
  | some _, none =>
      if outgoing then
        .error (.metaConnection ("missing RSA private key for legacy peer " ++ peer))
      else .ok none
  | some peerPublicKey, some privateKey =>
      let auth := LegacyMetaAuth.new s.localName outgoing privateKey peerPublicKey s.localPort
        (s.localWeightForPeer peer) (s.localOptionsForPeer peer) s.legacyEntropy
      .ok (some (.legacy (.new { auth with
        localProtocolMinor
        forceProtocolMinorZero := !s.experimental
        localUpgradePublicKey })))

/-- A connection with the legacy protocol that is not to be upgraded. -/
def legacyMetaDriverForPeer (peer : String) (outgoing : Bool) :
    Except TincdError (Option MetaDriver) :=
  s.legacyMetaDriverForPeerWithOptions peer outgoing legacyMetaProtocolMinor none

/-- A connection with the legacy protocol over which the peer is told the Ed25519 key. -/
def legacyMetaUpgradeDriverForPeer (peer : String) (outgoing : Bool) (localProtocolMinor : ℤ) :
    Except TincdError (Option MetaDriver) :=
  match s.keys.privateKey with
  | none => .error (.metaConnection "missing Ed25519 private key for legacy Ed25519 upgrade")
  | some privateKey =>
      s.legacyMetaDriverForPeerWithOptions peer outgoing localProtocolMinor
        (some (String.ofList (b64EncodeTinc privateKey.publicKey.bytes.toList)))

/-- The connection with a peer, by the keys that are known of it. -/
def metaDriverForPeer (peer : String) (outgoing : Bool) : Except TincdError (Option MetaDriver) :=
  if !s.experimental && !s.bypassSecurity then s.legacyMetaDriverForPeer peer outgoing
  else match s.keys.privateKey with
    | none => .error (.metaConnection "missing Ed25519 private key for experimental protocol")
    | some privateKey =>
        let driver (peerKey : TincEd25519PublicKey) : MetaDriver :=
          let auth := MetaConnectionAuth.new s.localName outgoing privateKey peerKey s.localPort
            (s.localWeightForPeer peer) (s.localOptionsForPeer peer) s.entropy
          .modern (.new { auth with bypassSecurity := s.bypassSecurity })
        match s.keys.peerPublicKeys.get? peer with
        | some peerKey => .ok (some (driver peerKey))
        | none =>
            if s.bypassSecurity then .ok (some (driver privateKey.publicKey))
            else if outgoing then
              s.legacyMetaUpgradeDriverForPeer peer outgoing legacyMetaUpgradeProtocolMinor
            else .ok none

/-- The connection with a peer that has called, by the protocol that it has named. -/
def metaDriverForIncomingPeer (peer : String) (protocolMinor : Option ℤ) :
    Except TincdError (Option MetaDriver) :=
  let minor := protocolMinor.getD 0
  if s.bypassSecurity || minor ≥ 2 then
    if !s.bypassSecurity && !s.experimental then s.legacyMetaDriverForPeer peer false
    else s.metaDriverForPeer peer false
  else if minor < legacyMetaUpgradeProtocolMinor && s.keys.peerPublicKeys.contains peer then
    .error (.metaConnection ("peer " ++ peer ++ " tried to roll back protocol version to " ++
      toString protMajor ++ "." ++ toString minor))
  else if minor = legacyMetaProtocolMinor then s.legacyMetaDriverForPeer peer false
  else s.legacyMetaUpgradeDriverForPeer peer false protMinor

end MetaSetup

/-! ### The bytes of a connection -/

section Receive

variable (p : Primitives) (lp : LegacyMetaPrimitives)

/-- Some bytes arrive at a connection. -/
def MetaDriver.receiveBytes (data : List UInt8) :
    MetaDriver → Except MetaInputError (MetaConnectionStep × MetaDriver)
  | modern driver =>
      let r := (MetaConnectionDriver.receiveBytes p data).exec driver
      (r.1.map fun step => (step, .modern r.2)).mapError .modern
  | legacy driver =>
      let r := (LegacyMetaConnectionDriver.receiveBytes lp data).exec driver
      (r.1.map fun step => (step, .legacy r.2)).mapError .legacy

/-- What becomes of a connection that has not been given a driver yet. -/
inductive PendingIncoming where
  | waiting (buffer : List UInt8)
  | invitation (publicKey : String) (trailing : List UInt8)
  | active (driver : MetaDriver) (step : MetaConnectionStep) (trailing : List UInt8)

/-- The driver for an incoming connection, and what it does with the ID line. -/
def MetaSetup.acceptIncoming (s : MetaSetup) (message : IdMessage) (idLine trailing : List UInt8) :
    Except MetaInputError PendingIncoming :=
  match message.name.toList with
  | '?' :: publicKey => .ok (.invitation (.ofList publicKey) trailing)
  | _ => do
      match ← (s.metaDriverForIncomingPeer message.name message.protocolMinor).mapError .tincd with
      | none => .error (.tincd (.unknownPeerKey message.name))
      | some driver =>
          let (step, driver) ← driver.receiveBytes p lp idLine
          return .active driver step trailing

/-- Some bytes arrive before the peer has named itself. -/
def MetaSetup.handlePendingIncomingBytes (s : MetaSetup) (buffer data : List UInt8) :
    Except MetaInputError PendingIncoming :=
  let buffer := buffer ++ data
  if buffer.length > maxMetaBufferSize then
    .error (.stream (.inputBufferFull maxMetaBufferSize buffer.length))
  else
    match buffer.findIdx? (· == newline) with
    | none => .ok (.waiting buffer)
    | some position => do
        let idLine := buffer.take (position + 1)
        let line ← (decodeMetaLine idLine).mapError .stream
        match ← (parseMetaMessage line.toList).mapError .parse with
        | .id message => s.acceptIncoming p lp message idLine (buffer.drop (position + 1))
        | message => .error (.expectedId message.request)

end Receive

/-- `RuntimeMetaConnectionKind`, without invitations -/
inductive MetaLink where
  | pendingIncoming (buffer : List UInt8)
  | active (driver : MetaDriver)

namespace MetaLink

variable (p : Primitives) (lp : LegacyMetaPrimitives) (s : MetaSetup)

/-- The chunks that arrive on a connection, one after the other, until it is closed or none is
left: the driver after each call, and the step that the call returns. -/
inductive Receives : MetaLink → List (List UInt8) → List (MetaDriver × MetaConnectionStep) → Prop
  | closed (link : MetaLink) (chunks : List (List UInt8)) : Receives link chunks []
  | active {driver driver' : MetaDriver} {data : List UInt8} {chunks : List (List UInt8)}
      {step : MetaConnectionStep} {log : List (MetaDriver × MetaConnectionStep)}
      (hreceive : driver.receiveBytes p lp data = .ok (step, driver'))
      (hrest : Receives (.active driver') chunks log) :
      Receives (.active driver) (data :: chunks) ((driver', step) :: log)
  | waiting {buffer buffer' data : List UInt8} {chunks : List (List UInt8)}
      {log : List (MetaDriver × MetaConnectionStep)}
      (hreceive : s.handlePendingIncomingBytes p lp buffer data = .ok (.waiting buffer'))
      (hrest : Receives (.pendingIncoming buffer') chunks log) :
      Receives (.pendingIncoming buffer) (data :: chunks) log
  | accepted {buffer data trailing : List UInt8} {chunks : List (List UInt8)} {driver : MetaDriver}
      {step : MetaConnectionStep} {log : List (MetaDriver × MetaConnectionStep)}
      (hreceive : s.handlePendingIncomingBytes p lp buffer data = .ok (.active driver step trailing))
      (hrest : Receives (.active driver) (if trailing.isEmpty then chunks else trailing :: chunks)
        log) :
      Receives (.pendingIncoming buffer) (data :: chunks) ((driver, step) :: log)

end MetaLink

/-! ### The key that a driver authenticates its peer with -/

/-- The public key that the host file of a peer holds. -/
inductive PeerKey where
  | ed25519 (key : TincEd25519PublicKey)
  | rsa (key : RsaPublicKey)
deriving DecidableEq

namespace MetaDriver

/-- The key that signatures are checked with, or that the key of the connection is encrypted
with. -/
def authenticationKey : MetaDriver → Option PeerKey
  | modern driver => driver.auth.session.map fun session => .ed25519 session.peerKey
  | legacy driver => some (.rsa driver.auth.peerPublicKey)

/-- The key of the kind of the driver that is configured for a node. -/
def configuredKey (keys : MetaKeys) (peer : String) : MetaDriver → Option PeerKey
  | modern _ => (keys.peerPublicKeys.get? peer).map .ed25519
  | legacy _ => (keys.peerRsaPublicKeys.get? peer).map .rsa

/-- The driver authenticates with the key that is configured for the node. -/
def BoundTo (keys : MetaKeys) (peer : String) (driver : MetaDriver) : Prop :=
  ∃ key, driver.authenticationKey = some key ∧ driver.configuredKey keys peer = some key

/-- The driver has been built with the key and has read the given bytes: it waits for the first
line, or has the peer that the first line names. -/
def Follows (p : Primitives) (key : PeerKey) (input : List UInt8) (step : MetaConnectionStep) :
    MetaDriver → Prop
  | modern driver => ∃ auth, .ed25519 auth.peerKey = key ∧ auth.bypassSecurity = false ∧
      MetaConnectionDriver.Conforms p auth driver ∧ MetaConnectionDriver.Follows input driver step
  | legacy driver => ∃ rsaKey, .rsa rsaKey = key ∧
      LegacyMetaConnectionDriver.Follows rsaKey input (driver, step)

section Follows

variable {p : Primitives} {lp : LegacyMetaPrimitives} {s : MetaSetup} {key : PeerKey}
  {input data : List UInt8} {step : MetaConnectionStep} {driver driver' : MetaDriver} {peer : String}

/-- **A chunk** leaves the driver with what its stream names first. -/
lemma Follows.receiveBytes (h : driver.Follows p key input 0)
    (hcall : driver.receiveBytes p lp data = .ok (step, driver')) :
    driver'.Follows p key (input ++ data) step ∧
      ∀ keys peer, driver'.configuredKey keys peer = driver.configuredKey keys peer := by
  cases driver with
  | modern d =>
      obtain ⟨auth, hkey, hbypass, hconforms, hfollows⟩ := h
      obtain ⟨step', hexec, hpair⟩ := map_eq_ok.mp (mapError_eq_ok.mp hcall)
      obtain ⟨rfl, rfl⟩ := Prod.mk.inj hpair
      have hkept := hfollows.receiveBytes hbypass hconforms (Prod.ext hexec rfl)
      exact ⟨⟨auth, hkey, hbypass, hkept⟩, fun _ _ => rfl⟩
  | legacy d =>
      obtain ⟨rsaKey, hkey, hfollows⟩ := h
      obtain ⟨step', hexec, hpair⟩ := map_eq_ok.mp (mapError_eq_ok.mp hcall)
      obtain ⟨rfl, rfl⟩ := Prod.mk.inj hpair
      exact ⟨⟨rsaKey, hkey, hfollows.receiveBytes (Prod.ext hexec rfl)⟩, fun _ _ => rfl⟩

/-- The events of earlier calls no longer matter. -/
lemma Follows.next (h : driver.Follows p key input step) : driver.Follows p key input 0 := by
  have hnone : ∀ peer, Names peer (0 : MetaConnectionStep).events :=
    fun _ _ he => absurd he List.not_mem_nil
  cases driver with
  | modern d =>
      obtain ⟨auth, hkey, hbypass, hconforms, ⟨hstate, hdecoder, -⟩ | ⟨message, hid, hbound⟩⟩ := h
      · exact ⟨auth, hkey, hbypass, hconforms, Or.inl ⟨hstate, hdecoder, rfl⟩⟩
      · exact ⟨auth, hkey, hbypass, hconforms,
          Or.inr ⟨message, hid, hbound.state, hbound.peer_eq, hnone _⟩⟩
  | legacy d =>
      obtain ⟨rsaKey, hkey, ⟨hstate, hcipher, hsame, hraw, -⟩ | ⟨message, hid, hbound⟩⟩ := h
      · exact ⟨rsaKey, hkey, Or.inl ⟨hstate, hcipher, hsame, hraw, rfl⟩⟩
      · exact ⟨rsaKey, hkey, Or.inr ⟨message, hid, hbound.auth, hnone _⟩⟩

/-- **An activation is about the node that the stream names first**, and the driver has
authenticated it with the key that it was built with. -/
lemma Follows.activated (h : driver.Follows p key input step) {e : MetaConnectionEvent}
    (he : e ∈ step.events) (hpeer : e.activatedPeer = some peer) :
    (∃ message, leadingId input = some message ∧ message.name = peer) ∧
      driver.authenticationKey = some key := by
  cases driver with
  | modern d =>
      obtain ⟨auth, rfl, -, hconforms, ⟨-, -, hnone⟩ | ⟨message, hid, hbound⟩⟩ := h
      · rw [hnone] at he
        exact absurd he List.not_mem_nil
      · obtain ⟨session, hsession, hkey⟩ := hbound.session_peerKey hconforms
        refine ⟨⟨message, hid, (hbound.events e he peer hpeer).symm⟩, ?_⟩
        rw [authenticationKey, hsession, Option.map_some, hkey]
  | legacy d =>
      obtain ⟨rsaKey, rfl, ⟨-, -, -, -, hnone⟩ | ⟨message, hid, hbound⟩⟩ := h
      · rw [hnone] at he
        exact absurd he List.not_mem_nil
      · refine ⟨⟨message, hid, (hbound.events e he peer hpeer).symm⟩, ?_⟩
        rw [authenticationKey, ← hbound.auth.peerPublicKey_eq]

end Follows

end MetaDriver

/-! ### The drivers that a daemon builds -/

section Built

variable {p : Primitives} {lp : LegacyMetaPrimitives} {s : MetaSetup} {peer : String}
  {outgoing : Bool} {driver : MetaDriver}

/-- The driver has received nothing, and has the key that is configured for the node. -/
def MetaDriver.Built (p : Primitives) (keys : MetaKeys) (peer : String) (driver : MetaDriver) : Prop :=
  ∃ key, driver.configuredKey keys peer = some key ∧ driver.Follows p key [] 0

/-- A connection with the legacy protocol uses the key of the peer. -/
lemma legacyMetaDriverForPeerWithOptions_built {localProtocolMinor : ℤ}
    {localUpgradePublicKey : Option String}
    (h : s.legacyMetaDriverForPeerWithOptions peer outgoing localProtocolMinor
      localUpgradePublicKey = .ok (some driver)) : driver.Built p s.keys peer := by
  unfold MetaSetup.legacyMetaDriverForPeerWithOptions at h
  cases hkey : s.keys.peerRsaPublicKeys.get? peer with
  | none =>
      rw [hkey] at h
      simp only at h
      split_ifs at h
      cases h
  | some rsaKey =>
      rw [hkey] at h
      cases hprivate : s.keys.rsaPrivateKey with
      | none =>
          rw [hprivate] at h
          simp only at h
          split_ifs at h
          cases h
      | some privateKey =>
          rw [hprivate] at h
          obtain rfl := Option.some.inj (Except.ok.inj h)
          refine ⟨.rsa rsaKey, ?_, rsaKey, rfl, Or.inl ⟨rfl, rfl, rfl, rfl, rfl⟩⟩
          rw [MetaDriver.configuredKey, hkey, Option.map_some]

lemma legacyMetaUpgradeDriverForPeer_built {localProtocolMinor : ℤ}
    (h : s.legacyMetaUpgradeDriverForPeer peer outgoing localProtocolMinor = .ok (some driver)) :
    driver.Built p s.keys peer := by
  unfold MetaSetup.legacyMetaUpgradeDriverForPeer at h
  split at h
  · cases h
  · exact legacyMetaDriverForPeerWithOptions_built h

/-- **A driver is built with the key that is configured for its node**, as long as security is not
bypassed. -/
lemma metaDriverForPeer_built (hbypass : s.bypassSecurity = false)
    (h : s.metaDriverForPeer peer outgoing = .ok (some driver)) : driver.Built p s.keys peer := by
  unfold MetaSetup.metaDriverForPeer at h
  by_cases hlegacy : (!s.experimental && !s.bypassSecurity) = true
  · rw [if_pos hlegacy] at h
    exact legacyMetaDriverForPeerWithOptions_built h
  · rw [if_neg hlegacy] at h
    split at h
    · cases h
    · cases hkey : s.keys.peerPublicKeys.get? peer with
      | none =>
          simp only [hkey, hbypass, Bool.false_eq_true, if_false] at h
          split_ifs at h
          · exact legacyMetaUpgradeDriverForPeer_built h
          · cases h
      | some peerKey =>
          simp only [hkey] at h
          obtain rfl := Option.some.inj (Except.ok.inj h)
          refine ⟨.ed25519 peerKey, ?_, _, rfl, hbypass, MetaConnectionDriver.conforms_new rfl,
            MetaConnectionDriver.follows_new rfl⟩
          rw [MetaDriver.configuredKey, hkey, Option.map_some]

lemma metaDriverForIncomingPeer_built {protocolMinor : Option ℤ} (hbypass : s.bypassSecurity = false)
    (h : s.metaDriverForIncomingPeer peer protocolMinor = .ok (some driver)) :
    driver.Built p s.keys peer := by
  simp only [MetaSetup.metaDriverForIncomingPeer] at h
  split_ifs at h
  · exact legacyMetaDriverForPeerWithOptions_built h
  · exact metaDriverForPeer_built hbypass h
  · exact legacyMetaDriverForPeerWithOptions_built h
  · exact legacyMetaUpgradeDriverForPeer_built h

/-! ### Whole connections -/

namespace MetaLink

variable {chunks : List (List UInt8)} {log : List (MetaDriver × MetaConnectionStep)}

/-- What an entry of the log says of the node that it activates the connection for. -/
def Activated (log : List (MetaDriver × MetaConnectionStep)) (driver : MetaDriver) (peer : String) :
    Prop :=
  ∃ step, (driver, step) ∈ log ∧ ∃ e ∈ step.events, e.activatedPeer = some peer

lemma Activated.cons {step : MetaConnectionStep} {driver' : MetaDriver}
    (h : Activated ((driver', step) :: log) driver peer) :
    driver = driver' ∧ (∃ e ∈ step.events, e.activatedPeer = some peer) ∨
      Activated log driver peer := by
  obtain ⟨step', hmem, he⟩ := h
  rcases List.mem_cons.mp hmem with heq | hmem
  · obtain ⟨rfl, rfl⟩ := Prod.mk.inj heq
    exact Or.inl ⟨rfl, he⟩
  · exact Or.inr ⟨step', hmem, he⟩

/-- **What a connection with a driver is activated for.** -/
lemma Receives.activated {key : PeerKey} {input : List UInt8} {built : MetaDriver}
    (h : Receives p lp s (.active built) chunks log) (hfollows : built.Follows p key input 0)
    (hactivated : Activated log driver peer) :
    (∃ message, leadingId (input ++ chunks.flatten) = some message ∧ message.name = peer) ∧
      driver.authenticationKey = some key ∧
      ∀ name, driver.configuredKey s.keys name = built.configuredKey s.keys name := by
  generalize hlink : MetaLink.active built = link at h
  induction h generalizing built input with
  | closed _ _ =>
      obtain ⟨step, hmem, -⟩ := hactivated
      exact absurd hmem List.not_mem_nil
  | @active built' next data chunks step log hreceive _ ih =>
      cases hlink
      obtain ⟨hnext, hsame⟩ := hfollows.receiveBytes hreceive
      rw [List.flatten_cons, ← List.append_assoc]
      rcases hactivated.cons with ⟨rfl, e, he, hpeer⟩ | hrest
      · obtain ⟨⟨message, hid, hname⟩, hkey⟩ := hnext.activated he hpeer
        exact ⟨⟨message, leadingId_append hid _, hname⟩, hkey, hsame s.keys⟩
      · obtain ⟨hid, hkey, hsame'⟩ := ih hnext.next hrest rfl
        exact ⟨hid, hkey, fun name => (hsame' name).trans (hsame s.keys name)⟩
  | waiting _ _ _ => cases hlink
  | accepted _ _ _ => cases hlink

/-- An incoming connection gets a driver for the node that its stream names first. -/
lemma handlePendingIncomingBytes_active {buffer data trailing : List UInt8}
    {step : MetaConnectionStep} (hbypass : s.bypassSecurity = false)
    (h : s.handlePendingIncomingBytes p lp buffer data = .ok (.active driver step trailing)) :
    ∃ idLine message key, idLine ++ trailing = buffer ++ data ∧
      leadingId (buffer ++ data) = some message ∧
      driver.configuredKey s.keys message.name = some key ∧ driver.Follows p key idLine step := by
  simp only [MetaSetup.handlePendingIncomingBytes] at h
  split_ifs at h
  cases hposition : (buffer ++ data).findIdx? (· == newline) with
  | none =>
      rw [hposition] at h
      cases h
  | some position =>
      rw [hposition] at h
      obtain ⟨line, hline, h⟩ := bind_eq_ok.mp h
      obtain ⟨message, hparse, h⟩ := bind_eq_ok.mp h
      rw [mapError_eq_ok] at hline hparse
      cases message with
      | id message =>
          simp only [MetaSetup.acceptIncoming] at h
          split at h
          · cases h
          · obtain ⟨found, hfound, h⟩ := bind_eq_ok.mp h
            cases found with
            | none => cases h
            | some built =>
                obtain ⟨⟨step', driver'⟩, hcall, h⟩ := bind_eq_ok.mp h
                obtain ⟨rfl, rfl, rfl⟩ := PendingIncoming.active.inj (Except.ok.inj h)
                obtain ⟨key, hkey, hbuilt⟩ :=
                  metaDriverForIncomingPeer_built hbypass (mapError_eq_ok.mp hfound)
                obtain ⟨hfollows, hsame⟩ := hbuilt.receiveBytes hcall
                exact ⟨_, message, key, List.take_append_drop _ _,
                  leadingId_of_line hposition hline hparse, (hsame _ _).trans hkey, hfollows⟩
      | _ => cases h

/-- **An incoming connection is authenticated with the key of its peer.** -/
lemma Receives.activated_incoming {buffer : List UInt8} (hbypass : s.bypassSecurity = false)
    (h : Receives p lp s (.pendingIncoming buffer) chunks log) (hactivated : Activated log driver peer) :
    driver.BoundTo s.keys peer := by
  generalize hlink : MetaLink.pendingIncoming buffer = link at h
  induction h generalizing buffer with
  | closed _ _ =>
      obtain ⟨step, hmem, -⟩ := hactivated
      exact absurd hmem List.not_mem_nil
  | active _ _ _ => cases hlink
  | waiting _ _ ih => exact ih hactivated rfl
  | @accepted buffer' data trailing chunks built step log hreceive hrest _ =>
      obtain ⟨idLine, message, key, hsplit, hid, hkey, hfollows⟩ :=
        handlePendingIncomingBytes_active hbypass hreceive
      rcases hactivated.cons with ⟨rfl, e, he, hpeer⟩ | hlater
      · obtain ⟨⟨message', hid', rfl⟩, hauth⟩ := hfollows.activated he hpeer
        have hsame := leadingId_append hid' trailing
        rw [hsplit, hid] at hsame
        obtain rfl := Option.some.inj hsame
        exact ⟨key, hauth, hkey⟩
      · obtain ⟨⟨message', hid', rfl⟩, hauth, hconfigured⟩ := hrest.activated hfollows.next hlater
        have hflat : (if trailing.isEmpty then chunks else trailing :: chunks).flatten =
            trailing ++ chunks.flatten := by
          cases trailing <;> simp
        rw [hflat, ← List.append_assoc, hsplit, leadingId_append hid] at hid'
        obtain rfl := Option.some.inj hid'
        exact ⟨key, hauth, (hconfigured _).trans hkey⟩

/-- **Connections are authenticated with the keys of their peers** if they are incoming ones. An
outgoing one is if and only if its stream names first a node with the key of the one that was
expected: nothing compares the two names. -/
theorem activated_bound_iff (p : Primitives) (lp : LegacyMetaPrimitives) {s : MetaSetup}
    (hbypass : s.bypassSecurity = false) :
    (∀ chunks log, Receives p lp s (.pendingIncoming []) chunks log →
      ∀ driver peer, Activated log driver peer → driver.BoundTo s.keys peer) ∧
    ∀ expected built, s.metaDriverForPeer expected true = .ok (some built) →
      ∀ chunks log, Receives p lp s (.active built) chunks log →
        (∃ driver peer, Activated log driver peer) →
          ((∀ driver peer, Activated log driver peer → driver.BoundTo s.keys peer) ↔
            ∃ message, leadingId chunks.flatten = some message ∧
              built.configuredKey s.keys message.name = built.configuredKey s.keys expected) := by
  refine ⟨fun chunks log h driver peer hactivated => h.activated_incoming hbypass hactivated,
    fun expected built hbuilt chunks log h ⟨driver, peer, hactivated⟩ => ?_⟩
  obtain ⟨key, hkey, hfollows⟩ := @metaDriverForPeer_built p s expected true built hbypass hbuilt
  constructor
  · intro hbound
    obtain ⟨⟨message, hid, rfl⟩, hauth, hsame⟩ := h.activated hfollows hactivated
    obtain ⟨key', hauth', hkey'⟩ := hbound driver _ hactivated
    obtain rfl := Option.some.inj (hauth.symm.trans hauth')
    exact ⟨message, hid, ((hsame _).symm.trans hkey').trans hkey.symm⟩
  · rintro ⟨message, hid, hconfigured⟩ driver' peer' hactivated'
    obtain ⟨⟨message', hid', rfl⟩, hauth, hsame⟩ := h.activated hfollows hactivated'
    obtain rfl := Option.some.inj (hid.symm.trans hid')
    exact ⟨key, hauth, ((hsame _).trans hconfigured).trans hkey⟩

end MetaLink

end Built

/-! ### A node under the name of another one -/

section Example

open LegacyMetaConnectionDriver (plainPrimitives)
open SptpsHandshakeSession (zeros)

namespace MetaLink

/-- What a stream that arrives at once activates an outgoing connection for, and with which key. -/
def activation (p : Primitives) (lp : LegacyMetaPrimitives) (s : MetaSetup) (expected : String)
    (stream : List UInt8) : Option (String × PeerKey) :=
  match s.metaDriverForPeer expected true with
  | .ok (some built) =>
      match built.receiveBytes p lp stream with
      | .ok (step, driver) => do
          let peer ← step.events.findSome? MetaConnectionEvent.activatedPeer
          let key ← driver.authenticationKey
          return (peer, key)
      | .error _ => none
  | _ => none

/-- What a run that activates a connection has gone through. -/
lemma exists_of_activation {p : Primitives} {lp : LegacyMetaPrimitives} {s : MetaSetup}
    {expected peer : String} {key : PeerKey} {stream : List UInt8}
    (h : activation p lp s expected stream = some (peer, key)) :
    ∃ built driver step, s.metaDriverForPeer expected true = .ok (some built) ∧
      Receives p lp s (.active built) [stream] [(driver, step)] ∧
      Activated [(driver, step)] driver peer ∧ driver.authenticationKey = some key := by
  unfold activation at h
  split at h
  · next built hbuilt =>
    split at h
    · next step driver hreceive =>
      obtain ⟨peer', hpeer, h⟩ := Option.bind_eq_some_iff.mp h
      obtain ⟨key', hkey, h⟩ := Option.bind_eq_some_iff.mp h
      obtain ⟨rfl, rfl⟩ := Prod.mk.inj (Option.some.inj h)
      obtain ⟨e, he, hname⟩ := List.exists_of_findSome?_eq_some hpeer
      exact ⟨built, driver, step, hbuilt, .active hreceive (.closed _ _),
        ⟨step, List.mem_singleton_self _, e, he, hname⟩, hkey⟩
    · cases h
  · cases h

end MetaLink

/-- A key that the host file of one peer holds. -/
def betaKey : TincEd25519PublicKey := ⟨Vector.replicate 32 1⟩

/-- A key that the host file of another peer holds. -/
def gammaKey : TincEd25519PublicKey := ⟨Vector.replicate 32 2⟩

/-- Primitives under which nobody but Beta can sign. -/
def betaSigns : Primitives :=
  { SptpsHandshakeSession.oneSignature with
    verify := fun key _ signature =>
      if key = betaKey ∧ signature = (zeros 64).toList then .ok ()
      else .error .signatureVerificationFailed }

/-- A node that knows the keys of Beta and Gamma. -/
def twoPeers : MetaSetup where
  localName := "alpha"
  localPort := "655"
  localWeight := 10
  experimental := true
  bypassSecurity := false
  localIndirectData := false
  localTcpOnly := false
  localPmtuDiscovery := true
  localClampMss := true
  peerMetaConfigs := .empty
  keys :=
    { privateKey := some ⟨zeros 64, ⟨zeros 32⟩⟩
      peerPublicKeys := (OrdMap.empty.insert "beta" betaKey).insert "gamma" gammaKey
      rsaPrivateKey := none
      peerRsaPublicKeys := .empty }
  entropy _ := .ok (zeros 32, zeros 32)
  legacyEntropy _ _ := 0

/-- What Beta sends under some name, up to the ACK line. -/
def sentByBeta (name : String) : List UInt8 :=
  encodeMetaLine (.id ⟨name, protMajor, some protMinor⟩) ++
    SptpsHandshakeCodec.sealRecord betaSigns true none 0 sptpsHandshake
      (SptpsKex.new (zeros 32) (zeros 32)).toBytes ++
    SptpsHandshakeCodec.sealRecord betaSigns true none 0 sptpsHandshake (zeros 64).toList ++
    SptpsHandshakeCodec.sealRecord betaSigns true (some ⟨zeros 64⟩) 0 sptpsMetaRecord
      (encodeMetaLine (.ack (.connection "655" 10 0)))

/-- The peer that was called has answered. -/
theorem activated_bound_iff_beta : ∃ built driver step,
    twoPeers.metaDriverForPeer "beta" true = .ok (some built) ∧
      MetaLink.Activated [(driver, step)] driver "beta" ∧ driver.BoundTo twoPeers.keys "beta" := by
  have hactivation : MetaLink.activation betaSigns plainPrimitives twoPeers "beta"
      (sentByBeta "beta") = some ("beta", .ed25519 betaKey) := by decide +kernel
  obtain ⟨built, driver, step, hbuilt, hreceives, hactivated, -⟩ :=
    MetaLink.exists_of_activation hactivation
  have hid : leadingId ([sentByBeta "beta"].flatten) = some ⟨"beta", protMajor, some protMinor⟩ := by
    decide +kernel
  have hbound := ((MetaLink.activated_bound_iff betaSigns plainPrimitives rfl).2 "beta" built hbuilt
    _ _ hreceives ⟨driver, "beta", hactivated⟩).mpr ⟨_, hid, rfl⟩
  exact ⟨built, driver, step, hbuilt, hactivated, hbound driver "beta" hactivated⟩

/-- **Beta can take over the place of Gamma**, on a connection that was meant for Beta. -/
theorem activated_not_bound : ∃ built driver step,
    twoPeers.bypassSecurity = false ∧ twoPeers.metaDriverForPeer "beta" true = .ok (some built) ∧
      MetaLink.Receives betaSigns plainPrimitives twoPeers (.active built) [sentByBeta "gamma"]
        [(driver, step)] ∧
      MetaLink.Activated [(driver, step)] driver "gamma" ∧
      ¬ driver.BoundTo twoPeers.keys "gamma" := by
  have hactivation : MetaLink.activation betaSigns plainPrimitives twoPeers "beta"
      (sentByBeta "gamma") = some ("gamma", .ed25519 betaKey) := by decide +kernel
  obtain ⟨built, driver, step, hbuilt, hreceives, hactivated, hkey⟩ :=
    MetaLink.exists_of_activation hactivation
  refine ⟨built, driver, step, rfl, hbuilt, hreceives, hactivated, ?_⟩
  rintro ⟨key, hauth, hconfigured⟩
  obtain rfl := Option.some.inj (hkey.symm.trans hauth)
  have hgamma : twoPeers.keys.peerPublicKeys.get? "gamma" = some gammaKey := by decide +kernel
  cases driver with
  | modern d =>
      rw [MetaDriver.configuredKey, hgamma] at hconfigured
      have hsame : gammaKey = betaKey := PeerKey.ed25519.inj (Option.some.inj hconfigured)
      exact absurd hsame (by decide +kernel)
  | legacy d => cases hkey

end Example

end RustyTinc

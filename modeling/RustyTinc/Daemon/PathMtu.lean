import RustyTinc.Core.MetaText
import RustyTinc.Core.Runs
import RustyTinc.Library.Stateful
import RustyTinc.Runtime.Legacy.UdpCodec
import RustyTinc.Runtime.Meta.Auth
import RustyTinc.Runtime.Meta.Stream

/-!
The discovery of the path MTU of a peer: two bounds, the MTU in use and a counter of the rounds of
probes, which is negative when the discovery is finished.

* `Node.tryMtuForPeer`: one round of probes;
* `Node.probeLoop_done`: the upper bound is enough fuel for its loop;
* `Node.MtuSound`: the bounds are in order, and agree with the MTU when the discovery is finished;
* `MtuOp.Keeps`: when an operation keeps them so;
* `mtu_sound_of_keeps`: the nodes stay sound in every run of such operations, and a further
  operation leaves them sound exactly when it is one.
-/

namespace RustyTinc

/-- The length of the smallest probe. -/
def udpProbeMinSize : ℕ := 18

/-- After so many rounds the discovery ends. -/
def pmtuInitialProbes : ℤ := 20

/-- In microseconds. -/
def pmtuInitialProbeInterval : ℕ := 333333

/-- The same after the discovery, while the probes of the MTU stay without a reply. -/
def pmtuNegativeProbeInterval : ℕ := 1000000

/-- What the operating system makes of a probe. -/
inductive ProbeSend where
  | sent
  | notSent
  | tooBig
  | error (message : String)
deriving DecidableEq

/-- Where probes are sent, and the MTU that the system knows for the path. -/
structure ProbeTarget where
  ipv6 : Bool
  pathMtu : Option ℕ

/-- What a round of probes depends on besides the node. -/
structure ProbeEnv where
  /-- There is a key for SPTPS packets. -/
  sptpsPeer : Bool
  legacyPeer : Option LegacyPeerState
  udpDiscovery : Bool
  /-- The time since the last round, in microseconds. -/
  elapsed : Option ℕ
  pingInterval : ℕ
  target : Option ProbeTarget
  /-- `pmtu_initial_probe_len`, which computes with floating point numbers. -/
  probeLen : ℕ → ℕ → ℤ → ℕ
  /-- The probes of the round, in the order in which they are sent. -/
  send : ℕ → ProbeSend

/-- The length to whose multiples a cipher fills packets up. -/
def LegacyCipherAlgorithm.blockSize : LegacyCipherAlgorithm → ℕ
  | .aes128Cbc | .aes192Cbc | .aes256Cbc => 16
  | .none | .unsupported _ => 1

namespace ProbeEnv

variable (env : ProbeEnv)

/-- Enough time has passed since the last round. -/
def mtuProbeDue (mtuProbes : ℤ) : Bool :=
  if 0 ≤ mtuProbes then
    mtuProbes = 0 || env.elapsed.all fun elapsed => pmtuInitialProbeInterval ≤ elapsed
  else if mtuProbes < -1 then env.elapsed.all fun elapsed => pmtuNegativeProbeInterval ≤ elapsed
  else env.elapsed.all fun elapsed => env.pingInterval ≤ elapsed

/-- What the encapsulation of packets leaves of an MTU. -/
def payloadMtu (options : UInt32) (mtu : ℕ) : ℕ :=
  if env.sptpsPeer then
    let mtu := mtu - sptpsDatagramOverhead
    if 4 ≤ optionVersion options then mtu - relayHeaderLen else mtu
  else match env.legacyPeer with
    | none => mtu
    | some peer =>
      let mtu := mtu - peer.outgoing.digest.length
      let blockSize := peer.outgoing.cipher.algorithm.blockSize
      let mtu := if 1 < blockSize then mtu / blockSize * blockSize - 1 else mtu
      mtu - legacySeqnoLen

/-- The bound from which the discovery begins: what the system knows of the path, without the
headers. -/
def chooseInitialMaxMtu (options : UInt32) : ℕ :=
  match env.target with
  | none => defaultMtu
  | some target =>
    match target.pathMtu with
    | none => defaultMtu
    | some interfaceMtu =>
      if interfaceMtu < minMtu.toNat then defaultMtu
      else
        let mtu := interfaceMtu - (if target.ipv6 then 40 else 20) - 8
        min (env.payloadMtu options mtu) defaultMtu

lemma chooseInitialMaxMtu_le (options : UInt32) :
    env.chooseInitialMaxMtu options ≤ defaultMtu := by
  unfold chooseInitialMaxMtu
  split
  · exact le_rfl
  · split
    · exact le_rfl
    · split
      · exact le_rfl
      · exact min_le_right _ _

end ProbeEnv

/-- The length of the payload of a probe. -/
def udpProbeRequestLen (len : ℕ) : ℕ := max udpProbeMinSize (min len defaultMtu)

/-- The length that a reply reports; older replies have that length themselves. -/
def udpProbeReplyLen (payload : List UInt8) : ℕ :=
  match payload with
  | 2 :: high :: low :: _ => high.toNat * 256 + low.toNat
  | _ => payload.length

namespace Node

/-- The discovery ends when the bounds meet or the rounds are over. -/
def tryFixMtu (n : Node) : Node :=
  if n.mtuProbes < 0 then n
  else if n.mtuProbes = pmtuInitialProbes ∨ n.maxMtu ≤ n.minMtu then
    let n := if n.maxMtu < n.minMtu then { n with minMtu := n.maxMtu }
      else { n with maxMtu := n.minMtu }
    { n with mtu := n.minMtu, mtuProbes := -1 }
  else n

/-- A packet of more than `mtu` bytes was too big to be sent. -/
def reduceMtu (mtu : ℕ) (n : Node) : Node :=
  let mtu := max mtu RustyTinc.minMtu.toNat
  ({ n with
    maxMtu := if mtu < n.maxMtu then mtu else n.maxMtu
    mtu := if mtu < n.mtu then mtu else n.mtu } : Node).tryFixMtu

/-- The discovery starts again from nothing. -/
def resetMtuProbes (n : Node) : Node := { n with mtuProbes := 0, minMtu := 0, maxMtu := defaultMtu }

/-- A probe of some length has arrived. -/
def applyUdpProbeReply (payload : List UInt8) (n : Node) : Node :=
  let probeLen := udpProbeReplyLen payload
  let n := { n with status := { n.status with pingSent := false, udpConfirmed := true } }
  if n.maxMtu < probeLen then { n with minMtu := probeLen, maxMtu := defaultMtu, mtuProbes := 1 }
  else
    let n := if n.mtuProbes < 0 ∧ probeLen = n.maxMtu then { n with mtuProbes := -1 } else n
    let n := if n.minMtu < probeLen then { n with minMtu := probeLen } else n
    n.tryFixMtu

/-- `expired` tells whether the timeout of the last reply has passed. -/
def expireUdpProbeTimeout (expired : Bool) (n : Node) : Node :=
  if !expired then n
  else if !n.status.udpConfirmed then n
  else { n with status := { n.status with udpConfirmed := false } }.resetMtuProbes

/-! ### A round of probes -/

/-- A probe of a length, which is the one of this number in its round. -/
def sendUdpProbePacket (env : ProbeEnv) (number len : ℕ) : Stateful String Node Unit :=
  match env.send number with
  | .sent | .notSent => pure ()
  | .tooBig => modify (reduceMtu (udpProbeRequestLen len - 1))
  | .error message => throw message

/-- The loop over the probes of a round. It goes on as long as a probe lowers the upper bound, so
that this bound is enough fuel (`probeLoop_done`). -/
def probeLoop (env : ProbeEnv) : ℕ → ℕ → Stateful String Node Unit
  | 0, _ => pure ()
  | fuel + 1, number => do
    let before ← get
    sendUdpProbePacket env number (env.probeLen before.minMtu before.maxMtu before.mtuProbes)
    let after ← get
    if after.mtuProbes < 0 ∨ after.maxMtu = before.maxMtu then pure ()
    else probeLoop env fuel (number + 1)

/-- A round when the discovery is finished: the MTU is probed, and sometimes the next larger one. -/
def probeFinished (env : ProbeEnv) (mtuProbes : ℤ) (maxMtu : ℕ) : Stateful String Node Unit := do
  sendUdpProbePacket env 0 maxMtu
  if mtuProbes = -1 ∧ maxMtu + 1 < defaultMtu then sendUdpProbePacket env 1 (maxMtu + 1)
  modify fun n => { n with mtuProbes := n.mtuProbes - 1 }

/-- A round of the discovery. -/
def probeInitial (env : ProbeEnv) : Stateful String Node Unit := do
  modify fun n =>
    if n.mtuProbes = 0 then { n with maxMtu := env.chooseInitialMaxMtu n.options } else n
  let node ← get
  probeLoop env (node.maxMtu + 1) 0
  modify fun n => if 0 ≤ n.mtuProbes then { n with mtuProbes := n.mtuProbes + 1 } else n

/-- Three finished rounds without a reply start the discovery again. -/
def restartMtuProbes (n : Node) : Node :=
  if n.mtuProbes < -3 then { n with mtuProbes := 0, minMtu := 0 } else n

/-- A round of probes that is due. -/
def mtuRound (env : ProbeEnv) : Stateful String Node Unit := do
  modify fun n => n.tryFixMtu.restartMtuProbes
  let node ← get
  if node.mtuProbes < 0 then probeFinished env node.mtuProbes node.maxMtu
  else probeInitial env

/-- Whether a peer can be probed at all. -/
def mtuProbesPossible (env : ProbeEnv) (n : Node) : Bool :=
  (env.sptpsPeer || n.status.validKey && env.legacyPeer.isSome) &&
    n.options &&& optionPmtuDiscovery ≠ 0

/-- A round of probes, when the peer can be probed and one is due. -/
def tryMtuForPeer (env : ProbeEnv) : Stateful String Node Unit := do
  let node ← get
  if !node.mtuProbesPossible env then pure ()
  else if env.udpDiscovery && !node.status.udpConfirmed then modify resetMtuProbes
  else if !env.mtuProbeDue node.mtuProbes then pure ()
  else mtuRound env

/-! ### Sound nodes -/

/-- The bounds are in order, and when the discovery is finished they are the MTU. -/
structure MtuSound (n : Node) : Prop where
  min_le : n.minMtu ≤ n.maxMtu
  max_le : n.maxMtu ≤ defaultMtu
  mtu_le : n.mtu ≤ defaultMtu
  finished : n.mtuProbes < 0 → n.mtu = n.minMtu ∧ n.minMtu = n.maxMtu

/-- The MTU fields of a node that was just created. -/
def MtuDefault (n : Node) : Prop :=
  n.mtu = defaultMtu ∧ n.minMtu = 0 ∧ n.maxMtu = defaultMtu ∧ n.mtuProbes = 0

/-- The MTU fields of two nodes agree. -/
def SameMtu (n n' : Node) : Prop :=
  n'.mtu = n.mtu ∧ n'.minMtu = n.minMtu ∧ n'.maxMtu = n.maxMtu ∧ n'.mtuProbes = n.mtuProbes

variable {n : Node} {env : ProbeEnv}

lemma MtuDefault.sound (h : n.MtuDefault) : n.MtuSound := by
  obtain ⟨hmtu, hmin, hmax, hprobes⟩ := h
  constructor <;> omega

lemma SameMtu.sound_iff {n' : Node} (h : SameMtu n n') : n'.MtuSound ↔ n.MtuSound := by
  obtain ⟨hmtu, hmin, hmax, hprobes⟩ := h
  constructor
  · rintro ⟨h1, h2, h3, h4⟩
    constructor <;> omega
  · rintro ⟨h1, h2, h3, h4⟩
    constructor <;> omega

lemma MtuSound.resetMtuProbes (h : n.MtuSound) : n.resetMtuProbes.MtuSound where
  min_le := Nat.zero_le _
  max_le := le_rfl
  mtu_le := h.mtu_le
  finished hneg := absurd hneg (lt_irrefl 0)

lemma tryFixMtu_of_finished (h : n.mtuProbes < 0) : n.tryFixMtu = n := by
  rw [tryFixMtu, if_pos h]

/-- While the discovery is going on, `tryFixMtu` puts the bounds in order. -/
lemma tryFixMtu_sound (hopen : 0 ≤ n.mtuProbes) (hmax : n.maxMtu ≤ defaultMtu)
    (hmtu : n.mtu ≤ defaultMtu) : n.tryFixMtu.MtuSound := by
  rw [tryFixMtu, if_neg (not_lt.mpr hopen)]
  split_ifs with hfix hswap
  · -- the bounds were out of order
    exact ⟨le_rfl, hmax, hmax, fun _ => ⟨rfl, rfl⟩⟩
  · have hle := (not_lt.mp hswap).trans hmax
    exact ⟨le_rfl, hle, hle, fun _ => ⟨rfl, rfl⟩⟩
  · obtain ⟨-, hlt⟩ := not_or.mp hfix
    exact ⟨(not_le.mp hlt).le, hmax, hmtu, fun hneg => absurd hneg (not_lt.mpr hopen)⟩

lemma restartMtuProbes_of_le (h : -3 ≤ n.mtuProbes) : n.restartMtuProbes = n := by
  rw [restartMtuProbes, if_neg (not_lt.mpr h)]

lemma maxMtu_tryFixMtu_le (n : Node) : n.tryFixMtu.maxMtu ≤ n.maxMtu := by
  rw [tryFixMtu]
  split_ifs with hfinished hfix hswap
  · exact le_rfl
  · exact le_rfl
  · exact not_lt.mp hswap
  · exact le_rfl

lemma maxMtu_reduceMtu_le (n : Node) (mtu : ℕ) : (n.reduceMtu mtu).maxMtu ≤ n.maxMtu := by
  refine (maxMtu_tryFixMtu_le _).trans ?_
  show (if max mtu RustyTinc.minMtu.toNat < n.maxMtu then max mtu RustyTinc.minMtu.toNat
    else n.maxMtu) ≤ n.maxMtu
  split_ifs with hlt
  · exact hlt.le
  · exact le_rfl

lemma MtuSound.tryFixMtu (h : n.MtuSound) : n.tryFixMtu.MtuSound := by
  by_cases hopen : 0 ≤ n.mtuProbes
  · exact tryFixMtu_sound hopen h.max_le h.mtu_le
  · rw [tryFixMtu_of_finished (not_le.mp hopen)]
    exact h

/-- While the discovery is going on, every reduction leaves the node sound. -/
lemma reduceMtu_sound (hopen : 0 ≤ n.mtuProbes) (hmax : n.maxMtu ≤ defaultMtu)
    (hmtu : n.mtu ≤ defaultMtu) (mtu : ℕ) : (n.reduceMtu mtu).MtuSound := by
  refine tryFixMtu_sound hopen ?_ ?_
  · show (if max mtu RustyTinc.minMtu.toNat < n.maxMtu then max mtu RustyTinc.minMtu.toNat
      else n.maxMtu) ≤ defaultMtu
    split_ifs <;> omega
  · show (if max mtu RustyTinc.minMtu.toNat < n.mtu then max mtu RustyTinc.minMtu.toNat
      else n.mtu) ≤ defaultMtu
    split_ifs <;> omega

lemma reduceMtu_of_finished (hfinished : n.mtuProbes < 0) (mtu : ℕ) : n.reduceMtu mtu =
    { n with
      maxMtu := if max mtu RustyTinc.minMtu.toNat < n.maxMtu then max mtu RustyTinc.minMtu.toNat
        else n.maxMtu
      mtu := if max mtu RustyTinc.minMtu.toNat < n.mtu then max mtu RustyTinc.minMtu.toNat
        else n.mtu } :=
  tryFixMtu_of_finished hfinished

/-- A reduction to no less than the upper bound changes nothing when the discovery is finished. -/
lemma MtuSound.reduceMtu_of_le (h : n.MtuSound) (hfinished : n.mtuProbes < 0) {mtu : ℕ}
    (hle : n.maxMtu ≤ max mtu RustyTinc.minMtu.toNat) : n.reduceMtu mtu = n := by
  obtain ⟨hmtu, hmin⟩ := h.finished hfinished
  rw [reduceMtu_of_finished hfinished, if_neg (not_lt.mpr hle), if_neg (by omega)]

/-- **A reduction** leaves the bounds in order unless it goes below them after the discovery. -/
lemma MtuSound.reduceMtu_iff (h : n.MtuSound) (mtu : ℕ) :
    (n.reduceMtu mtu).MtuSound ↔
      0 ≤ n.mtuProbes ∨ n.maxMtu ≤ max mtu RustyTinc.minMtu.toNat := by
  by_cases hopen : 0 ≤ n.mtuProbes
  · exact iff_of_true (reduceMtu_sound hopen h.max_le h.mtu_le mtu) (Or.inl hopen)
  · have hfinished := not_le.mp hopen
    obtain ⟨-, hmin⟩ := h.finished hfinished
    by_cases hle : n.maxMtu ≤ max mtu RustyTinc.minMtu.toNat
    · rw [h.reduceMtu_of_le hfinished hle]
      exact iff_of_true h (Or.inr hle)
    · -- the lower bound stays where it was
      refine iff_of_false (fun hsound => ?_) (not_or.mpr ⟨hopen, hle⟩)
      rw [reduceMtu_of_finished hfinished, if_pos (not_le.mp hle)] at hsound
      have hle' : n.minMtu ≤ max mtu RustyTinc.minMtu.toNat := hsound.min_le
      omega

/-- **A reply** leaves the bounds in order unless it reports more than the largest MTU. -/
lemma MtuSound.applyUdpProbeReply_iff (h : n.MtuSound) (payload : List UInt8) :
    (n.applyUdpProbeReply payload).MtuSound ↔ udpProbeReplyLen payload ≤ defaultMtu := by
  rw [applyUdpProbeReply]
  by_cases hlarge : n.maxMtu < udpProbeReplyLen payload
  · rw [if_pos hlarge]
    refine ⟨fun hsound => hsound.min_le, fun hle => ⟨hle, le_rfl, h.mtu_le, fun hneg => ?_⟩⟩
    exact absurd hneg (by show ¬ (1 : ℤ) < 0; omega)
  · rw [if_neg hlarge]
    refine iff_of_true (MtuSound.tryFixMtu ?_) ((not_lt.mp hlarge).trans h.max_le)
    have hlen := not_lt.mp hlarge
    obtain ⟨hmin, hmax, hmtu, hfinished⟩ := h
    split_ifs with hlarger hmore hmore
    · have hneg := hfinished hlarger.1
      exact absurd hmore (by show ¬ n.minMtu < udpProbeReplyLen payload; omega)
    · exact ⟨hmin, hmax, hmtu, fun _ => hfinished hlarger.1⟩
    · refine ⟨hlen, hmax, hmtu, fun hneg => ?_⟩
      have hmore' : n.minMtu < udpProbeReplyLen payload := hmore
      have hfin := hfinished hneg
      omega
    · exact ⟨hmin, hmax, hmtu, hfinished⟩

lemma MtuSound.expireUdpProbeTimeout (h : n.MtuSound) (expired : Bool) :
    (n.expireUdpProbeTimeout expired).MtuSound := by
  rw [Node.expireUdpProbeTimeout]
  split_ifs
  · exact h
  · exact h
  · exact ⟨Nat.zero_le _, le_rfl, h.mtu_le, fun hneg => absurd hneg (lt_irrefl 0)⟩

/-! ### A round of a sound node -/

lemma exec_sendUdpProbePacket (number len : ℕ) :
    (sendUdpProbePacket env number len).exec n =
      match env.send number with
      | .sent | .notSent => (.ok (), n)
      | .tooBig => (.ok (), n.reduceMtu (udpProbeRequestLen len - 1))
      | .error message => (.error message, n) := by
  rw [sendUdpProbePacket]
  cases env.send number <;> rfl

/-- While the discovery is going on, a probe leaves the node as it is, or sound. -/
lemma exec_sendUdpProbePacket_open (hopen : 0 ≤ n.mtuProbes) (hmax : n.maxMtu ≤ defaultMtu)
    (hmtu : n.mtu ≤ defaultMtu) (number len : ℕ) :
    (env.send number ≠ .tooBig ∧ ((sendUdpProbePacket env number len).exec n).2 = n) ∨
      env.send number = .tooBig ∧
        ((sendUdpProbePacket env number len).exec n).1 = .ok () ∧
        ((sendUdpProbePacket env number len).exec n).2.MtuSound := by
  rw [exec_sendUdpProbePacket]
  cases env.send number with
  | sent => exact Or.inl ⟨nofun, rfl⟩
  | notSent => exact Or.inl ⟨nofun, rfl⟩
  | tooBig => exact Or.inr ⟨rfl, rfl, reduceMtu_sound hopen hmax hmtu _⟩
  | error message => exact Or.inl ⟨nofun, rfl⟩

/-- A probe of a node whose discovery is finished only lowers the upper bound. -/
lemma exec_sendUdpProbePacket_finished (hfinished : n.mtuProbes < 0) (number len : ℕ) :
    ((sendUdpProbePacket env number len).exec n).2.mtuProbes = n.mtuProbes ∧
      ((sendUdpProbePacket env number len).exec n).2.minMtu = n.minMtu ∧
      ((sendUdpProbePacket env number len).exec n).2.maxMtu ≤ n.maxMtu := by
  rw [exec_sendUdpProbePacket]
  cases env.send number with
  | sent => exact ⟨rfl, rfl, le_rfl⟩
  | notSent => exact ⟨rfl, rfl, le_rfl⟩
  | error message => exact ⟨rfl, rfl, le_rfl⟩
  | tooBig =>
      refine ⟨?_, ?_, maxMtu_reduceMtu_le n _⟩
      · show (n.reduceMtu _).mtuProbes = n.mtuProbes
        rw [reduceMtu_of_finished hfinished]
      · show (n.reduceMtu _).minMtu = n.minMtu
        rw [reduceMtu_of_finished hfinished]

/-- One probe of a round, and those after it. -/
lemma exec_probeLoop_succ (fuel number : ℕ) :
    (probeLoop env (fuel + 1) number).exec n =
      match (sendUdpProbePacket env number
          (env.probeLen n.minMtu n.maxMtu n.mtuProbes)).exec n with
      | (.ok (), after) =>
        if after.mtuProbes < 0 ∨ after.maxMtu = n.maxMtu then (.ok (), after)
        else (probeLoop env fuel (number + 1)).exec after
      | (.error e, after) => (.error e, after) := by
  rw [probeLoop, Stateful.exec_bind, Stateful.exec_get]
  simp only []
  rw [Stateful.exec_bind]
  rcases (sendUdpProbePacket env number
    (env.probeLen n.minMtu n.maxMtu n.mtuProbes)).exec n with ⟨error | _, after⟩
  · rfl
  · simp only [Stateful.exec_bind, Stateful.exec_get]
    split_ifs <;> rfl

/-- The probes of a round keep a node sound. -/
lemma MtuSound.probeLoop (h : n.MtuSound) (hopen : 0 ≤ n.mtuProbes) (fuel number : ℕ) :
    ((Node.probeLoop env fuel number).exec n).2.MtuSound := by
  induction fuel generalizing n number with
  | zero => exact h
  | succ fuel ih =>
      have hsend := @exec_sendUdpProbePacket_open n env hopen h.max_le h.mtu_le number
        (env.probeLen n.minMtu n.maxMtu n.mtuProbes)
      rw [exec_probeLoop_succ]
      rcases hexec : (sendUdpProbePacket env number
        (env.probeLen n.minMtu n.maxMtu n.mtuProbes)).exec n with ⟨error | _, after⟩
      · rw [hexec] at hsend
        rcases hsend with ⟨-, rfl⟩ | ⟨-, hok, -⟩
        · exact h
        · cases hok
      · rw [hexec] at hsend
        have hafter : after.MtuSound := by
          rcases hsend with ⟨-, rfl⟩ | ⟨-, -, hsound⟩
          · exact h
          · exact hsound
        show (if after.mtuProbes < 0 ∨ after.maxMtu = n.maxMtu then (Except.ok (), after)
          else (Node.probeLoop env fuel (number + 1)).exec after).2.MtuSound
        split_ifs with hstop
        · exact hafter
        · exact ih hafter (not_lt.mp (not_or.mp hstop).1) _

/-- No probe raises the upper bound. -/
lemma maxMtu_sendUdpProbePacket_le (number len : ℕ) :
    ((sendUdpProbePacket env number len).exec n).2.maxMtu ≤ n.maxMtu := by
  rw [exec_sendUdpProbePacket]
  cases env.send number with
  | sent | notSent | error message => exact le_rfl
  | tooBig => exact maxMtu_reduceMtu_le n _

/-- **The loop ends by itself**: it goes on only while the upper bound falls, so that more fuel than
this bound changes nothing. -/
theorem probeLoop_done (fuel : ℕ) (hfuel : n.maxMtu < fuel) (number : ℕ) :
    (probeLoop env (fuel + 1) number).exec n = (probeLoop env fuel number).exec n := by
  induction fuel generalizing n number with
  | zero => exact absurd hfuel (Nat.not_lt_zero _)
  | succ fuel ih =>
      rw [exec_probeLoop_succ, exec_probeLoop_succ]
      rcases hexec : (sendUdpProbePacket env number
        (env.probeLen n.minMtu n.maxMtu n.mtuProbes)).exec n with ⟨error | _, after⟩
      · rfl
      · show (if after.mtuProbes < 0 ∨ after.maxMtu = n.maxMtu then (Except.ok (), after)
          else (probeLoop env (fuel + 1) (number + 1)).exec after) =
          if after.mtuProbes < 0 ∨ after.maxMtu = n.maxMtu then (Except.ok (), after)
          else (probeLoop env fuel (number + 1)).exec after
        split_ifs with hstop
        · rfl
        · refine ih ?_ _
          have hle : after.maxMtu ≤ n.maxMtu := by
            have hsent := @maxMtu_sendUdpProbePacket_le n env number
              (env.probeLen n.minMtu n.maxMtu n.mtuProbes)
            rwa [hexec] at hsent
          have hne : after.maxMtu ≠ n.maxMtu := (not_or.mp hstop).2
          omega

lemma probeLoop_enough {fuel : ℕ} (hfuel : n.maxMtu < fuel) (number : ℕ) :
    (probeLoop env fuel number).exec n = (probeLoop env (n.maxMtu + 1) number).exec n := by
  induction fuel, hfuel using Nat.le_induction with
  | base => rfl
  | succ fuel hle ih => rw [probeLoop_done fuel hle, ih]

/-- **The probes of a round**: one of them, and then the loop from what it has left. -/
lemma exec_probeLoop (number : ℕ) :
    (probeLoop env (n.maxMtu + 1) number).exec n =
      match (sendUdpProbePacket env number
          (env.probeLen n.minMtu n.maxMtu n.mtuProbes)).exec n with
      | (.ok (), after) =>
        if after.mtuProbes < 0 ∨ after.maxMtu = n.maxMtu then (.ok (), after)
        else (probeLoop env (after.maxMtu + 1) (number + 1)).exec after
      | (.error e, after) => (.error e, after) := by
  have hle := @maxMtu_sendUdpProbePacket_le n env number
    (env.probeLen n.minMtu n.maxMtu n.mtuProbes)
  rw [exec_probeLoop_succ]
  rcases hexec : (sendUdpProbePacket env number
    (env.probeLen n.minMtu n.maxMtu n.mtuProbes)).exec n with ⟨error | _, after⟩
  · rfl
  · rw [hexec] at hle
    show (if after.mtuProbes < 0 ∨ after.maxMtu = n.maxMtu then (Except.ok (), after)
      else (probeLoop env n.maxMtu (number + 1)).exec after) =
      if after.mtuProbes < 0 ∨ after.maxMtu = n.maxMtu then (Except.ok (), after)
      else (probeLoop env (after.maxMtu + 1) (number + 1)).exec after
    split_ifs with hstop
    · rfl
    · exact probeLoop_enough (lt_of_le_of_ne hle (not_or.mp hstop).2) _

lemma exec_probeInitial : (probeInitial env).exec n =
    let start := if n.mtuProbes = 0 then { n with maxMtu := env.chooseInitialMaxMtu n.options }
      else n
    match (probeLoop env (start.maxMtu + 1) 0).exec start with
    | (.ok (), after) =>
      (.ok (), if 0 ≤ after.mtuProbes then { after with mtuProbes := after.mtuProbes + 1 }
        else after)
    | (.error e, after) => (.error e, after) := by
  rw [probeInitial, Stateful.exec_bind, Stateful.exec_modify]
  simp only [Stateful.exec_bind, Stateful.exec_get]
  rcases (probeLoop env _ 0).exec _ with ⟨error | _, after⟩ <;> rfl

/-- Counting a round of the discovery matters to no bound. -/
lemma mtuSound_countRound_iff {after : Node} :
    (if 0 ≤ after.mtuProbes then { after with mtuProbes := after.mtuProbes + 1 }
      else after).MtuSound ↔
      after.minMtu ≤ after.maxMtu ∧ after.maxMtu ≤ defaultMtu ∧ after.mtu ≤ defaultMtu ∧
        (after.mtuProbes < 0 → after.mtu = after.minMtu ∧ after.minMtu = after.maxMtu) := by
  split_ifs with hopen
  · constructor
    · rintro ⟨h1, h2, h3, -⟩
      exact ⟨h1, h2, h3, fun hneg => absurd hopen (not_le.mpr hneg)⟩
    · rintro ⟨h1, h2, h3, -⟩
      refine ⟨h1, h2, h3, fun hneg => ?_⟩
      have hneg' : after.mtuProbes + 1 < 0 := hneg
      omega
  · exact ⟨fun ⟨h1, h2, h3, h4⟩ => ⟨h1, h2, h3, h4⟩, fun ⟨h1, h2, h3, h4⟩ => ⟨h1, h2, h3, h4⟩⟩

/-- A round of the discovery keeps what its probes keep. -/
lemma mtuSound_probeInitial_of_loop
    (h : ∀ start, start = (if n.mtuProbes = 0 then
        { n with maxMtu := env.chooseInitialMaxMtu n.options } else n) →
      ((Node.probeLoop env (start.maxMtu + 1) 0).exec start).2.MtuSound) :
    ((probeInitial env).exec n).2.MtuSound := by
  have hloop := h _ rfl
  rw [exec_probeInitial]
  simp only
  split
  · next after heq =>
      rw [heq] at hloop
      exact mtuSound_countRound_iff.mpr ⟨hloop.1, hloop.2, hloop.3, hloop.4⟩
  · next e after heq =>
      rw [heq] at hloop
      exact hloop

/-- **A round of the discovery** leaves the bounds in order unless it starts with an upper bound
below the lower one, and the first probe is not found too big. -/
lemma MtuSound.probeInitial_iff (h : n.MtuSound) (hopen : 0 ≤ n.mtuProbes) :
    ((probeInitial env).exec n).2.MtuSound ↔
      (n.mtuProbes = 0 → n.minMtu ≤ env.chooseInitialMaxMtu n.options ∨
        env.send 0 = .tooBig) := by
  by_cases hfirst : n.mtuProbes = 0
  · have hchosen := env.chooseInitialMaxMtu_le n.options
    by_cases hle : n.minMtu ≤ env.chooseInitialMaxMtu n.options
    · refine iff_of_true (mtuSound_probeInitial_of_loop ?_) fun _ => Or.inl hle
      rintro start rfl
      rw [if_pos hfirst]
      have hstart :
          ({ n with maxMtu := env.chooseInitialMaxMtu n.options } : Node).MtuSound :=
        ⟨hle, hchosen, h.mtu_le, fun hneg => absurd hopen (not_le.mpr hneg)⟩
      exact hstart.probeLoop hopen _ _
    · -- the bounds are out of order when the loop starts
      set start : Node := { n with maxMtu := env.chooseInitialMaxMtu n.options } with hstart
      have hsend := @exec_sendUdpProbePacket_open start env hopen hchosen h.mtu_le 0
        (env.probeLen start.minMtu start.maxMtu start.mtuProbes)
      rcases hsend with ⟨hnot, hsame⟩ | ⟨hbig, hok, hsound⟩
      · refine iff_of_false (fun hafter => ?_) fun hor => (hor hfirst).elim hle hnot
        rw [exec_probeInitial, if_pos hfirst, ← hstart] at hafter
        dsimp only at hafter
        rw [exec_probeLoop] at hafter
        rcases hexec : (sendUdpProbePacket env 0
          (env.probeLen start.minMtu start.maxMtu start.mtuProbes)).exec start with
          ⟨error | _, after⟩
        · rw [hexec] at hafter hsame
          obtain rfl : after = start := hsame
          exact hle hafter.min_le
        · rw [hexec] at hafter hsame
          obtain rfl : after = start := hsame
          simp only [or_true, if_true] at hafter
          exact hle (mtuSound_countRound_iff.mp hafter).1
      · refine iff_of_true (mtuSound_probeInitial_of_loop ?_) fun _ => Or.inr hbig
        rintro _ rfl
        rw [if_pos hfirst, ← hstart, exec_probeLoop]
        rcases hexec : (sendUdpProbePacket env 0
          (env.probeLen start.minMtu start.maxMtu start.mtuProbes)).exec start with
          ⟨error | _, after⟩
        · rw [hexec] at hok
          cases hok
        · rw [hexec] at hsound
          show (if after.mtuProbes < 0 ∨ after.maxMtu = start.maxMtu then (Except.ok (), after)
            else (Node.probeLoop env (after.maxMtu + 1) (0 + 1)).exec after).2.MtuSound
          split_ifs with hstop
          · exact hsound
          · exact hsound.probeLoop (not_lt.mp (not_or.mp hstop).1) _ _
  · refine iff_of_true (mtuSound_probeInitial_of_loop ?_) fun hzero => absurd hzero hfirst
    rintro start rfl
    rw [if_neg hfirst]
    exact h.probeLoop hopen _ _

/-- The next larger probe changes nothing when the discovery is finished. -/
lemma MtuSound.exec_sendUdpProbePacket_larger (h : n.MtuSound) (hfinished : n.mtuProbes < 0)
    (hlt : n.maxMtu + 1 < defaultMtu) (number : ℕ) :
    ((sendUdpProbePacket env number (n.maxMtu + 1)).exec n).2 = n := by
  rw [exec_sendUdpProbePacket]
  cases env.send number with
  | sent => rfl
  | notSent => rfl
  | error message => rfl
  | tooBig =>
      refine h.reduceMtu_of_le hfinished ?_
      rw [udpProbeRequestLen]
      omega

/-- The probes of a round after the discovery. -/
lemma exec_probeFinished (probes : ℤ) (len : ℕ) : (probeFinished env probes len).exec n =
    match (sendUdpProbePacket env 0 len).exec n with
    | (.ok (), first) =>
      match (if probes = -1 ∧ len + 1 < defaultMtu
        then (sendUdpProbePacket env 1 (len + 1)).exec first else (.ok (), first)) with
      | (.ok (), second) => (.ok (), { second with mtuProbes := second.mtuProbes - 1 })
      | (.error e, second) => (.error e, second)
    | (.error e, first) => (.error e, first) := by
  rw [probeFinished, Stateful.exec_bind]
  rcases (sendUdpProbePacket env 0 len).exec n with ⟨error | _, first⟩
  · rfl
  · split_ifs with hlarger
    · simp only [Stateful.exec_bind]
      rcases (sendUdpProbePacket env 1 (len + 1)).exec first with ⟨error | _, second⟩ <;> rfl
    · rfl

lemma MtuSound.finishedRound (h : n.MtuSound) (hfinished : n.mtuProbes < 0) :
    ({ n with mtuProbes := n.mtuProbes - 1 } : Node).MtuSound :=
  ⟨h.min_le, h.max_le, h.mtu_le, fun _ => h.finished hfinished⟩

/-- **A round after the discovery** leaves the bounds in order unless the probe of the MTU is found
too big, and the MTU can still be lowered. -/
lemma MtuSound.probeFinished_iff (h : n.MtuSound) (hfinished : n.mtuProbes < 0) :
    ((probeFinished env n.mtuProbes n.maxMtu).exec n).2.MtuSound ↔
      (env.send 0 = .tooBig → n.minMtu ≤ RustyTinc.minMtu.toNat) := by
  obtain ⟨hmtu, hmin⟩ := h.finished hfinished
  have hfirst := @exec_sendUdpProbePacket n env 0 n.maxMtu
  by_cases hkept : env.send 0 = .tooBig → n.minMtu ≤ RustyTinc.minMtu.toNat
  · -- the first probe leaves the node as it is, and so does the second
    have hsame : ((sendUdpProbePacket env 0 n.maxMtu).exec n).2 = n := by
      rw [hfirst]
      cases hsend : env.send 0 with
      | sent => rfl
      | notSent => rfl
      | error message => rfl
      | tooBig =>
          have hle := hkept hsend
          exact h.reduceMtu_of_le hfinished (by omega)
    refine iff_of_true ?_ hkept
    rw [exec_probeFinished]
    rcases hexec : (sendUdpProbePacket env 0 n.maxMtu).exec n with ⟨error | _, first⟩
    · rw [hexec] at hsame
      obtain rfl : first = n := hsame
      exact h
    · rw [hexec] at hsame
      obtain rfl : first = n := hsame
      simp only
      split_ifs with hlarger
      · have hsecond := @MtuSound.exec_sendUdpProbePacket_larger first env h hfinished hlarger.2 1
        rcases hexec' : (sendUdpProbePacket env 1 (first.maxMtu + 1)).exec first with
          ⟨error | _, second⟩
        · rw [hexec'] at hsecond
          obtain rfl : second = first := hsecond
          exact h
        · rw [hexec'] at hsecond
          obtain rfl : second = first := hsecond
          exact h.finishedRound hfinished
      · exact h.finishedRound hfinished
  · -- the upper bound falls below the lower one, which stays where it is
    obtain ⟨hbig, hlarge⟩ := Classical.not_imp.mp hkept
    refine iff_of_false (fun hsound => ?_) hkept
    rw [hbig] at hfirst
    rw [exec_probeFinished, hfirst] at hsound
    simp only at hsound
    set first := n.reduceMtu (udpProbeRequestLen n.maxMtu - 1) with hfirstDef
    have hlt : first.maxMtu < first.minMtu := by
      have hlower : max (udpProbeRequestLen n.maxMtu - 1) RustyTinc.minMtu.toNat < n.maxMtu := by
        have hprobe : udpProbeMinSize ≤ RustyTinc.minMtu.toNat := by decide
        rw [udpProbeRequestLen]
        omega
      rw [hfirstDef, reduceMtu_of_finished hfinished, if_pos hlower]
      exact hlower.trans_eq hmin.symm
    have hprobes : first.mtuProbes < 0 := by
      rw [hfirstDef, reduceMtu_of_finished hfinished]
      exact hfinished
    split_ifs at hsound with hlarger
    · obtain ⟨-, hsame, hfall⟩ := @exec_sendUdpProbePacket_finished first env hprobes 1
        (n.maxMtu + 1)
      rcases hexec : (sendUdpProbePacket env 1 (n.maxMtu + 1)).exec first with
        ⟨error | _, second⟩
      · rw [hexec] at hsound hsame hfall
        have hle : second.minMtu ≤ second.maxMtu := hsound.min_le
        simp only at hsame hfall
        omega
      · rw [hexec] at hsound hsame hfall
        have hle : second.minMtu ≤ second.maxMtu := hsound.min_le
        simp only at hsame hfall
        omega
    · have hle : first.minMtu ≤ first.maxMtu := hsound.min_le
      omega

/-- When a round of probes keeps the bounds in order: after the discovery, the probe of the MTU is
not found too big unless the MTU is the least one; in the first round, the system knows no MTU
below the lower bound, unless the first probe is found too big. -/
def RoundKeeps (env : ProbeEnv) (n : Node) : Prop :=
  n.mtuProbesPossible env → ¬ (env.udpDiscovery && !n.status.udpConfirmed) →
    env.mtuProbeDue n.mtuProbes →
    (-3 ≤ n.mtuProbes →
      n.mtuProbes < 0 ∨ n.mtuProbes = pmtuInitialProbes ∨ n.maxMtu ≤ n.minMtu →
      env.send 0 = .tooBig → n.minMtu ≤ RustyTinc.minMtu.toNat) ∧
    (n.mtuProbes = 0 → n.minMtu < n.maxMtu →
      n.minMtu ≤ env.chooseInitialMaxMtu n.options ∨ env.send 0 = .tooBig)

lemma exec_mtuRound : (mtuRound env).exec n =
    let start := n.tryFixMtu.restartMtuProbes
    if start.mtuProbes < 0 then (probeFinished env start.mtuProbes start.maxMtu).exec start
    else (probeInitial env).exec start := by
  rw [mtuRound, Stateful.exec_bind, Stateful.exec_modify]
  simp only [Stateful.exec_bind, Stateful.exec_get, Stateful.exec_ite]

/-- A round that is due keeps a sound node sound under its condition. -/
lemma MtuSound.mtuRound_iff (h : n.MtuSound) :
    ((mtuRound env).exec n).2.MtuSound ↔
      (-3 ≤ n.mtuProbes →
        n.mtuProbes < 0 ∨ n.mtuProbes = pmtuInitialProbes ∨ n.maxMtu ≤ n.minMtu →
        env.send 0 = .tooBig → n.minMtu ≤ RustyTinc.minMtu.toNat) ∧
      (n.mtuProbes = 0 → n.minMtu < n.maxMtu →
        n.minMtu ≤ env.chooseInitialMaxMtu n.options ∨ env.send 0 = .tooBig) := by
  rw [exec_mtuRound]
  have hmin := h.min_le
  rcases lt_or_ge n.mtuProbes 0 with hfinished | hopen
  · rw [tryFixMtu_of_finished hfinished]
    by_cases hrestart : n.mtuProbes < -3
    · -- the discovery starts again
      have hstart : ({ n with mtuProbes := 0, minMtu := 0 } : Node).MtuSound :=
        ⟨Nat.zero_le _, h.max_le, h.mtu_le, fun hneg => absurd hneg (lt_irrefl 0)⟩
      rw [restartMtuProbes, if_pos hrestart]
      refine iff_of_true ((hstart.probeInitial_iff le_rfl).mpr fun _ => Or.inl (Nat.zero_le _)) ?_
      exact ⟨fun hge => absurd hge (not_le.mpr hrestart), fun hzero => by omega⟩
    · rw [restartMtuProbes_of_le (not_lt.mp hrestart)]
      simp only [if_pos hfinished]
      rw [h.probeFinished_iff hfinished]
      constructor
      · exact fun hkept => ⟨fun _ _ => hkept, fun hzero => by omega⟩
      · exact fun hkept => hkept.1 (not_lt.mp hrestart) (Or.inl hfinished)
  · by_cases hfix : n.mtuProbes = pmtuInitialProbes ∨ n.maxMtu ≤ n.minMtu
    · -- the round finds the discovery finished
      set fixed : Node := { n with maxMtu := n.minMtu, mtu := n.minMtu, mtuProbes := -1 } with hdef
      have hfixed : n.tryFixMtu = fixed := by
        rw [Node.tryFixMtu, if_neg (not_lt.mpr hopen), if_pos hfix, if_neg (not_lt.mpr hmin)]
      have hsound : fixed.MtuSound := hfixed ▸ h.tryFixMtu
      have hneg : fixed.mtuProbes < 0 := show (-1 : ℤ) < 0 by omega
      rw [hfixed, restartMtuProbes_of_le (show (-3 : ℤ) ≤ -1 by omega)]
      simp only [if_pos hneg]
      rw [hsound.probeFinished_iff hneg]
      constructor
      · refine fun hkept => ⟨fun _ _ => hkept, fun hzero hlt => ?_⟩
        rcases hfix with htwenty | hle
        · exact absurd (hzero.symm.trans htwenty) (by decide)
        · exact absurd hlt (not_lt.mpr hle)
      · exact fun hkept => hkept.1 (by omega) (Or.inr hfix)
    · have hsame : n.tryFixMtu = n := by
        rw [Node.tryFixMtu, if_neg (not_lt.mpr hopen), if_neg hfix]
      rw [hsame, restartMtuProbes_of_le (by omega)]
      simp only [if_neg (not_lt.mpr hopen)]
      rw [h.probeInitial_iff hopen]
      constructor
      · refine fun hkept => ⟨fun _ hor => ?_, fun hzero _ => hkept hzero⟩
        exact absurd hor (not_or.mpr ⟨not_lt.mpr hopen, hfix⟩)
      · exact fun hkept hzero => hkept.2 hzero (not_le.mp (not_or.mp hfix).2)

/-- **A round** leaves a sound node sound exactly when `RoundKeeps` holds before it. -/
lemma MtuSound.tryMtuForPeer_iff (h : n.MtuSound) :
    ((tryMtuForPeer env).exec n).2.MtuSound ↔ n.RoundKeeps env := by
  rw [tryMtuForPeer, Stateful.exec_bind, Stateful.exec_get, RoundKeeps]
  simp only [Stateful.exec_ite]
  by_cases hpossible : n.mtuProbesPossible env = true
  · rw [if_neg (by simp [hpossible])]
    by_cases hunconfirmed : (env.udpDiscovery && !n.status.udpConfirmed) = true
    · rw [if_pos hunconfirmed]
      exact iff_of_true h.resetMtuProbes fun _ hconfirmed => absurd hunconfirmed hconfirmed
    · rw [if_neg hunconfirmed]
      by_cases hdue : env.mtuProbeDue n.mtuProbes = true
      · rw [if_neg (by simp [hdue]), h.mtuRound_iff]
        exact ⟨fun hkept _ _ _ => hkept, fun hkept => hkept hpossible hunconfirmed hdue⟩
      · rw [if_pos (by simp [hdue])]
        exact iff_of_true h fun _ _ hdue' => absurd hdue' hdue
  · rw [if_pos (by simp [hpossible])]
    exact iff_of_true h fun hpossible' => absurd hpossible' hpossible

end Node

/-! ### Operations and runs -/

/-- What changes the MTU fields of a node: the reply to a probe, a packet that was too big to be
sent, two messages, a round of probes and the timeout of the last reply. -/
inductive MtuOp where
  | probeReply (peer : String) (payload : List UInt8)
  | reduce (peer : String) (mtu : ℕ)
  | mtuInfo (message : MtuInfoMessage) (parsed : (MetaMessage.mtuInfo message).Parsed)
  | udpInfo (message : UdpInfoMessage)
  | round (peer : String) (env : ProbeEnv)
  | expire (peer : String) (expired : Bool)

/-- The condition under which an operation keeps sound nodes sound. -/
def MtuOp.Keeps (s : NetworkState) : MtuOp → Prop
  | .probeReply peer payload =>
      ∀ n, s.graph.node peer = some n → udpProbeReplyLen payload ≤ defaultMtu
  | .reduce peer mtu => ∀ n, s.graph.node peer = some n →
      0 ≤ n.mtuProbes ∨ n.maxMtu ≤ max mtu minMtu.toNat
  | .round peer env => ∀ n, s.graph.node peer = some n → n.RoundKeeps env
  | .mtuInfo .. | .udpInfo _ | .expire .. => True

namespace NetworkState

/-- A change to a known node. -/
def modifyNode (s : NetworkState) (name : String) (f : Node → Node) : NetworkState :=
  { s with graph := s.graph.modifyNode name f }

/-- The node is known from now on. -/
def ensureNode (s : NetworkState) (name : String) : NetworkState :=
  { s with graph := (s.graph.ensureNode name).1 }

/-- The network after an operation. -/
def mtuStep (s : NetworkState) : MtuOp → NetworkState
  | .probeReply peer payload => s.modifyNode peer (Node.applyUdpProbeReply payload)
  | .reduce peer mtu => s.modifyNode peer (Node.reduceMtu mtu)
  | .mtuInfo message _ => (s.applyMtuInfo message).1
  | .udpInfo message => (s.applyUdpInfo message).1
  | .round peer env => s.modifyNode peer fun n => ((Node.tryMtuForPeer env).exec n).2
  | .expire peer expired => s.modifyNode peer (Node.expireUdpProbeTimeout expired)

/-- The fields of all nodes are sound. -/
def MtuSound (s : NetworkState) : Prop := ∀ name n, s.graph.node name = some n → n.MtuSound

/-- All nodes have the fields of a node that was just created. -/
def MtuDefault (s : NetworkState) : Prop := ∀ name n, s.graph.node name = some n → n.MtuDefault

/-- A step of anything else: nodes keep their MTU fields, start the discovery again, come and go. -/
def OtherStep (s s' : NetworkState) : Prop := ∀ name n', s'.graph.node name = some n' →
  n'.MtuDefault ∨ ∃ n, s.graph.node name = some n ∧
    (n.SameMtu n' ∨ n.resetMtuProbes.SameMtu n')

/-- A run of operations that keep the nodes sound, with other steps in between. -/
inductive MtuRun : NetworkState → NetworkState → Prop
  | nil (s : NetworkState) : MtuRun s s
  | snoc {s s' : NetworkState} {op : MtuOp} (hrun : MtuRun s s') (hkeeps : op.Keeps s') :
      MtuRun s (s'.mtuStep op)
  | other {s s' s'' : NetworkState} (hrun : MtuRun s s') (hother : OtherStep s' s'') :
      MtuRun s s''

variable {s s' : NetworkState}

lemma MtuDefault.new (myself : String) : (NetworkState.new myself).MtuDefault := by
  intro name n hn
  have hnode : (OrdMap.empty.insert myself ({ name := myself } : Node)).get? name = some n := hn
  rw [OrdMap.get?_insert] at hnode
  split_ifs at hnode
  · obtain rfl := Option.some_inj.mp hnode
    exact ⟨rfl, rfl, rfl, rfl⟩
  · cases hnode

lemma MtuDefault.ensureNode (h : s.MtuDefault) (name : String) :
    (s.ensureNode name).MtuDefault := by
  intro name' n hn
  have hnode : (s.graph.ensureNode name).1.nodes.get? name' = some n := hn
  rw [Graph.get?_ensureNode] at hnode
  split_ifs at hnode
  · obtain rfl := Option.some_inj.mp hnode
    exact ⟨rfl, rfl, rfl, rfl⟩
  · exact h name' n hnode

lemma node_modifyNode (s : NetworkState) (name k : String) (f : Node → Node) :
    (s.modifyNode name f).graph.node k = if k = name then (s.graph.node k).map f
      else s.graph.node k :=
  Graph.node_modifyNode _ _ _ _

/-- A change to one node keeps all nodes sound when it does so with this one. -/
lemma mtuSound_modifyNode_iff (h : s.MtuSound) (name : String) (f : Node → Node) :
    (s.modifyNode name f).MtuSound ↔
      ∀ n, s.graph.node name = some n → (f n).MtuSound := by
  constructor
  · intro hafter n hn
    refine hafter name (f n) ?_
    rw [node_modifyNode, if_pos rfl, hn]
    rfl
  · intro hf name' n' hn'
    rw [node_modifyNode] at hn'
    split_ifs at hn' with hname
    · obtain ⟨n, hn, rfl⟩ := Option.map_eq_some_iff.mp hn'
      exact hf n (hname ▸ hn)
    · exact h name' n' hn'

lemma MtuSound.modifyNode (h : s.MtuSound) (name : String) {f : Node → Node}
    (hf : ∀ n : Node, n.MtuSound → (f n).MtuSound) : (s.modifyNode name f).MtuSound :=
  (mtuSound_modifyNode_iff h name f).mpr fun n hn => hf n (h name n hn)

/-- A message with an MTU only counts while the bounds differ. -/
lemma MtuSound.applyMtuInfo (h : s.MtuSound) {m : MtuInfoMessage} (hm : m.mtu ≤ defaultMtu) :
    (s.applyMtuInfo m).1.MtuSound := by
  rw [NetworkState.applyMtuInfo]
  split
  · exact h
  · refine h.modifyNode m.fromNode fun n hn => ?_
    split_ifs with hupdated
    · have hne : n.minMtu ≠ n.maxMtu := by simp_all
      exact ⟨hn.min_le, hn.max_le, hm, fun hneg => absurd (hn.finished hneg).2 hne⟩
    · exact hn

lemma MtuSound.applyUdpInfo (h : s.MtuSound) (m : UdpInfoMessage) :
    (s.applyUdpInfo m).1.MtuSound := by
  rw [NetworkState.applyUdpInfo]
  split_ifs
  · exact h
  · split
    · exact h
    · refine h.modifyNode m.fromNode fun n hn => ?_
      exact ⟨Nat.zero_le _, le_rfl, hn.mtu_le, fun hneg => absurd hneg (lt_irrefl 0)⟩

/-- The operations leave sound nodes sound exactly under their conditions. -/
lemma MtuSound.mtuStep_iff (h : s.MtuSound) (op : MtuOp) : (s.mtuStep op).MtuSound ↔ op.Keeps s := by
  cases op with
  | probeReply peer payload =>
      rw [mtuStep, mtuSound_modifyNode_iff h]
      exact forall₂_congr fun n hn => (h peer n hn).applyUdpProbeReply_iff payload
  | reduce peer mtu =>
      rw [mtuStep, mtuSound_modifyNode_iff h]
      exact forall₂_congr fun n hn => (h peer n hn).reduceMtu_iff mtu
  | round peer env =>
      rw [mtuStep, mtuSound_modifyNode_iff h]
      exact forall₂_congr fun n hn => (h peer n hn).tryMtuForPeer_iff
  | mtuInfo m parsed => exact iff_of_true (h.applyMtuInfo parsed.2.2.2) trivial
  | udpInfo m => exact iff_of_true (h.applyUdpInfo m) trivial
  | expire peer expired =>
      exact iff_of_true (h.modifyNode peer fun n hn => hn.expireUdpProbeTimeout expired) trivial

lemma MtuSound.otherStep (h : s.MtuSound) (hother : OtherStep s s') : s'.MtuSound := by
  intro name n' hn'
  rcases hother name n' hn' with hdefault | ⟨n, hn, hsame | hreset⟩
  · exact hdefault.sound
  · exact hsame.sound_iff.mpr (h name n hn)
  · exact hreset.sound_iff.mpr (h name n hn).resetMtuProbes

lemma MtuRun.sound (hrun : MtuRun s s') (h : s.MtuSound) : s'.MtuSound := by
  induction hrun with
  | nil => exact h
  | snoc hrun hkeeps ih => exact (ih.mtuStep_iff _).mpr hkeeps
  | other hrun hother ih => exact ih.otherStep hother

/-- **Path MTU state**: from nodes with default fields, every run of operations that meet their
conditions leaves every node sound; one more operation does so exactly when it meets its own. -/
theorem mtu_sound_of_keeps (hdefault : s.MtuDefault) (hrun : MtuRun s s') :
    s'.MtuSound ∧ ∀ op : MtuOp, (s'.mtuStep op).MtuSound ↔ op.Keeps s' := by
  have hsound : s'.MtuSound := hrun.sound fun name n hn => (hdefault name n hn).sound
  exact ⟨hsound, hsound.mtuStep_iff⟩

/-- A path of 1500 bytes, over which the first probe of a round may be too big. -/
def pathEnv (tooBig : Bool) : ProbeEnv where
  sptpsPeer := true
  legacyPeer := none
  udpDiscovery := true
  elapsed := none
  pingInterval := 60000000
  target := some ⟨false, some 1500⟩
  probeLen _ maxMtu _ := maxMtu
  send number := if tooBig && number = 0 then .tooBig else .sent

/-- A node that may be probed. -/
def probedState : NetworkState :=
  ((NetworkState.new "alpha").ensureNode "beta").modifyNode "beta" fun n =>
    { n with options := optionPmtuDiscovery }

/-- The discovery of an MTU of 1400 bytes, and a round after it. -/
def discovery : List MtuOp :=
  [.probeReply "beta" [2, 2, 0], .round "beta" (pathEnv true), .reduce "beta" 1400,
    .probeReply "beta" [2, 5, 120], .round "beta" (pathEnv false)]

lemma probedState_run : MtuRun ((NetworkState.new "alpha").ensureNode "beta") probedState := by
  refine .other (.nil _) fun name n' hn' => ?_
  rw [probedState, node_modifyNode] at hn'
  split_ifs at hn'
  · obtain ⟨n, hn, rfl⟩ := Option.map_eq_some_iff.mp hn'
    exact Or.inr ⟨n, hn, Or.inl ⟨rfl, rfl, rfl, rfl⟩⟩
  · exact Or.inr ⟨n', hn', Or.inl ⟨rfl, rfl, rfl, rfl⟩⟩

/-- All steps of the discovery meet their conditions. -/
lemma discovery_run :
    MtuRun ((NetworkState.new "alpha").ensureNode "beta") (discovery.foldl mtuStep probedState) := by
  have hreply := @MtuRun.snoc _ _ (.probeReply "beta" [2, 2, 0]) probedState_run fun n _ => by decide
  have hround := @MtuRun.snoc _ _ (.round "beta" (pathEnv true)) hreply fun n hn => by
    obtain rfl := Option.some.inj (hn.symm.trans (rfl : _ = some _))
    unfold Node.RoundKeeps
    decide +kernel
  have hreduced := @MtuRun.snoc _ _ (.reduce "beta" 1400) hround fun n hn => by
    obtain rfl := Option.some.inj (hn.symm.trans (rfl : _ = some _))
    decide +kernel
  have hfinished := @MtuRun.snoc _ _ (.probeReply "beta" [2, 5, 120]) hreduced fun n _ => by decide
  exact @MtuRun.snoc _ _ (.round "beta" (pathEnv false)) hfinished fun n hn => by
    obtain rfl := Option.some.inj (hn.symm.trans (rfl : _ = some _))
    unfold Node.RoundKeeps
    decide +kernel

theorem mtu_sound_of_keeps_discovery :
    let s : NetworkState := discovery.foldl mtuStep probedState
    s.MtuSound ∧ (∀ op : MtuOp, (s.mtuStep op).MtuSound ↔ op.Keeps s) ∧
      ((s.graph.node "beta").map fun n => (n.mtu, n.minMtu, n.maxMtu, n.mtuProbes)) =
        some (1400, 1400, 1400, -2) := by
  intro s
  obtain ⟨hsound, hstep⟩ :=
    mtu_sound_of_keeps (MtuDefault.new "alpha" |>.ensureNode "beta") discovery_run
  exact ⟨hsound, hstep, by decide +kernel⟩

/-- A reply may report more than the largest MTU, and after the discovery a packet may turn out to
be too big that is smaller than the MTU. -/
theorem not_mtuSound_of_reports :
    let s : NetworkState := (NetworkState.new "alpha").ensureNode "beta"
    s.MtuDefault ∧ ¬ (s.mtuStep (.probeReply "beta" [2, 255, 255])).MtuSound ∧
      ¬ ((s.mtuStep (.probeReply "beta" [2, 5, 238])).mtuStep (.reduce "beta" 1000)).MtuSound := by
  intro s
  refine ⟨MtuDefault.new "alpha" |>.ensureNode "beta", fun hsound => ?_, fun hsound => ?_⟩
  · exact absurd (hsound "beta" _ rfl).min_le (by decide)
  · exact absurd (hsound "beta" _ rfl).min_le (by decide)

end NetworkState

end RustyTinc

import RustyTinc.Core.Consistency
import RustyTinc.Core.WeightRange
import RustyTinc.Runtime.Legacy.MetaAuth

/-!
The places where weights are added: the weight of a connection, negotiated when the ACK line
arrives, and the weights of routes in the search.

* `negotiatesExactly_iff`: the sum of the two weights of a connection does not overflow exactly if
  that of the peer leaves room for the configured one;
* `weight_sums_exact`: when the sums do not overflow;
* `weight_sums_overflow`: weights that the parser accepts make them overflow.
-/

namespace RustyTinc

/-- The negotiated weight is half the sum of the two weights exactly if the sum does not wrap. -/
lemma negotiatedWeight_eq_iff (localWeight remoteWeight : ℤ) :
    negotiatedWeight localWeight remoteWeight = (localWeight + remoteWeight).tdiv 2 ↔
      I32 (localWeight + remoteWeight) := by
  have haddI32 : negotiatedWeight localWeight remoteWeight =
      (addI32 localWeight remoteWeight).tdiv 2 := rfl
  rw [haddI32]
  refine ⟨fun h => ?_, fun h => by rw [(addI32_eq_iff _ _).mpr h]⟩
  -- a sum that wraps is off by a multiple of the modulus
  have hwrap : addI32 localWeight remoteWeight +
      ((2 ^ 32 : ℕ) : ℤ) * (localWeight + remoteWeight).bdiv (2 ^ 32) =
        localWeight + remoteWeight := Int.bmod_add_bdiv _ _
  have hhalf : ∀ x : ℤ, 2 * x.tdiv 2 - 1 ≤ x ∧ x ≤ 2 * x.tdiv 2 + 1 := by
    intro x
    have hx := Int.mul_tdiv_add_tmod x 2
    have hlow := Int.lt_tmod_of_pos x (by decide : (0 : ℤ) < 2)
    have hhigh := Int.tmod_lt_of_pos x (by decide : (0 : ℤ) < 2)
    omega
  have hwrapped := hhalf (addI32 localWeight remoteWeight)
  have hsum := hhalf (localWeight + remoteWeight)
  rw [h] at hwrapped
  rw [← addI32_eq_iff]
  push_cast at hwrap
  omega

/-- The sum of the two weights of a connection is a number of 32 bits, and the negotiated weight is
half of it. -/
def NegotiatesExactly (localWeight remoteWeight negotiated : ℤ) : Prop :=
  I32 (localWeight + remoteWeight) ∧ negotiated = (localWeight + remoteWeight).tdiv 2

/-- The weight of the peer is at most the largest number of 32 bits less the configured weight, or
if that is negative at least the smallest one less it. -/
def LeavesRoom (localWeight remoteWeight : ℤ) : Prop :=
  if 0 ≤ localWeight then remoteWeight ≤ 2 ^ 31 - 1 - localWeight
  else -2 ^ 31 - localWeight ≤ remoteWeight

instance (localWeight remoteWeight : ℤ) : Decidable (LeavesRoom localWeight remoteWeight) :=
  inferInstanceAs (Decidable (if 0 ≤ localWeight then remoteWeight ≤ 2 ^ 31 - 1 - localWeight
    else -2 ^ 31 - localWeight ≤ remoteWeight))

lemma negotiatesExactly_iff {localWeight remoteWeight : ℤ} (hlocal : I32 localWeight)
    (hremote : I32 remoteWeight) :
    NegotiatesExactly localWeight remoteWeight (negotiatedWeight localWeight remoteWeight) ↔
      LeavesRoom localWeight remoteWeight := by
  rw [NegotiatesExactly, negotiatedWeight_eq_iff, and_self, LeavesRoom]
  obtain ⟨hlow, hhigh⟩ := hlocal
  obtain ⟨hlow', hhigh'⟩ := hremote
  push_cast at hlow hhigh hlow' hhigh'
  rw [I32, Text.InRange]
  push_cast
  split_ifs <;> omega

/-! ### When the sums do not overflow -/

/-- **The sums of weights**: an ACK line that either authentication accepts negotiates exactly half
the sum of the weights if and only if the weight of the peer leaves room for the configured one.
In a search that never replaces an indirect route by a direct one over another number of hops, no
sum overflows if and only if those of the lightest of the shortest chains do not; in any search, no
sum overflows if those of paths do not and no circle of links has a negative weight. -/
theorem weight_sums_exact {g : Graph} (hg : g.WellFormed) :
    (∀ (line : List Char) (port : String) (weight : ℤ) (options : UInt32),
      parseMetaMessage line = .ok (.ack (.connection port weight options)) →
      (∀ (auth auth' : MetaConnectionAuth) (step : MetaAuthStep), I32 auth.localWeight →
        (MetaConnectionAuth.receiveAck (.connection port weight options)).exec auth =
          (.ok step, auth') →
        ∃ peer negotiated negotiatedOptions,
          step = ⟨[], [], [.activated peer port negotiated negotiatedOptions]⟩ ∧
          (NegotiatesExactly auth.localWeight weight negotiated ↔
            LeavesRoom auth.localWeight weight)) ∧
      ∀ (auth auth' : LegacyMetaAuth) (step : LegacyMetaAuthStep), I32 auth.localWeight →
        (LegacyMetaAuth.receiveAck (.connection port weight options)).exec auth =
          (.ok step, auth') →
        ∃ peer negotiated negotiatedOptions,
          step = ⟨[], [.activated peer port negotiated negotiatedOptions]⟩ ∧
          (NegotiatesExactly auth.localWeight weight negotiated ↔
            LeavesRoom auth.localWeight weight)) ∧
    (g.NeverStretches addI32 →
      ((∀ fuel, ∀ r ∈ g.ssspTrace addI32 fuel,
        I32 (r.source.weightedDistance + r.edge.weight)) ↔ g.LightestSumsFit)) ∧
    (g.NoNegativeCircle → g.PathSumsFit → ∀ fuel, ∀ r ∈ g.ssspTrace addI32 fuel,
      I32 (r.source.weightedDistance + r.edge.weight)) := by
  refine ⟨fun line port weight options hparse => ?_, Graph.sums_inRange_iff hg,
    fun hcircle hfit fuel => hfit.sum_inRange hg hcircle⟩
  have hweight : I32 weight := (parseMetaMessage_parsed hparse).2
  refine ⟨fun auth auth' step hlocal hack => ?_, fun auth auth' step hlocal hack => ?_⟩
  · obtain ⟨-, peer, port', weight', options', -, hmessage, hstep, -⟩ :=
      MetaConnectionAuth.receiveAck_eq_ok hack
    obtain ⟨rfl, rfl, rfl⟩ := AckMessage.connection.inj hmessage
    exact ⟨peer, _, _, hstep, negotiatesExactly_iff hlocal hweight⟩
  · obtain ⟨peer, -, hstep⟩ := LegacyMetaAuth.receiveAck_eq_ok hack
    exact ⟨peer, _, _, hstep, negotiatesExactly_iff hlocal hweight⟩

/-- An authentication that waits for the ACK line, with a configured weight of 20. -/
def waitingAuth : MetaConnectionAuth :=
  let key : TincEd25519PublicKey := ⟨Vector.replicate 32 0⟩
  { MetaConnectionAuth.new "alpha" true ⟨Vector.replicate 64 0, key⟩ key "655" 20 0
      (fun _ => .ok (Vector.replicate 32 0, Vector.replicate 32 0)) with
    peer := some "beta"
    state := .expectAck }

/-- A connection that waits for the ACK line. -/
def waitingLegacyAuth : LegacyMetaAuth :=
  { LegacyMetaAuth.new "alpha" true ⟨⟨0, 0⟩, 0⟩ ⟨0, 0⟩ "655" 20 0 (fun _ _ => 0) with
    peer := some "beta"
    state := .expectAck }

/-- An ACK line with a weight of 10, for both authentications, the line of three nodes, and the
square with a diagonal. -/
theorem weight_sums_exact_line :
    (∃ peer options, ((MetaConnectionAuth.receiveAck (.connection "655" 10 0)).exec waitingAuth).1 =
        .ok ⟨[], [], [.activated peer "655" 15 options]⟩ ∧ NegotiatesExactly 20 10 15) ∧
    (∃ peer options,
      ((LegacyMetaAuth.receiveAck (.connection "655" 10 0)).exec waitingLegacyAuth).1 =
        .ok ⟨[], [.activated peer "655" 15 options]⟩ ∧ NegotiatesExactly 20 10 15) ∧
    (∀ fuel, ∀ r ∈ Graph.lineNetwork.ssspTrace addI32 fuel,
      I32 (r.source.weightedDistance + r.edge.weight)) ∧
    ∀ fuel, ∀ r ∈ Graph.loopNetwork.ssspTrace addI32 fuel,
      I32 (r.source.weightedDistance + r.edge.weight) := by
  have hline : Graph.lineNetwork.WellFormed := by decide +kernel
  have hloop : Graph.loopNetwork.WellFormed := by decide +kernel
  have hdirect : Graph.lineNetwork.AllDirect := by decide +kernel
  have hfits : Graph.lineNetwork.LinksFit ∧ Graph.loopNetwork.LinksFit := by decide +kernel
  have hcircle : Graph.loopNetwork.NoNegativeCircle :=
    Graph.noNegativeCircle_of_nonneg (by decide +kernel)
  have hparse : parseMetaMessage "4 655 10 0".toList = .ok (.ack (.connection "655" 10 0)) := by
    decide +kernel
  obtain ⟨hack, hsums, -⟩ := weight_sums_exact hline
  obtain ⟨hmodern, hlegacy⟩ := hack _ _ _ _ hparse
  refine ⟨?_, ?_, (hsums (hdirect.reachedDirect.neverStretches hline)).mpr
    (hfits.1.pathSumsFit hline).lightestSumsFit,
    (weight_sums_exact hloop).2.2 hcircle (hfits.2.pathSumsFit hloop)⟩
  · obtain ⟨peer, negotiated, options, hstep, hiff⟩ :=
      hmodern waitingAuth _ _ (by decide) (MetaConnectionAuth.exec_receiveAck _)
    have hexact := hiff.mpr (by decide)
    obtain rfl : negotiated = 15 := hexact.2
    exact ⟨peer, options, congrArg Except.ok hstep, hexact⟩
  · obtain ⟨peer, negotiated, options, hstep, hiff⟩ := hlegacy waitingLegacyAuth _ _ (by decide) rfl
    have hexact := hiff.mpr (by decide)
    obtain rfl : negotiated = 15 := hexact.2
    exact ⟨peer, options, congrArg Except.ok hstep, hexact⟩

/-! ### Overflows -/

/-- Announcements of three links in a row: the weight of one is the largest number of 32 bits. -/
def heavyLines : List String :=
  ["12 0 m a 192.0.2.1 655 0 0", "12 0 a m 192.0.2.1 655 0 0",
    "12 0 a b 192.0.2.1 655 0 2147483647", "12 0 b a 192.0.2.1 655 0 0",
    "12 0 b c 192.0.2.1 655 0 1", "12 0 c b 192.0.2.1 655 0 0"]

lemma overflow_heavyLines :
    (((NetworkState.callsOfLines heavyLines).foldlM
      (fun s c => (NetworkState.call addI32 10 s c).map Prod.fst) (NetworkState.new "m")).any
        fun s => (s.graph.ssspTrace addI32 10).any fun r =>
          r.source.weightedDistance + r.edge.weight = 2 ^ 31) = true := by
  decide +kernel

/-- **Overflows**: the weights of an ACK line and of announced edges that the parser accepts make
both sums overflow. -/
theorem weight_sums_overflow :
    (¬ ∀ (line : String) (port : String) (weight localWeight : ℤ) (options : UInt32),
      parseMetaMessage line.toList = .ok (.ack (.connection port weight options)) →
      I32 localWeight → I32 (localWeight + weight)) ∧
    ¬ ∀ (myself : String) (lines : List String) (s : NetworkState),
      NetworkState.Run addI32 (NetworkState.new myself)
        (NetworkState.callsOfLines lines) s →
      ∀ fuel, ∀ r ∈ s.graph.ssspTrace addI32 fuel,
        I32 (r.source.weightedDistance + r.edge.weight) := by
  constructor
  · intro hclaim
    have hparse : parseMetaMessage "4 655 2147483647 0".toList =
        .ok (.ack (.connection "655" 2147483647 0)) := by decide +kernel
    have hsum := hclaim _ _ _ 1 _ hparse ⟨by norm_num, by norm_num⟩
    exact absurd hsum.2 (by norm_num)
  · intro hclaim
    obtain ⟨s, hs, htrace⟩ := (Option.any_eq_true _ _).mp overflow_heavyLines
    obtain ⟨r, hr, hsum⟩ := List.any_eq_true.mp htrace
    have hrange := hclaim "m" heavyLines s (.of_foldlM 10 (.nil _) hs) 10 r hr
    rw [decide_eq_true_eq] at hsum
    rw [hsum] at hrange
    exact absurd hrange.2 (by norm_num)

end RustyTinc
